import Descent.Json.Magnitude
import Descent.Json.Skip
import Descent.Settings

/-!
# Reading settings

Settings are read in one pass from left to right, and the first fault met is the answer: a value that
does not fit is reported even if the text behind it is no JSON. Fields come in any order, each at most
once; members of other names are passed over; what is left out keeps its default. A list gives the
fields in their order.
-/
namespace Descent.Settings

open Json

def labelled? {α : Type} (label : α → String) (values : List α) (name : List Char) : Option α :=
  values.find? fun a => label a == String.ofList name

/-- The value that a name in a string stands for, behind its opening quote. -/
def named {α : Type} (label : α → String) (values : List α) (text : List Char) :
    Except SettingsFault (α × List Char) := do
  let (name, rest) ← string text
  match labelled? label values name with
  | some a => .ok (a, rest)
  | none => .error .mismatch

def null (text : List Char) : Except SettingsFault (List Char) :=
  match skipBlanks text with
  | 'n' :: rest => word ['u', 'l', 'l'] rest
  | [] => .error .truncated
  | text => .error (misfit text)

def closeBrace (text : List Char) : Except SettingsFault (List Char) :=
  match skipBlanks text with
  | '\x7d' :: rest => .ok rest
  | [] => .error .truncated
  | _ :: _ => .error .malformed

/-- A name as the only key of an object, with the value null, behind the opening brace. -/
def tagged {α : Type} (label : α → String) (values : List α) (text : List Char) :
    Except SettingsFault (α × List Char) :=
  match skipBlanks text with
  | '"' :: rest => do
    let (a, rest) ← named label values rest
    let rest ← colon rest
    let rest ← null rest
    let rest ← closeBrace rest
    .ok (a, rest)
  | [] => .error .truncated
  | _ :: _ => .error .malformed

/-- One of some labelled values, as a string or as a tag. -/
def choice {α : Type} (label : α → String) (values : List α) (text : List Char) :
    Except SettingsFault (α × List Char) :=
  match skipBlanks text with
  | '"' :: rest => named label values rest
  | '\x7b' :: rest => tagged label values rest
  | [] => .error .truncated
  | _ :: _ => .error .malformed

def optionalWord (text : List Char) : Except SettingsFault (Option UInt64 × List Char) :=
  match skipBlanks text with
  | [] => .error .truncated
  | c :: rest =>
    if c = 'n' then (word ['u', 'l', 'l'] rest).map (none, ·)
    else if startsNumber c then do
      let (n, rest) ← finite (c :: rest)
      match n.word? with
      | some w => .ok (some w, rest)
      | none => .error .mismatch
    else .error (misfit (c :: rest))

def flag (text : List Char) : Except SettingsFault (Bool × List Char) :=
  match skipBlanks text with
  | 't' :: rest => (word ['r', 'u', 'e'] rest).map (true, ·)
  | 'f' :: rest => (word ['a', 'l', 's', 'e'] rest).map (false, ·)
  | [] => .error .truncated
  | text => .error (misfit text)

def readField (c : Settings) (f : Field) (text : List Char) :
    Except SettingsFault (Settings × List Char) :=
  match f with
  | .target => (choice Target.label [.rust, .c] text).map fun (v, r) => ({ c with target := v }, r)
  | .mode =>
    (choice EscapeMode.label [.literal, .skip] text).map fun (v, r) => ({ c with mode := v }, r)
  | .maxDepth => (optionalWord text).map fun (v, r) => ({ c with maxDepth := v }, r)
  | .comments => (flag text).map fun (v, r) => ({ c with comments := v }, r)

/-- Reads a member behind the opening quote of its key; gives the fields seen so far too. -/
def readMember (seen : List Field) (c : Settings) (text : List Char) :
    Except SettingsFault ((List Field × Settings) × List Char) := do
  let (name, rest) ← string text
  match labelled? Field.label Field.all name with
  | none => do
    let rest ← colon rest
    let rest ← skipValue rest
    .ok ((seen, c), rest)
  | some f =>
    if f ∈ seen then .error .mismatch
    else do
      let rest ← colon rest
      let (c, rest) ← readField c f rest
      .ok ((f :: seen, c), rest)

/-- The start of the next key, or of what stands there instead. A comma has to stand in front of all
members but the first. -/
def nextKey (first : Bool) (text : List Char) : Except SettingsFault (List Char) :=
  if first then .ok text
  else
    match text with
    | ',' :: rest => .ok (skipBlanks rest)
    | _ => .error .malformed

/-- The text behind the quote that opens a key. -/
def openKey (text : List Char) : Except SettingsFault (List Char) :=
  match text with
  | [] => .error .truncated
  | '"' :: rest => .ok rest
  | _ :: _ => .error .malformed

/-- Reads members up to the closing brace. `fuel` bounds their number. -/
def readMembers (fuel : Nat) (first : Bool) (seen : List Field) (c : Settings) (text : List Char) :
    Except SettingsFault (Settings × List Char) :=
  match fuel, skipBlanks text with
  | _, [] => .error .truncated
  | _, '\x7d' :: rest => .ok (c, rest)
  | 0, _ :: _ => .error .truncated
  | fuel + 1, text => do
    let key ← nextKey first text
    let rest ← openKey key
    let ((seen, c), rest) ← readMember seen c rest
    readMembers fuel false seen c rest

/-- The start of the next item of a list, or nothing if the list is closed. A comma has to stand in
front of all items but the first. -/
def nextItem (first : Bool) (text : List Char) : Except SettingsFault (Option (List Char)) :=
  match skipBlanks text with
  | [] => .error .truncated
  | ']' :: _ => .ok none
  | c :: rest =>
    if first then .ok (some (c :: rest))
    else if c = ',' then
      match skipBlanks rest with
      | [] => .error .truncated
      | ']' :: _ => .error .malformed
      | item => .ok (some item)
    else .error .malformed

/-- Reads the fields of a list in their order; those that are missing keep their values. -/
def readItems (first : Bool) (c : Settings) (text : List Char) :
    List Field → Except SettingsFault (Settings × List Char)
  | [] => .ok (c, text)
  | f :: fields => do
    match ← nextItem first text with
    | none => .ok (c, text)
    | some item => do
      let (c, rest) ← readField c f item
      readItems false c rest fields

def closeBracket (text : List Char) : Except SettingsFault (List Char) :=
  match skipBlanks text with
  | ']' :: rest => .ok rest
  | [] => .error .truncated
  | _ :: _ => .error .malformed

def read (text : List Char) : Except SettingsFault (Settings × List Char) :=
  match skipBlanks text with
  | [] => .error .truncated
  | '[' :: rest => do
    let (c, rest) ← readItems true {} rest Field.all
    let rest ← closeBracket rest
    .ok (c, rest)
  | '\x7b' :: rest => readMembers rest.length true [] {} rest
  | text => .error (misfit text)

/-- The settings of a text; only blanks may follow them. -/
def ofJson (text : List Char) : Except SettingsFault Settings := do
  let (c, rest) ← read text
  if (skipBlanks rest).isEmpty then .ok c else .error .malformed

end Descent.Settings
