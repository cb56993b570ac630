import Descent.Fault
import Descent.Grammar
import Descent.Text.Blank
import Descent.Text.Utf8

/-!
# Reading listings

A listing is read line by line. Lines are trimmed; those that are then empty or start with `#` are
passed over, but count. A fault is reported at its line, so it depends on no later line.
-/
namespace Descent.Listing

open Text (isBlank)

/-- The part of a reversed line before a comma at its end. -/
def dropComma : List Char → List Char
  | ',' :: rest => rest
  | rest => rest

/-- Whether only blanks and at most one comma at the end follow. -/
def isTail (rest : List Char) : Bool :=
  let rest := Text.trimStart rest
  rest = [] || rest = [',']

/-- The name in front of `= (`; it holds no blanks. -/
def headerName? (line : List Char) : Option (List Char) :=
  match line.reverse with
  | '(' :: rest =>
    match Text.trimStart rest with
    | '=' :: rest =>
      let name := (Text.trimStart rest).reverse
      if name.any isBlank then none else some name
    | _ => none
  | _ => none

/-- What stands between the first brace and the last one; a comma may follow. -/
def setBody? : List Char → Option (List Char)
  | '\x7b' :: rest =>
    match Text.trimStart (dropComma rest.reverse) with
    | '\x7d' :: body => some body.reverse
    | _ => none
  | _ => none

/-- The tokens of a set, cut at commas and blanks. -/
def tokens (body : List Char) : List (List Char) :=
  (Text.cut (fun c => c == ',' || isBlank c) body).filter (!·.isEmpty)

def symbol (token : List Char) : Except LineProblem Symbol :=
  match Symbol.ofToken? token with
  | some s => .ok s
  | none => .error (.badSymbol token)

def set (part : Part) (line : List Char) : Except LineProblem (List Symbol) :=
  match setBody? line with
  | none => .error (.unexpected part)
  | some body => (tokens body).mapM symbol

/-- The token that a line starts with, an escape if there is one, and the rest. -/
def leadingToken? : List Char → Option (List Char × List Char)
  | [] => none
  | c :: rest =>
    match c, rest with
    | '\\', 'x' :: high :: low :: rest' =>
      if (Text.hexByte? high low).isSome then some (['\\', 'x', high, low], rest')
      else some ([c], rest)
    | _, _ => if isBlank c then none else some ([c], rest)

/-- The start symbol; a comma may follow. -/
def start (line : List Char) : Except LineProblem Symbol :=
  match leadingToken? line with
  | some (token, rest) => if isTail rest then symbol token else .error (.unexpected .start)
  | none => .error (.unexpected .start)

/-- The left-hand side of a production and the trimmed text behind its arrow. -/
def production (line : List Char) : Except LineProblem (Symbol × List Char) :=
  match leadingToken? line with
  | some (token, rest) =>
    match Text.trimStart rest with
    | '-' :: '>' :: rhs => (symbol token).map fun s => (s, Text.trim rhs)
    | _ => .error (.unexpected .productions)
  | none => .error (.unexpected .productions)

/-- Takes one trimmed line into the grammar read so far and says what is expected after it. -/
def take (line : List Char) : Part → Grammar → Except LineProblem (Part × Grammar)
  | .header, g =>
    match headerName? line with
    | none => .error (.unexpected .header)
    | some [] => .ok (.nonTerminals, g)
    | some name => .ok (.nonTerminals, g.setName (String.ofList name))
  | .nonTerminals, g => do
    let symbols ← set .nonTerminals line
    .ok (.terminals, symbols.foldl Grammar.declareNonTerminal g)
  | .terminals, g => do
    let symbols ← set .terminals line
    .ok (.start, symbols.foldl Grammar.declareTerminal g)
  | .start, g => do
    let s ← start line
    .ok (.opening, g.setStart s)
  | .opening, g =>
    if line = ['\x7b'] then .ok (.productions, g) else .error (.unexpected .opening)
  | .productions, g =>
    if line = ['\x7d'] then .ok (.close, g)
    else do
      let (s, rhs) ← production line
      .ok (.productions, g.addAlternative s (Text.Utf8.encode rhs))
  | .close, g => if line = [')'] then .ok (.done, g) else .error (.unexpected .close)
  | .done, _ => .error (.unexpected .done)

def isIgnored (line : List Char) : Bool := line.isEmpty || line.head? == some '#'

/-- Reads lines on from a part of the listing. `number` is the number of the first of them; a line
that is no text is given as `none`. -/
def readLines (number : Nat) (part : Part) (g : Grammar) :
    List (Option (List Char)) → Except Fault Grammar
  | [] => if part = .done then .ok g else .error (.endOfListing part)
  | none :: _ => .error (.notUtf8 number)
  | some line :: rest =>
    if isIgnored (Text.trim line) then readLines (number + 1) part g rest
    else match take (Text.trim line) part g with
      | .error problem => .error (.line number problem)
      | .ok (part, g) => readLines (number + 1) part g rest

def readText (text : List Char) : Except Fault Grammar :=
  readLines 1 .header .empty ((Text.cut (· == '\n') text).map some)

/-- The grammar of a byte string; each line has to be UTF-8 when it is reached. -/
def readBytes (bytes : List UInt8) : Except Fault Grammar :=
  readLines 1 .header .empty ((Text.cut (· == 10) bytes).map Text.Utf8.decode?)

end Descent.Listing
