import Descent.Fault
import Descent.Text.Digits
import Descent.Text.Utf8

/-!
# Scanning JSON

Readers of the tokens of JSON. A reader takes a text to a value and the rest of the text, which is
always a suffix of it, or to the first fault from the left.
-/
namespace Descent.Json

/-- What a reader gives: a value and the rest of the text, or a fault. -/
abbrev Scan (α : Type) := Except SettingsFault (α × List Char)

theorem bind_eq_ok {ε α β : Type} {x : Except ε α} {f : α → Except ε β} {b : β} :
    x >>= f = .ok b ↔ ∃ a, x = .ok a ∧ f a = .ok b := by
  cases x <;> simp [bind, Except.bind]

/-- The four characters that may stand between tokens. -/
def isBlank (c : Char) : Bool := c == ' ' || c == '\t' || c == '\n' || c == '\r'

def skipBlanks (text : List Char) : List Char := text.dropWhile isBlank

theorem skipBlanks_suffix (text : List Char) : skipBlanks text <:+ text :=
  List.dropWhile_suffix _

/-- What a text starts with, blanks apart, is inside it. -/
theorem suffix_of_skipBlanks_eq {text rest : List Char} {c : Char}
    (h : skipBlanks text = c :: rest) : rest <:+ text :=
  (List.suffix_cons c rest).trans (h ▸ skipBlanks_suffix text)

def word : List Char → List Char → Except SettingsFault (List Char)
  | [], text => .ok text
  | _ :: _, [] => .error .truncated
  | c :: letters, d :: text => if c = d then word letters text else .error .malformed

theorem word_suffix {letters text rest : List Char} (h : word letters text = .ok rest) :
    rest <:+ text := by
  fun_induction word letters text with
  | case1 text => simp_all
  | case2 => simp at h
  | case3 letters text c ih => exact (ih h).trans (List.suffix_cons _ _)
  | case4 => simp at h

def colon (text : List Char) : Except SettingsFault (List Char) :=
  match skipBlanks text with
  | ':' :: rest => .ok rest
  | [] => .error .truncated
  | _ :: _ => .error .malformed

theorem colon_suffix {text rest : List Char} (h : colon text = .ok rest) : rest <:+ text := by
  unfold colon at h
  split at h
  · rename_i start
    simp only [Except.ok.injEq] at h
    exact h ▸ suffix_of_skipBlanks_eq start
  · simp at h
  · simp at h

/-! ## Strings -/

/-- The value of four hexadecimal digits. Fewer than four bytes mean that the text ends too early. -/
def hexUnit (text : List Char) : Scan Nat :=
  match text with
  | a :: b :: c :: d :: rest =>
    match Text.hexValue? a, Text.hexValue? b, Text.hexValue? c, Text.hexValue? d with
    | some a, some b, some c, some d => .ok (((a * 16 + b) * 16 + c) * 16 + d, rest)
    | _, _, _, _ => .error .malformed
  | short =>
    if (Text.Utf8.encode short).length < 4 then .error .truncated else .error .malformed

theorem hexUnit_suffix {text rest : List Char} {n : Nat} (h : hexUnit text = .ok (n, rest)) :
    rest <:+ text := by
  unfold hexUnit at h
  split at h
  · split at h
    · simp only [Except.ok.injEq, Prod.mk.injEq] at h
      rw [← h.2]
      exact ⟨[_, _, _, _], rfl⟩
    · simp at h
  · split at h <;> simp at h

def isLeading (unit : Nat) : Bool := 0xD800 ≤ unit && unit ≤ 0xDBFF

def isTrailing (unit : Nat) : Bool := 0xDC00 ≤ unit && unit ≤ 0xDFFF

/-- The character that is not in the first plane and has these halves. -/
def paired (leading trailing : Nat) : Char :=
  Char.ofNat (0x10000 + (leading - 0xD800) * 0x400 + (trailing - 0xDC00))

/-- The character of the digits behind `\u`, with those of its second half if it has one. -/
def unicodeEscape (text : List Char) : Except SettingsFault (Char × List Char) := do
  let (unit, rest) ← hexUnit text
  if isTrailing unit then .error .malformed
  else if isLeading unit then
    let rest ← word ['\\', 'u'] rest
    let (second, rest) ← hexUnit rest
    if isTrailing second then .ok (paired unit second, rest) else .error .malformed
  else .ok (Char.ofNat unit, rest)

def letterEscape? : Char → Option Char
  | '"' => some '"'
  | '\\' => some '\\'
  | '/' => some '/'
  | 'b' => some (Char.ofNat 8)
  | 'f' => some (Char.ofNat 12)
  | 'n' => some '\n'
  | 'r' => some '\r'
  | 't' => some '\t'
  | _ => none

/-- The character of an escape, behind its backslash. -/
def escape (text : List Char) : Scan Char :=
  match text with
  | [] => .error .truncated
  | 'u' :: rest => unicodeEscape rest
  | c :: rest =>
    match letterEscape? c with
    | some d => .ok (d, rest)
    | none => .error .malformed

theorem unicodeEscape_suffix {text rest : List Char} {c : Char}
    (h : unicodeEscape text = .ok (c, rest)) : rest <:+ text := by
  unfold unicodeEscape at h
  obtain ⟨⟨unit, rest₁⟩, first, h⟩ := bind_eq_ok.1 h
  have le₁ := hexUnit_suffix first
  simp only at h
  split at h
  · simp at h
  split at h
  · obtain ⟨rest₂, marker, h⟩ := bind_eq_ok.1 h
    obtain ⟨⟨second, rest₃⟩, digits, h⟩ := bind_eq_ok.1 h
    have le₂ := word_suffix marker
    have le₃ := hexUnit_suffix digits
    simp only at h
    split at h
    · simp only [Except.ok.injEq, Prod.mk.injEq] at h
      exact h.2 ▸ (le₃.trans le₂).trans le₁
    · simp at h
  · simp only [Except.ok.injEq, Prod.mk.injEq] at h
    exact h.2 ▸ le₁

theorem escape_suffix {text rest : List Char} {c : Char} (h : escape text = .ok (c, rest)) :
    rest <:+ text := by
  unfold escape at h
  split at h
  · simp at h
  · exact (unicodeEscape_suffix h).trans (List.suffix_cons _ _)
  · split at h
    · simp only [Except.ok.injEq, Prod.mk.injEq] at h
      exact h.2 ▸ List.suffix_cons _ _
    · simp at h

/-- The characters of a string, behind its opening quote. -/
def string (text : List Char) : Scan (List Char) :=
  match text with
  | [] => .error .truncated
  | c :: rest =>
    if c = '"' then .ok ([], rest)
    else if c = '\\' then
      match _h : escape rest with
      | .error fault => .error fault
      | .ok (d, behind) => (string behind).map fun (cs, rest) => (d :: cs, rest)
    else if c.toNat < 0x20 then .error .malformed
    else (string rest).map fun (cs, rest) => (c :: cs, rest)
termination_by text.length
decreasing_by
  · have := (escape_suffix _h).length_le
    simp only [List.length_cons]
    omega
  · simp

/-! ## Numbers -/

structure Number where
  negative : Bool
  whole : List Char
  fraction : List Char
  /-- Whether the exponent is negative, and its digits. -/
  exponent : Option (Bool × List Char)
  deriving DecidableEq, Repr

/-- The digits that a text starts with, at least one. `atEnd` is the fault of a text that ends
instead. -/
def someDigits (atEnd : SettingsFault) (text : List Char) : Scan (List Char) :=
  match text with
  | [] => .error atEnd
  | c :: _ =>
    if c.isDigit then .ok (text.takeWhile Char.isDigit, text.dropWhile Char.isDigit)
    else .error .malformed

theorem someDigits_suffix {atEnd : SettingsFault} {text rest ds : List Char}
    (h : someDigits atEnd text = .ok (ds, rest)) : rest <:+ text := by
  unfold someDigits at h
  split at h
  · simp at h
  · split at h
    · simp only [Except.ok.injEq, Prod.mk.injEq] at h
      exact h.2 ▸ List.dropWhile_suffix _
    · simp at h

/-- The digits before the point; a zero stands alone. -/
def wholePart (atEnd : SettingsFault) (text : List Char) :
    Except SettingsFault (List Char × List Char) := do
  let (ds, rest) ← someDigits atEnd text
  if ds.head? = some '0' ∧ ds.length ≠ 1 then .error .malformed else .ok (ds, rest)

/-- The digits behind the point, none if there is no point. -/
def fractionPart (atEnd : SettingsFault) (text : List Char) : Scan (List Char) :=
  match text with
  | '.' :: rest => someDigits atEnd rest
  | _ => .ok ([], text)

/-- Whether a minus sign stands in front, and what follows the sign. -/
def sign : List Char → Bool × List Char
  | '-' :: rest => (true, rest)
  | '+' :: rest => (false, rest)
  | text => (false, text)

def exponentPart (atEnd : SettingsFault) (text : List Char) : Scan (Option (Bool × List Char)) :=
  match text with
  | c :: rest =>
    if c = 'e' ∨ c = 'E' then
      (someDigits atEnd (sign rest).2).map fun (ds, behind) => (some ((sign rest).1, ds), behind)
    else .ok (none, text)
  | [] => .ok (none, [])

/-- A number literal behind its minus sign. -/
def magnitude (atEnd : SettingsFault) (negative : Bool) (text : List Char) :
    Except SettingsFault (Number × List Char) := do
  let (whole, text) ← wholePart atEnd text
  let (fraction, text) ← fractionPart atEnd text
  let (exponent, text) ← exponentPart atEnd text
  .ok (⟨negative, whole, fraction, exponent⟩, text)

def number (atEnd : SettingsFault) (text : List Char) : Scan Number :=
  match text with
  | '-' :: rest => magnitude atEnd true rest
  | _ => magnitude atEnd false text

theorem fractionPart_suffix {atEnd : SettingsFault} {text rest ds : List Char}
    (h : fractionPart atEnd text = .ok (ds, rest)) : rest <:+ text := by
  unfold fractionPart at h
  split at h
  · exact (someDigits_suffix h).trans (List.suffix_cons _ _)
  · simp only [Except.ok.injEq, Prod.mk.injEq] at h
    exact h.2 ▸ List.suffix_refl _

theorem sign_suffix (text : List Char) : (sign text).2 <:+ text := by
  unfold sign
  split
  · exact List.suffix_cons _ _
  · exact List.suffix_cons _ _
  · exact List.suffix_refl _

theorem exponentPart_suffix {atEnd : SettingsFault} {text rest : List Char}
    {e : Option (Bool × List Char)} (h : exponentPart atEnd text = .ok (e, rest)) :
    rest <:+ text := by
  unfold exponentPart at h
  split at h
  · rename_i c tail
    split at h
    · cases hd : someDigits atEnd (sign tail).2 with
      | error fault => simp [hd, Except.map] at h
      | ok pair =>
        obtain ⟨ds, behind⟩ := pair
        simp only [hd, Except.map, Except.ok.injEq, Prod.mk.injEq] at h
        exact h.2 ▸ ((someDigits_suffix hd).trans (sign_suffix tail)).trans (List.suffix_cons _ _)
    · simp only [Except.ok.injEq, Prod.mk.injEq] at h
      exact h.2 ▸ List.suffix_refl _
  · simp only [Except.ok.injEq, Prod.mk.injEq] at h
    exact h.2 ▸ List.suffix_refl _

theorem someDigits_length_lt {atEnd : SettingsFault} {text rest ds : List Char}
    (h : someDigits atEnd text = .ok (ds, rest)) : rest.length < text.length := by
  unfold someDigits at h
  split at h
  · simp at h
  · rename_i c tail
    split at h
    · rename_i isDigit
      simp only [Except.ok.injEq, Prod.mk.injEq, List.dropWhile_cons, isDigit, if_true] at h
      have := (List.dropWhile_suffix Char.isDigit (l := tail)).length_le
      simp only [← h.2, List.length_cons]
      omega
    · simp at h

theorem magnitude_length_lt {atEnd : SettingsFault} {negative : Bool} {text rest : List Char}
    {n : Number} (h : magnitude atEnd negative text = .ok (n, rest)) : rest.length < text.length := by
  unfold magnitude at h
  obtain ⟨⟨whole, text₁⟩, h₁, h⟩ := bind_eq_ok.1 h
  obtain ⟨⟨fraction, text₂⟩, h₂, h⟩ := bind_eq_ok.1 h
  obtain ⟨⟨exponent, text₃⟩, h₃, h⟩ := bind_eq_ok.1 h
  simp only [Except.ok.injEq, Prod.mk.injEq] at h
  have le₃ := (exponentPart_suffix h₃).length_le
  have le₂ := (fractionPart_suffix h₂).length_le
  have lt₁ : text₁.length < text.length := by
    unfold wholePart at h₁
    obtain ⟨⟨ds, behind⟩, digits, h₁⟩ := bind_eq_ok.1 h₁
    simp only at h₁
    split at h₁
    · simp at h₁
    · simp only [Except.ok.injEq, Prod.mk.injEq] at h₁
      exact h₁.2 ▸ someDigits_length_lt digits
  rw [← h.2]
  omega

theorem number_length_lt {atEnd : SettingsFault} {text rest : List Char} {n : Number}
    (h : number atEnd text = .ok (n, rest)) : rest.length < text.length := by
  unfold number at h
  split at h
  · have := magnitude_length_lt h
    simp only [List.length_cons]
    omega
  · exact magnitude_length_lt h

def startsNumber (c : Char) : Bool := c == '-' || c.isDigit

end Descent.Json
