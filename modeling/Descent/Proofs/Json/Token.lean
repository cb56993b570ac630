import Descent.Json.Magnitude
import Descent.Json.Skip

/-!
# Tokens of JSON

The grammar of white space, strings and numbers, and what the readers make of a token with more text behind it. A string
spells a text character by character, each in one of several ways; the grammar of strings alone lets halves of surrogate
pairs stand by themselves, which spell nothing.
-/
namespace Descent.Json

variable {c : Char} {n : Nat} {digits gap rest text cs : List Char} {atEnd : SettingsFault}

section Blanks

/-- White space between tokens. -/
def Gap (gap : List Char) : Prop := ∀ c ∈ gap, isBlank c = true

theorem gap_nil : Gap [] := List.forall_mem_nil _

theorem skipBlanks_gap_append (blank : Gap gap) (rest : List Char) : skipBlanks (gap ++ rest) = skipBlanks rest :=
  List.dropWhile_append_of_pos blank

theorem skipBlanks_gap (blank : Gap gap) : skipBlanks gap = [] := by
  rw [← List.append_nil gap, skipBlanks_gap_append blank]
  rfl

theorem skipBlanks_cons (visible : isBlank c = false) (rest : List Char) : skipBlanks (c :: rest) = c :: rest := by
  rw [skipBlanks, List.dropWhile_cons_of_neg (Bool.eq_false_iff.1 visible)]

/-- White space is passed up to the token behind it. -/
theorem skipBlanks_gap_cons (blank : Gap gap) (visible : isBlank c = false) (rest : List Char) :
    skipBlanks (gap ++ c :: rest) = c :: rest := by
  rw [skipBlanks_gap_append blank, skipBlanks_cons visible]

theorem colon_gap_append (blank : Gap gap) (rest : List Char) : colon (gap ++ ':' :: rest) = .ok rest := by
  rw [colon, skipBlanks_gap_cons blank (by decide)]
  rfl

theorem word_append (letters rest : List Char) : word letters (letters ++ rest) = .ok rest := by
  induction letters with
  | nil => rfl
  | cons c letters ih => rw [List.cons_append, word, if_pos rfl, ih]

end Blanks

section Strings

/-- Four hexadecimal digits, in either case, and the number that they write. -/
inductive Hex : List Char → Nat → Prop
  | mk {a b c d : Char} {w x y z : Nat} :
    Text.hexValue? a = some w → Text.hexValue? b = some x → Text.hexValue? c = some y → Text.hexValue? d = some z →
    Hex [a, b, c, d] (((w * 16 + x) * 16 + y) * 16 + z)

/-- The letters that stand for a character behind a backslash. -/
def letterEscapes : List (Char × Char) :=
  [('"', '"'), ('\\', '\\'), ('/', '/'), ('b', Char.ofNat 8), ('f', Char.ofNat 12), ('n', '\n'), ('r', '\r'),
    ('t', '\t')]

/-- A character that stands in a string for itself. -/
structure Plain (c : Char) : Prop where
  noQuote : c ≠ '"'
  noBackslash : c ≠ '\\'
  noControl : 0x20 ≤ c.toNat

instance : DecidablePred Plain := fun c =>
  decidable_of_iff (c ≠ '"' ∧ c ≠ '\\' ∧ 0x20 ≤ c.toNat)
    ⟨fun ⟨quote, backslash, control⟩ => ⟨quote, backslash, control⟩,
      fun plain => ⟨plain.noQuote, plain.noBackslash, plain.noControl⟩⟩

/-- What the grammar lets stand between quotes. -/
inductive Content : List Char → Prop
  | nil : Content []
  | plain {c : Char} {rest : List Char} : Plain c → Content rest → Content (c :: rest)
  | letter {e c : Char} {rest : List Char} : (e, c) ∈ letterEscapes → Content rest → Content ('\\' :: e :: rest)
  | code {digits rest : List Char} {n : Nat} : Hex digits n → Content rest → Content ('\\' :: 'u' :: (digits ++ rest))

/-- The first text is spelled by the second one between quotes. -/
inductive Spells : List Char → List Char → Prop
  | nil : Spells [] []
  | plain {c : Char} {cs rest : List Char} : Plain c → Spells cs rest → Spells (c :: cs) (c :: rest)
  | letter {e c : Char} {cs rest : List Char} :
    (e, c) ∈ letterEscapes → Spells cs rest → Spells (c :: cs) ('\\' :: e :: rest)
  | code {c : Char} {digits cs rest : List Char} :
    Hex digits c.toNat → Spells cs rest → Spells (c :: cs) ('\\' :: 'u' :: (digits ++ rest))
  | pair {c : Char} {leading trailing cs rest : List Char} :
    0x10000 ≤ c.toNat → Hex leading (0xD800 + (c.toNat - 0x10000) / 0x400) →
    Hex trailing (0xDC00 + (c.toNat - 0x10000) % 0x400) → Spells cs rest →
    Spells (c :: cs) ('\\' :: 'u' :: (leading ++ '\\' :: 'u' :: (trailing ++ rest)))

/-- The string with this content, in quotes. -/
def quoted (content : List Char) : List Char := '"' :: (content ++ ['"'])

theorem hexUnit_append (hex : Hex digits n) (rest : List Char) : hexUnit (digits ++ rest) = .ok (n, rest) := by
  cases hex with
  | mk ha hb hc hd => simp only [List.cons_append, List.nil_append, hexUnit, ha, hb, hc, hd]

theorem letterEscape?_of_mem {e : Char} (listed : (e, c) ∈ letterEscapes) : e ≠ 'u' ∧ letterEscape? e = some c := by
  simp only [letterEscapes, List.mem_cons, Prod.mk.injEq, List.not_mem_nil, or_false] at listed
  rcases listed with ⟨rfl, rfl⟩ | ⟨rfl, rfl⟩ | ⟨rfl, rfl⟩ | ⟨rfl, rfl⟩ | ⟨rfl, rfl⟩ | ⟨rfl, rfl⟩ | ⟨rfl, rfl⟩ |
    ⟨rfl, rfl⟩ <;> exact ⟨by decide, rfl⟩

theorem escape_letter {e : Char} (listed : (e, c) ∈ letterEscapes) (rest : List Char) :
    escape (e :: rest) = .ok (c, rest) := by
  obtain ⟨noCode, found⟩ := letterEscape?_of_mem listed
  unfold escape
  split
  · rename_i empty
    cases empty
  · rename_i same
    cases same
    exact absurd rfl noCode
  · rename_i same
    cases same
    rw [found]

theorem isLeading_iff : isLeading n = true ↔ 0xD800 ≤ n ∧ n ≤ 0xDBFF := by
  rw [isLeading, Bool.and_eq_true, decide_eq_true_eq, decide_eq_true_eq]

theorem isTrailing_iff : isTrailing n = true ↔ 0xDC00 ≤ n ∧ n ≤ 0xDFFF := by
  rw [isTrailing, Bool.and_eq_true, decide_eq_true_eq, decide_eq_true_eq]

theorem toNat_valid (c : Char) : c.toNat < 0xD800 ∨ 0xDFFF < c.toNat ∧ c.toNat < 0x110000 := c.valid

/-- No character has the code of half a surrogate pair, so the digits of its code are taken for it. -/
theorem escape_code (hex : Hex digits c.toNat) (rest : List Char) :
    escape ('u' :: (digits ++ rest)) = .ok (c, rest) := by
  have valid := toNat_valid c
  have noTrailing : ¬isTrailing c.toNat = true := by
    rw [isTrailing_iff]
    omega
  have noLeading : ¬isLeading c.toNat = true := by
    rw [isLeading_iff]
    omega
  rw [escape, unicodeEscape, hexUnit_append hex]
  show (if isTrailing c.toNat then _ else if isLeading c.toNat then _ else _) = _
  rw [if_neg noTrailing, if_neg noLeading, Char.ofNat_toNat]

theorem escape_pair {leading trailing : List Char} (large : 0x10000 ≤ c.toNat)
    (first : Hex leading (0xD800 + (c.toNat - 0x10000) / 0x400))
    (second : Hex trailing (0xDC00 + (c.toNat - 0x10000) % 0x400)) (rest : List Char) :
    escape ('u' :: (leading ++ '\\' :: 'u' :: (trailing ++ rest))) = .ok (c, rest) := by
  have valid := toNat_valid c
  have whole : paired (0xD800 + (c.toNat - 0x10000) / 0x400) (0xDC00 + (c.toNat - 0x10000) % 0x400) = c := by
    have value : 0x10000 + (0xD800 + (c.toNat - 0x10000) / 0x400 - 0xD800) * 0x400 +
        (0xDC00 + (c.toNat - 0x10000) % 0x400 - 0xDC00) = c.toNat := by omega
    rw [paired, value, Char.ofNat_toNat]
  have noTrailing : ¬isTrailing (0xD800 + (c.toNat - 0x10000) / 0x400) = true := by
    rw [isTrailing_iff]
    omega
  have isLead : isLeading (0xD800 + (c.toNat - 0x10000) / 0x400) = true := by
    rw [isLeading_iff]
    omega
  have isTrail : isTrailing (0xDC00 + (c.toNat - 0x10000) % 0x400) = true := by
    rw [isTrailing_iff]
    omega
  have marker : word ['\\', 'u'] ('\\' :: 'u' :: (trailing ++ rest)) = .ok (trailing ++ rest) := word_append _ _
  simp only [escape, unicodeEscape, bind, Except.bind, hexUnit_append first, if_neg noTrailing, if_pos isLead, marker,
    hexUnit_append second, if_pos isTrail, whole]

theorem string_plain (plain : Plain c) (rest : List Char) :
    string (c :: rest) = (string rest).map fun (cs, rest) => (c :: cs, rest) := by
  have control : ¬c.toNat < 0x20 := Nat.not_lt.2 plain.noControl
  rw [string, if_neg plain.noQuote, if_neg plain.noBackslash, if_neg control]

theorem string_escape {behind : List Char} (read : escape rest = .ok (c, behind)) :
    string ('\\' :: rest) = (string behind).map fun (cs, rest) => (c :: cs, rest) := by
  rw [string, if_neg (by decide), if_pos rfl]
  split
  · rename_i failed
    rw [read] at failed
    cases failed
  · rename_i same
    rw [read] at same
    cases same
    rfl

/-- A string is read as the text that it spells. -/
theorem string_append (spells : Spells cs text) (rest : List Char) :
    string (text ++ '"' :: rest) = .ok (cs, rest) := by
  induction spells with
  | nil => rw [List.nil_append, string, if_pos rfl]
  | plain plain _ ih =>
    rw [List.cons_append, string_plain plain, ih]
    rfl
  | letter listed _ ih =>
    rw [List.cons_append, List.cons_append, string_escape (escape_letter listed _), ih]
    rfl
  | code hex _ ih =>
    rw [List.cons_append, List.cons_append, List.append_assoc, string_escape (escape_code hex _), ih]
    rfl
  | pair large first second _ ih =>
    rw [List.cons_append, List.cons_append, List.append_assoc, List.cons_append, List.cons_append, List.append_assoc,
      string_escape (escape_pair large first second _), ih]
    rfl

theorem skipEscape_letter {e : Char} (listed : (e, c) ∈ letterEscapes) (rest : List Char) :
    skipEscape (e :: rest) = .ok rest := by
  obtain ⟨noCode, found⟩ := letterEscape?_of_mem listed
  unfold skipEscape
  split
  · rename_i empty
    cases empty
  · rename_i same
    cases same
    exact absurd rfl noCode
  · rename_i same
    cases same
    rw [found]
    rfl

theorem skipEscape_code (hex : Hex digits n) (rest : List Char) :
    skipEscape ('u' :: (digits ++ rest)) = .ok rest := by
  rw [skipEscape, hexUnit_append hex]
  rfl

theorem skipString_escape {behind : List Char} (skipped : skipEscape rest = .ok behind) :
    skipString ('\\' :: rest) = skipString behind := by
  rw [skipString, if_neg (by decide), if_pos rfl]
  split
  · rename_i failed
    rw [skipped] at failed
    cases failed
  · rename_i same
    rw [skipped] at same
    cases same
    rfl

/-- Whatever the grammar takes for a string is passed. -/
theorem skipString_append (content : Content text) (rest : List Char) :
    skipString (text ++ '"' :: rest) = .ok rest := by
  induction content with
  | nil => rw [List.nil_append, skipString, if_pos rfl]
  | @plain c _ plain _ ih =>
    have control : ¬c.toNat < 0x20 := Nat.not_lt.2 plain.noControl
    rw [List.cons_append, skipString, if_neg plain.noQuote, if_neg plain.noBackslash, if_neg control, ih]
  | letter listed _ ih => rw [List.cons_append, List.cons_append, skipString_escape (skipEscape_letter listed _), ih]
  | code hex _ ih =>
    rw [List.cons_append, List.cons_append, List.append_assoc, skipString_escape (skipEscape_code hex _), ih]

end Strings

section Numbers

/-- At least one digit. -/
structure Digits (ds : List Char) : Prop where
  nonempty : ds ≠ []
  digits : ∀ d ∈ ds, d.isDigit = true

/-- What may stand behind a number, so that it does not go on. -/
def Ends (rest : List Char) : Prop :=
  ∀ c, rest.head? = some c → c.isDigit = false ∧ c ≠ '.' ∧ c ≠ 'e' ∧ c ≠ 'E'

/-- The digits behind the point as they are written, with the point. -/
inductive FractionText : List Char → List Char → Prop
  | none : FractionText [] []
  | some {ds : List Char} : Digits ds → FractionText ds ('.' :: ds)

/-- An exponent as it is written. -/
inductive ExponentText : Option (Bool × List Char) → List Char → Prop
  | none : ExponentText none []
  | unsigned {e : Char} {ds : List Char} : e = 'e' ∨ e = 'E' → Digits ds → ExponentText (some (false, ds)) (e :: ds)
  | plus {e : Char} {ds : List Char} : e = 'e' ∨ e = 'E' → Digits ds → ExponentText (some (false, ds)) (e :: '+' :: ds)
  | minus {e : Char} {ds : List Char} : e = 'e' ∨ e = 'E' → Digits ds → ExponentText (some (true, ds)) (e :: '-' :: ds)

/-- A number as it is written. -/
structure Number.Writes (n : Number) (text : List Char) : Prop where
  whole : Digits n.whole
  noZero : n.whole.head? = some '0' → n.whole.length = 1
  parts : ∃ fraction exponent, FractionText n.fraction fraction ∧ ExponentText n.exponent exponent ∧
    text = (if n.negative then ['-'] else []) ++ (n.whole ++ (fraction ++ exponent))

theorem someDigits_append {ds : List Char} (digits : Digits ds) (ends : ∀ c, rest.head? = some c → c.isDigit = false) :
    someDigits atEnd (ds ++ rest) = .ok (ds, rest) := by
  have stopped : rest.takeWhile Char.isDigit = [] ∧ rest.dropWhile Char.isDigit = rest := by
    cases rest with
    | nil => exact ⟨rfl, rfl⟩
    | cons c rest =>
      have noDigit := Bool.eq_false_iff.1 (ends c rfl)
      exact ⟨List.takeWhile_cons_of_neg noDigit, List.dropWhile_cons_of_neg noDigit⟩
  have taken : (ds ++ rest).takeWhile Char.isDigit = ds := by
    rw [List.takeWhile_append_of_pos digits.digits, stopped.1, List.append_nil]
  have dropped : (ds ++ rest).dropWhile Char.isDigit = rest := by
    rw [List.dropWhile_append_of_pos digits.digits, stopped.2]
  obtain ⟨d, others, rfl⟩ := List.exists_cons_of_ne_nil digits.nonempty
  have first : d.isDigit = true := digits.digits d List.mem_cons_self
  rw [List.cons_append] at taken dropped ⊢
  rw [someDigits, if_pos first, taken, dropped]

theorem wholePart_append {ds : List Char} (digits : Digits ds) (noZero : ds.head? = some '0' → ds.length = 1)
    (ends : ∀ c, rest.head? = some c → c.isDigit = false) : wholePart atEnd (ds ++ rest) = .ok (ds, rest) := by
  have alone : ¬(ds.head? = some '0' ∧ ds.length ≠ 1) := fun ⟨zero, long⟩ => long (noZero zero)
  simp only [wholePart, bind, Except.bind, someDigits_append digits ends, if_neg alone]

theorem fractionPart_append {ds : List Char} (fraction : FractionText ds text)
    (ends : ∀ c, rest.head? = some c → c.isDigit = false ∧ c ≠ '.') :
    fractionPart atEnd (text ++ rest) = .ok (ds, rest) := by
  cases fraction with
  | none =>
    rw [List.nil_append, fractionPart]
    rintro tail rfl
    exact (ends '.' rfl).2 rfl
  | some digits => exact someDigits_append digits fun c first => (ends c first).1

theorem sign_digits {ds : List Char} (digits : Digits ds) (rest : List Char) :
    sign (ds ++ rest) = (false, ds ++ rest) := by
  obtain ⟨d, others, rfl⟩ := List.exists_cons_of_ne_nil digits.nonempty
  have first : d.isDigit = true := digits.digits d List.mem_cons_self
  rw [List.cons_append, sign]
  · rintro _ ⟨⟩
    cases first
  · rintro _ ⟨⟩
    cases first

theorem exponentPart_append {e : Option (Bool × List Char)} (exponent : ExponentText e text) (ends : Ends rest) :
    exponentPart atEnd (text ++ rest) = .ok (e, rest) := by
  have noDigit : ∀ c, rest.head? = some c → c.isDigit = false := fun c first => (ends c first).1
  cases exponent with
  | none =>
    cases rest with
    | nil => rfl
    | cons c rest =>
      obtain ⟨-, -, lower, upper⟩ := ends c rfl
      rw [List.nil_append, exponentPart, if_neg (not_or.2 ⟨lower, upper⟩)]
  | unsigned letter digits =>
    rw [List.cons_append, exponentPart, if_pos letter, sign_digits digits, someDigits_append digits noDigit]
    rfl
  | plus letter digits =>
    rw [List.cons_append, List.cons_append, exponentPart, if_pos letter, sign, someDigits_append digits noDigit]
    rfl
  | minus letter digits =>
    rw [List.cons_append, List.cons_append, exponentPart, if_pos letter, sign, someDigits_append digits noDigit]
    rfl

/-- What stands behind the whole part of a number is no digit of it. -/
theorem noDigit_of_fraction {ds fraction exponent : List Char} {e : Option (Bool × List Char)}
    (hfraction : FractionText ds fraction) (hexponent : ExponentText e exponent) (ends : Ends rest) :
    (∀ c, (exponent ++ rest).head? = some c → c.isDigit = false ∧ c ≠ '.') ∧
      ∀ c, (fraction ++ (exponent ++ rest)).head? = some c → c.isDigit = false := by
  have behind : ∀ c, (exponent ++ rest).head? = some c → c.isDigit = false ∧ c ≠ '.' := by
    intro c first
    cases hexponent with
    | none => exact ⟨(ends c first).1, (ends c first).2.1⟩
    | unsigned letter _ | plus letter _ | minus letter _ =>
      cases first
      rcases letter with rfl | rfl <;> decide
  refine ⟨behind, fun c first => ?_⟩
  cases hfraction with
  | none => exact (behind c first).1
  | some _ =>
    cases first
    rfl

/-- A number is read as it is written. -/
theorem number_append {n : Number} (writes : n.Writes text) (ends : Ends rest) :
    number atEnd (text ++ rest) = .ok (n, rest) := by
  obtain ⟨negative, whole, fraction, exponent⟩ := n
  obtain ⟨digits, noZero, fractionText, exponentText, hfraction, hexponent, rfl⟩ := writes
  simp only at digits noZero hfraction hexponent
  obtain ⟨beforeExponent, beforeFraction⟩ := noDigit_of_fraction hfraction hexponent ends
  have unsigned : magnitude atEnd negative (whole ++ (fractionText ++ (exponentText ++ rest))) =
      .ok (⟨negative, whole, fraction, exponent⟩, rest) := by
    simp only [magnitude, bind, Except.bind, wholePart_append digits noZero beforeFraction,
      fractionPart_append hfraction beforeExponent, exponentPart_append hexponent ends]
  simp only [List.append_assoc]
  cases negative with
  | true => exact unsigned
  | false =>
    obtain ⟨d, others, rfl⟩ := List.exists_cons_of_ne_nil digits.nonempty
    have first : d.isDigit = true := digits.digits d List.mem_cons_self
    rw [← unsigned]
    simp only [Bool.false_eq_true, if_false, List.nil_append, List.cons_append]
    rw [number]
    rintro _ ⟨⟩
    cases first

end Numbers

end Descent.Json
