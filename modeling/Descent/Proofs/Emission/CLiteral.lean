import Descent.Proofs.Emission.Scanner
import Descent.Proofs.Emission.Translation

/-!
# Literals of C

The lexical rules of string literals, of character constants and of the array in which the emitter
writes the alternatives of a rule, and what they make of the emitter's spellings. Octal escapes take as many
digits as they can, up to three; the emitter always writes three.
-/
namespace Descent.Emission.C

def octalValue? (c : Char) : Option Nat := if '0' ≤ c ∧ c ≤ '7' then some (c.toNat - 48) else none

/-- The value with at most `n` more octal digits, as many as there are. -/
def octalDigits : Nat → Nat → List Char → Nat × List Char
  | n + 1, value, c :: rest =>
    match octalValue? c with
    | some d => octalDigits n (8 * value + d) rest
    | none => (value, c :: rest)
  | _, value, text => (value, text)

theorem length_octalDigits_le (n value : Nat) (text : List Char) :
    (octalDigits n value text).2.length ≤ text.length := by
  fun_induction octalDigits n value text with
  | case1 n value c rest d digit ih => exact Nat.le_succ_of_le ih
  | case2 => exact Nat.le_refl _
  | case3 => exact Nat.le_refl _

/-- One to three octal digits whose value is a byte. -/
def octal : Scanner UInt8 where
  scan
    | [] => none
    | c :: rest =>
      (octalValue? c).bind fun d =>
        let (value, rest) := octalDigits 2 d rest
        if value < 256 then some (UInt8.ofNat value, rest) else none
  shortens := by
    intro text rest b h
    cases text with
    | nil => cases h
    | cons c cs =>
      obtain ⟨d, -, h⟩ := Option.bind_eq_some_iff.1 h
      have shorter := length_octalDigits_le 2 d cs
      by_cases fits : (octalDigits 2 d cs).1 < 256
      · simp only [if_pos fits, Option.some.injEq, Prod.mk.injEq] at h
        rw [← h.2]
        exact Nat.lt_succ_of_le shorter
      · simp only [if_neg fits] at h
        cases h

/-- The byte of an escape that is one character long. -/
def shortByte? (c : Char) : Option UInt8 :=
  if c ∈ ['\\', '"', '\'', '?'] then ofAscii? c else none

/-- The byte of a character that stands for itself; a newline cannot. -/
def bareByte? (c : Char) : Option UInt8 := if c = '\n' then none else ofAscii? c

/-- One byte of a literal. -/
def byte : Scanner UInt8 := .marked '\\' (.charOr shortByte? octal) (.char bareByte?)

def string : Scanner (List UInt8) := (byte.upTo '"').behind ['"']

def character : Scanner UInt8 := ((byte.upTo '\'').filterMap single?).behind ['\'']

theorem octalValue?_hexDigit : ∀ n, n < 8 → octalValue? (Text.hexDigit n) = some n := by decide

theorem reads_octalTriple (b : UInt8) : octal.Reads (Text.octalTriple b) b := by
  intro rest
  have bound : b.toNat < 256 := b.toNat_lt
  have high := octalValue?_hexDigit (b.toNat / 64) (by omega)
  have middle := octalValue?_hexDigit (b.toNat / 8 % 8) (by omega)
  have low := octalValue?_hexDigit (b.toNat % 8) (by omega)
  have value : 8 * (8 * (b.toNat / 64) + b.toNat / 8 % 8) + b.toNat % 8 = b.toNat := by omega
  have digits : octalDigits 2 (b.toNat / 64)
      (Text.hexDigit (b.toNat / 8 % 8) :: Text.hexDigit (b.toNat % 8) :: rest) = (b.toNat, rest) := by
    rw [octalDigits, middle]
    simp only [octalDigits, low, value]
  simp only [octal, Text.octalTriple, List.cons_append, List.nil_append, high, Option.bind_some, digits,
    if_pos bound, UInt8.ofNat_toNat]

/-- A fourth digit is not taken. -/
example : octal.scan ['1', '2', '3', '4'] = some (83, ['4']) := by decide

/-- The quotes of the two kinds of literals. -/
def IsQuote (quote : Char) : Prop := quote = '"' ∨ quote = '\''

theorem IsQuote.mem {quote c : Char} (hq : IsQuote quote) (h : c = '\\' ∨ c = '?' ∨ c = quote) :
    c ∈ ['\\', '"', '\'', '?'] := by
  rcases hq with rfl | rfl
  · rcases h with rfl | rfl | rfl <;> decide
  · rcases h with rfl | rfl | rfl <;> decide

theorem shortByte?_char {b : Symbol} (h : b.char ∈ ['\\', '"', '\'', '?']) :
    shortByte? b.char = some b := by
  have plain : ∀ c ∈ ['\\', '"', '\'', '?'], isPlain c = true := List.all_eq_true.1 (by decide)
  rw [shortByte?, if_pos h, ofAscii?_char (plain _ h)]

theorem bareByte?_char {b : Symbol} (plain : isPlain b.char = true) : bareByte? b.char = some b := by
  have notNewline : b.char ≠ '\n' := by
    intro newline
    rw [newline] at plain
    exact absurd plain (by decide)
  rw [bareByte?, if_neg notNewline, ofAscii?_char plain]

theorem octalTriple_not_short (b : UInt8) : shortByte? (Text.hexDigit (b.toNat / 64)) = none := by
  have bound : b.toNat < 256 := b.toNat_lt
  have digit : ∀ n, n < 8 → shortByte? (Text.hexDigit n) = none := by decide
  exact digit _ (by omega)

variable {quote : Char} (hq : IsQuote quote)

include hq in
theorem reads_byte (b : Symbol) : byte.Reads (cByte quote b) b := by
  unfold cByte
  by_cases special : b.char = '\\' ∨ b.char = '?' ∨ b.char = quote
  · simp only [if_pos special]
    exact (Scanner.reads_charOr (shortByte?_char (hq.mem special)) _).mark _ _
  · by_cases plain : isPlain b.char = true
    · have other : b.char ≠ '\\' := fun backslash => special (.inl backslash)
      simp only [if_neg special, if_pos plain]
      exact (Scanner.reads_char (bareByte?_char plain)).unmarked other _
    · simp only [if_neg special, if_neg plain]
      exact ((reads_octalTriple b).charOr (octalTriple_not_short b)).mark _ _

include hq in
theorem head?_cByte_ne (b : Symbol) : (cByte quote b).head? ≠ some quote := by
  have other : quote ≠ '\\' := by rcases hq with rfl | rfl <;> decide
  unfold cByte
  by_cases special : b.char = '\\' ∨ b.char = '?' ∨ b.char = quote
  · simpa only [if_pos special, List.head?_cons, ne_eq, Option.some.injEq] using other.symm
  · by_cases plain : isPlain b.char = true
    · have unquoted : b.char ≠ quote := fun same => special (.inr (.inr same))
      simpa only [if_neg special, if_pos plain, List.head?_cons, ne_eq, Option.some.injEq] using unquoted
    · simpa only [if_neg special, if_neg plain, List.head?_cons, ne_eq, Option.some.injEq] using other.symm

theorem hexDigit_ne : ∀ n, n < 16 → Text.hexDigit n ≠ '?' ∧ Text.hexDigit n ≠ '\n' := by decide

include hq in
theorem steady_cByte (b : Symbol) : Steady (cByte quote b) := by
  have backslash : ('\\' : Char) ≠ '?' ∧ ('\\' : Char) ≠ '\n' := by decide
  unfold cByte
  by_cases special : b.char = '\\' ∨ b.char = '?' ∨ b.char = quote
  · simp only [if_pos special]
    by_cases mark : b.char = '?'
    · rw [mark]
      exact steady_escapedMark
    · have visible : ∀ c ∈ ['\\', '"', '\'', '?'], c ≠ '\n' := by simp
      refine steady_of_forall fun c hc => ?_
      simp only [List.mem_cons, List.not_mem_nil, or_false] at hc
      rcases hc with rfl | rfl
      · exact backslash
      · exact ⟨mark, visible _ (hq.mem special)⟩
  · by_cases plain : isPlain b.char = true
    · simp only [if_neg special, if_pos plain]
      have notMark : b.char ≠ '?' := fun mark => special (.inr (.inl mark))
      have notNewline : b.char ≠ '\n' := by
        intro newline
        rw [newline] at plain
        exact absurd plain (by decide)
      exact steady_singleton notMark notNewline
    · simp only [if_neg special, if_neg plain]
      have bound : b.toNat < 256 := b.toNat_lt
      refine steady_of_forall fun c hc => ?_
      simp only [Text.octalTriple, List.mem_cons, List.not_mem_nil, or_false] at hc
      rcases hc with rfl | rfl | rfl | rfl
      · exact backslash
      · exact hexDigit_ne _ (by omega)
      · exact hexDigit_ne _ (by omega)
      · exact hexDigit_ne _ (by omega)

theorem reads_cString (bytes : List UInt8) : string.Reads (cString bytes) bytes :=
  (Scanner.reads_flatMap (fun b _ => reads_byte (.inl rfl) b) fun b _ => head?_cByte_ne (.inl rfl) b).behind _

theorem reads_cChar (b : Symbol) : character.Reads (cChar b) b := by
  have one := Scanner.reads_one (reads_byte (.inr rfl) b) (head?_cByte_ne (.inr rfl) b)
  have value : single? [b] = some b := rfl
  exact (one.filterMap value).behind _

include hq in
theorem steady_open (bytes : List UInt8) : Steady (quote :: bytes.flatMap (cByte quote)) := by
  have start : Steady [quote] := by
    rcases hq with rfl | rfl
    · exact steady_singleton (by decide) (by decide)
    · exact steady_singleton (by decide) (by decide)
  exact start.append (steady_flatMap fun b _ => steady_cByte hq b)

theorem translate_cString (bytes : List UInt8) (rest : List Char) :
    translate (cString bytes ++ rest) = cString bytes ++ translate rest := by
  have closed := (steady_open (.inl rfl) bytes).translate_closed '"' (by decide) (by decide)
    (by decide) rest
  simpa only [cString, List.append_assoc, List.cons_append, List.nil_append] using closed

theorem translate_cChar (b : Symbol) (rest : List Char) :
    translate (cChar b ++ rest) = cChar b ++ translate rest := by
  have closed := (steady_open (.inr rfl) [b]).translate_closed '\'' (by decide) (by decide)
    (by decide) rest
  simpa only [cChar, List.flatMap_cons, List.flatMap_nil, List.append_nil, List.append_assoc, List.cons_append,
    List.nil_append] using closed

section Alternatives

/-- The spelling of an item; the last one is a null pointer. -/
def cell : Option (List UInt8) → List Char
  | some bytes => cString bytes
  | none => ['N', 'U', 'L', 'L']

/-- A string literal or a null pointer. -/
def pointer : Scanner (Option (List UInt8)) :=
  .marked '"' ((byte.upTo '"').map some) (.word 'N' ['U', 'L', 'L'] none)

/-- The items of the array of alternatives, up to its closing brace. -/
def alternatives : Scanner (List (Option (List UInt8))) :=
  (pointer.listed '\x7d').behind "static const char *const alternatives[] = \x7b ".toList

theorem isItem_cell (item : Option (List UInt8)) : pointer.IsItem '\x7d' (cell item) item := by
  cases item with
  | none =>
    have word := Scanner.reads_word 'N' ['U', 'L', 'L'] (none : Option (List UInt8))
    exact ⟨word.unmarked (by decide) _, by decide, by decide⟩
  | some bytes =>
    have inside := Scanner.reads_flatMap (fun b (_ : b ∈ bytes) => reads_byte (.inl rfl) b)
      fun b _ => head?_cByte_ne (.inl rfl) b
    exact ⟨(inside.map some).mark '"' _, by simp [cell, cString], by simp [cell, cString]⟩

theorem separated_append_singleton (separator last : List Char) (texts : List (List Char)) :
    separated separator (texts ++ [last]) = texts.flatMap (· ++ separator) ++ last := by
  induction texts with
  | nil => rfl
  | cons text texts ih =>
    have split : separated separator (text :: (texts ++ [last])) =
        text ++ separator ++ separated separator (texts ++ [last]) := by
      cases texts <;> rfl
    rw [List.cons_append, split, ih, List.flatMap_cons, List.append_assoc _ _ last]

/-- The array without the semicolon behind it. -/
theorem table_eq (r : Rule) :
    (table r).toList = "static const char *const alternatives[] = \x7b ".toList ++
      (separated [',', ' '] ((r.rights.map some ++ [none]).map cell) ++ (List.replicate 1 ' ' ++ ['\x7d'])) ++
        [';'] := by
  have stop : "NULL \x7d;".toList = ['N', 'U', 'L', 'L', ' ', '\x7d', ';'] := by simp
  have cells : (r.rights.map some ++ [none]).map cell = r.rights.map cString ++ [['N', 'U', 'L', 'L']] := by
    simp [cell, Function.comp_def]
  rw [cells, separated_append_singleton, List.flatMap_map]
  unfold table
  simp only [String.toList_append, String.toList_ofList, stop, List.append_assoc, List.replicate_one,
    List.cons_append, List.nil_append]

/-- The array of a rule is read as its right-hand sides and the null pointer behind them. -/
theorem scan_table (r : Rule) (rest : List Char) :
    alternatives.scan ((table r).toList ++ rest) = some (r.rights.map some ++ [none], ';' :: rest) := by
  have items := (Scanner.reads_separated (by decide) (by decide)
    (fun item (_ : item ∈ r.rights.map some ++ [none]) => isItem_cell item) 1).behind
      "static const char *const alternatives[] = \x7b ".toList
  have read := items (';' :: rest)
  rw [table_eq, List.append_assoc _ [';'], List.singleton_append]
  exact read

theorem steady_cell (item : Option (List UInt8)) : Steady (cell item) := by
  cases item with
  | none => exact steady_of_forall (by simp [cell])
  | some bytes => exact (steady_open (.inl rfl) bytes).append (steady_singleton (by decide) (by decide))

theorem steady_separated {texts : List (List Char)} (h : ∀ text ∈ texts, Steady text) :
    Steady (separated [',', ' '] texts) := by
  have comma : Steady [',', ' '] := steady_of_forall (by simp)
  induction texts with
  | nil => exact steady_nil
  | cons text texts ih =>
    have first := h text List.mem_cons_self
    have others := ih fun t ht => h t (List.mem_cons_of_mem _ ht)
    cases texts with
    | nil => exact first
    | cons next texts => exact (first.append comma).append others

/-- Both phases leave the array as it is, whatever follows. -/
theorem translate_table (r : Rule) (rest : List Char) :
    translate ((table r).toList ++ rest) = (table r).toList ++ translate rest := by
  have head : Steady "static const char *const alternatives[] = \x7b ".toList := steady_of_forall (by simp)
  have items : Steady (separated [',', ' '] ((r.rights.map some ++ [none]).map cell)) :=
    steady_separated fun text ht => by
      obtain ⟨item, -, rfl⟩ := List.mem_map.1 ht
      exact steady_cell item
  have stop : Steady (List.replicate 1 ' ' ++ ['\x7d']) := steady_of_forall (by simp)
  have closed := (head.append (items.append stop)).translate_closed ';' (by decide) (by decide) (by decide) rest
  rw [table_eq, List.append_assoc _ [';'], List.append_assoc _ [';'], List.singleton_append, closed]
  rfl

end Alternatives

end Descent.Emission.C
