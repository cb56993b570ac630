import Descent.Emission.Rust
import Descent.Proofs.Emission.Scanner

/-!
# Literals of Rust

The lexical rules of byte literals, byte strings and of the array in which the emitter writes the
alternatives of a rule, and what they make of the emitter's spellings.
-/
namespace Descent.Emission.Rust

/-- The byte of an escape that is one letter long. -/
def shortByte? : Char → Option UInt8
  | 't' => some 9
  | 'r' => some 13
  | 'n' => some 10
  | '\'' => some 39
  | '"' => some 34
  | '\\' => some 92
  | _ => none

/-- Exactly two hexadecimal digits. -/
def hex : Scanner UInt8 :=
  ((Scanner.char Text.hexValue?).pair (Scanner.char Text.hexValue?)).map fun p =>
    UInt8.ofNat (16 * p.1 + p.2)

/-- One byte of a literal: an escape, or the character itself. -/
def byte : Scanner UInt8 :=
  .marked '\\' (.marked 'x' hex (.char shortByte?)) (.char ofAscii?)

def byteString : Scanner (List UInt8) := (byte.upTo '"').behind ['b', '"']

def byteLiteral : Scanner UInt8 := ((byte.upTo '\'').filterMap single?).behind ['b', '\'']

theorem shortByte?_of_shortEscape? {b : Symbol} {letter : Char} (h : shortEscape? b.char = some letter) :
    shortByte? letter = some b := by
  unfold shortEscape? at h
  split at h
  case h_7 => cases h
  all_goals
    rename_i same
    cases h
    rw [eq_ofNat_of_char same]
    rfl

theorem reads_hex (b : UInt8) : hex.Reads (Text.hexPair b) b := by
  have bound : b.toNat < 256 := b.toNat_lt
  have high := Scanner.reads_char (Text.hexValue?_hexDigit (b.toNat / 16) (by omega))
  have low := Scanner.reads_char (Text.hexValue?_hexDigit (b.toNat % 16) (by omega))
  have value : 16 * (b.toNat / 16) + b.toNat % 16 = b.toNat := by omega
  have read := (high.pair low).map fun p => UInt8.ofNat (16 * p.1 + p.2)
  simp only [value, UInt8.ofNat_toNat] at read
  exact read

theorem reads_byte (b : Symbol) : byte.Reads (asciiByte b) b := by
  unfold asciiByte
  cases short : shortEscape? b.char with
  | some letter =>
    have known := shortByte?_of_shortEscape? short
    have other : letter ≠ 'x' := by
      rintro rfl
      cases known
    exact ((Scanner.reads_char known).unmarked other _).mark _ _
  | none =>
    by_cases plain : isPlain b.char = true
    · have other : b.char ≠ '\\' := by
        intro same
        rw [same] at short
        cases short
      simp only [if_pos plain]
      exact (Scanner.reads_char (ofAscii?_char plain)).unmarked other _
    · simp only [if_neg plain]
      exact ((reads_hex b).mark _ _).mark _ _

theorem head?_asciiByte_ne {quote : Char} (escaped : (shortEscape? quote).isSome) (other : quote ≠ '\\')
    (b : Symbol) : (asciiByte b).head? ≠ some quote := by
  unfold asciiByte
  cases short : shortEscape? b.char with
  | some letter => simpa using other.symm
  | none =>
    by_cases plain : isPlain b.char = true
    · simp only [if_pos plain, List.head?_cons, ne_eq, Option.some.injEq]
      rintro rfl
      rw [short] at escaped
      cases escaped
    · simp only [if_neg plain, List.head?_cons]
      simpa using other.symm

theorem reads_rustBytes (bytes : List UInt8) : byteString.Reads (rustBytes bytes) bytes :=
  (Scanner.reads_flatMap (fun b _ => reads_byte b)
    fun b _ => head?_asciiByte_ne (by decide) (by decide) b).behind _

theorem reads_rustByte (b : Symbol) : byteLiteral.Reads (rustByte b) b := by
  have still : (asciiByte b).head? ≠ some '\'' := head?_asciiByte_ne (by decide) (by decide) b
  have one := Scanner.reads_one (reads_byte b) still
  have value : single? [b] = some b := rfl
  exact (one.filterMap value).behind _

section Alternatives

def digit? (c : Char) : Option Char := if c.isDigit then some c else none

def number? (digits : List Char) : Option Nat :=
  if digits.isEmpty then none else some (Nat.ofDigitChars 10 digits 0)

/-- A decimal number up to a closing bracket. -/
def count : Scanner Nat := ((Scanner.char digit?).upTo ']').filterMap number?

/-- The declared length and the items of the array of alternatives, up to its closing bracket. -/
def alternatives : Scanner (Nat × List (List UInt8)) :=
  (count.behind "const ALTERNATIVES: [&[u8]; ".toList).pair
    ((byteString.listed ']').behind " = [".toList)

theorem number?_toDigits (n : Nat) : number? (Nat.toDigits 10 n) = some n := by
  rw [number?, if_neg (by simp), Nat.ofDigitChars_toDigits (by decide) (by decide)]

theorem reads_count (n : Nat) : count.Reads (Nat.toDigits 10 n ++ [']']) n := by
  have isDigit : ∀ c ∈ Nat.toDigits 10 n, c.isDigit = true := fun c hc =>
    Nat.isDigit_of_mem_toDigits (by decide) (by decide) hc
  have reads : ∀ c ∈ Nat.toDigits 10 n, (Scanner.char digit?).Reads [c] c := fun c hc =>
    Scanner.reads_char (if_pos (isDigit c hc))
  have still : ∀ c ∈ Nat.toDigits 10 n, [c].head? ≠ some ']' := by
    intro c hc same
    have bracket : c = ']' := by simpa using same
    exact absurd (bracket ▸ isDigit c hc) (by decide)
  have digits := Scanner.reads_flatMap reads still
  rw [List.flatMap_singleton'] at digits
  exact digits.filterMap (number?_toDigits n)

theorem isItem_rustBytes (bytes : List UInt8) : byteString.IsItem ']' (rustBytes bytes) bytes :=
  ⟨reads_rustBytes bytes, by simp [rustBytes], by simp [rustBytes]⟩

/-- The array of a rule is read as its length and its right-hand sides, whatever they hold. -/
theorem scan_table (r : Rule) (rest : List Char) :
    alternatives.scan ((table r).toList ++ rest) = some ((r.rights.length, r.rights), ';' :: rest) := by
  have length := (reads_count r.rights.length).behind "const ALTERNATIVES: [&[u8]; ".toList
  have items := (Scanner.reads_separated (by decide) (by decide)
    (fun bytes (_ : bytes ∈ r.rights) => isItem_rustBytes bytes) 0).behind " = [".toList
  have read := length.pair items (';' :: rest)
  have shape : (table r).toList ++ rest =
      "const ALTERNATIVES: [&[u8]; ".toList ++ (Nat.toDigits 10 r.rights.length ++ [']']) ++
        (" = [".toList ++ (separated [',', ' '] (r.rights.map rustBytes) ++ (List.replicate 0 ' ' ++ [']']))) ++
          ';' :: rest := by
    have middle : "] = [".toList = ']' :: " = [".toList := by simp
    have stop : "];".toList = [']', ';'] := by simp
    unfold table
    simp only [Nat.toString_eq_repr, Nat.repr_eq_ofList_toDigits, String.toList_append,
      String.toList_ofList, middle, stop, List.replicate_zero, List.append_assoc, List.cons_append,
      List.nil_append]
  rw [shape]
  exact read

end Alternatives

end Descent.Emission.Rust
