/-!
# UTF-8

Encoding, and one scanner that both the strict and the lossy decoder are read off. The scanner
gives one entry for each character and one empty entry for each maximal ill-formed subsequence,
which is how the Unicode standard recommends to count replacements.
-/
namespace Descent.Text.Utf8

def encode (cs : List Char) : List UInt8 := cs.flatMap String.utf8EncodeChar

/-- What a lead byte announces: the number of continuation bytes, the payload of the lead byte and
the range of the first continuation byte. -/
structure Lead where
  tail : Nat
  payload : Nat
  low : UInt8
  high : UInt8

/-- The table of lead bytes; overlong forms, surrogates and values past U+10FFFF are kept out by the
range of the first continuation byte. -/
def lead? (b : UInt8) : Option Lead :=
  if b < 0x80 then some ⟨0, b.toNat, 0x80, 0xBF⟩
  else if b < 0xC2 then none
  else if b < 0xE0 then some ⟨1, b.toNat - 0xC0, 0x80, 0xBF⟩
  else if b = 0xE0 then some ⟨2, 0, 0xA0, 0xBF⟩
  else if b = 0xED then some ⟨2, 0xD, 0x80, 0x9F⟩
  else if b < 0xF0 then some ⟨2, b.toNat - 0xE0, 0x80, 0xBF⟩
  else if b = 0xF0 then some ⟨3, 0, 0x90, 0xBF⟩
  else if b < 0xF4 then some ⟨3, b.toNat - 0xF0, 0x80, 0xBF⟩
  else if b = 0xF4 then some ⟨3, 4, 0x80, 0x8F⟩
  else none

/-- Continuation bytes after a lead byte: the character if they are all there, and what is left
after the longest prefix that fits. -/
def continuation (tail payload : Nat) (low high : UInt8) (bytes : List UInt8) :
    Option Char × List UInt8 :=
  match tail, bytes with
  | 0, rest => (some (Char.ofNat payload), rest)
  | _ + 1, [] => (none, [])
  | tail + 1, b :: rest =>
    if low ≤ b ∧ b ≤ high then
      continuation tail (payload * 64 + (b.toNat - 0x80)) 0x80 0xBF rest
    else (none, b :: rest)

theorem length_continuation_le (tail payload : Nat) (low high : UInt8) (bytes : List UInt8) :
    (continuation tail payload low high bytes).2.length ≤ bytes.length := by
  induction tail generalizing payload low high bytes with
  | zero => simp [continuation]
  | succ tail ih =>
    cases bytes with
    | nil => simp [continuation]
    | cons b rest =>
      simp only [continuation]
      split
      · have := ih (payload * 64 + (b.toNat - 0x80)) 0x80 0xBF rest
        simp only [List.length_cons]
        omega
      · simp

/-- The first entry of a text that starts with `b`, and the bytes after it. -/
def entry (b : UInt8) (rest : List UInt8) : Option Char × List UInt8 :=
  match lead? b with
  | none => (none, rest)
  | some l => continuation l.tail l.payload l.low l.high rest

theorem length_entry_le (b : UInt8) (rest : List UInt8) :
    (entry b rest).2.length ≤ rest.length := by
  unfold entry
  split
  · exact Nat.le_refl _
  · exact length_continuation_le _ _ _ _ _

/-- The characters of a byte string, with an empty entry for each maximal ill-formed subsequence. -/
def scan : List UInt8 → List (Option Char)
  | [] => []
  | b :: rest => (entry b rest).1 :: scan (entry b rest).2
termination_by bytes => bytes.length
decreasing_by
  have := length_entry_le b rest
  simp only [List.length_cons]
  omega

/-- The text of a byte string, if all of it is well formed. -/
def decode? (bytes : List UInt8) : Option (List Char) := (scan bytes).mapM id

/-- The text of a byte string, with U+FFFD for each maximal ill-formed subsequence. -/
def decodeLossy (bytes : List UInt8) : List Char := (scan bytes).map (·.getD (Char.ofNat 0xFFFD))

end Descent.Text.Utf8
