/-!
# Digits

Hexadecimal and octal spellings of bytes, and the value of a hexadecimal digit in either case.
-/
namespace Descent.Text

def hexDigit (n : Nat) : Char := Char.ofNat (if n < 10 then 48 + n else 87 + n)

/-- A byte as exactly two lower-case hexadecimal digits. -/
def hexPair (b : UInt8) : List Char := [hexDigit (b.toNat / 16), hexDigit (b.toNat % 16)]

/-- A number in lower-case hexadecimal, without leading zeros. -/
def hexDigits (n : Nat) : List Char := Nat.toDigits 16 n

/-- A byte as exactly three octal digits. -/
def octalTriple (b : UInt8) : List Char :=
  [hexDigit (b.toNat / 64), hexDigit (b.toNat / 8 % 8), hexDigit (b.toNat % 8)]

/-- The value of a hexadecimal digit; letters count in either case. -/
def hexValue? (c : Char) : Option Nat :=
  if '0' ≤ c ∧ c ≤ '9' then some (c.toNat - 48)
  else if 'a' ≤ c ∧ c ≤ 'f' then some (c.toNat - 87)
  else if 'A' ≤ c ∧ c ≤ 'F' then some (c.toNat - 55)
  else none

theorem hexValue?_hexDigit : ∀ n, n < 16 → hexValue? (hexDigit n) = some n := by decide

/-- The byte of two hexadecimal digits, the high one first. -/
def hexByte? (high low : Char) : Option UInt8 := do
  let h ← hexValue? high
  let l ← hexValue? low
  some (UInt8.ofNat (16 * h + l))

theorem hexByte?_hexPair (b : UInt8) :
    hexByte? (hexDigit (b.toNat / 16)) (hexDigit (b.toNat % 16)) = some b := by
  have hb : b.toNat < 256 := b.toNat_lt
  have high := hexValue?_hexDigit (b.toNat / 16) (by omega)
  have low := hexValue?_hexDigit (b.toNat % 16) (by omega)
  have value : 16 * (b.toNat / 16) + b.toNat % 16 = b.toNat := by omega
  have joined : hexByte? (hexDigit (b.toNat / 16)) (hexDigit (b.toNat % 16)) =
      some (UInt8.ofNat (16 * (b.toNat / 16) + b.toNat % 16)) := by
    simp only [hexByte?, high, low, Option.bind_eq_bind, Option.bind_some]
  rw [joined, value, UInt8.ofNat_toNat]

end Descent.Text
