import Descent.Json.Scan

/-!
# The size of number literals

A literal is a natural number, or a value of another kind, or too large for a double. The last is
decided as a reader with one 64-bit significand does: digits that no longer fit into it raise the
exponent before the point and are dropped behind it; the significand, rounded to a double, is then
multiplied by the rounded power of ten.
-/
namespace Descent.Json

def digit (c : Char) : Nat := c.toNat - 48

def natural (digits : List Char) : Nat := digits.foldl (fun n c => n * 10 + digit c) 0

/-- Takes digits into a significand while it stays below 2^64; gives the digits left over too. -/
def absorb (significand : Nat) : List Char → Nat × List Char
  | [] => (significand, [])
  | c :: rest =>
    if significand * 10 + digit c < UInt64.size then absorb (significand * 10 + digit c) rest
    else (significand, c :: rest)

/-- The nearest number with at most 53 significant bits; a tie goes to the even one. -/
def roundDouble (n : Nat) : Nat :=
  if n < 1 <<< 53 then n
  else
    let shift := Nat.log2 n - 52
    let quotient := n >>> shift
    let rest := n % (1 <<< shift)
    let half := 1 <<< (shift - 1)
    if half < rest ∨ rest = half ∧ quotient % 2 = 1 then (quotient + 1) <<< shift
    else quotient <<< shift

/-- Whether a significand times a power of ten is past the largest double. -/
def overflows (significand : Nat) (exponent : Int) : Bool :=
  significand ≠ 0 && 0 ≤ exponent &&
    (308 < exponent ||
      ((1 <<< 54) - 1) <<< 970 ≤ roundDouble significand * roundDouble (Nat.pow 10 exponent.toNat))

def Number.isTooLarge (n : Number) : Bool :=
  let (significand, uncounted) := absorb 0 n.whole
  let (significand, dropped) := absorb significand n.fraction
  let exponent : Int := uncounted.length - (n.fraction.length - dropped.length : Nat)
  match n.exponent with
  | none => overflows significand exponent
  | some (negative, digits) =>
    let shift := natural digits
    if 1 <<< 31 ≤ shift then !negative && significand ≠ 0
    else overflows significand (if negative then exponent - shift else exponent + shift)

/-- The value of a literal that writes a natural number below 2^64 without point and exponent. -/
def Number.word? (n : Number) : Option UInt64 :=
  if n.negative || !n.fraction.isEmpty || n.exponent.isSome || UInt64.size ≤ natural n.whole then none
  else some (UInt64.ofNat (natural n.whole))

def finite (text : List Char) : Except SettingsFault (Number × List Char) := do
  let (n, rest) ← number .truncated text
  if n.isTooLarge then .error .malformed else .ok (n, rest)

/-- The fault of a scalar that is read to its end and does not fit its place. -/
def faultOf {α : Type} : Except SettingsFault α → SettingsFault
  | .error fault => fault
  | .ok _ => .mismatch

/-- The fault of a value that does not fit its place. A scalar is read to its end first. -/
def misfit (text : List Char) : SettingsFault :=
  match text with
  | 'n' :: rest => faultOf (word ['u', 'l', 'l'] rest)
  | 't' :: rest => faultOf (word ['r', 'u', 'e'] rest)
  | 'f' :: rest => faultOf (word ['a', 'l', 's', 'e'] rest)
  | '"' :: rest => faultOf (string rest)
  | '[' :: _ => .mismatch
  | '\x7b' :: _ => .mismatch
  | c :: _ => if startsNumber c then faultOf (finite text) else .malformed
  | [] => .truncated

end Descent.Json
