/-!
# Choices

Choosing evenly among n things by 32-bit words. A word is scaled to the range by a multiplication; the
words whose low half lies past the zone would make some index more likely and are passed over.
-/
namespace Descent.Sampling

/-- A source of 32-bit words: each state gives a word and the next state. -/
structure Source (σ : Type) where
  next : σ → UInt32 × σ
  /-- After so many words in a row that cannot be used the source is given up. -/
  patience : σ → Nat

/-- The number of leading zeros of a positive number as a 32-bit word. -/
def leadingZeros (n : Nat) : Nat := 31 - Nat.log2 n

/-- The greatest low half that keeps a choice among n even. -/
def zone (n : Nat) : Nat := (n <<< leadingZeros n + UInt32.size - 1) % UInt32.size

/-- The index that a word picks among n, if the word can be used. -/
def index? (n : Nat) (word : UInt32) : Option Nat :=
  if word.toNat * n % UInt32.size ≤ zone n then some (word.toNat * n / UInt32.size) else none

/-- Takes words until one can be used, at most so many. -/
def pickWithin {σ : Type} (source : Source σ) (n : Nat) : Nat → σ → Option Nat × σ
  | 0, state => (none, state)
  | tries + 1, state =>
    let (word, state) := source.next state
    match index? n word with
    | some i => (some i, state)
    | none => pickWithin source n tries state

/-- An index below n, or nothing if the source is given up. -/
def Source.pick {σ : Type} (source : Source σ) (n : Nat) (state : σ) : Option Nat × σ :=
  pickWithin source n (source.patience state) state

end Descent.Sampling
