import Descent.Sampling.Choice

/-!
# Cycles of words

A list of words repeated for ever, with a count of the words taken.
-/
namespace Descent.Sampling

/-- A list of words, what is left of its current round, and how many words have been taken. -/
structure Cycle where
  words : List UInt32
  left : List UInt32
  taken : Nat
  deriving Repr

def Cycle.ofWords (words : List UInt32) : Cycle := ⟨words, words, 0⟩

/-- The next word; an empty cycle gives zeros. -/
def Cycle.next (c : Cycle) : UInt32 × Cycle :=
  match c.left with
  | word :: left => (word, { c with left := left, taken := c.taken + 1 })
  | [] =>
    match c.words with
    | word :: left => (word, { c with left := left, taken := c.taken + 1 })
    | [] => (0, { c with taken := c.taken + 1 })

/-- Cycles as a source; a round without a usable word means that there is none. -/
def cycles : Source Cycle := ⟨Cycle.next, fun c => c.words.length + 1⟩

end Descent.Sampling
