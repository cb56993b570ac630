import Descent.Symbol

/-!
# Derivations

A leftmost derivation is told by the alternatives chosen, in the order in which rules are entered.
-/
namespace Descent

/-- The alternatives chosen, each with the symbol it replaces. -/
structure Derivation where
  choices : List (Symbol × Nat)
  deriving DecidableEq, Repr

/-- The alternative chosen where a symbol is entered for the first time. -/
def Derivation.firstChoice? (d : Derivation) (s : Symbol) : Option Nat :=
  (d.choices.find? (·.1 == s)).map (·.2)

/-- The answer to whether an input is derivable. -/
inductive Verdict
  | accepts (d : Derivation)
  | rejects
  /-- Rules nested deeper than the limit before an answer was found. -/
  | tooDeep (limit : Nat)
  deriving DecidableEq, Repr

end Descent
