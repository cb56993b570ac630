import Descent.Ruleset

/-!
# Dispatch

The rule of a symbol is found through a table with a slot for each of the 256 symbols. The slot holds the
place of the rule in the list of rules; it is filled when the rule is put behind the others.
-/
namespace Descent

/-- Rules, and for each symbol a slot for the place of its rule. -/
structure RuleTable where
  rules : List Rule
  slots : Vector (Option Nat) 256

namespace RuleTable

def empty : RuleTable := ⟨[], Vector.replicate 256 none⟩

/-- Puts a rule behind the others and its place into the slot of its symbol. -/
def push (t : RuleTable) (r : Rule) : RuleTable :=
  ⟨t.rules ++ [r], t.slots.set r.symbol.toNat (some t.rules.length) r.symbol.toNat_lt⟩

def ofRules (rules : List Rule) : RuleTable := rules.foldl push empty

def place? (t : RuleTable) (s : Symbol) : Option Nat :=
  have bound : s.toNat < 256 := s.toNat_lt
  t.slots[s.toNat]

/-- The rule in the place that the slot of a symbol holds. -/
def dispatch (t : RuleTable) (s : Symbol) : Option Rule := (t.place? s).bind (t.rules[·]?)

end RuleTable

namespace Ruleset

def table (R : Ruleset) : RuleTable := .ofRules R.rules

/-- The rule that is entered for a symbol. -/
def dispatch (R : Ruleset) (s : Symbol) : Option Rule := R.table.dispatch s

end Ruleset

end Descent
