import Descent.Fault
import Descent.Grammar
import Descent.Step

/-!
# Rulesets

The checked form of a grammar: the start symbol is declared and no alternative of a declared
non-terminal calls an undeclared one. Each alternative is kept together with its steps. The first
fault wins, in the order of declaration, then of alternatives, then of steps.
-/
namespace Descent

structure Alternative where
  rhs : List UInt8
  steps : List Step
  deriving DecidableEq, Repr

structure Rule where
  symbol : Symbol
  alternatives : List Alternative
  deriving DecidableEq, Repr

/-- What recognition, sampling and emission need of a grammar. -/
structure Ruleset where
  name : Option String
  start : Symbol
  escape : Symbol
  mode : EscapeMode
  /-- One rule for each declared non-terminal, in the order of declaration. -/
  rules : List Rule
  deriving DecidableEq, Repr

/-- The replacements of each symbol, in order; `none` where there is no rule. -/
abbrev Replacements := Symbol → Option (List (List Step))

namespace Replacements

def tabulate (E : Replacements) : Vector (Option (List (List Step))) 256 :=
  Vector.ofFn fun i => E (UInt8.ofNat i)

def ofTable (table : Vector (Option (List (List Step))) 256) : Replacements := fun s =>
  have bound : s.toNat < 256 := s.toNat_lt
  table[s.toNat]

@[simp]
theorem ofTable_tabulate (E : Replacements) : ofTable E.tabulate = E := by
  funext s
  simp [ofTable, tabulate]

end Replacements

def Rule.rights (r : Rule) : List (List UInt8) := r.alternatives.map (·.rhs)

namespace Ruleset

def rule? (R : Ruleset) (s : Symbol) : Option Rule := R.rules.find? (·.symbol == s)

/-- The steps of the alternatives of each symbol. -/
def replacements (R : Ruleset) : Replacements := fun s =>
  (R.rule? s).map fun r => r.alternatives.map (·.steps)

def callees (steps : List Step) : List Symbol :=
  steps.filterMap fun
    | .call s => some s
    | .literal _ => none

/-- All calls of the rules with their callers and the index of the alternative, in the order in
which they are checked. -/
def calls (rules : List Rule) : List (Symbol × Symbol × Nat) :=
  rules.flatMap fun r =>
    r.alternatives.zipIdx.flatMap fun (a, i) => (callees a.steps).map fun s => (s, r.symbol, i)

def ruleOf (g : Grammar) (mode : EscapeMode) (s : Symbol) : Rule :=
  ⟨s, (g.alternatives s).map fun rhs => ⟨rhs, Step.all g.escape mode rhs⟩⟩

def rulesOf (g : Grammar) (mode : EscapeMode) : List Rule := g.nonTerminals.map (ruleOf g mode)

/-- The ruleset of a grammar, or the first fault that keeps it from having one. -/
def ofGrammar (g : Grammar) (mode : EscapeMode) : Except Fault Ruleset :=
  match g.start with
  | none => .error (.badStart none)
  | some start =>
    if g.isDeclared start then
      match (calls (rulesOf g mode)).find? fun (callee, _) => !g.isDeclared callee with
      | some (callee, caller, i) => .error (.undeclaredCall callee caller i)
      | none => .ok ⟨g.name, start, g.escape, mode, rulesOf g mode⟩
    else .error (.badStart (some start))

end Ruleset

end Descent
