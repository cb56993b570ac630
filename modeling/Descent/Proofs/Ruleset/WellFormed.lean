import Descent.Proofs.Ruleset.Agreement

/-!
# Well-formed grammars

A grammar has a ruleset exactly if its start symbol is declared and every call in an alternative of a declared
non-terminal is of a declared one. The start symbol is looked at first.
-/
namespace Descent

variable {g : Grammar} {mode : EscapeMode} {R : Ruleset} {callee caller : Symbol} {i : Nat}

namespace Grammar

/-- The start symbol is set and is a declared non-terminal. -/
def StartDeclared (g : Grammar) : Prop := ∃ start, g.start = some start ∧ start ∈ g.nonTerminals

/-- The alternative with this index of a declared caller calls the callee. -/
def Calls (g : Grammar) (mode : EscapeMode) (callee caller : Symbol) (i : Nat) : Prop :=
  caller ∈ g.nonTerminals ∧
    ∃ rhs, (g.alternatives caller)[i]? = some rhs ∧ .call callee ∈ Step.all g.escape mode rhs

/-- All calls in alternatives of declared non-terminals are of declared non-terminals. -/
def CallsDeclared (g : Grammar) (mode : EscapeMode) : Prop :=
  ∀ caller ∈ g.nonTerminals, ∀ rhs ∈ g.alternatives caller, ∀ callee,
    .call callee ∈ Step.all g.escape mode rhs → callee ∈ g.nonTerminals

theorem callsDeclared_iff :
    g.CallsDeclared mode ↔ ∀ callee caller i, g.Calls mode callee caller i → callee ∈ g.nonTerminals := by
  constructor
  · rintro known callee caller i ⟨declared, rhs, hrhs, called⟩
    exact known caller declared rhs (List.mem_of_getElem? hrhs) callee called
  · intro known caller declared rhs hrhs callee called
    obtain ⟨i, hi⟩ := List.getElem?_of_mem hrhs
    exact known callee caller i ⟨declared, rhs, hi, called⟩

end Grammar

namespace Ruleset

theorem mem_calls_rulesOf : (callee, caller, i) ∈ calls (rulesOf g mode) ↔ g.Calls mode callee caller i := by
  rw [mem_calls]
  constructor
  · rintro ⟨r, hr, rfl, a, ha, called⟩
    obtain ⟨s, declared, rfl⟩ := List.mem_map.1 hr
    simp only [ruleOf, List.getElem?_map, Option.map_eq_some_iff] at ha
    obtain ⟨rhs, hrhs, rfl⟩ := ha
    exact ⟨declared, rhs, hrhs, called⟩
  · rintro ⟨declared, rhs, hrhs, called⟩
    refine ⟨ruleOf g mode caller, List.mem_map_of_mem declared, rfl,
      ⟨rhs, Step.all g.escape mode rhs⟩, ?_, called⟩
    simp [ruleOf, hrhs]

theorem exists_ofGrammar_iff : (∃ R, ofGrammar g mode = .ok R) ↔ g.StartDeclared ∧ g.CallsDeclared mode := by
  simp only [ofGrammar_eq_ok_iff, mem_calls_rulesOf, ← Grammar.callsDeclared_iff]
  constructor
  · rintro ⟨R, start, hstart, declared, known, -⟩
    exact ⟨⟨start, hstart, declared⟩, known⟩
  · rintro ⟨⟨start, hstart, declared⟩, known⟩
    exact ⟨_, start, hstart, declared, known, rfl⟩

theorem ofGrammar_badStart (h : ¬g.StartDeclared) : ofGrammar g mode = .error (.badStart g.start) := by
  unfold ofGrammar
  cases hstart : g.start with
  | none => rfl
  | some start =>
    have unknown : start ∉ g.nonTerminals := fun declared => h ⟨start, hstart, declared⟩
    simp [Grammar.isDeclared, unknown]

/-- With a start symbol that is declared, an undeclared call is the fault, and it is one. -/
theorem ofGrammar_undeclaredCall (started : g.StartDeclared) (h : ¬g.CallsDeclared mode) :
    ∃ callee caller i, ofGrammar g mode = .error (.undeclaredCall callee caller i) ∧
      g.Calls mode callee caller i ∧ callee ∉ g.nonTerminals := by
  obtain ⟨start, hstart, declared⟩ := started
  have known : g.isDeclared start = true := by simpa [Grammar.isDeclared] using declared
  cases outcome : ofGrammar g mode with
  | ok R => exact absurd (exists_ofGrammar_iff.1 ⟨R, outcome⟩).2 h
  | error fault =>
    simp only [ofGrammar, hstart, if_pos known] at outcome
    split at outcome
    · rename_i callee caller i found
      obtain rfl := Except.error.inj outcome
      refine ⟨callee, caller, i, rfl, mem_calls_rulesOf.1 (List.mem_of_find?_eq_some found), ?_⟩
      simpa [Grammar.isDeclared] using List.find?_some found
    · cases outcome

end Ruleset

end Descent
