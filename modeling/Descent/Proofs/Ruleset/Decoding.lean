import Descent.Proofs.Ruleset.WellFormed

/-!
# What is left of a right-hand side

A match reads a right-hand side step by step and keeps what is left of it. What is left never starts in the middle
of an escape, so it decodes to the last of the steps of the whole, and to calls that were checked with it.
-/
namespace Descent

variable {marker : Symbol} {mode : EscapeMode} {rhs rest : List UInt8} {step : Step}

namespace Step

theorem all_of_next?_eq_none (h : next? marker mode rhs = none) : all marker mode rhs = [] := by
  rw [all, trail]
  split
  · rfl
  · rename_i found
    rw [h] at found
    cases found

theorem all_of_next?_eq_some (h : next? marker mode rhs = some (step, rest)) :
    all marker mode rhs = step :: all marker mode rest := by
  rw [all, trail]
  split
  · rename_i found
    rw [h] at found
    cases found
  · rename_i found
    rw [h] at found
    obtain ⟨rfl, rfl⟩ := Prod.mk.inj (Option.some.inj found)
    rfl

/-- What is left of a right-hand side after some of its steps. -/
inductive Leaves (marker : Symbol) (mode : EscapeMode) : List UInt8 → List UInt8 → Prop
  | whole {rhs : List UInt8} : Leaves marker mode rhs rhs
  | after {rhs between rest : List UInt8} {step : Step} :
    next? marker mode rhs = some (step, between) → Leaves marker mode between rest → Leaves marker mode rhs rest

theorem Leaves.trans {between : List UInt8} (h : Leaves marker mode rhs between)
    (h' : Leaves marker mode between rest) : Leaves marker mode rhs rest := by
  induction h with
  | whole => exact h'
  | after first _ ih => exact .after first (ih h')

/-- The steps of what is left are the last ones of the whole. -/
theorem Leaves.all_isSuffix (h : Leaves marker mode rhs rest) :
    Step.all marker mode rest <:+ Step.all marker mode rhs := by
  induction h with
  | whole => exact List.suffix_refl _
  | after first _ ih =>
    rw [all_of_next?_eq_some first]
    exact ih.trans (List.suffix_cons _ _)

/-- Behind any of the steps of a right-hand side, the other steps are those of what is left there. -/
theorem exists_leaves_of_all_eq_append {front back : List Step} (h : Step.all marker mode rhs = front ++ back) :
    ∃ rest, Leaves marker mode rhs rest ∧ Step.all marker mode rest = back := by
  induction front generalizing rhs with
  | nil => exact ⟨rhs, .whole, h⟩
  | cons step front ih =>
    cases found : next? marker mode rhs with
    | none =>
      rw [all_of_next?_eq_none found] at h
      cases h
    | some first =>
      obtain ⟨step', between⟩ := first
      rw [all_of_next?_eq_some found] at h
      obtain ⟨rest, left, steps⟩ := ih (List.cons.inj h).2
      exact ⟨rest, .after found left, steps⟩

end Step

namespace Grammar

variable {g : Grammar} {steps : List Step} {callee : Symbol}

/-- The steps of what is left of an alternative of a declared non-terminal; none where nothing is left to match. -/
def IsRest (g : Grammar) (mode : EscapeMode) (steps : List Step) : Prop :=
  steps = [] ∨ ∃ caller ∈ g.nonTerminals, ∃ rhs ∈ g.alternatives caller, ∃ rest,
    Step.Leaves g.escape mode rhs rest ∧ Step.all g.escape mode rest = steps

theorem isRest_nil : g.IsRest mode [] := .inl rfl

theorem isRest_all {caller : Symbol} (declared : caller ∈ g.nonTerminals) (h : rhs ∈ g.alternatives caller) :
    g.IsRest mode (Step.all g.escape mode rhs) :=
  .inr ⟨caller, declared, rhs, h, rhs, .whole, rfl⟩

theorem IsRest.of_append {front : List Step} (h : g.IsRest mode (front ++ steps)) : g.IsRest mode steps := by
  rcases h with empty | ⟨caller, declared, rhs, hrhs, rest, left, all⟩
  · exact .inl (List.append_eq_nil_iff.1 empty).2
  · obtain ⟨last, left', all'⟩ := Step.exists_leaves_of_all_eq_append all
    exact .inr ⟨caller, declared, rhs, hrhs, last, left.trans left', all'⟩

/-- What is left calls declared non-terminals only, since the whole does. -/
theorem IsRest.declared (h : g.IsRest mode steps) (known : g.CallsDeclared mode) (called : .call callee ∈ steps) :
    callee ∈ g.nonTerminals := by
  rcases h with rfl | ⟨caller, declared, rhs, hrhs, rest, left, rfl⟩
  · cases called
  · exact known caller declared rhs hrhs callee (left.all_isSuffix.mem called)

end Grammar

end Descent
