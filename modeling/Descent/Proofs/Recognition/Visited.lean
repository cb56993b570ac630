import Descent.Proofs.Recognition.Answer

/-!
# Visited states

The states that a search takes up, one at each turn. Whatever an expansion preserves holds of all of them, and a search is
cut off only at one of them.
-/
namespace Descent.Recognition

variable {E : Replacements} {limit : Option Nat} {agenda : List State} {s : State}

/-- A state that a search takes up: the first of its agenda, turn after turn. -/
inductive Visits (E : Replacements) (limit : Option Nat) : List State → State → Prop
  | first {s : State} {rest : List State} : Visits E limit (s :: rest) s
  | later {s t : State} {rest agenda : List State} : turn E limit s rest = .ok agenda →
    Visits E limit agenda t → Visits E limit (s :: rest) t

/-- What every expansion within the limit preserves holds of every state that a search takes up, if it holds of those
that the search starts with. -/
theorem Visits.preserves {P : State → Prop}
    (step : ∀ s next, P s → s.exceeds limit = false → s.expand E = .states next → ∀ t ∈ next, P t)
    (visited : Visits E limit agenda s) (h : ∀ t ∈ agenda, P t) : P s := by
  induction visited with
  | first => exact h _ List.mem_cons_self
  | @later s t rest agenda taken _ ih =>
    obtain ⟨shallow, next, expanded, rfl⟩ := exists_states_of_turn taken
    apply ih
    intro u hu
    rcases List.mem_append.1 hu with hu | hu
    · exact step s next (h s List.mem_cons_self) shallow expanded u hu
    · exact h u (List.mem_cons_of_mem _ hu)

/-- A search that is cut off has taken up a state beyond its limit. -/
theorem exists_visits_of_ends_tooDeep {n : Nat} (h : Ends E limit agenda (.tooDeep n)) :
    limit = some n ∧ ∃ s, Visits E limit agenda s ∧ n < s.depth := by
  generalize hv : Verdict.tooDeep n = v at h
  induction h with
  | rejects => cases hv
  | accepts => cases hv
  | @tooDeep m s rest hlimit deep =>
    obtain rfl := Verdict.tooDeep.inj hv
    exact ⟨hlimit, s, .first, deep⟩
  | states shallow expanded _ ih =>
    obtain ⟨hlimit, t, visited, deep⟩ := ih hv
    exact ⟨hlimit, t, .later (turn_of_states shallow expanded) visited, deep⟩

end Descent.Recognition
