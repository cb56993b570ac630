import Descent.Recognition.Search

/-!
# Answers of a search

When a search ends and with what verdict, as a relation. The search under a limit, the search without
one and the search in so many turns all compute it. A wider limit keeps every verdict but a cut-off.
-/
namespace Descent

namespace Recognition

variable {E : Replacements} {limit : Option Nat}

/-- A search over an agenda that ends with a verdict. -/
inductive Ends (E : Replacements) (limit : Option Nat) : List State → Verdict → Prop
  | rejects : Ends E limit [] .rejects
  | tooDeep {n : Nat} {s : State} {rest : List State} :
    limit = some n → n < s.depth → Ends E limit (s :: rest) (.tooDeep n)
  | accepts {s : State} {rest : List State} : s.exceeds limit = false → s.expand E = .accepted →
    Ends E limit (s :: rest) (.accepts ⟨s.choices.reverse⟩)
  | states {s : State} {next rest : List State} {v : Verdict} : s.exceeds limit = false →
    s.expand E = .states next → Ends E limit (next ++ rest) v → Ends E limit (s :: rest) v

theorem exceeds_eq_false_iff {s : State} :
    s.exceeds limit = false ↔ ∀ n, limit = some n → s.depth ≤ n := by
  cases limit with
  | none => simp [State.exceeds]
  | some n => simp [State.exceeds]

theorem exceeds_some_eq_false {n : Nat} {s : State} (h : s.depth ≤ n) : s.exceeds (some n) = false := by
  simp [State.exceeds, h]

theorem turn_of_lt {n : Nat} {s : State} {rest : List State} (hlimit : limit = some n)
    (hn : n < s.depth) : turn E limit s rest = .error (.tooDeep n) := by
  simp [turn, State.exceeds, hlimit, hn]

theorem turn_of_accepted {s : State} {rest : List State} (shallow : s.exceeds limit = false)
    (hx : s.expand E = .accepted) : turn E limit s rest = .error (.accepts ⟨s.choices.reverse⟩) := by
  simp [turn, shallow, hx]

theorem turn_of_states {s : State} {next rest : List State} (shallow : s.exceeds limit = false)
    (hx : s.expand E = .states next) : turn E limit s rest = .ok (next ++ rest) := by
  simp [turn, shallow, hx]

/-- A turn after which the search goes on expands its state within the limit. -/
theorem exists_states_of_turn {s : State} {rest agenda : List State} (h : turn E limit s rest = .ok agenda) :
    s.exceeds limit = false ∧ ∃ next, s.expand E = .states next ∧ agenda = next ++ rest := by
  unfold turn at h
  split at h
  · cases h
  · rename_i shallow
    split at h
    · cases h
    · rename_i next hx
      exact ⟨Bool.eq_false_iff.2 shallow, next, hx, (Except.ok.inj h).symm⟩

/-- A search ends as its first turn says. -/
theorem ends_cons_iff {s : State} {rest : List State} {v : Verdict} :
    Ends E limit (s :: rest) v ↔
      match turn E limit s rest with
      | .error verdict => v = verdict
      | .ok agenda => Ends E limit agenda v := by
  constructor
  · intro h
    cases h with
    | tooDeep hlimit hn => rw [turn_of_lt hlimit hn]
    | accepts shallow hx => rw [turn_of_accepted shallow hx]
    | states shallow hx h =>
      rw [turn_of_states shallow hx]
      exact h
  · intro h
    by_cases shallow : s.exceeds limit = false
    · cases hx : s.expand E with
      | accepted =>
        rw [turn_of_accepted shallow hx] at h
        exact h ▸ .accepts shallow hx
      | states next =>
        rw [turn_of_states shallow hx] at h
        exact .states shallow hx h
    · obtain ⟨n, hlimit, hn⟩ : ∃ n, limit = some n ∧ n < s.depth := by
        simpa [exceeds_eq_false_iff] using shallow
      rw [turn_of_lt hlimit hn] at h
      exact h ▸ .tooDeep hlimit hn

theorem ends_of_exploreWithin {turns : Nat} {agenda : List State} {v : Verdict}
    (h : exploreWithin E limit turns agenda = some v) : Ends E limit agenda v := by
  fun_induction exploreWithin E limit turns agenda with
  | case1 =>
    obtain rfl := Option.some.inj h
    exact .rejects
  | case2 => simp at h
  | case3 turns s rest verdict ht =>
    rw [ends_cons_iff, ht]
    exact (Option.some.inj h).symm
  | case4 turns s rest agenda ht ih =>
    rw [ends_cons_iff, ht]
    exact ih h

/-- A search that ends does so in some number of turns and in any greater one. -/
theorem Ends.exists_turns {agenda : List State} {v : Verdict} (h : Ends E limit agenda v) :
    ∃ turns, ∀ more, turns ≤ more → exploreWithin E limit more agenda = some v := by
  induction h with
  | rejects => exact ⟨0, fun more _ => by cases more <;> rfl⟩
  | @tooDeep n s rest hlimit hn =>
    refine ⟨1, fun more hmore => ?_⟩
    obtain ⟨more, rfl⟩ : ∃ k, more = k + 1 := ⟨more - 1, by omega⟩
    rw [exploreWithin_cons, turn_of_lt hlimit hn]
  | accepts shallow hx =>
    refine ⟨1, fun more hmore => ?_⟩
    obtain ⟨more, rfl⟩ : ∃ k, more = k + 1 := ⟨more - 1, by omega⟩
    rw [exploreWithin_cons, turn_of_accepted shallow hx]
  | states shallow hx _ ih =>
    obtain ⟨turns, h⟩ := ih
    refine ⟨turns + 1, fun more hmore => ?_⟩
    obtain ⟨more, rfl⟩ : ∃ k, more = k + 1 := ⟨more - 1, by omega⟩
    rw [exploreWithin_cons, turn_of_states shallow hx]
    exact h more (by omega)

theorem ends_iff_exists_turns {agenda : List State} {v : Verdict} :
    Ends E limit agenda v ↔ ∃ turns, exploreWithin E limit turns agenda = some v := by
  constructor
  · intro h
    obtain ⟨turns, hturns⟩ := h.exists_turns
    exact ⟨turns, hturns turns (Nat.le_refl _)⟩
  · rintro ⟨turns, h⟩
    exact ends_of_exploreWithin h

theorem Ends.unique {agenda : List State} {v w : Verdict} (hv : Ends E limit agenda v)
    (hw : Ends E limit agenda w) : v = w := by
  obtain ⟨m, hm⟩ := hv.exists_turns
  obtain ⟨n, hn⟩ := hw.exists_turns
  have atMax := hm (max m n) (Nat.le_max_left _ _)
  rw [hn (max m n) (Nat.le_max_right _ _)] at atMax
  exact (Option.some.inj atMax).symm

theorem ends_explore (limit : Nat) (agenda : List State) :
    Ends E (some limit) agenda (explore E limit agenda) := by
  fun_induction explore E limit agenda with
  | case1 => exact .rejects
  | case2 s rest verdict ht => rw [ends_cons_iff, ht]
  | case3 s rest agenda ht ih =>
    rw [ends_cons_iff, ht]
    exact ih

theorem ends_iff_explore_eq {limit : Nat} {agenda : List State} {v : Verdict} :
    Ends E (some limit) agenda v ↔ explore E limit agenda = v := by
  constructor
  · exact (ends_explore limit agenda).unique
  · rintro rfl
    exact ends_explore limit agenda

theorem Progress.next_eq_inl {start : List State} {p q : Progress E start} (h : p.next = .inl q) :
    ∃ s rest, p.agenda = s :: rest ∧ turn E none s rest = .ok q.agenda := by
  unfold Progress.next at h
  split at h
  · cases h
  · rename_i s rest hagenda
    split at h
    · cases h
    · rename_i agenda ht
      cases h
      exact ⟨s, rest, hagenda, ht⟩

/-- The loop stops if so many turns are enough. -/
theorem Progress.outcome_isSome {start : List State} (p : Progress E start) {turns : Nat}
    (h : (exploreWithin E none turns p.agenda).isSome) : p.outcome.isSome := by
  induction turns generalizing p with
  | zero =>
    rw [Progress.outcome_eq]
    cases hnext : p.next with
    | inl q =>
      obtain ⟨s, rest, hagenda, -⟩ := Progress.next_eq_inl hnext
      rw [hagenda] at h
      cases h
    | inr outcome => rfl
  | succ turns ih =>
    rw [Progress.outcome_eq]
    cases hnext : p.next with
    | inl q =>
      obtain ⟨s, rest, hagenda, ht⟩ := Progress.next_eq_inl hnext
      rw [hagenda, exploreWithin_cons, ht] at h
      exact ih q h
    | inr outcome => rfl

theorem ends_iff_exploreFreely_eq {agenda : List State} {v : Verdict} :
    Ends E none agenda v ↔ exploreFreely E agenda = some v := by
  have sound : ∀ w, exploreFreely E agenda = some w → Ends E none agenda w := by
    intro w hw
    obtain ⟨outcome, -, rfl⟩ := Option.map_eq_some_iff.1 hw
    exact ends_iff_exists_turns.2 outcome.2
  constructor
  · intro h
    obtain ⟨turns, hturns⟩ := ends_iff_exists_turns.1 h
    have stops : (exploreFreely E agenda).isSome := by
      rw [exploreFreely, Option.isSome_map]
      exact Progress.outcome_isSome _ (Option.isSome_of_eq_some hturns)
    obtain ⟨w, hw⟩ := Option.isSome_iff_exists.1 stops
    rw [hw, (sound w hw).unique h]
  · exact sound v

/-- A limit that lets through whatever another one does. -/
def Wider (limit : Nat) (wide : Option Nat) : Prop := ∀ n, wide = some n → limit ≤ n

theorem wider_none (limit : Nat) : Wider limit none := by
  intro n hn
  cases hn

theorem wider_some {limit n : Nat} (h : limit ≤ n) : Wider limit (some n) := by
  intro m hm
  obtain rfl := Option.some.inj hm
  exact h

theorem exceeds_of_wider {limit : Nat} {wide : Option Nat} {s : State} (hw : Wider limit wide)
    (h : s.exceeds (some limit) = false) : s.exceeds wide = false := by
  rw [exceeds_eq_false_iff] at h ⊢
  intro n hn
  exact Nat.le_trans (h limit rfl) (hw n hn)

/-- A wider limit keeps every verdict but a cut-off. -/
theorem Ends.of_wider {limit : Nat} {wide : Option Nat} {agenda : List State} {v : Verdict}
    (hw : Wider limit wide) (h : Ends E (some limit) agenda v) (hv : ∀ n, v ≠ .tooDeep n) :
    Ends E wide agenda v := by
  induction h with
  | rejects => exact .rejects
  | tooDeep => exact absurd rfl (hv _)
  | accepts shallow hx => exact .accepts (exceeds_of_wider hw shallow) hx
  | states shallow hx _ ih => exact .states (exceeds_of_wider hw shallow) hx (ih hv)

end Recognition

theorem Verdict.result_inj {v w : Verdict} : v.result = w.result ↔ v = w := by
  constructor
  · intro h
    cases v <;> cases w <;> simp_all [Verdict.result]
  · rintro rfl
    rfl

theorem Verdict.result_ne_outOfSteps (v : Verdict) : Except.error Fault.outOfSteps ≠ v.result := by
  cases v <;> simp [Verdict.result]

namespace Ruleset

variable {R : Ruleset} {limit : Option Nat} {input : List UInt8}

/-- The verdict in which the search for a derivation ends. -/
def Answers (R : Ruleset) (limit : Option Nat) (input : List UInt8) (v : Verdict) : Prop :=
  Recognition.Ends R.replacements limit (Recognition.opening R.replacements R.start input) v

theorem answers_of_deriveWithin {turns : Nat} {v : Verdict}
    (h : R.deriveWithin turns limit input = some v) : R.Answers limit input v := by
  rw [deriveWithin_eq] at h
  exact Recognition.ends_of_exploreWithin h

/-- What is reported is the verdict in which the search ends. -/
theorem derivation?_eq_result_iff {v : Verdict} :
    R.derivation? limit input = v.result ↔ R.Answers limit input v := by
  unfold derivation? Answers
  cases limit with
  | some n =>
    rw [Recognition.ends_iff_explore_eq, ← derive_eq]
    exact Verdict.result_inj
  | none =>
    rw [Recognition.ends_iff_exploreFreely_eq, ← deriveFreely_eq]
    cases R.deriveFreely input with
    | none => simpa using v.result_ne_outOfSteps
    | some w => simpa using Verdict.result_inj

/-- What is reported is a verdict, unless the search goes on for ever. -/
theorem derivation?_cases (R : Ruleset) (limit : Option Nat) (input : List UInt8) :
    (∃ v : Verdict, R.derivation? limit input = v.result) ∨
      R.derivation? limit input = .error .outOfSteps := by
  unfold derivation?
  cases limit with
  | some n => exact .inl ⟨_, rfl⟩
  | none =>
    cases R.deriveFreely input with
    | some v => exact .inl ⟨v, rfl⟩
    | none => exact .inr rfl

/-- Two searches that come to the same verdicts are reported alike, also if they come to none. -/
theorem derivation?_congr {S : Ruleset}
    (same : ∀ v : Verdict, R.derivation? limit input = v.result ↔ S.derivation? limit input = v.result) :
    R.derivation? limit input = S.derivation? limit input := by
  rcases derivation?_cases R limit input with ⟨v, hv⟩ | endless
  · rw [hv, (same v).1 hv]
  · rcases derivation?_cases S limit input with ⟨v, hv⟩ | endless'
    · have stops := (same v).2 hv
      rw [endless] at stops
      exact absurd stops v.result_ne_outOfSteps
    · rw [endless, endless']

theorem recognize_eq_ok_iff {b : Bool} :
    R.recognize limit input = .ok b ↔ ∃ r, R.derivation? limit input = .ok r ∧ r.isSome = b := by
  unfold recognize
  cases R.derivation? limit input with
  | error fault => simp [Except.map]
  | ok r => simp [Except.map]

end Ruleset

end Descent
