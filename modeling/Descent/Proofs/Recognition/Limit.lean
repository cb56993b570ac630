import Descent.Proofs.Recognition.Exactness
import Descent.Proofs.Recognition.Recursion

/-!
# What a limit does

Under a finite limit every search ends. A limit withholds answers and changes none: what is answered under
one is answered under every wider one, and a search without a limit has the answers that some limit lets
through.
-/
namespace Descent

namespace Recognition

variable {E : Replacements}

/-- A search without a limit that ends comes to states of bounded depth only. -/
theorem Ends.exists_limit {agenda : List State} {v : Verdict} (h : Ends E none agenda v) :
    ∃ n, ∀ m, n ≤ m → Ends E (some m) agenda v := by
  generalize free : (none : Option Nat) = limit at h
  induction h with
  | rejects => exact ⟨0, fun _ _ => .rejects⟩
  | tooDeep hlimit =>
    rw [← free] at hlimit
    cases hlimit
  | @accepts s rest _ hx =>
    exact ⟨s.depth, fun m hm => .accepts (exceeds_some_eq_false hm) hx⟩
  | @states s next rest v _ hx _ ih =>
    obtain ⟨n, below⟩ := ih
    refine ⟨max n s.depth, fun m hm => ?_⟩
    exact .states (exceeds_some_eq_false (by omega)) hx (below m (by omega))

/-- Only the limit itself is ever reported as exceeded. -/
theorem Ends.tooDeep_eq {limit : Option Nat} {agenda : List State} {n : Nat}
    (h : Ends E limit agenda (.tooDeep n)) : limit = some n := by
  generalize hv : Verdict.tooDeep n = v at h
  induction h with
  | rejects => cases hv
  | accepts => cases hv
  | tooDeep hlimit =>
    cases hv
    exact hlimit
  | states _ _ _ ih => exact ih hv

end Recognition

/-- Every answer is the report of a verdict. -/
theorem Verdict.exists_result_eq_ok (x : Option Derivation) :
    ∃ v : Verdict, v.result = .ok x ∧ ∀ n, v ≠ .tooDeep n := by
  cases x with
  | none => exact ⟨.rejects, rfl, by simp⟩
  | some d => exact ⟨.accepts d, rfl, by simp⟩

namespace Ruleset

open Recognition

variable {R : Ruleset} {input : List UInt8}

/-- Under a finite limit the recursion and the search each come to a verdict in some number of steps and
keep it in every greater number. It is an acceptance, a rejection or the fault that this limit is exceeded,
and it is what is reported. -/
theorem derivation?_bounded_ends (R : Ruleset) (n : Nat) (input : List UInt8) :
    ∃ steps v,
      (∀ more, steps ≤ more →
        R.descendWithin more (some n) input = some v ∧ R.deriveWithin more (some n) input = some v) ∧
      R.derivation? (some n) input = v.result ∧
      ((∃ d, v = .accepts d) ∨ v = .rejects ∨ v = .tooDeep n) := by
  have ends := ends_explore (E := R.replacements) n (opening R.replacements R.start input)
  generalize explore R.replacements n (opening R.replacements R.start input) = v at ends
  obtain ⟨steps, descended⟩ := ends.exists_steps
  obtain ⟨turns, derived⟩ := ends.exists_turns
  refine ⟨max steps turns, v, fun more hmore => ⟨?_, ?_⟩, derivation?_eq_result_iff.2 ends, ?_⟩
  · exact descended more (by omega)
  · rw [deriveWithin_eq]
    exact derived more (by omega)
  · cases v with
    | accepts d => exact .inl ⟨d, rfl⟩
    | rejects => exact .inr (.inl rfl)
    | tooDeep m =>
      obtain rfl := Option.some.inj ends.tooDeep_eq
      exact .inr (.inr rfl)

theorem derivation?_of_wider {limit : Nat} {wide : Option Nat} (hw : Wider limit wide)
    {x : Option Derivation} (answered : R.derivation? (some limit) input = .ok x) :
    R.derivation? wide input = .ok x := by
  obtain ⟨v, hv, uncut⟩ := Verdict.exists_result_eq_ok x
  rw [← hv] at answered ⊢
  exact derivation?_eq_result_iff.2 ((derivation?_eq_result_iff.1 answered).of_wider hw uncut)

theorem exists_limit_of_derivation?_none {x : Option Derivation}
    (answered : R.derivation? none input = .ok x) : ∃ n, R.derivation? (some n) input = .ok x := by
  obtain ⟨v, hv, -⟩ := Verdict.exists_result_eq_ok x
  rw [← hv] at answered ⊢
  obtain ⟨n, ends⟩ := (derivation?_eq_result_iff.1 answered).exists_limit
  exact ⟨n, derivation?_eq_result_iff.2 (ends n (Nat.le_refl n))⟩

/-- The recursion without a limit ends with an answer exactly if that is what is reported. -/
theorem descends_iff_derivation?_none {x : Option Derivation} :
    (∃ steps, (R.descendWithin steps none input).map Verdict.result = some (.ok x)) ↔
      R.derivation? none input = .ok x := by
  constructor
  · rintro ⟨steps, h⟩
    obtain ⟨v, descended, hv⟩ := Option.map_eq_some_iff.1 h
    rw [← hv]
    exact derivation?_eq_result_iff_descends.2 ⟨steps, descended⟩
  · intro answered
    obtain ⟨v, hv, -⟩ := Verdict.exists_result_eq_ok x
    rw [← hv] at answered ⊢
    obtain ⟨steps, descended⟩ := derivation?_eq_result_iff_descends.1 answered
    exact ⟨steps, by rw [descended, Option.map_some]⟩

/-- An answer under a limit, derivation included, is the answer under every greater one. The recursion
without a limit ends with an answer exactly if the search under some limit does. -/
theorem derivation?_limit_stable (R : Ruleset) (input : List UInt8) :
    (∀ n m, n ≤ m → ∀ x, R.derivation? (some n) input = .ok x → R.derivation? (some m) input = .ok x) ∧
      ∀ x,
        ((∃ steps, (R.descendWithin steps none input).map Verdict.result = some (.ok x)) ↔
          ∃ n, R.derivation? (some n) input = .ok x) ∧
        (R.derivation? none input = .ok x ↔ ∃ n, R.derivation? (some n) input = .ok x) := by
  have free : ∀ x, R.derivation? none input = .ok x ↔ ∃ n, R.derivation? (some n) input = .ok x := by
    intro x
    constructor
    · exact exists_limit_of_derivation?_none
    · rintro ⟨n, answered⟩
      exact derivation?_of_wider (wider_none n) answered
  refine ⟨?_, fun x => ⟨descends_iff_derivation?_none.trans (free x), free x⟩⟩
  intro n m hnm x answered
  exact derivation?_of_wider (wider_some hnm) answered

theorem derivation?_limit_stable_abb :
    (detour.derivation? (some 1) [97, 98, 98] = .error (.tooDeep 1) ∧
      detour.derivation? (some 3) [97, 98, 98] = .ok (some ⟨[(83, 0), (65, 1)]⟩)) ∧
    detour.derivation? (some 7) [97, 98, 98] = .ok (some ⟨[(83, 0), (65, 1)]⟩) ∧
      detour.derivation? none [97, 98, 98] = .ok (some ⟨[(83, 0), (65, 1)]⟩) := by
  have cut : detour.deriveWithin 9 (some 1) [97, 98, 98] = some (.tooDeep 1) := by
    rw [deriveWithin_eq]
    decide
  have explored : detour.deriveWithin 9 (some 3) [97, 98, 98] = some (.accepts ⟨[(83, 0), (65, 1)]⟩) := by
    rw [deriveWithin_eq]
    decide
  have withheld := derivation?_eq_result_iff.2 (answers_of_deriveWithin cut)
  have answered := derivation?_eq_result_iff.2 (answers_of_deriveWithin explored)
  obtain ⟨stable, free⟩ := derivation?_limit_stable detour [97, 98, 98]
  exact ⟨⟨withheld, answered⟩, stable 3 7 (by decide) _ answered, (free _).2.2 ⟨3, answered⟩⟩

end Ruleset

end Descent
