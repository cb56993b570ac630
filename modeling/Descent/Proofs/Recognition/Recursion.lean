import Descent.Proofs.Recognition.Answer

/-!
# The search as a recursion

The recursive descent that the search unrolls into an agenda: a match goes on to its next state, and the
states of a call's alternatives are tried one after another, each by a recursion of its own. Nested deep
enough it gives the verdict of the search, with a limit and without one.
-/
namespace Descent

namespace Recognition

/-- The first answer of some states that is no rejection. There is none if an answer before it is missing. -/
def firstAnswer (answer : State → Option Verdict) : List State → Option Verdict
  | [] => some .rejects
  | s :: rest =>
    match answer s with
    | some .rejects => firstAnswer answer rest
    | found => found

/-- Matches all that a state still needs, by calls that are nested at most so deep. A failed alternative
rejects, and only then is the next one tried; an acceptance or a cut-off ends every enclosing call. -/
def descend (E : Replacements) (limit : Option Nat) : Nat → State → Option Verdict
  | 0, _ => none
  | steps + 1, s =>
    if s.exceeds limit then some (.tooDeep (limit.getD 0))
    else
      match s.expand E with
      | .accepted => some (.accepts ⟨s.choices.reverse⟩)
      | .states next => firstAnswer (descend E limit steps) next

variable {E : Replacements} {limit : Option Nat} {answer : State → Option Verdict}

theorem firstAnswer_cons_of_rejects {s : State} (h : answer s = some .rejects) (rest : List State) :
    firstAnswer answer (s :: rest) = firstAnswer answer rest := by
  rw [firstAnswer, h]

theorem firstAnswer_cons_of_found {s : State} {v : Verdict} (h : answer s = some v) (hv : v ≠ .rejects)
    (rest : List State) : firstAnswer answer (s :: rest) = some v := by
  cases v with
  | accepts d => rw [firstAnswer, h]
  | rejects => exact absurd rfl hv
  | tooDeep n => rw [firstAnswer, h]

theorem firstAnswer_singleton (answer : State → Option Verdict) (s : State) : firstAnswer answer [s] = answer s := by
  rw [firstAnswer]
  split
  · rename_i rejected
    exact rejected.symm
  · rfl

/-- An answer comes from the first state, or from the others if the first one rejects. -/
theorem firstAnswer_cons_eq_some {s : State} {rest : List State} {v : Verdict}
    (h : firstAnswer answer (s :: rest) = some v) :
    answer s = some v ∧ v ≠ .rejects ∨ answer s = some .rejects ∧ firstAnswer answer rest = some v := by
  by_cases rejected : answer s = some .rejects
  · rw [firstAnswer_cons_of_rejects rejected] at h
    exact .inr ⟨rejected, h⟩
  · have first : answer s = some v := by
      rw [firstAnswer] at h
      split at h
      · rename_i same
        exact absurd same rejected
      · exact h
    refine .inl ⟨first, ?_⟩
    rintro rfl
    exact rejected first

/-- An answer for two lists of states is the answer for the first, or for the second if the first one is
rejected. -/
theorem firstAnswer_append_eq_some {front back : List State} {v : Verdict}
    (h : firstAnswer answer (front ++ back) = some v) :
    firstAnswer answer front = some v ∧ v ≠ .rejects ∨
      firstAnswer answer front = some .rejects ∧ firstAnswer answer back = some v := by
  induction front with
  | nil => exact .inr ⟨rfl, h⟩
  | cons s front ih =>
    rcases firstAnswer_cons_eq_some h with ⟨first, found⟩ | ⟨rejected, h⟩
    · exact .inl ⟨firstAnswer_cons_of_found first found _, found⟩
    · rw [firstAnswer_cons_of_rejects rejected]
      exact ih h

theorem firstAnswer_congr {other : State → Option Verdict} {agenda : List State}
    (same : ∀ s ∈ agenda, answer s = other s) : firstAnswer answer agenda = firstAnswer other agenda := by
  induction agenda with
  | nil => rfl
  | cons s rest ih =>
    have first := same s List.mem_cons_self
    have later := ih fun t ht => same t (List.mem_cons_of_mem _ ht)
    rw [firstAnswer, firstAnswer, first, later]

theorem firstAnswer_mono {more : State → Option Verdict}
    (h : ∀ s v, answer s = some v → more s = some v) {agenda : List State} {v : Verdict}
    (found : firstAnswer answer agenda = some v) : firstAnswer more agenda = some v := by
  induction agenda with
  | nil => exact found
  | cons s rest ih =>
    rcases firstAnswer_cons_eq_some found with ⟨first, hv⟩ | ⟨rejected, found⟩
    · exact firstAnswer_cons_of_found (h s v first) hv _
    · rw [firstAnswer_cons_of_rejects (h s _ rejected)]
      exact ih found

theorem descend_of_states {steps : Nat} {s : State} {next : List State} (shallow : s.exceeds limit = false)
    (hx : s.expand E = .states next) :
    descend E limit (steps + 1) s = firstAnswer (descend E limit steps) next := by
  simp [descend, shallow, hx]

/-- A recursion that may be nested deeper keeps every answer. -/
theorem descend_mono {steps more : Nat} (h : steps ≤ more) {s : State} {v : Verdict}
    (found : descend E limit steps s = some v) : descend E limit more s = some v := by
  induction steps generalizing more s v with
  | zero => cases found
  | succ steps ih =>
    obtain ⟨more, rfl⟩ : ∃ k, more = k + 1 := ⟨more - 1, by omega⟩
    have deeper : ∀ t w, descend E limit steps t = some w → descend E limit more t = some w :=
      fun t w => ih (by omega)
    rw [descend] at found ⊢
    by_cases deep : s.exceeds limit = true
    · rw [if_pos deep] at found ⊢
      exact found
    · rw [if_neg deep] at found ⊢
      cases hx : s.expand E with
      | accepted =>
        rw [hx] at found
        exact found
      | states next =>
        rw [hx] at found
        exact firstAnswer_mono deeper found

/-- A search that finds an answer among some states finds it whatever comes after them. -/
theorem Ends.append_of_found {front back : List State} {v : Verdict} (h : Ends E limit front v)
    (hv : v ≠ .rejects) : Ends E limit (front ++ back) v := by
  induction h with
  | rejects => exact absurd rfl hv
  | tooDeep hlimit hn => exact .tooDeep hlimit hn
  | accepts shallow hx => exact .accepts shallow hx
  | states shallow hx _ ih =>
    have joined := ih hv
    rw [List.append_assoc] at joined
    exact .states shallow hx joined

/-- A search that rejects some states goes on with what comes after them. -/
theorem Ends.append_of_rejects {front back : List State} {v : Verdict} (h : Ends E limit front .rejects)
    (hback : Ends E limit back v) : Ends E limit (front ++ back) v := by
  generalize hw : Verdict.rejects = w at h
  induction h with
  | rejects => exact hback
  | tooDeep => cases hw
  | accepts => cases hw
  | states shallow hx _ ih =>
    have joined := ih hw
    rw [List.append_assoc] at joined
    exact .states shallow hx joined

theorem ends_of_firstAnswer (sound : ∀ s v, answer s = some v → Ends E limit [s] v) {agenda : List State}
    {v : Verdict} (found : firstAnswer answer agenda = some v) : Ends E limit agenda v := by
  induction agenda with
  | nil =>
    obtain rfl := Option.some.inj found
    exact .rejects
  | cons s rest ih =>
    rcases firstAnswer_cons_eq_some found with ⟨first, hv⟩ | ⟨rejected, found⟩
    · exact (sound s v first).append_of_found hv
    · exact (sound s _ rejected).append_of_rejects (ih found)

theorem ends_of_descend {steps : Nat} {s : State} {v : Verdict} (found : descend E limit steps s = some v) :
    Ends E limit [s] v := by
  induction steps generalizing s v with
  | zero => cases found
  | succ steps ih =>
    by_cases shallow : s.exceeds limit = false
    · cases hx : s.expand E with
      | accepted =>
        have accepted : descend E limit (steps + 1) s = some (.accepts ⟨s.choices.reverse⟩) := by
          simp [descend, shallow, hx]
        obtain rfl := Option.some.inj (accepted.symm.trans found)
        exact .accepts shallow hx
      | states next =>
        rw [descend_of_states shallow hx] at found
        have below := ends_of_firstAnswer (fun t w => ih) found
        rw [← List.append_nil next] at below
        exact .states shallow hx below
    · obtain ⟨n, rfl, hn⟩ : ∃ n, limit = some n ∧ n < s.depth := by
        simpa [exceeds_eq_false_iff] using shallow
      have cut : descend E (some n) (steps + 1) s = some (.tooDeep n) := by
        simp [descend, State.exceeds, hn]
      obtain rfl := Option.some.inj (cut.symm.trans found)
      exact .tooDeep rfl hn

/-- What a search comes to is found by a recursion that may be nested deep enough. -/
theorem Ends.exists_steps {agenda : List State} {v : Verdict} (h : Ends E limit agenda v) :
    ∃ steps, ∀ more, steps ≤ more → firstAnswer (descend E limit more) agenda = some v := by
  induction h with
  | rejects => exact ⟨0, fun _ _ => rfl⟩
  | @tooDeep n s rest hlimit hn =>
    refine ⟨1, fun more hmore => ?_⟩
    obtain ⟨more, rfl⟩ : ∃ k, more = k + 1 := ⟨more - 1, by omega⟩
    have cut : descend E limit (more + 1) s = some (.tooDeep n) := by
      simp [descend, State.exceeds, hlimit, hn]
    exact firstAnswer_cons_of_found cut (by simp) _
  | @accepts s rest shallow hx =>
    refine ⟨1, fun more hmore => ?_⟩
    obtain ⟨more, rfl⟩ : ∃ k, more = k + 1 := ⟨more - 1, by omega⟩
    have accepted : descend E limit (more + 1) s = some (.accepts ⟨s.choices.reverse⟩) := by
      simp [descend, shallow, hx]
    exact firstAnswer_cons_of_found accepted (by simp) _
  | @states s next rest v shallow hx _ ih =>
    obtain ⟨steps, h⟩ := ih
    refine ⟨steps + 1, fun more hmore => ?_⟩
    obtain ⟨more, rfl⟩ : ∃ k, more = k + 1 := ⟨more - 1, by omega⟩
    have below : descend E limit (more + 1) s = firstAnswer (descend E limit more) next :=
      descend_of_states shallow hx
    rcases firstAnswer_append_eq_some (h more (by omega)) with ⟨found, hv⟩ | ⟨rejected, found⟩
    · exact firstAnswer_cons_of_found (below.trans found) hv _
    · -- the other states were tried one level deeper there than they are here
      rw [firstAnswer_cons_of_rejects (below.trans rejected)]
      exact firstAnswer_mono (fun t w => descend_mono (Nat.le_succ more)) found

/-- The search over an agenda and the recursion come to the same verdicts. -/
theorem ends_iff_exists_steps {agenda : List State} {v : Verdict} :
    Ends E limit agenda v ↔ ∃ steps, firstAnswer (descend E limit steps) agenda = some v := by
  constructor
  · intro h
    obtain ⟨steps, found⟩ := h.exists_steps
    exact ⟨steps, found steps (Nat.le_refl _)⟩
  · rintro ⟨steps, found⟩
    exact ends_of_firstAnswer (fun _ _ => ends_of_descend) found

end Recognition

namespace Ruleset

/-- The recursion that starts with the alternatives of the start symbol, nested at most so deep. -/
def descendWithin (R : Ruleset) (steps : Nat) (limit : Option Nat) (input : List UInt8) : Option Verdict :=
  Recognition.firstAnswer (Recognition.descend R.replacements limit steps)
    (Recognition.opening R.replacements R.start input)

/-- What is reported is what the recursion comes to once it may be nested deep enough. -/
theorem derivation?_eq_result_iff_descends {R : Ruleset} {limit : Option Nat} {input : List UInt8}
    {v : Verdict} :
    R.derivation? limit input = v.result ↔ ∃ steps, R.descendWithin steps limit input = some v :=
  derivation?_eq_result_iff.trans Recognition.ends_iff_exists_steps

end Ruleset

end Descent
