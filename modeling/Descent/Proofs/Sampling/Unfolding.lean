import Descent.Proofs.Recognition.Yield
import Descent.Sampling.Sentence

/-!
# Leftmost expansion by indices

Indices spell a leftmost expansion of some steps, each call one level below its caller. It is determined by them: it
leads to one form that waits for an index, and that form says how the expansion ends, by its level and its symbol.
-/
namespace Descent.Sampling

variable {σ : Type}

namespace Chooser

/-- Among so many it always returns one of them. -/
def Returns (pick : Chooser σ) (n : Nat) : Prop := ∀ state, ∃ i next, i < n ∧ pick n state = (some i, next)

/-- Among so many it can return each one, whatever comes after that. -/
def ReturnsEach (pick : Chooser σ) (n : Nat) : Prop := ∀ i < n, ∀ next, ∃ state, pick n state = (some i, next)

end Chooser

/-- Steps with the level at which they would be expanded if they are calls. -/
abbrev Form := List (Nat × Step)

/-- Some indices expand a form leftmost, each the call that comes first and none at a level past the limit; the string
is what is emitted on the way. -/
inductive Unfolds (E : Replacements) (limit : Nat) : Form → List Nat → List UInt8 → Form → Prop
  | done {form : Form} : Unfolds E limit form [] [] form
  | literal {k : Nat} {b : UInt8} {rest form : Form} {indices : List Nat} {w : List UInt8} :
    Unfolds E limit rest indices w form → Unfolds E limit ((k, .literal b) :: rest) indices (b :: w) form
  | call {k i : Nat} {s : Symbol} {body : List Step} {rest form : Form} {indices : List Nat} {w : List UInt8} :
    k ≤ limit → (E.bodies s)[i]? = some body → Unfolds E limit (body.map (k + 1, ·) ++ rest) indices w form →
    Unfolds E limit ((k, .call s) :: rest) (i :: indices) w form

/-- What keeps the first call of a form from being expanded: its level, its symbol, or a choice that comes to nothing;
with the fault, and the index that is out of range if there is one. -/
inductive Blocked (E : Replacements) (pick : Chooser σ) (limit : Nat) : Form → List Nat → Fault → Prop
  | tooDeep {s : Symbol} {rest : Form} : Blocked E pick limit ((limit + 1, .call s) :: rest) [] (.tooDeep limit)
  | noRule {k : Nat} {s : Symbol} {rest : Form} : k ≤ limit → E s = none →
    Blocked E pick limit ((k, .call s) :: rest) [] (.noRule s)
  | noAlternatives {k : Nat} {s : Symbol} {rest : Form} : k ≤ limit → E s = some [] →
    Blocked E pick limit ((k, .call s) :: rest) [] (.noAlternatives s)
  | unpicked {k : Nat} {s : Symbol} {rest : Form} {picked : Option Nat} {state next : σ} : k ≤ limit →
    E.bodies s ≠ [] → pick (E.bodies s).length state = (picked, next) →
    (∀ i, picked = some i → (E.bodies s)[i]? = none) →
    Blocked E pick limit ((k, .call s) :: rest) picked.toList .noUsableWord

/-- How a form ends if some indices are returned: with the string emitted, or with the fault of what blocks it. -/
inductive Halts (E : Replacements) (pick : Chooser σ) (limit : Nat) (form : Form) :
    List Nat → Except Fault (List UInt8) → Prop
  | ok {made : List Nat} {w : List UInt8} : Unfolds E limit form made w [] → Halts E pick limit form made (.ok w)
  | error {made odd : List Nat} {w : List UInt8} {left : Form} {fault : Fault} : Unfolds E limit form made w left →
    Blocked E pick limit left odd fault → Halts E pick limit form (made ++ odd) (.error fault)

section Forms

variable {E : Replacements} {pick : Chooser σ} {limit k : Nat} {form mid left rest : Form} {made more odd : List Nat}
  {w v : List UInt8} {fault : Fault} {outcome : Except Fault (List UInt8)}

/-- A form that has to wait for an index, or has ended. -/
def Form.Settled (form : Form) : Prop := ∀ k b rest, form ≠ (k, .literal b) :: rest

theorem settled_nil : Form.Settled [] := fun _ _ _ h => nomatch h

theorem settled_call {s : Symbol} : Form.Settled ((k, .call s) :: rest) := fun _ _ _ h => nomatch h

theorem Unfolds.trans (first : Unfolds E limit form made w mid) (second : Unfolds E limit mid more v left) :
    Unfolds E limit form (made ++ more) (w ++ v) left := by
  induction first with
  | done => exact second
  | literal _ ih => exact .literal (ih second)
  | call low hbody _ ih => exact .call low hbody (ih second)

theorem Unfolds.frame (h : Unfolds E limit form made w left) (rest : Form) :
    Unfolds E limit (form ++ rest) made w (left ++ rest) := by
  induction h with
  | done => exact .done
  | literal _ ih => exact .literal ih
  | call low hbody _ ih =>
    rw [List.append_assoc] at ih
    exact .call low hbody ih

/-- Indices lead one way only: to a form that waits they lead through every form that some of them lead to. -/
theorem Unfolds.resume (first : Unfolds E limit form made w mid) {all : List Nat} (ordered : all = made ++ more)
    (whole : Unfolds E limit form all v left) (settled : left.Settled) :
    ∃ u, v = w ++ u ∧ Unfolds E limit mid more u left := by
  -- on the first part: the whole cannot stop in front of a literal, since what it leads to has to wait
  induction first generalizing all v with
  | done =>
    subst ordered
    exact ⟨v, rfl, whole⟩
  | literal _ ih =>
    cases whole with
    | done => exact absurd rfl (settled _ _ _)
    | literal whole =>
      obtain ⟨u, rfl, h⟩ := ih ordered whole
      exact ⟨u, rfl, h⟩
  | call _ hbody _ ih =>
    subst ordered
    cases whole with
    | call _ hbody' whole =>
      obtain rfl := Option.some.inj (hbody.symm.trans hbody')
      exact ih rfl whole

theorem Unfolds.eq_of_settled (h : Unfolds E limit form [] w left) (settled : form.Settled) : w = [] ∧ left = form := by
  cases h with
  | done => exact ⟨rfl, rfl⟩
  | literal _ => exact absurd rfl (settled _ _ _)

/-- The form that waits behind some indices is determined by them, and so is the string emitted before it. -/
theorem Unfolds.unique (h : Unfolds E limit form made w mid) (h' : Unfolds E limit form made v left)
    (waits : mid.Settled) (waits' : left.Settled) : w = v ∧ mid = left := by
  obtain ⟨u, rfl, after⟩ := h.resume (List.append_nil _).symm h' waits'
  obtain ⟨rfl, rfl⟩ := after.eq_of_settled waits
  exact ⟨(List.append_nil w).symm, rfl⟩

theorem Blocked.settled (h : Blocked E pick limit form odd fault) : form.Settled := by
  cases h <;> exact settled_call

theorem Blocked.frame (h : Blocked E pick limit form odd fault) (rest : Form) :
    Blocked E pick limit (form ++ rest) odd fault := by
  cases h with
  | tooDeep => exact .tooDeep
  | noRule low missing => exact .noRule low missing
  | noAlternatives low barren => exact .noAlternatives low barren
  | unpicked low offered picked out => exact .unpicked low offered picked out

theorem Halts.frame (h : Halts E pick limit form made (.error fault)) (rest : Form) :
    Halts E pick limit (form ++ rest) made (.error fault) := by
  cases h with
  | error unfolded blocked => exact .error (unfolded.frame rest) (blocked.frame rest)

theorem Halts.after (first : Unfolds E limit form made w mid) (h : Halts E pick limit mid more outcome) :
    Halts E pick limit form (made ++ more) (outcome.map (w ++ ·)) := by
  cases h with
  | ok unfolded => exact .ok (first.trans unfolded)
  | error unfolded blocked =>
    rw [← List.append_assoc]
    exact .error (first.trans unfolded) blocked

theorem Blocked.eq_tooDeep {s : Symbol} (h : Blocked E pick limit ((limit + 1, .call s) :: rest) odd fault) :
    fault = .tooDeep limit := by
  cases h with
  | tooDeep => rfl
  | noRule low _ => exact absurd low (Nat.not_succ_le_self _)
  | noAlternatives low _ => exact absurd low (Nat.not_succ_le_self _)
  | unpicked low _ _ _ => exact absurd low (Nat.not_succ_le_self _)

theorem Blocked.eq_barren {s : Symbol} (h : Blocked E pick limit ((k, .call s) :: rest) odd fault) (low : k ≤ limit)
    (barren : E.bodies s = []) : fault = .noRule s ∨ fault = .noAlternatives s := by
  cases h with
  | tooDeep => exact absurd low (Nat.not_succ_le_self _)
  | noRule _ _ => exact .inl rfl
  | noAlternatives _ _ => exact .inr rfl
  | unpicked _ offered _ _ => exact absurd barren offered

/-- Where a form is blocked, its indices lead no further. -/
theorem Blocked.eq_of_unfolds (blocked : Blocked E pick limit form odd fault) (h : Unfolds E limit form odd w left) :
    left = form := by
  have settled := blocked.settled
  cases blocked with
  | @unpicked _ _ _ picked _ _ _ _ _ out =>
    cases picked with
    | none => exact (h.eq_of_settled settled).2
    | some i =>
      cases h with
      | call _ hbody _ => exact absurd (hbody.symm.trans (out i rfl)) (Option.some_ne_none _)
  | _ => exact (h.eq_of_settled settled).2

/-- How a form ends can be seen from where all its indices lead. -/
theorem Halts.of_unfolds (h : Halts E pick limit form made outcome) (unfolded : Unfolds E limit form made w left)
    (settled : left.Settled) :
    left = [] ∧ outcome = .ok w ∨ ∃ odd fault, Blocked E pick limit left odd fault ∧ outcome = .error fault := by
  cases h with
  | ok whole =>
    obtain ⟨rfl, rfl⟩ := whole.unique unfolded settled_nil settled
    exact .inl ⟨rfl, rfl⟩
  | @error made odd _ _ fault first blocked =>
    obtain ⟨u, -, after⟩ := first.resume rfl unfolded settled
    obtain rfl := blocked.eq_of_unfolds after
    exact .inr ⟨odd, fault, blocked, rfl⟩

theorem Halts.eq_ok_iff (h : Halts E pick limit form made outcome) (w : List UInt8) :
    outcome = .ok w ↔ Unfolds E limit form made w [] := by
  constructor
  · rintro rfl
    cases h with
    | ok unfolded => exact unfolded
  · intro unfolded
    rcases h.of_unfolds unfolded settled_nil with ⟨-, same⟩ | ⟨odd, fault, blocked, -⟩
    · exact same
    · cases blocked

theorem Halts.eq_tooDeep_iff (h : Halts E pick limit form made outcome) (n : Nat) :
    outcome = .error (.tooDeep n) ↔
      n = limit ∧ ∃ w s rest, Unfolds E limit form made w ((limit + 1, .call s) :: rest) := by
  constructor
  · rintro rfl
    cases h with
    | error unfolded blocked =>
      cases blocked with
      | tooDeep =>
        rw [List.append_nil]
        exact ⟨rfl, _, _, _, unfolded⟩
  · rintro ⟨rfl, w, s, rest, unfolded⟩
    rcases h.of_unfolds unfolded settled_call with ⟨ended, -⟩ | ⟨odd, fault, blocked, same⟩
    · cases ended
    · rw [same, blocked.eq_tooDeep]

theorem bodies_eq_nil_iff {s : Symbol} : E.bodies s = [] ↔ E s = none ∨ E s = some [] := by
  cases h : E s <;> simp [Replacements.bodies, h]

theorem Halts.eq_barren_iff (h : Halts E pick limit form made outcome) (s : Symbol) :
    outcome = .error (.noRule s) ∨ outcome = .error (.noAlternatives s) ↔
      ∃ w k rest, k ≤ limit ∧ E.bodies s = [] ∧ Unfolds E limit form made w ((k, .call s) :: rest) := by
  constructor
  · intro barren
    cases h with
    | ok unfolded => simp at barren
    | error unfolded blocked =>
      cases blocked with
      | tooDeep => simp at barren
      | @noRule k t rest low missing =>
        obtain rfl : t = s := by simpa using barren
        rw [List.append_nil]
        exact ⟨_, k, rest, low, bodies_eq_nil_iff.2 (.inl missing), unfolded⟩
      | @noAlternatives k t rest low none =>
        obtain rfl : t = s := by simpa using barren
        rw [List.append_nil]
        exact ⟨_, k, rest, low, bodies_eq_nil_iff.2 (.inr none), unfolded⟩
      | unpicked => simp at barren
  · rintro ⟨w, k, rest, low, barren, unfolded⟩
    rcases h.of_unfolds unfolded settled_call with ⟨ended, -⟩ | ⟨odd, fault, blocked, same⟩
    · cases ended
    · rcases blocked.eq_barren low barren with rfl | rfl
      · exact .inl same
      · exact .inr same

/-- A chooser that always returns an index below the number of bodies is never given up. -/
theorem Halts.ne_noUsableWord (h : Halts E pick limit form made outcome)
    (returns : ∀ s, E.bodies s ≠ [] → pick.Returns (E.bodies s).length) : outcome ≠ .error .noUsableWord := by
  rintro rfl
  cases h with
  | error _ blocked =>
    cases blocked with
    | @unpicked _ s _ _ state _ _ offered picked out =>
      obtain ⟨i, _, below, returned⟩ := returns s offered state
      obtain ⟨rfl, -⟩ := Prod.mk.inj (picked.symm.trans returned)
      exact absurd (out i rfl) (by simpa using below)

theorem Halts.cases (h : Halts E pick limit form made outcome)
    (returns : ∀ s, E.bodies s ≠ [] → pick.Returns (E.bodies s).length) :
    (∃ w, outcome = .ok w) ∨ outcome = .error (.tooDeep limit) ∨
      ∃ s, outcome = .error (.noRule s) ∨ outcome = .error (.noAlternatives s) := by
  have usable := h.ne_noUsableWord returns
  cases h with
  | ok => exact .inl ⟨_, rfl⟩
  | error _ blocked =>
    cases blocked with
    | tooDeep => exact .inr (.inl rfl)
    | noRule => exact .inr (.inr ⟨_, .inl rfl⟩)
    | noAlternatives => exact .inr (.inr ⟨_, .inr rfl⟩)
    | unpicked => exact absurd rfl usable

end Forms

end Descent.Sampling
