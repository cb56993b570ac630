import Descent.Recognition.Work

/-!
# Search

The depth-first search over an agenda of states, the first success winning. Under a finite limit it
is total. Without one it need not end, and it has no answer then. The same search can be given a number
of turns; it has no answer either when they run out.
-/
namespace Descent.Recognition

/-- Works off an agenda under a limit. -/
def explore (E : Replacements) (limit : Nat) : List State → Verdict
  | [] => .rejects
  | s :: rest =>
    match _h : turn E (some limit) s rest with
    | .error verdict => verdict
    | .ok agenda => explore E limit agenda
termination_by agenda => agendaWork E limit agenda
decreasing_by exact agendaWork_turn_lt _h

/-- Works off an agenda in at most so many turns, with or without a limit. -/
def exploreWithin (E : Replacements) (limit : Option Nat) : Nat → List State → Option Verdict
  | _, [] => some .rejects
  | 0, _ :: _ => none
  | turns + 1, s :: rest =>
    match turn E limit s rest with
    | .error verdict => some verdict
    | .ok agenda => exploreWithin E limit turns agenda

theorem exploreWithin_nil (E : Replacements) (limit : Option Nat) (turns : Nat) :
    exploreWithin E limit turns [] = some .rejects := by
  cases turns <;> rfl

theorem exploreWithin_cons (E : Replacements) (limit : Option Nat) (turns : Nat) (s : State)
    (rest : List State) :
    exploreWithin E limit (turns + 1) (s :: rest) =
      match turn E limit s rest with
      | .error verdict => some verdict
      | .ok agenda => exploreWithin E limit turns agenda := rfl

/-- A verdict that a search without a limit comes to. -/
abbrev Outcome (E : Replacements) (start : List State) :=
  { v : Verdict // ∃ turns, exploreWithin E none turns start = some v }

/-- An agenda that a search without a limit comes to. -/
structure Progress (E : Replacements) (start : List State) where
  agenda : List State
  same : ∃ taken, ∀ turns, exploreWithin E none (taken + turns) start = exploreWithin E none turns agenda

variable {E : Replacements} {start : List State}

theorem Progress.reaches (p : Progress E start) {turns : Nat} {v : Verdict}
    (h : exploreWithin E none turns p.agenda = some v) :
    ∃ turns, exploreWithin E none turns start = some v := by
  obtain ⟨taken, same⟩ := p.same
  exact ⟨taken + turns, (same turns).trans h⟩

theorem Progress.reaches_of_nil (p : Progress E start) (h : p.agenda = []) :
    ∃ turns, exploreWithin E none turns start = some .rejects := by
  have last : exploreWithin E none 0 p.agenda = some .rejects := by rw [h, exploreWithin_nil]
  exact p.reaches last

theorem Progress.reaches_of_error (p : Progress E start) {s : State} {rest : List State} {v : Verdict}
    (h : p.agenda = s :: rest) (ht : turn E none s rest = .error v) :
    ∃ turns, exploreWithin E none turns start = some v := by
  have last : exploreWithin E none 1 p.agenda = some v := by rw [h, exploreWithin_cons, ht]
  exact p.reaches last

theorem Progress.same_of_ok (p : Progress E start) {s : State} {rest agenda : List State}
    (h : p.agenda = s :: rest) (ht : turn E none s rest = .ok agenda) :
    ∃ taken, ∀ turns, exploreWithin E none (taken + turns) start = exploreWithin E none turns agenda := by
  obtain ⟨taken, same⟩ := p.same
  refine ⟨taken + 1, fun turns => ?_⟩
  rw [Nat.add_assoc, Nat.add_comm 1, same, h, exploreWithin_cons, ht]

/-- One turn of a search without a limit. -/
def Progress.next (p : Progress E start) : Progress E start ⊕ Outcome E start :=
  match h : p.agenda with
  | [] => .inr ⟨.rejects, p.reaches_of_nil h⟩
  | s :: rest =>
    match ht : turn E none s rest with
    | .error v => .inr ⟨v, p.reaches_of_error h ht⟩
    | .ok agenda => .inl ⟨agenda, p.same_of_ok h ht⟩

/-- The outcome of a search that has come so far. One that goes on for ever has no outcome. -/
def Progress.outcome (p : Progress E start) : Option (Outcome E start) :=
  Id.run (repeatM (fun p : Progress E start => pure (p.next.map id some)) p)

theorem Progress.outcome_eq (p : Progress E start) :
    p.outcome = match p.next with
      | .inl p => p.outcome
      | .inr outcome => some outcome := by
  rw [outcome, repeatM_eq_of_monadTail, repeatM.body, pure_bind]
  cases p.next <;> rfl

/-- Works off an agenda without a limit. -/
def exploreFreely (E : Replacements) (start : List State) : Option Verdict :=
  (Progress.outcome (E := E) ⟨start, 0, fun turns => by rw [Nat.zero_add]⟩).map (·.1)

end Recognition

/-- How a verdict is reported: an open question is a fault. -/
def Verdict.result : Verdict → Except Fault (Option Derivation)
  | .accepts d => .ok (some d)
  | .rejects => .ok none
  | .tooDeep limit => .error (.tooDeep limit)

namespace Ruleset

/-- The first derivation of an input in the order of declaration, searched under a limit. -/
def derive (R : Ruleset) (limit : Nat) (input : List UInt8) : Verdict :=
  let E := Replacements.ofTable R.replacements.tabulate
  Recognition.explore E limit (Recognition.opening E R.start input)

def deriveFreely (R : Ruleset) (input : List UInt8) : Option Verdict :=
  let E := Replacements.ofTable R.replacements.tabulate
  Recognition.exploreFreely E (Recognition.opening E R.start input)

/-- The same search in at most so many turns, with or without a limit. -/
def deriveWithin (R : Ruleset) (turns : Nat) (limit : Option Nat) (input : List UInt8) :
    Option Verdict :=
  let E := Replacements.ofTable R.replacements.tabulate
  Recognition.exploreWithin E limit turns (Recognition.opening E R.start input)

theorem derive_eq (R : Ruleset) (limit : Nat) (input : List UInt8) :
    R.derive limit input =
      Recognition.explore R.replacements limit
        (Recognition.opening R.replacements R.start input) := by
  simp [derive]

theorem deriveFreely_eq (R : Ruleset) (input : List UInt8) :
    R.deriveFreely input =
      Recognition.exploreFreely R.replacements
        (Recognition.opening R.replacements R.start input) := by
  simp [deriveFreely]

theorem deriveWithin_eq (R : Ruleset) (turns : Nat) (limit : Option Nat) (input : List UInt8) :
    R.deriveWithin turns limit input =
      Recognition.exploreWithin R.replacements limit turns
        (Recognition.opening R.replacements R.start input) := by
  simp [deriveWithin]

/-- The first derivation of an input, or `none` if there is none. What is said of a search that never
ends is never seen. -/
def derivation? (R : Ruleset) (limit : Option Nat) (input : List UInt8) :
    Except Fault (Option Derivation) :=
  match limit with
  | some limit => (R.derive limit input).result
  | none =>
    match R.deriveFreely input with
    | some verdict => verdict.result
    | none => .error .outOfSteps

def recognize (R : Ruleset) (limit : Option Nat) (input : List UInt8) : Except Fault Bool :=
  (R.derivation? limit input).map (·.isSome)

end Ruleset

end Descent
