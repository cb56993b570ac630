import Descent.Proofs.Ruleset.Decoding
import Mathlib.Data.List.Induction

/-!
# Escapes in a right-hand side

A right-hand side read byte by byte, with a flag for an open escape in place of a look ahead. Read so, it can be cut
anywhere: what comes behind a cut depends on whether an escape is open there, and on nothing else.
-/
namespace Descent.Step

variable {marker : Symbol} {mode : EscapeMode} {b : UInt8} {u v rhs : List UInt8} {escaped : Bool}

/-- The step that an unescaped byte other than the marker is. -/
def bare (b : UInt8) : Step := if Symbol.isNonTerminal b then .call b else .literal b

/-- The steps of some bytes where a marker makes the byte after it a literal, and whether one stands before them. -/
def readFrom (marker : Symbol) : Bool → List UInt8 → List Step
  | _, [] => []
  | true, b :: rest => .literal b :: readFrom marker false rest
  | false, b :: rest => if b = marker then readFrom marker true rest else bare b :: readFrom marker false rest

/-- Whether the byte behind some others would be escaped: they end in a marker that is not escaped itself. -/
def opensEscape (marker : Symbol) (escaped : Bool) (bytes : List UInt8) : Bool :=
  bytes.foldl (fun escaped b => !escaped && b == marker) escaped

/-- The literals among some steps. -/
def literals (steps : List Step) : List UInt8 :=
  steps.filterMap fun
    | .literal b => some b
    | .call _ => none

@[simp]
theorem literals_nil : literals [] = [] := rfl

@[simp]
theorem literals_literal_cons (b : UInt8) (steps : List Step) : literals (.literal b :: steps) = b :: literals steps := rfl

@[simp]
theorem literals_call_cons (s : Symbol) (steps : List Step) : literals (.call s :: steps) = literals steps := rfl

theorem mem_literals {steps : List Step} : b ∈ literals steps ↔ .literal b ∈ steps := by
  unfold literals
  rw [List.mem_filterMap]
  constructor
  · rintro ⟨step, hstep, h⟩
    cases step with
    | literal c =>
      obtain rfl := Option.some.inj h
      exact hstep
    | call s => simp at h
  · intro h
    exact ⟨.literal b, h, rfl⟩

section Next

theorem next?_cons_of_ne (h : b ≠ marker) (rest : List UInt8) : next? marker mode (b :: rest) = some (bare b, rest) := by
  unfold next? bare Symbol.kind
  rw [if_neg h]
  cases Symbol.isNonTerminal b <;> rfl

theorem next?_marker_skip (rest : List UInt8) : next? marker .skip (marker :: rest) = next? marker .skip rest := by
  rw [next?]
  simp [Symbol.kind]

theorem next?_marker_literal (c : UInt8) (rest : List UInt8) :
    next? marker .literal (marker :: c :: rest) = some (.literal c, rest) := by
  rw [next?]
  simp [Symbol.kind]

theorem next?_marker_end : next? marker .literal [marker] = none := by
  rw [next?]
  simp [Symbol.kind]

end Next

theorem all_nil : all marker mode [] = [] := all_of_next?_eq_none rfl

theorem all_cons_of_ne (h : b ≠ marker) (rest : List UInt8) :
    all marker mode (b :: rest) = bare b :: all marker mode rest :=
  all_of_next?_eq_some (next?_cons_of_ne h rest)

/-- Reading byte by byte comes to the same steps as looking ahead behind a marker. -/
theorem all_literal_eq (rhs : List UInt8) : all marker .literal rhs = readFrom marker false rhs := by
  induction rhs using List.twoStepInduction with
  | nil => exact all_nil
  | singleton b =>
    by_cases h : b = marker
    · subst h
      rw [all_of_next?_eq_none next?_marker_end]
      simp [readFrom]
    · rw [all_cons_of_ne h, all_nil]
      simp [readFrom, h]
  | cons_cons b c rest ih ih' =>
    by_cases h : b = marker
    · subst h
      rw [all_of_next?_eq_some (next?_marker_literal c rest), ih]
      simp [readFrom]
    · rw [all_cons_of_ne h, ih' c]
      simp only [readFrom, h, if_false]

/-- A marker that is dropped leaves no trace: the other bytes are read one by one. -/
theorem all_skip_eq (rhs : List UInt8) : all marker .skip rhs = (rhs.filter (· ≠ marker)).map bare := by
  induction rhs with
  | nil => exact all_nil
  | cons b rest ih =>
    by_cases h : b = marker
    · subst h
      have dropped : all b .skip (b :: rest) = all b .skip rest := by
        cases found : next? b .skip rest with
        | none => rw [all_of_next?_eq_none found, all_of_next?_eq_none ((next?_marker_skip rest).trans found)]
        | some first =>
          obtain ⟨step, between⟩ := first
          rw [all_of_next?_eq_some found, all_of_next?_eq_some ((next?_marker_skip rest).trans found)]
      rw [dropped, ih]
      simp
    · rw [all_cons_of_ne h, ih]
      simp [h]

/-- A cut leaves the steps of both parts, the second read with the escape that is open at the cut. -/
theorem readFrom_append (u v : List UInt8) :
    readFrom marker escaped (u ++ v) =
      readFrom marker escaped u ++ readFrom marker (opensEscape marker escaped u) v := by
  induction u generalizing escaped with
  | nil => cases escaped <;> rfl
  | cons b u ih =>
    have opens : opensEscape marker escaped (b :: u) = opensEscape marker (!escaped && b == marker) u := rfl
    rw [opens, List.cons_append]
    cases escaped with
    | true => simp only [readFrom, ih, List.cons_append, Bool.not_true, Bool.false_and]
    | false =>
      by_cases h : b = marker
      · simp only [readFrom, h, ih, if_true, Bool.not_false, Bool.true_and, beq_self_eq_true]
      · have other : (b == marker) = false := beq_eq_false_iff_ne.2 h
        simp only [readFrom, h, ih, if_false, List.cons_append, Bool.not_false, Bool.true_and, other]

theorem readFrom_true_cons (b : UInt8) (rest : List UInt8) :
    readFrom marker true (b :: rest) = .literal b :: readFrom marker false rest := rfl

/-- A byte behind an open escape is a literal, and the steps before and behind it are those of the two parts. -/
theorem all_literal_append_cons (opened : opensEscape marker false u = true) (b : UInt8) (v : List UInt8) :
    all marker .literal (u ++ b :: v) = all marker .literal u ++ .literal b :: all marker .literal v := by
  rw [all_literal_eq, readFrom_append, opened, readFrom_true_cons, ← all_literal_eq, ← all_literal_eq]

/-- Bytes of terminal kind are literals wherever they stand. -/
theorem literal_mem_readFrom (hb : b ∈ rhs) (other : b ≠ marker) (low : Symbol.isNonTerminal b = false) :
    .literal b ∈ readFrom marker escaped rhs := by
  induction rhs generalizing escaped with
  | nil => cases hb
  | cons c rest ih =>
    have first : bare b = .literal b := by rw [bare, low]; rfl
    rcases List.mem_cons.1 hb with rfl | hb
    · cases escaped with
      | true => exact List.mem_cons_self
      | false =>
        rw [readFrom, if_neg other, first]
        exact List.mem_cons_self
    · cases escaped with
      | true => exact List.mem_cons_of_mem _ (ih hb)
      | false =>
        rw [readFrom]
        split
        · exact ih hb
        · exact List.mem_cons_of_mem _ (ih hb)

/-- A literal in a mode that drops markers is one in the mode that heeds them. -/
theorem literal_mem_all_literal (h : .literal b ∈ all marker mode rhs) : .literal b ∈ all marker .literal rhs := by
  cases mode with
  | literal => exact h
  | skip =>
    rw [all_skip_eq] at h
    obtain ⟨c, hc, same⟩ := List.mem_map.1 h
    obtain ⟨hc, other⟩ := List.mem_filter.1 hc
    unfold bare at same
    split at same
    · cases same
    · rename_i low
      obtain rfl := Step.literal.inj same
      rw [all_literal_eq]
      exact literal_mem_readFrom hc (by simpa using other) (by simpa using low)

end Descent.Step
