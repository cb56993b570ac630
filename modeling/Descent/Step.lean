import Descent.Symbol

/-!
# Steps

How a right-hand side reads: a sequence of literal bytes and calls of non-terminals. The escape
marker is never a step of its own; the two escape modes differ in what the byte after it means.
-/
namespace Descent

inductive Step
  | literal (b : UInt8)
  | call (s : Symbol)
  deriving DecidableEq, Repr

/-- What an escape marker does to the byte after it. -/
inductive EscapeMode
  /-- The byte after the marker is a literal, whatever it is. -/
  | literal
  /-- The marker is dropped and the byte after it keeps its kind. -/
  | skip
  deriving DecidableEq, Repr

namespace Step

/-- The first step of a right-hand side and what follows it. A marker at the very end is no step. -/
def next? (marker : Symbol) (mode : EscapeMode) : List UInt8 → Option (Step × List UInt8)
  | [] => none
  | b :: rest =>
    match Symbol.kind marker b with
    | .nonTerminal => some (.call b, rest)
    | .terminal => some (.literal b, rest)
    | .escape =>
      match mode with
      | .skip => next? marker mode rest
      | .literal =>
        match rest with
        | [] => none
        | c :: rest => some (.literal c, rest)

theorem length_lt_of_next? {marker : Symbol} {mode : EscapeMode} {rhs rest : List UInt8} {step : Step}
    (h : next? marker mode rhs = some (step, rest)) : rest.length < rhs.length := by
  induction rhs with
  | nil => simp [next?] at h
  | cons b tail ih =>
    simp only [next?] at h
    split at h
    · simp only [Option.some.injEq, Prod.mk.injEq] at h
      simp [← h.2]
    · simp only [Option.some.injEq, Prod.mk.injEq] at h
      simp [← h.2]
    · split at h
      · have := ih h
        simp only [List.length_cons]
        omega
      · split at h
        · simp at h
        · simp only [Option.some.injEq, Prod.mk.injEq] at h
          simp only [← h.2, List.length_cons]
          omega

/-- All steps of a right-hand side, left to right, each with what it leaves. -/
def trail (marker : Symbol) (mode : EscapeMode) (rhs : List UInt8) : List (Step × List UInt8) :=
  match _h : next? marker mode rhs with
  | none => []
  | some (step, rest) => (step, rest) :: trail marker mode rest
termination_by rhs.length
decreasing_by exact length_lt_of_next? _h

def all (marker : Symbol) (mode : EscapeMode) (rhs : List UInt8) : List Step :=
  (trail marker mode rhs).map (·.1)

end Step

end Descent
