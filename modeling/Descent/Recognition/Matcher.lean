import Descent.Recognition.State
import Descent.Ruleset.Dispatch

/-!
# Matching on the bytes

The same recognition, call by call and on the right-hand sides as they are written: what a continuation keeps of one is the
bytes that are left, of which one step is read at a time, and a rule is entered through its slot. There is one list of
choices; each alternative adds its own before it is tried, and one that fails is cut off again with all that came behind it.
-/
namespace Descent

namespace Recognition

/-- Whether a match succeeds, with the choices listed when it returns. -/
abbrev Match := Except Fault (Bool × List (Symbol × Nat))

/-- What is reported of a match. -/
def Match.result (outcome : Match) : Except Fault (Option Derivation) :=
  outcome.map fun (accepted, choices) => if accepted then some ⟨choices⟩ else none

/-- Matches the literals at the front of a right-hand side; each consumed byte resets the depth. -/
def advanceBytes (marker : Symbol) (mode : EscapeMode) (pattern input : List UInt8) (depth : Nat) :
    Advance UInt8 :=
  match Step.next? marker mode pattern with
  | none => .finished input depth
  | some (.call callee, rest) => .call callee rest input depth
  | some (.literal b, rest) =>
    match input with
    | [] => .mismatch
    | c :: input => if b = c then advanceBytes marker mode rest input 0 else .mismatch
termination_by structural input

/-- Tries the alternatives of a symbol, of which the first one has a given index, until one of them does not fail. -/
def tryFrom (attempt : List UInt8 → List (Symbol × Nat) → Option Match) (s : Symbol) :
    Nat → List (List UInt8) → List (Symbol × Nat) → Option Match
  | _, [], choices => some (.ok (false, choices))
  | i, rhs :: rest, choices =>
    match attempt rhs (choices ++ [(s, i)]) with
    | some (.ok (false, grown)) => tryFrom attempt s (i + 1) rest (grown.take choices.length)
    | outcome => outcome

/-- Enters the rule of a symbol, given how to go on with a continuation at a depth. -/
def matchRule (R : Ruleset)
    (matchPattern : List UInt8 → Continuation UInt8 → Nat → List (Symbol × Nat) → Option Match) (s : Symbol)
    (input : List UInt8) (c : Continuation UInt8) (depth : Nat) (choices : List (Symbol × Nat)) : Option Match :=
  match R.dispatch s with
  | none => some (.ok (false, choices))
  | some r => tryFrom (fun rhs => matchPattern input (c.push rhs) (depth + 1)) s 0 r.rights choices

/-- Matches a pattern and then all enclosing ones, by calls that are nested at most so deep. -/
def matchPattern (R : Ruleset) (limit : Option Nat) :
    Nat → List UInt8 → Continuation UInt8 → Nat → List (Symbol × Nat) → Option Match
  | 0, _, _, _, _ => none
  | steps + 1, input, c, depth, choices =>
    if limit.any (· < depth) then some (.error (.tooDeep (limit.getD 0)))
    else
      match advanceBytes R.escape R.mode c.pattern input depth with
      | .mismatch => some (.ok (false, choices))
      | .call callee rest input depth =>
        matchRule R (matchPattern R limit steps) callee input ⟨rest, c.parents⟩ depth choices
      | .finished input depth =>
        match c.parent? with
        | some parent => matchPattern R limit steps input parent (depth - 1) choices
        | none => some (.ok (input.isEmpty, choices))

end Recognition

/-- Matches an input from the start symbol on, by calls that are nested at most so deep. -/
def Ruleset.matchWithin (R : Ruleset) (steps : Nat) (limit : Option Nat) (input : List UInt8) :
    Option (Except Fault (Option Derivation)) :=
  (Recognition.matchRule R (Recognition.matchPattern R limit steps) R.start input .outermost 0 []).map
    Recognition.Match.result

end Descent
