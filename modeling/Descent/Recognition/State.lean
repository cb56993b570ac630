import Descent.Recognition.Continuation
import Descent.Recognition.Derivation
import Descent.Ruleset

/-!
# States of the search

A state is one pattern about to be matched, with everything around it. Expanding a state matches
literals up to the next call and then enters each alternative of the callee, in order. The depth of a
state counts the rules entered since the last consumed byte, less the levels finished since then, so
only nesting that consumes nothing can make it grow without bound.
-/
namespace Descent.Recognition

structure State where
  input : List UInt8
  continuation : Continuation Step
  depth : Nat
  /-- The choices made so far, the latest first. -/
  choices : List (Symbol × Nat)
  deriving DecidableEq, Repr

/-- How far the literals at the front of a pattern take a match. -/
inductive Advance (α : Type)
  | mismatch
  /-- A call was reached; the rest of the pattern, of the input and the depth follow. -/
  | call (callee : Symbol) (rest : List α) (input : List UInt8) (depth : Nat)
  /-- The pattern is used up; the rest of the input and the depth follow. -/
  | finished (input : List UInt8) (depth : Nat)

/-- Matches the literals at the front of a pattern; each consumed byte resets the depth. -/
def advance : List Step → List UInt8 → Nat → Advance Step
  | [], input, depth => .finished input depth
  | .call callee :: rest, input, depth => .call callee rest input depth
  | .literal _ :: _, [], _ => .mismatch
  | .literal b :: rest, c :: input, _ => if b = c then advance rest input 0 else .mismatch

/-- The states of the alternatives of a symbol, in order; none if the symbol has no rule. -/
def enter (E : Replacements) (s : Symbol) (input : List UInt8) (c : Continuation Step) (depth : Nat)
    (choices : List (Symbol × Nat)) : List State :=
  match E s with
  | none => []
  | some bodies => bodies.mapIdx fun i body => ⟨input, c.push body, depth + 1, (s, i) :: choices⟩

inductive Expansion
  | accepted
  /-- The states to try next, in order. -/
  | states (next : List State)

@[inline]
def State.expand (E : Replacements) (s : State) : Expansion :=
  match advance s.continuation.pattern s.input s.depth with
  | .mismatch => .states []
  | .call callee rest input depth =>
    .states (enter E callee input ⟨rest, s.continuation.parents⟩ depth s.choices)
  | .finished input depth =>
    match s.continuation.parent? with
    | some parent => .states [⟨input, parent, depth - 1, s.choices⟩]
    | none => if input = [] then .accepted else .states []

/-- Whether a state nests deeper than a limit, if there is one. -/
@[inline]
def State.exceeds (s : State) (limit : Option Nat) : Bool := limit.any (· < s.depth)

/-- One turn of the depth-first search: the first state of the agenda is expanded and its successors
take its place. The search ends with a verdict. -/
@[inline]
def turn (E : Replacements) (limit : Option Nat) (s : State) (rest : List State) :
    Except Verdict (List State) :=
  if s.exceeds limit then .error (.tooDeep (limit.getD 0))
  else
    match s.expand E with
    | .accepted => .error (.accepts ⟨s.choices.reverse⟩)
    | .states next => .ok (next ++ rest)

def opening (E : Replacements) (start : Symbol) (input : List UInt8) : List State :=
  enter E start input .outermost 0 []

end Descent.Recognition
