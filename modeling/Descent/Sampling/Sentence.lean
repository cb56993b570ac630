import Descent.Ruleset

/-!
# Sampling sentences

A draw expands the start symbol, each call by an alternative that a chooser picks. The chooser and its
state are parameters: random words, a list of indices and a recorded derivation are all choosers.
The depth limit is looked at before a choice is made, so a draw that is cut off has taken no choice
for the symbol that was too deep.
-/
namespace Descent.Sampling

/-- Picks an index below a number, or gives up. -/
abbrev Chooser (σ : Type) := Nat → σ → Option Nat × σ

/-- A computation that makes choices and may fail; the choices made stay made. -/
abbrev Draw (σ α : Type) := σ → Except Fault α × σ

namespace Draw

variable {σ α β : Type}

def pure (a : α) : Draw σ α := fun state => (.ok a, state)

def fail (fault : Fault) : Draw σ α := fun state => (.error fault, state)

/-- One draw after another; the first failure ends both. -/
def andThen (first : Draw σ α) (second : α → Draw σ β) : Draw σ β := fun state =>
  match first state with
  | (.ok a, state) => second a state
  | (.error fault, state) => (.error fault, state)

end Draw

/-- The replacement that a chooser picks for a symbol. -/
def choose {σ : Type} (E : Replacements) (pick : Chooser σ) (s : Symbol) : Draw σ (List Step) :=
  match E s with
  | none => .fail (.noRule s)
  | some [] => .fail (.noAlternatives s)
  | some bodies => fun state =>
    match pick bodies.length state with
    | (none, state) => (.error .noUsableWord, state)
    | (some i, state) =>
      match bodies[i]? with
      | some body => (.ok body, state)
      | none => (.error .noUsableWord, state)

/-- Emits the steps of a replacement behind `out`, given how to expand a call. -/
def emitSteps {σ : Type} (call : Symbol → List UInt8 → Draw σ (List UInt8)) :
    List Step → List UInt8 → Draw σ (List UInt8)
  | [], out => .pure out
  | .literal b :: rest, out => emitSteps call rest (b :: out)
  | .call s :: rest, out => (call s out).andThen (emitSteps call rest)

/-- Expands a symbol with so many levels left, the sentence so far reversed in `out`. -/
def expand {σ : Type} (E : Replacements) (pick : Chooser σ) (limit : Nat) :
    Nat → Symbol → List UInt8 → Draw σ (List UInt8)
  | 0, _, _ => .fail (.tooDeep limit)
  | levels + 1, s, out =>
    (choose E pick s).andThen fun body => emitSteps (expand E pick limit levels) body out

/-- Draws one sentence of at most so many levels. -/
def sentence {σ : Type} (R : Ruleset) (pick : Chooser σ) (limit : Nat) : Draw σ (List UInt8) :=
  fun state =>
    match expand R.replacements pick limit limit R.start [] state with
    | (.ok out, state) => (.ok out.reverse, state)
    | (.error fault, state) => (.error fault, state)

/-- Draws so many more sentences behind those in `done`, latest first. Draws that nest too deep are
repeated, up to `attempts` in a row, of which `left` are left; at least one is made. -/
def sentencesFrom {σ : Type} (R : Ruleset) (pick : Chooser σ) (limit attempts : Nat)
    (count left : Nat) (done : List (List UInt8)) : Draw σ (List (List UInt8)) := fun state =>
  match count with
  | 0 => (.ok done.reverse, state)
  | more + 1 =>
    match sentence R pick limit state with
    | (.ok w, state) => sentencesFrom R pick limit attempts more attempts (w :: done) state
    | (.error (.tooDeep n), state) =>
      if 1 < left then sentencesFrom R pick limit attempts (more + 1) (left - 1) done state
      else (.error (.tooDeep n), state)
    | (.error fault, state) => (.error fault, state)
termination_by (count, left)

/-- The most sentences that a list has room for: each takes 24 bytes, of which a list has fewer than 2^63. -/
def mostSentences : Nat := (UInt64.size / 2 - 1) / 24

/-- Draws so many sentences. The room for all of them is asked for before the first draw. -/
def sentences {σ : Type} (R : Ruleset) (pick : Chooser σ) (limit attempts count : Nat) :
    Draw σ (List (List UInt8)) :=
  if count ≤ mostSentences then sentencesFrom R pick limit attempts count attempts []
  else .fail (.noRoom count)

/-- The levels that a draw may have unless it is told otherwise. -/
def defaultLimit : Nat := 64

end Descent.Sampling
