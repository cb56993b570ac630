import Descent.Emission.C
import Descent.Emission.Rust

/-!
# Emitted sources

A recognizer is emitted as a whole or not at all: the ruleset has to exist and, for a target that
cannot spell every byte, no symbol in it may be unrepresentable.
-/
namespace Descent

def Target.canSpell (t : Target) (s : Symbol) : Bool :=
  match t with
  | .rust => true
  | .c => s != 0

def Target.program (t : Target) (R : Ruleset) (comments : Bool) : Emission.Program :=
  match t with
  | .rust => Emission.Rust.program R comments
  | .c => Emission.C.program R comments

namespace Ruleset

/-- The bytes that an emitted program has to spell: the escape marker, then those of the right-hand
sides, in order. -/
def spelled (R : Ruleset) : List Symbol :=
  R.escape :: R.rules.flatMap fun r => r.rights.flatMap id

/-- The source text of a ruleset, or the first symbol that cannot be spelled. -/
def emit (R : Ruleset) (t : Target) (comments : Bool) : Except Fault String :=
  match R.spelled.find? (!t.canSpell ·) with
  | some s => .error (.unrepresentable s t)
  | none => .ok (t.program R comments).source

end Ruleset

/-- The source text of a grammar's recognizer, or the first fault. -/
def Grammar.emit (g : Grammar) (t : Target) (mode : EscapeMode) (comments : Bool) :
    Except Fault String := do
  let R ← Ruleset.ofGrammar g mode
  R.emit t comments

end Descent
