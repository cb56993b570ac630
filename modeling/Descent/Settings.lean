import Descent.Step
import Descent.Target

/-!
# Settings

What a user can set, with its defaults, and the one compact text that settings are written as.
-/
namespace Descent

def EscapeMode.label : EscapeMode → String
  | .literal => "literal"
  | .skip => "skip"

structure Settings where
  target : Target := .rust
  mode : EscapeMode := .literal
  /-- The limit on rules that nest without consuming input, or none. -/
  maxDepth : Option UInt64 := some 2000
  /-- Whether emitted rules are preceded by a comment with their alternatives. -/
  comments : Bool := true
  deriving DecidableEq, Repr

namespace Settings

/-- The limit on recognition that the settings ask for. -/
def limit (c : Settings) : Option Nat := c.maxDepth.map (·.toNat)

/-- The fields in the order in which they are written. -/
inductive Field
  | target
  | mode
  | maxDepth
  | comments
  deriving DecidableEq, Repr

def Field.all : List Field := [.target, .mode, .maxDepth, .comments]

def Field.label : Field → String
  | .target => "target"
  | .mode => "escape_mode"
  | .maxDepth => "max_depth"
  | .comments => "emit_comments"

def fieldText (c : Settings) : Field → String
  | .target => "\"" ++ c.target.label ++ "\""
  | .mode => "\"" ++ c.mode.label ++ "\""
  | .maxDepth =>
    match c.maxDepth with
    | none => "null"
    | some n => toString n.toNat
  | .comments => if c.comments then "true" else "false"

def memberText (c : Settings) (f : Field) : String := "\"" ++ f.label ++ "\":" ++ c.fieldText f

def toJson (c : Settings) : String :=
  "\x7b" ++ String.intercalate "," (Field.all.map c.memberText) ++ "\x7d"

end Settings

end Descent
