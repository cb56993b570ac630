import Descent.Emission.Spelling

/-!
# Layout

Emitted source is a list of lines. Nested lines are indented by four spaces; empty lines stay empty.
-/
namespace Descent.Emission

def indent (lines : List String) : List String :=
  lines.map fun line => if line.isEmpty then line else "    " ++ line

/-- A head with an opening brace, and the nested lines. -/
def opened (head : String) (body : List String) : List String :=
  (head ++ " \x7b") :: indent body

/-- A head with nested lines between braces, and something behind the closing brace. -/
def blockThen (head : String) (body : List String) (behind : String) : List String :=
  opened head body ++ ["\x7d" ++ behind]

def block (head : String) (body : List String) : List String := blockThen head body ""

/-- A head with nested lines between braces that stand on lines of their own. -/
def function (head : String) (body : List String) : List String :=
  head :: "\x7b" :: indent body ++ ["\x7d"]

/-- The text of some lines; each ends with a newline. -/
def text (lines : List String) : String := String.join (lines.map (· ++ "\n"))

def opening (R : Ruleset) : List String :=
  ["// Recognizer for grammar " ++ String.ofList (nameText R.name) ++ ", generated by rd-gen.",
    "// Usage: <program> <input>; prints accept or reject."]

def remark (r : Rule) (comments : Bool) : List String :=
  if comments then ["// " ++ String.ofList (summary r)] else []

def continuationRemark : String :=
  "Pattern left at one nesting level, and what the enclosing level still needs."

structure Program where
  prelude : List String
  matcher : List String
  rules : List (List String)
  dispatch : List String
  entry : List String
  deriving DecidableEq, Repr

/-- All lines of a program, with an empty line between its parts. -/
def Program.lines (p : Program) : List String :=
  p.prelude ++ "" :: p.matcher ++ p.rules.flatMap ("" :: ·) ++ "" :: p.dispatch ++ "" :: p.entry

def Program.source (p : Program) : String := text p.lines

end Descent.Emission
