import Descent.Grammar

/-!
# Drafts

A short way to write a grammar down: a rule declares its left-hand side and the terminals of its
right-hand side. Symbols given as characters count by the low eight bits of their code points.
-/
namespace Descent.Grammar

inductive Draft
  | name (name : String)
  | escape (marker : Char)
  | nonTerminals (symbols : List Symbol)
  | terminals (symbols : List Symbol)
  | rule (lhs : Char) (rhs : List UInt8)
  deriving DecidableEq, Repr

def lowByte (c : Char) : Symbol := UInt8.ofNat c.toNat

/-- The bytes of a right-hand side that count as terminals: those of terminal kind, and the byte
after a marker, whatever it is. Unescaped capital letters are passed over. -/
def mentioned (marker : Symbol) (escaped : Bool) : List UInt8 → List Symbol
  | [] => []
  | b :: rest =>
    if escaped || Symbol.kind marker b == .terminal then b :: mentioned marker false rest
    else mentioned marker (Symbol.kind marker b == .escape) rest

def draft (g : Grammar) : Draft → Grammar
  | .name name => g.setName name
  | .escape marker => g.setEscape (lowByte marker)
  | .nonTerminals symbols => symbols.foldl declareNonTerminal g
  | .terminals symbols => symbols.foldl declareTerminal g
  | .rule lhs rhs =>
    let declared := g.declareNonTerminal (lowByte lhs)
    let named := (mentioned declared.escape false rhs).foldl declareTerminal declared
    named.addAlternative (lowByte lhs) rhs

def ofDraft (start : Char) (lines : List Draft) : Grammar :=
  lines.foldl draft (empty.setStart (lowByte start))

end Descent.Grammar
