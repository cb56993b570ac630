import Descent.Grammar
import Descent.Text.Utf8

/-!
# Printing listings

A listing writes a grammar as lines: header, the two alphabets, the start symbol, and one production
for each alternative, by ascending symbol. The escape marker is not written. Right-hand sides go out
as they are, so one that is no UTF-8, holds a newline or has blanks around it does not read back.
-/
namespace Descent.Listing

/-- The symbols of a set, each with a space before it and a comma behind it. -/
def setLine (symbols : List Symbol) : List Char :=
  '\t' :: '\x7b' :: symbols.flatMap (fun s => ' ' :: s.token ++ [',']) ++ [' ', '\x7d']

def productionLine (s : Symbol) (rhs : List UInt8) : List Char :=
  '\t' :: '\t' :: s.token ++ '-' :: '>' :: Text.Utf8.decodeLossy rhs

def productionLines (g : Grammar) : List (List Char) :=
  g.producing.flatMap fun s => (g.alternatives s).map (productionLine s)

/-- The start symbol, or nothing if it is unset, and a comma. -/
def startLine (start : Option Symbol) : List Char :=
  '\t' :: (start.map Symbol.token).getD [] ++ [',']

/-- The name, or nothing if it is unset, and the opening parenthesis. -/
def headerLine (name : Option String) : List Char :=
  (name.getD "").toList ++ [' ', '=', ' ', '(']

/-- The pieces that a newline each follows. -/
def lines (g : Grammar) : List (List Char) :=
  [headerLine g.name, setLine g.nonTerminals, setLine g.terminals, startLine g.start,
    ['\t', '\x7b']] ++ productionLines g ++ [['\t', '\x7d'], [')']]

def print (g : Grammar) : List Char := (lines g).flatMap (· ++ ['\n'])

end Descent.Listing
