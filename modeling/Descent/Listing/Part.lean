/-!
# Parts of a listing

The lines of a listing in their order, blank lines and comments apart.
-/
namespace Descent.Listing

inductive Part
  /-- The name of the grammar and the opening parenthesis. -/
  | header
  | nonTerminals
  | terminals
  | start
  /-- The brace that opens the productions. -/
  | opening
  /-- A production or the brace that closes them. -/
  | productions
  | close
  | done
  deriving DecidableEq, Repr

/-- How messages call a part that the end of the text leaves out. -/
def Part.label : Part → String
  | .header => "Header"
  | .nonTerminals => "NonTerminals"
  | .terminals => "Terminals"
  | .start => "Initial"
  | .opening => "ProductionsOpen"
  | .productions => "Productions"
  | .close => "Close"
  | .done => "Done"

inductive LineProblem
  /-- The line has not the form that its part asks for. -/
  | unexpected (part : Part)
  | badSymbol (token : List Char)
  deriving DecidableEq, Repr

def LineProblem.message : LineProblem → String
  | .unexpected .header => "expected \x60name = (\x60"
  | .unexpected .nonTerminals => "expected a symbol set \x60\x7b ... \x7d\x60"
  | .unexpected .terminals => "expected a symbol set \x60\x7b ... \x7d\x60"
  | .unexpected .start => "expected the start symbol"
  | .unexpected .opening => "expected \x60\x7b\x60 opening the productions"
  | .unexpected .productions => "expected a production \x60X->rhs\x60"
  | .unexpected .close => "expected \x60)\x60 closing the grammar"
  | .unexpected .done => "unexpected text after the grammar"
  | .badSymbol token => "invalid symbol \x60" ++ String.ofList token ++ "\x60"

end Descent.Listing
