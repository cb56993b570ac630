import Descent.Listing.Part
import Descent.Symbol
import Descent.Target

/-!
# Faults

Everything that can go wrong, by cause, and the one wording of each. Running out of the depth limit
is a fault of its own kind: it says that a question stays open, not that the answer is no.
-/
namespace Descent

inductive FileFault
  | missing
  | directory
  | underFile
  | denied
  | nameTooLong
  | notUtf8
  | other (reason : String)
  deriving DecidableEq, Repr

def FileFault.message : FileFault → String
  | .missing => "No such file or directory"
  | .directory => "Is a directory"
  | .underFile => "Not a directory"
  | .denied => "Permission denied"
  | .nameTooLong => "File name too long"
  | .notUtf8 => "stream did not contain valid UTF-8"
  | .other reason => reason

inductive SettingsFault
  /-- A well-formed value that does not fit its place. -/
  | mismatch
  | malformed
  /-- A text that ends inside a value. -/
  | truncated
  deriving DecidableEq, Repr

inductive Fault
  | file (cause : FileFault)
  | notUtf8 (line : Nat)
  | line (number : Nat) (problem : Listing.LineProblem)
  | endOfListing (part : Listing.Part)
  /-- The start symbol is unset or no declared non-terminal. -/
  | badStart (start : Option Symbol)
  | undeclaredCall (callee caller : Symbol) (alternative : Nat)
  | noRule (s : Symbol)
  | noAlternatives (s : Symbol)
  /-- A source of random words never gives one that can be used. -/
  | noUsableWord
  /-- A symbol cannot stand in a literal of the target language. -/
  | unrepresentable (s : Symbol) (target : Target)
  | tooDeep (limit : Nat)
  /-- A search has no answer, however many steps it is given. -/
  | outOfSteps
  | sinkFull
  /-- No list can hold so many entries; whoever asks for one is broken off. -/
  | noRoom (count : Nat)
  | settings (cause : SettingsFault)
  deriving DecidableEq, Repr

namespace Fault

/-- The symbol that is no start symbol, as messages show it. -/
def startText : Option Symbol → String
  | some s => String.ofList s.shown
  | none => "<unset>"

/-- The wording of a listing's fault, without its class. -/
def listingText (number : Nat) (problem : Listing.LineProblem) : String :=
  "line " ++ toString number ++ ": " ++ problem.message

def endText (part : Listing.Part) : String :=
  "unexpected end of input while reading " ++ part.label

def noRuleText (s : Symbol) : String := String.ofList s.shown ++ " has no rule"

def noAlternativesText (s : Symbol) : String := String.ofList s.shown ++ " has no alternatives"

def message : Fault → String
  | .file cause => "IO error: " ++ cause.message
  | .notUtf8 _ => "IO error: " ++ FileFault.notUtf8.message
  | .sinkFull => "IO error: sink full"
  | .line number problem => "Parse error: " ++ listingText number problem
  | .endOfListing part => "Parse error: " ++ endText part
  | .noRule s => "Invalid grammar: " ++ noRuleText s
  | .noAlternatives s => "Invalid grammar: " ++ noAlternativesText s
  | .undeclaredCall callee caller alternative =>
    "Undeclared symbol reference: " ++ String.ofList callee.shown ++ " in alternative " ++
      toString alternative ++ " of " ++ String.ofList caller.shown
  | .badStart start =>
    "Invalid start symbol: " ++ startText start ++ " is not a declared non-terminal"
  | .unrepresentable s target =>
    "Symbol " ++ String.ofList s.shown ++ " cannot be represented in " ++ target.label ++ " output"
  | .tooDeep limit => "Recursion depth " ++ toString limit ++ " exceeded"
  | .outOfSteps => "Search stopped without an answer"
  | .noUsableWord => "Random source gives no usable word"
  | .noRoom _ => "capacity overflow"
  | .settings _ => "Config error"

end Fault

end Descent
