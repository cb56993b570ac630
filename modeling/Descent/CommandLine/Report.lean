import Descent.Fault
import Descent.Text.Quoted

/-!
# Reports

How a run that fails reports why: one line that names the cause and quotes its text.
-/
namespace Descent.CommandLine

def fileReport (cause : FileFault) : String :=
  let system := fun (code : Nat) (kind : String) =>
    "Os \x7b code: " ++ toString code ++ ", kind: " ++ kind ++ ", message: " ++
      Text.quote cause.message ++ " \x7d"
  let plain := fun (kind : String) =>
    "Error \x7b kind: " ++ kind ++ ", message: " ++ Text.quote cause.message ++ " \x7d"
  match cause with
  | .missing => system 2 "NotFound"
  | .denied => system 13 "PermissionDenied"
  | .underFile => system 20 "NotADirectory"
  | .directory => system 21 "IsADirectory"
  | .nameTooLong => system 36 "InvalidFilename"
  | .notUtf8 => plain "InvalidData"
  | .other _ => plain "Other"

def symbolReport (s : Symbol) : String := "Symbol(" ++ toString s.toNat ++ ")"

def textReport (kind text : String) : String := kind ++ "(" ++ Text.quote text ++ ")"

def faultReport : Fault → String
  | .file cause => "Io(" ++ fileReport cause ++ ")"
  | .notUtf8 _ => "Io(" ++ fileReport .notUtf8 ++ ")"
  | .sinkFull => "Io(" ++ fileReport (.other "sink full") ++ ")"
  | .line number problem => textReport "Parse" (Fault.listingText number problem)
  | .endOfListing part => textReport "Parse" (Fault.endText part)
  | .noRule s => textReport "InvalidGrammar" (Fault.noRuleText s)
  | .noAlternatives s => textReport "InvalidGrammar" (Fault.noAlternativesText s)
  | .badStart start => textReport "InvalidStartSymbol" (Fault.startText start)
  | .undeclaredCall callee caller alternative =>
    "UndeclaredSymbolReference \x7b symbol: " ++ symbolReport callee ++ ", lhs: " ++
      symbolReport caller ++ ", alternative: " ++ toString alternative ++ " \x7d"
  | .unrepresentable s target =>
    "UnrepresentableSymbol \x7b symbol: " ++ symbolReport s ++ ", target: " ++
      Text.quote target.label ++ " \x7d"
  | .tooDeep limit => "DepthExceeded(" ++ toString limit ++ ")"
  | .settings _ => "Config"
  | .outOfSteps => Text.quote Fault.outOfSteps.message
  | .noUsableWord => Text.quote Fault.noUsableWord.message
  | .noRoom count => Text.quote (Fault.noRoom count).message

inductive Failure
  | fault (cause : Fault)
  | unsaved (cause : FileFault)
  | rejected (count total : Nat)
  deriving DecidableEq, Repr

def Failure.report : Failure → String
  | .fault cause => faultReport cause
  | .unsaved cause => fileReport cause
  | .rejected count total =>
    Text.quote (toString count ++ " of " ++ toString total ++ " inputs rejected")

/-- What a run that fails prints last, and its exit status. One that is broken off reports no error. -/
def Failure.ending : Failure → Nat × String
  | .fault (.noRoom count) => (101, (Fault.noRoom count).message ++ "\n")
  | failure => (1, "Error: " ++ failure.report ++ "\n")

end Descent.CommandLine
