import Descent.CommandLine.Arguments
import Descent.CommandLine.Report
import Descent.Emission.Source
import Descent.Listing.Printer
import Descent.Listing.Reader
import Descent.Recognition.Search
import Descent.Sampling.ChaCha
import Descent.Settings.Reader

/-!
# Runs

What a run of the program does, as a function of its arguments and of what its surroundings answer.
Settings are resolved before the grammar is read, and an output file is written only after all of its
text has been made, so a run that fails leaves no file behind.
-/
namespace Descent.CommandLine

structure Host where
  read : String → Except FileFault (List UInt8)
  write : String → Except FileFault Unit
  /-- The seed of a run that is given none. -/
  entropy : UInt64

structure Transcript where
  output : String := ""
  status : String := ""
  /-- The path and the text of the file that was written. -/
  saved : Option (String × String) := none
  deriving DecidableEq, Repr

/-- The lines of the status messages. A path may hold line ends, so one message may be several. -/
def Transcript.statusLines (t : Transcript) : List String :=
  (Text.lines '\n' '\r' t.status.toList).map String.ofList

/-- A run that may fail; what was printed before stays printed. -/
abbrev Session (α : Type) := Transcript → Except Failure α × Transcript

namespace Session

variable {α β : Type}

def pure (a : α) : Session α := fun t => (.ok a, t)

def fail (failure : Failure) : Session α := fun t => (.error failure, t)

/-- One session after another; the first failure ends both. -/
def andThen (first : Session α) (second : α → Session β) : Session β := fun t =>
  match first t with
  | (.ok a, t) => second a t
  | (.error failure, t) => (.error failure, t)

def lift (result : Except Fault α) : Session α := fun t =>
  match result with
  | .ok a => (.ok a, t)
  | .error fault => (.error (.fault fault), t)

def print (text : String) : Session Unit := fun t =>
  (.ok (), { t with output := t.output ++ text })

def note (quiet : Bool) (message : String) : Session Unit := fun t =>
  (.ok (), if quiet then t else { t with status := t.status ++ message ++ "\n" })

def save (host : Host) (path text : String) : Session Unit := fun t =>
  match host.write path with
  | .ok () => (.ok (), { t with saved := some (path, text) })
  | .error cause => (.error (.unsaved cause), t)

end Session

instance : Monad Session where
  pure := Session.pure
  bind := Session.andThen

def settingsOfBytes (bytes : List UInt8) : Except Fault Settings :=
  match Text.Utf8.decode? bytes with
  | none => .error (.file .notUtf8)
  | some text => (Settings.ofJson text).mapError .settings

/-- The settings that options ask for: those of the settings file, with what the options override. -/
def resolve (host : Host) (o : Options) : Except Fault Settings := do
  let base ←
    match o.config with
    | none => .ok {}
    | some path => (host.read path).mapError Fault.file >>= settingsOfBytes
  .ok { base with target := o.target.getD base.target, mode := o.mode.getD base.mode }

def load (host : Host) (quiet : Bool) (path : String) : Session Grammar := do
  Session.note quiet ("Loading grammar from " ++ path ++ "...")
  let bytes ← Session.lift ((host.read path).mapError Fault.file)
  let g ← Session.lift (Listing.readBytes bytes)
  Session.note quiet
    ("Loaded " ++ toString g.nonTerminals.length ++ " non-terminals, " ++
      toString g.terminals.length ++ " terminals, " ++ toString g.alternativeCount ++
      " alternatives.")
  return g

/-- Emits a recognizer into a file, or to the output if there is none. -/
def generate (host : Host) (quiet : Bool) (grammar : String) (output : Option String)
    (o : Options) : Session Unit := do
  let settings ← Session.lift (resolve host o)
  let g ← load host quiet grammar
  let source ← Session.lift (g.emit settings.target settings.mode settings.comments)
  match output with
  | none => Session.print source
  | some path => do
    Session.save host path source
    Session.note quiet ("Wrote " ++ settings.target.label ++ " recognizer to " ++ path)

/-- Recognizes inputs, each with a line of output; gives the number of those rejected. -/
def checkAll (R : Ruleset) (limit : Option Nat) : List String → Session Nat
  | [] => Session.pure 0
  | input :: rest => do
    let accepted ← Session.lift (R.recognize limit (Text.Utf8.encode input.toList))
    Session.print ((if accepted then "accept" else "reject") ++ "\t" ++ input ++ "\n")
    let rejected ← checkAll R limit rest
    return if accepted then rejected else rejected + 1

def check (host : Host) (quiet : Bool) (grammar : String) (inputs : List String) (o : Options) :
    Session Unit := do
  let settings ← Session.lift (resolve host o)
  let g ← load host quiet grammar
  let R ← Session.lift (Ruleset.ofGrammar g settings.mode)
  let rejected ← checkAll R settings.limit inputs
  if rejected = 0 then return () else Session.fail (.rejected rejected inputs.length)

def numberedLines (sentences : List (List UInt8)) : String :=
  String.join (sentences.mapIdx fun i w =>
    toString (i + 1) ++ ". " ++ String.ofList (Text.Utf8.decodeLossy w) ++ "\n")

/-- How many draws in a row may nest too deep. -/
def attempts : Nat := 100

def sample (host : Host) (quiet : Bool) (grammar : String) (count : Nat) (seed : Option UInt64)
    (maxDepth : Nat) (o : Options) : Session Unit := do
  let settings ← Session.lift (resolve host o)
  let g ← load host quiet grammar
  let R ← Session.lift (Ruleset.ofGrammar g settings.mode)
  Session.note quiet ("Generating " ++ toString count ++ " random samples:\n")
  let stream := Sampling.ChaCha.ofSeed (seed.getD host.entropy)
  let drawn := Sampling.sentences R Sampling.ChaCha.source.pick maxDepth attempts count stream
  let sentences ← Session.lift drawn.1
  Session.print (numberedLines sentences)

def perform (host : Host) (i : Invocation) : Session Unit :=
  match i.command with
  | .generate grammar output o => generate host i.quiet grammar output o
  | .print grammar => do
    let g ← load host i.quiet grammar
    Session.print (String.ofList (Listing.print g))
  | .check grammar inputs o => check host i.quiet grammar inputs o
  | .sample grammar count seed maxDepth o => sample host i.quiet grammar count seed maxDepth o

def Command.reads : Command → List String
  | .generate grammar _ o => o.config.toList ++ [grammar]
  | .print grammar => [grammar]
  | .check grammar _ o => o.config.toList ++ [grammar]
  | .sample grammar _ _ _ o => o.config.toList ++ [grammar]

def run (host : Host) (arguments : List String) : Nat × Transcript :=
  match invocation? false arguments with
  | none => (2, {})
  | some i =>
    match perform host i {} with
    | (.ok (), t) => (0, t)
    | (.error failure, t) => (failure.ending.1, { t with status := t.status ++ failure.ending.2 })

end Descent.CommandLine
