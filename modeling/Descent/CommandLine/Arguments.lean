import Descent.Sampling.Sentence
import Descent.Settings

/-!
# Arguments

The command line: a command with its operands, and options that may stand anywhere behind it. Every
option may be given once. All arguments are checked before any file is touched.
-/
namespace Descent.CommandLine

/-- Options that override what a settings file says. -/
structure Options where
  config : Option String := none
  target : Option Target := none
  mode : Option EscapeMode := none
  deriving DecidableEq, Repr

inductive Command
  | generate (grammar : String) (output : Option String) (options : Options)
  | print (grammar : String)
  | check (grammar : String) (inputs : List String) (options : Options)
  | sample (grammar : String) (count : Nat) (seed : Option UInt64) (maxDepth : Nat)
      (options : Options)
  deriving DecidableEq, Repr

structure Invocation where
  quiet : Bool
  command : Command
  deriving DecidableEq, Repr

/-- The arguments behind the name of a command, sorted by kind. -/
structure Given where
  quiet : Bool := false
  options : List (String × String) := []
  operands : List String := []
  deriving DecidableEq, Repr

/-- Takes an option with its value, unless it was given before. -/
def Given.withOption (g : Given) (name value : String) : Option Given :=
  if g.options.any (·.1 == name) then none else some { g with options := (name, value) :: g.options }

def Given.withQuiet (g : Given) : Option Given := if g.quiet then none else some { g with quiet := true }

def Given.withOperands (g : Given) (operands : List String) : Given :=
  { g with operands := g.operands ++ operands }

/-- Whether an argument cannot stand for a value: it starts like an option. A lone hyphen can. -/
def looksLikeOption (arg : String) : Bool := arg.toList.head? == some '-' && arg != "-"

/-- The name of a long option and the value behind its equals sign. -/
def splitOption (arg : String) : String × Option String :=
  match arg.toList.span (· != '=') with
  | (name, '=' :: value) => (String.ofList name, some (String.ofList value))
  | _ => (arg, none)

/-- Sorts arguments, given the names of the options that take a value. -/
def sortArguments (known : List String) (g : Given) : List String → Option Given
  | [] => some g
  | arg :: rest =>
    if arg == "--" then some (g.withOperands rest)
    else if arg == "-q" || arg == "--quiet" then do sortArguments known (← g.withQuiet) rest
    else if looksLikeOption arg then
      match splitOption arg with
      | (name, some value) =>
        if name ∈ known then do sortArguments known (← g.withOption name value) rest else none
      | (name, none) =>
        if name ∈ known then
          match rest with
          | value :: rest =>
            if looksLikeOption value then none
            else do sortArguments known (← g.withOption name value) rest
          | [] => none
        else none
    else sortArguments known (g.withOperands [arg]) rest

/-- A number below 2^64; a plus sign and leading zeros are allowed. -/
def word? (text : String) : Option Nat :=
  let digits := match text.toList with
    | '+' :: digits => digits
    | digits => digits
  let n := digits.foldl (fun n c => n * 10 + (c.toNat - 48)) 0
  if !digits.isEmpty && digits.all Char.isDigit && n < UInt64.size then some n else none

def path? (text : String) : Option String := if text.isEmpty then none else some text

/-- The value of an option, read; an option that is not given has the value `none`. -/
def Given.read {α : Type} (g : Given) (name : String) (reader : String → Option α) :
    Option (Option α) :=
  match g.options.find? (·.1 == name) with
  | none => some none
  | some (_, value) => (reader value).map some

def target? (name : String) : Option Target := [Target.rust, .c].find? (·.label == name)

def mode? (name : String) : Option EscapeMode := [EscapeMode.literal, .skip].find? (·.label == name)

def sharedOptions : List String := ["--config", "--target", "--escape-mode"]

def Given.shared (g : Given) : Option Options := do
  let config ← g.read "--config" path?
  let target ← g.read "--target" target?
  let mode ← g.read "--escape-mode" mode?
  some ⟨config, target, mode⟩

def command? (name : String) (arguments : List String) : Option (Bool × Command) :=
  match name with
  | "generate" => do
    let g ← sortArguments sharedOptions {} arguments
    let options ← g.shared
    match g.operands with
    | [grammar] => some (g.quiet, .generate (← path? grammar) none options)
    | [grammar, output] => some (g.quiet, .generate (← path? grammar) (← path? output) options)
    | _ => none
  | "print" => do
    let g ← sortArguments [] {} arguments
    match g.operands with
    | [grammar] => some (g.quiet, .print (← path? grammar))
    | _ => none
  | "check" => do
    let g ← sortArguments sharedOptions {} arguments
    let options ← g.shared
    match g.operands with
    | grammar :: input :: inputs =>
      some (g.quiet, .check (← path? grammar) (input :: inputs) options)
    | _ => none
  | "sample" => do
    let g ← sortArguments ("--seed" :: "--max-depth" :: sharedOptions) {} arguments
    let options ← g.shared
    let seed ← g.read "--seed" word?
    let maxDepth ← g.read "--max-depth" word?
    let sampled := fun grammar count =>
      Command.sample grammar count (seed.map UInt64.ofNat)
        (maxDepth.getD Sampling.defaultLimit) options
    match g.operands with
    | [grammar] => some (g.quiet, sampled (← path? grammar) 1)
    | [grammar, count] => some (g.quiet, sampled (← path? grammar) (← word? count))
    | _ => none
  | _ => none

/-- The invocation that arguments ask for, if they are well formed. -/
def invocation? (quiet : Bool) : List String → Option Invocation
  | [] => none
  | arg :: rest =>
    if arg == "-q" || arg == "--quiet" then if quiet then none else invocation? true rest
    else do
      let (quietly, command) ← command? arg rest
      some ⟨quiet || quietly, command⟩

end Descent.CommandLine
