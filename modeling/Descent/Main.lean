import Descent.CommandLine.Run

/-!
# The program

Reads the files that the arguments name, runs, and prints the transcript. A file that cannot be
written is told to the run, whose report is then printed instead.
-/
namespace Descent.Main

open Descent.CommandLine

/-- The system's number of a failure; some operations give it negated. -/
def systemCode (code : UInt32) : UInt32 := if code < 0x80000000 then code else 0 - code

def causeOf : IO.Error → FileFault
  | .noFileOrDirectory _ _ _ => .missing
  | .noSuchThing _ _ _ => .missing
  | .permissionDenied _ _ _ => .denied
  | .invalidArgument _ code reason =>
    if systemCode code = 36 then .nameTooLong else .other reason
  | .inappropriateType _ code _ => if systemCode code = 20 then .underFile else .directory
  | e => .other (toString e)

def readFile (path : String) : IO (Except FileFault (List UInt8)) := do
  try
    let bytes ← IO.FS.readBinFile path
    return .ok bytes.toList
  catch e => return .error (causeOf e)

def writeFile (path text : String) : IO (Except FileFault Unit) := do
  try
    IO.FS.writeFile path text
    return .ok ()
  catch e => return .error (causeOf e)

def randomSeed : IO UInt64 := do
  let bytes ← IO.getRandomBytes 8
  return bytes.toList.foldl (fun seed b => seed * 256 + b.toUInt64) 0

def publish (status : Nat) (t : Transcript) : IO UInt32 := do
  IO.print t.output
  IO.eprint t.status
  return UInt32.ofNat status

/-- Runs the program with some files read. -/
def start (arguments : List String) (files : List (String × Except FileFault (List UInt8)))
    (seed : UInt64) : IO UInt32 := do
  let host : Host :=
    ⟨fun path => (files.lookup path).getD (.error .missing), fun _ => .ok (), seed⟩
  let (status, t) := run host arguments
  match t.saved with
  | none => publish status t
  | some (path, text) =>
    match ← writeFile path text with
    | .ok () => publish status t
    | .error cause =>
      let (status, t) := run { host with write := fun _ => .error cause } arguments
      publish status t

end Descent.Main

open Descent.Main Descent.CommandLine in
def main (arguments : List String) : IO UInt32 := do
  match invocation? false arguments with
  | none =>
    IO.eprintln "usage: rd-gen [-q] generate|print|check|sample GRAMMAR ..."
    return 2
  | some i =>
    let files ← i.command.reads.mapM fun path => do return (path, ← readFile path)
    start arguments files (← randomSeed)
