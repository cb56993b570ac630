import Descent.CommandLine.Run

/-!
# Directories of files

The surroundings of a run in a directory that holds nothing but files. A path is followed name by
name from left to right, and the first name that leads nowhere is the fault. What lies outside of the
directory is not known: no file can be read there, and every file can be written.
-/
namespace Descent.CommandLine

abbrev Directory := List (String × List UInt8)

/-- Where a walk along a path stands. -/
inductive Place
  /-- In the directory of the run. -/
  | here
  /-- In the root, or in a directory above the one of the run. -/
  | outside
  deriving DecidableEq, Repr

inductive Location
  | directory
  /-- A name in a place; a slash behind it asks for a directory. -/
  | entry (place : Place) (name : List Char) (asDirectory : Bool)
  deriving DecidableEq, Repr

def byteCount (cs : List Char) : Nat := (Text.Utf8.encode cs).length

def nameLimit : Nat := 255

def pathLimit : Nat := 4095

/-- Whether a name leads to a place from wherever the walk stands. -/
def isDots (name : List Char) : Bool := name == ['.'] || name == ['.', '.']

namespace Directory

def holds (d : Directory) (name : List Char) : Bool := (d.lookup (String.ofList name)).isSome

/-- The place behind a name on the way. There are no directories in the directory of the run. -/
def enter (d : Directory) (place : Place) (name : List Char) : Except FileFault Place :=
  if name = ['.'] then .ok place
  else if name = ['.', '.'] then .ok .outside
  else if nameLimit < byteCount name then .error .nameTooLong
  else if place = .here && d.holds name then .error .underFile
  else .error .missing

/-- What a path names; the empty path names nothing. -/
def locate (d : Directory) (path : String) : Except FileFault Location :=
  let parts := Text.cut (· == '/') path.toList
  let names := parts.filter fun part => !part.isEmpty
  if path.isEmpty then .error .missing
  else if pathLimit < byteCount path.toList then .error .nameTooLong
  else do
    let start := if parts.head? = some [] then Place.outside else .here
    let place ← names.dropLast.foldlM d.enter start
    match names.getLast? with
    | none => .ok .directory
    | some name =>
      .ok (if isDots name then .directory else .entry place name (parts.getLast? == some []))

def read (d : Directory) (path : String) : Except FileFault (List UInt8) := do
  match ← d.locate path with
  | .directory => .error .directory
  | .entry place name asDirectory =>
    if nameLimit < byteCount name then .error .nameTooLong
    else
      match place, d.lookup (String.ofList name) with
      | .here, some bytes => if asDirectory then .error .underFile else .ok bytes
      | _, _ => .error .missing

/-- Whether a file can be written at a path. Nothing is looked up for a path that asks for a
directory: it names no file that could be made. -/
def write (d : Directory) (path : String) : Except FileFault Unit := do
  match ← d.locate path with
  | .directory => .error .directory
  | .entry _ name asDirectory =>
    if asDirectory then .error .directory
    else if nameLimit < byteCount name then .error .nameTooLong
    else .ok ()

def host (d : Directory) (entropy : UInt64) : Host := ⟨d.read, d.write, entropy⟩

/-- The file that a run has added to the directory, if there is one. -/
def added (d : Directory) (t : Transcript) : Option (String × String) := do
  let (path, text) ← t.saved
  match d.locate path with
  | .ok (.entry .here name _) => if d.holds name then none else some (String.ofList name, text)
  | _ => none

end Directory

end Descent.CommandLine
