import Descent.Emission.Source
import Descent.Text.Utf8

/-!
# Sinks

A sink takes bytes in pieces of its own choice up to a capacity and then fails. A source is written
only after all of it has been made, so a grammar at fault leaves the sink untouched. A sink that has
taken a whole source is flushed, and may still fail then.
-/
namespace Descent.Emission

structure Sink where
  /-- How many bytes it takes altogether. -/
  capacity : Nat
  /-- How many bytes it takes at most at its nth turn. -/
  appetite : Nat → Nat
  /-- What comes of flushing it. -/
  flush : Except FileFault Unit := .ok ()

/-- The size of the piece that a sink takes at a turn; it takes at least one byte while it can. -/
def Sink.piece (sink : Sink) (turn room offered : Nat) : Nat :=
  min (max 1 (sink.appetite turn)) (min room offered)

/-- Writes bytes at a turn with some room left, behind those written before. -/
def Sink.write (sink : Sink) (turn room : Nat) (written bytes : List UInt8) :
    Except Fault Unit × List UInt8 :=
  if bytes = [] then (.ok (), written)
  else if room = 0 then (.error .sinkFull, written)
  else
    let n := sink.piece turn room bytes.length
    sink.write (turn + 1) (room - n) (written ++ bytes.take n) (bytes.drop n)
termination_by bytes.length
decreasing_by
  rename_i nonempty room_pos
  have offered : 0 < bytes.length := List.length_pos_iff.2 nonempty
  simp only [Sink.piece, List.length_drop]
  omega

/-- Emits a grammar's recognizer into a sink; gives the outcome and the bytes that the sink took. -/
def deliver (g : Grammar) (t : Target) (mode : EscapeMode) (comments : Bool) (sink : Sink) :
    Except Fault Unit × List UInt8 :=
  match g.emit t mode comments with
  | .error fault => (.error fault, [])
  | .ok source =>
    match sink.write 0 sink.capacity [] (Text.Utf8.encode source.toList) with
    | (.ok (), written) => (sink.flush.mapError .file, written)
    | (.error fault, written) => (.error fault, written)

end Descent.Emission
