import Descent.Sampling.Choice

/-!
# ChaCha

The ChaCha stream cipher with twelve rounds as a source of words. The key is stretched from a 64-bit
seed by a permuted linear congruential generator; the counter has 64 bits and starts at zero.
-/
namespace Descent.Sampling.ChaCha

/-- Four words. -/
structure Row where
  a : UInt32
  b : UInt32
  c : UInt32
  d : UInt32
  deriving DecidableEq, Repr

namespace Row

/-- Combines two rows word by word. -/
def zip (f : UInt32 → UInt32 → UInt32) (x y : Row) : Row :=
  ⟨f x.a y.a, f x.b y.b, f x.c y.c, f x.d y.d⟩

def rotate (k word : UInt32) : UInt32 := (word <<< k) ||| (word >>> (32 - k))

def rotateEach (k : UInt32) (x : Row) : Row := ⟨rotate k x.a, rotate k x.b, rotate k x.c, rotate k x.d⟩

def shift (x : Row) : Row := ⟨x.b, x.c, x.d, x.a⟩

def toList (x : Row) : List UInt32 := [x.a, x.b, x.c, x.d]

end Row

structure Block where
  r0 : Row
  r1 : Row
  r2 : Row
  r3 : Row
  deriving DecidableEq, Repr

namespace Block

/-- Adds the second row to the first, mixes the sum into the fourth, and rotates that. -/
def mix (k : UInt32) (x y z : Row) : Row × Row :=
  let x := x.zip (· + ·) y
  (x, (z.zip (· ^^^ ·) x).rotateEach k)

/-- A quarter round on each of the four columns. -/
def columns (s : Block) : Block :=
  let (r0, r3) := mix 16 s.r0 s.r1 s.r3
  let (r2, r1) := mix 12 s.r2 r3 s.r1
  let (r0, r3) := mix 8 r0 r1 r3
  let (r2, r1) := mix 7 r2 r3 r1
  ⟨r0, r1, r2, r3⟩

def slant (s : Block) : Block := ⟨s.r0, s.r1.shift, s.r2.shift.shift, s.r3.shift.shift.shift⟩

def unslant (s : Block) : Block := ⟨s.r0, s.r1.shift.shift.shift, s.r2.shift.shift, s.r3.shift⟩

def doubleRound (s : Block) : Block := s.columns.slant.columns.unslant

def doubleRounds : Nat → Block → Block
  | 0, s => s
  | n + 1, s => doubleRounds n s.doubleRound

/-- The words of the key stream that a block gives: twelve rounds, added to the block itself. -/
def keyStream (s : Block) : List UInt32 :=
  let t := doubleRounds 6 s
  [s.r0.zip (· + ·) t.r0, s.r1.zip (· + ·) t.r1, s.r2.zip (· + ·) t.r2,
    s.r3.zip (· + ·) t.r3].flatMap Row.toList

end Block

/-- One step of the generator that stretches seeds: its next state and its output word. -/
def stretch (state : UInt64) : UInt64 × UInt32 :=
  let state := state * 6364136223846793005 + 11634580027462260723
  let word := (((state >>> 18) ^^^ state) >>> 27).toUInt32
  let k := (state >>> 59).toUInt32
  (state, (word >>> k) ||| (word <<< ((32 - k) &&& 31)))

/-- Four words of the key and the next state of the generator. -/
def stretchRow (state : UInt64) : UInt64 × Row :=
  let (state, a) := stretch state
  let (state, b) := stretch state
  let (state, c) := stretch state
  let (state, d) := stretch state
  (state, ⟨a, b, c, d⟩)

/-- The state of the stream: the key, the number of the next block, and the words left of the one
before it. -/
structure Stream where
  low : Row
  high : Row
  counter : UInt64
  pending : List UInt32
  deriving DecidableEq, Repr

/-- The four constant words of every block. -/
def constants : Row := ⟨0x61707865, 0x3320646e, 0x79622d32, 0x6b206574⟩

def ofSeed (seed : UInt64) : Stream :=
  let (state, low) := stretchRow seed
  ⟨low, (stretchRow state).2, 0, []⟩

def Stream.block (s : Stream) : List UInt32 :=
  Block.keyStream
    ⟨constants, s.low, s.high, ⟨s.counter.toUInt32, (s.counter >>> 32).toUInt32, 0, 0⟩⟩

def Stream.next (s : Stream) : UInt32 × Stream :=
  match s.pending with
  | word :: pending => (word, { s with pending := pending })
  | [] =>
    match s.block with
    | word :: pending => (word, { s with counter := s.counter + 1, pending := pending })
    | [] => (0, s)

/-- The stream as a source; more than half of its words can be used in every choice. -/
def source : Source Stream := ⟨Stream.next, fun _ => 1 <<< 20⟩

end Descent.Sampling.ChaCha
