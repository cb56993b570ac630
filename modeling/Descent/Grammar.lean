import Descent.Symbol

/-!
# Grammars

A context-free grammar over single bytes: a name, two alphabets in the order of declaration, a start
symbol, an escape marker, and for each of the 256 symbols its right-hand sides in order. An alphabet
lists no symbol twice. Nothing else is checked here; what a grammar needs before it can be run is said
in `Descent.Ruleset`.
-/
namespace Descent

/-- The declarations and alternatives collected so far. -/
structure Grammar where
  name : Option String := none
  nonTerminals : List Symbol := []
  terminals : List Symbol := []
  start : Option Symbol := none
  escape : Symbol := 92
  /-- The right-hand sides of each symbol, indexed by its value. -/
  productions : Vector (List (List UInt8)) 256 := Vector.replicate 256 []
  nonTerminals_nodup : nonTerminals.Nodup := by exact List.nodup_nil
  terminals_nodup : terminals.Nodup := by exact List.nodup_nil

namespace Grammar

def empty : Grammar := {}

instance : Inhabited Grammar := ⟨empty⟩

/-- A symbol is added behind the others unless it is among them. -/
def enlist (symbols : List Symbol) (s : Symbol) : List Symbol :=
  if s ∈ symbols then symbols else symbols ++ [s]

theorem nodup_enlist {symbols : List Symbol} (h : symbols.Nodup) (s : Symbol) :
    (enlist symbols s).Nodup := by
  unfold enlist
  split
  · exact h
  · rename_i fresh
    refine List.nodup_append.2 ⟨h, List.pairwise_singleton _ _, ?_⟩
    intro a ha b hb
    rw [List.mem_singleton.1 hb]
    intro same
    exact fresh (same ▸ ha)

def setName (g : Grammar) (name : String) : Grammar := { g with name := some name }

def setStart (g : Grammar) (s : Symbol) : Grammar := { g with start := some s }

def setEscape (g : Grammar) (s : Symbol) : Grammar := { g with escape := s }

def declareTerminal (g : Grammar) (s : Symbol) : Grammar :=
  { g with
    terminals := enlist g.terminals s
    terminals_nodup := nodup_enlist g.terminals_nodup s }

def declareNonTerminal (g : Grammar) (s : Symbol) : Grammar :=
  { g with
    nonTerminals := enlist g.nonTerminals s
    nonTerminals_nodup := nodup_enlist g.nonTerminals_nodup s }

def isTerminal (g : Grammar) (s : Symbol) : Bool := s ∈ g.terminals

def isDeclared (g : Grammar) (s : Symbol) : Bool := s ∈ g.nonTerminals

/-- The right-hand sides of a symbol in the order in which they were added. -/
def alternatives (g : Grammar) (s : Symbol) : List (List UInt8) :=
  have bound : s.toNat < 256 := s.toNat_lt
  g.productions[s.toNat]

def setAlternatives (g : Grammar) (s : Symbol) (rights : List (List UInt8)) : Grammar :=
  { g with productions := g.productions.set s.toNat rights s.toNat_lt }

@[simp]
theorem alternatives_setAlternatives (g : Grammar) (s t : Symbol) (rights : List (List UInt8)) :
    (g.setAlternatives s rights).alternatives t = if s = t then rights else g.alternatives t := by
  simp only [alternatives, setAlternatives, Vector.getElem_set,
    UInt8.toNat_inj]

/-- Adds a right-hand side behind the others; equal ones are kept apart. -/
def addAlternative (g : Grammar) (s : Symbol) (rhs : List UInt8) : Grammar :=
  g.setAlternatives s (g.alternatives s ++ [rhs])

def lastAlternative? (g : Grammar) (s : Symbol) : Option (List UInt8) :=
  (g.alternatives s).getLast?

/-- Appends bytes to the right-hand side that was added last, if there is one. -/
def extendLast (g : Grammar) (s : Symbol) (more : List UInt8) : Grammar :=
  match g.lastAlternative? s with
  | none => g
  | some rhs => g.setAlternatives s ((g.alternatives s).dropLast ++ [rhs ++ more])

def symbols : List Symbol := (List.range 256).map UInt8.ofNat

theorem mem_symbols (s : Symbol) : s ∈ symbols := by
  refine List.mem_map.2 ⟨s.toNat, List.mem_range.2 s.toNat_lt, ?_⟩
  exact UInt8.ofNat_toNat

/-- The symbols with at least one right-hand side, by ascending value. -/
def producing (g : Grammar) : List Symbol := symbols.filter fun s => !(g.alternatives s).isEmpty

def alternativeCount (g : Grammar) : Nat :=
  g.productions.toList.foldr (fun rights count => rights.length + count) 0

end Grammar

end Descent
