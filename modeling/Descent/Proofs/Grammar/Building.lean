import Descent.Grammar
import Mathlib.Data.List.Induction
import Mathlib.Data.List.Nodup

/-!
# Building a grammar up

Declaring fresh symbols one after another lists them in that order, and adding right-hand sides one after
another leaves all but the productions alone.
-/
namespace Descent.Grammar

/-- Two grammars that differ in their productions at most. -/
structure SameHead (g h : Grammar) : Prop where
  name : g.name = h.name
  nonTerminals : g.nonTerminals = h.nonTerminals
  terminals : g.terminals = h.terminals
  start : g.start = h.start
  escape : g.escape = h.escape

theorem SameHead.trans {f g h : Grammar} (first : SameHead f g) (second : SameHead g h) :
    SameHead f h where
  name := first.name.trans second.name
  nonTerminals := first.nonTerminals.trans second.nonTerminals
  terminals := first.terminals.trans second.terminals
  start := first.start.trans second.start
  escape := first.escape.trans second.escape

theorem sameHead_addAlternative (g : Grammar) (s : Symbol) (rhs : List UInt8) :
    SameHead (g.addAlternative s rhs) g := ⟨rfl, rfl, rfl, rfl, rfl⟩

theorem productions_eq {g h : Grammar} (same : ∀ s, g.alternatives s = h.alternatives s) :
    g.productions = h.productions := by
  apply Vector.ext
  intro i bound
  have value : (UInt8.ofNat i).toNat = i := by
    rw [UInt8.toNat_ofNat']
    exact Nat.mod_eq_of_lt bound
  have entry := same (UInt8.ofNat i)
  simpa only [alternatives, value] using entry

/-- A grammar is its head and the right-hand sides of every symbol. -/
theorem eq_of_sameHead {g h : Grammar} (head : SameHead g h)
    (same : ∀ s, g.alternatives s = h.alternatives s) : g = h := by
  obtain ⟨name, nonTerminals, terminals, start, escape⟩ := head
  have productions := productions_eq same
  cases g
  cases h
  simp only at name nonTerminals terminals start escape productions
  subst name nonTerminals terminals start escape productions
  rfl

theorem nodup_foldl_enlist {listed : List Symbol} (h : listed.Nodup) (symbols : List Symbol) :
    (symbols.foldl enlist listed).Nodup := by
  induction symbols generalizing listed with
  | nil => exact h
  | cons s symbols ih => exact ih (nodup_enlist h s)

/-- Fresh symbols are listed in the order in which they come. -/
theorem foldl_enlist {listed symbols : List Symbol} (h : (listed ++ symbols).Nodup) :
    symbols.foldl enlist listed = listed ++ symbols := by
  induction symbols generalizing listed with
  | nil => rw [List.foldl_nil, List.append_nil]
  | cons s symbols ih =>
    have fresh : s ∉ listed := by
      intro hs
      exact (List.nodup_append.1 h).2.2 s hs s List.mem_cons_self rfl
    have added : enlist listed s = listed ++ [s] := if_neg fresh
    have joined : enlist listed s ++ symbols = listed ++ s :: symbols := by
      rw [added, List.append_assoc, List.singleton_append]
    rw [List.foldl_cons, ih (joined ▸ h), joined]

/-- One more symbol is listed unless an equal one came before it. -/
theorem enlist_eraseDups (symbols : List Symbol) (s : Symbol) :
    enlist symbols.eraseDups s = (symbols ++ [s]).eraseDups := by
  rw [List.eraseDups_append, enlist]
  by_cases known : s ∈ symbols
  · have gone : [s].removeAll symbols = [] := by simp [List.removeAll, known]
    rw [if_pos (List.mem_eraseDups.2 known), gone, List.eraseDups_nil, List.append_nil]
  · have kept : [s].removeAll symbols = [s] := by simp [List.removeAll, known]
    rw [if_neg (mt List.mem_eraseDups.1 known), kept, List.eraseDups_cons]
    rfl

/-- Declaring symbols one after another keeps the first of equal ones. -/
theorem foldl_enlist_eq_eraseDups (symbols : List Symbol) :
    symbols.foldl enlist [] = symbols.eraseDups := by
  induction symbols using List.reverseRecOn with
  | nil => rfl
  | append_singleton symbols s ih =>
    rw [List.foldl_append, List.foldl_cons, List.foldl_nil, ih, enlist_eraseDups]

theorem foldl_declareNonTerminal (symbols : List Symbol) (g : Grammar) :
    symbols.foldl declareNonTerminal g =
      { g with
        nonTerminals := symbols.foldl enlist g.nonTerminals
        nonTerminals_nodup := nodup_foldl_enlist g.nonTerminals_nodup symbols } := by
  induction symbols generalizing g with
  | nil => rfl
  | cons s symbols ih => exact ih (g.declareNonTerminal s)

theorem foldl_declareTerminal (symbols : List Symbol) (g : Grammar) :
    symbols.foldl declareTerminal g =
      { g with
        terminals := symbols.foldl enlist g.terminals
        terminals_nodup := nodup_foldl_enlist g.terminals_nodup symbols } := by
  induction symbols generalizing g with
  | nil => rfl
  | cons s symbols ih => exact ih (g.declareTerminal s)

/-- Adds right-hand sides of one symbol in their order. -/
def addAll (g : Grammar) (s : Symbol) (rights : List (List UInt8)) : Grammar :=
  rights.foldl (fun g rhs => g.addAlternative s rhs) g

theorem sameHead_addAll (g : Grammar) (s : Symbol) (rights : List (List UInt8)) :
    SameHead (g.addAll s rights) g := by
  induction rights generalizing g with
  | nil => exact ⟨rfl, rfl, rfl, rfl, rfl⟩
  | cons rhs rights ih => exact (ih (g.addAlternative s rhs)).trans (sameHead_addAlternative g s rhs)

theorem alternatives_addAll (g : Grammar) (s t : Symbol) (rights : List (List UInt8)) :
    (g.addAll s rights).alternatives t = if s = t then g.alternatives t ++ rights else g.alternatives t := by
  induction rights generalizing g with
  | nil => simp [addAll]
  | cons rhs rights ih =>
    have step : (g.addAll s (rhs :: rights)).alternatives t =
        ((g.addAlternative s rhs).addAll s rights).alternatives t := rfl
    rw [step, ih, addAlternative, alternatives_setAlternatives]
    split
    · rename_i same
      subst same
      rw [List.append_assoc, List.singleton_append]
    · rfl

/-- Adds the right-hand sides that `g` has for each of the symbols. -/
def addEach (h g : Grammar) (symbols : List Symbol) : Grammar :=
  symbols.foldl (fun h s => h.addAll s (g.alternatives s)) h

theorem sameHead_addEach (h g : Grammar) (symbols : List Symbol) :
    SameHead (h.addEach g symbols) h := by
  induction symbols generalizing h with
  | nil => exact ⟨rfl, rfl, rfl, rfl, rfl⟩
  | cons s symbols ih => exact (ih (h.addAll s (g.alternatives s))).trans (sameHead_addAll h s _)

theorem alternatives_addEach {h g : Grammar} {symbols : List Symbol} (nodup : symbols.Nodup) (t : Symbol) :
    (h.addEach g symbols).alternatives t =
      if t ∈ symbols then h.alternatives t ++ g.alternatives t else h.alternatives t := by
  induction symbols generalizing h with
  | nil => rfl
  | cons s symbols ih =>
    obtain ⟨fresh, nodup⟩ := List.nodup_cons.1 nodup
    have step : (h.addEach g (s :: symbols)).alternatives t =
        ((h.addAll s (g.alternatives s)).addEach g symbols).alternatives t := rfl
    rw [step, ih nodup, alternatives_addAll]
    by_cases same : s = t
    · subst same
      simp [fresh]
    · simp [same, Ne.symm same]

theorem nodup_symbols : symbols.Nodup := by
  refine List.Nodup.map_on ?_ List.nodup_range
  intro i hi j hj same
  have values := congrArg UInt8.toNat same
  rw [List.mem_range] at hi hj
  rwa [UInt8.toNat_ofNat', UInt8.toNat_ofNat', Nat.mod_eq_of_lt hi, Nat.mod_eq_of_lt hj] at values

theorem nodup_producing (g : Grammar) : g.producing.Nodup := nodup_symbols.filter _

theorem mem_producing_iff (g : Grammar) (s : Symbol) : s ∈ g.producing ↔ g.alternatives s ≠ [] := by
  simp [producing, mem_symbols]

/-- Adding all that `g` produces to an empty table gives the table of `g`. -/
theorem alternatives_addEach_producing {h g : Grammar} (none : ∀ s, h.alternatives s = []) (t : Symbol) :
    (h.addEach g g.producing).alternatives t = g.alternatives t := by
  rw [alternatives_addEach g.nodup_producing, none]
  split
  · rfl
  · rename_i idle
    rw [mem_producing_iff, not_not] at idle
    exact idle.symm

end Descent.Grammar
