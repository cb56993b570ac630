import Descent.Grammar.Edit
import Descent.Proofs.Grammar.Building
import Mathlib.Data.List.Induction

/-!
# Histories of a grammar

After any edits a grammar records what the edits since it was last cleared have put there, and nothing else: each
edit changes its own part, and bytes pushed behind a right-hand side reach the one that was just added.
-/
namespace Descent.Grammar

/-- The edits behind the last one that clears. -/
def sinceClear (edits : List Edit) : List Edit := (edits.reverse.takeWhile (· ≠ .clear)).reverse

namespace Edit

/-- The name that an edit sets. -/
def name? : Edit → Option String
  | .setName name => some name
  | _ => none

/-- The start symbol that an edit sets. -/
def start? : Edit → Option Symbol
  | .setStart s => some s
  | _ => none

/-- The escape marker that an edit sets. -/
def escape? : Edit → Option Symbol
  | .setEscape s => some s
  | _ => none

/-- The symbol that an edit declares as a terminal. -/
def terminal? : Edit → Option Symbol
  | .declareTerminal s => some s
  | _ => none

/-- The symbol that an edit declares as a non-terminal. -/
def nonTerminal? : Edit → Option Symbol
  | .declareNonTerminal s => some s
  | _ => none

/-- The right-hand side that an edit adds, with what is pushed behind it, and its symbol. -/
def addition? : Edit → Option (Symbol × List UInt8)
  | .addAlternative s rhs pushed => some (s, rhs ++ pushed)
  | _ => none

end Edit

/-- What a grammar holds after edits none of which clears it. -/
structure Records (history : List Edit) (g : Grammar) : Prop where
  /-- The last name that was set. -/
  name : g.name = (history.filterMap Edit.name?).getLast?
  start : g.start = (history.filterMap Edit.start?).getLast?
  /-- The last marker that was set, or a backslash. -/
  escape : g.escape = (history.filterMap Edit.escape?).getLast?.getD 92
  /-- The first declaration of each symbol, in order. -/
  terminals : g.terminals = (history.filterMap Edit.terminal?).eraseDups
  nonTerminals : g.nonTerminals = (history.filterMap Edit.nonTerminal?).eraseDups
  /-- The additions for each symbol, in order, equal ones kept apart. -/
  alternatives : ∀ s, g.alternatives s = ((history.filterMap Edit.addition?).filter (·.1 = s)).map (·.2)
  count : g.alternativeCount = (history.filterMap Edit.addition?).length

/-- The head of a grammar after an edit that does not clear it. -/
structure HeadAfter (g : Grammar) (e : Edit) (h : Grammar) : Prop where
  name : h.name = e.name?.or g.name
  start : h.start = e.start?.or g.start
  escape : h.escape = e.escape?.getD g.escape
  terminals : h.terminals = e.terminal?.elim g.terminals (enlist g.terminals)
  nonTerminals : h.nonTerminals = e.nonTerminal?.elim g.nonTerminals (enlist g.nonTerminals)

section Slots

variable (g : Grammar) (s : Symbol) (rhs pushed : List UInt8)

theorem setAlternatives_setAlternatives (rights others : List (List UInt8)) :
    (g.setAlternatives s rights).setAlternatives s others = g.setAlternatives s others := by
  simp only [setAlternatives, Vector.set_set]

theorem lastAlternative?_addAlternative : (g.addAlternative s rhs).lastAlternative? s = some rhs := by
  simp [lastAlternative?, addAlternative]

/-- What is pushed goes behind the right-hand side that was just added, and nowhere else. -/
theorem edit_addAlternative :
    g.edit (.addAlternative s rhs pushed) = g.addAlternative s (rhs ++ pushed) := by
  have added : g.edit (.addAlternative s rhs pushed) = (g.addAlternative s rhs).extendLast s pushed := rfl
  have older : ((g.addAlternative s rhs).alternatives s).dropLast = g.alternatives s := by
    simp [addAlternative]
  rw [added, extendLast, lastAlternative?_addAlternative]
  simp only [older]
  exact g.setAlternatives_setAlternatives s _ _

theorem alternatives_addAlternative (t : Symbol) :
    (g.addAlternative s rhs).alternatives t = if s = t then g.alternatives t ++ [rhs] else g.alternatives t := by
  rw [addAlternative, alternatives_setAlternatives]
  split
  · rename_i same
    rw [same]
  · rfl

end Slots

section Count

/-- A table in which one list has become one longer holds one more. -/
theorem foldr_length_set {table : List (List (List UInt8))} {i : Nat} (bound : i < table.length)
    (rhs : List UInt8) :
    (table.set i (table[i] ++ [rhs])).foldr (fun rights count => rights.length + count) 0 =
      table.foldr (fun rights count => rights.length + count) 0 + 1 := by
  induction table generalizing i with
  | nil => exact absurd bound (Nat.not_lt_zero i)
  | cons rights table ih =>
    cases i with
    | zero =>
      simp only [List.getElem_cons_zero, List.set_cons_zero, List.foldr_cons, List.length_append,
        List.length_singleton]
      omega
    | succ i =>
      have others := ih (Nat.lt_of_succ_lt_succ bound)
      simp only [List.getElem_cons_succ, List.set_cons_succ, List.foldr_cons, others]
      omega

theorem alternativeCount_addAlternative (g : Grammar) (s : Symbol) (rhs : List UInt8) :
    (g.addAlternative s rhs).alternativeCount = g.alternativeCount + 1 := by
  have bound : s.toNat < g.productions.toList.length := by
    rw [Vector.length_toList]
    exact s.toNat_lt
  have entry : g.alternatives s = g.productions.toList[s.toNat] := by
    rw [Vector.getElem_toList]
    rfl
  rw [alternativeCount, addAlternative, setAlternatives, Vector.toList_set, entry]
  exact foldr_length_set bound rhs

theorem alternativeCount_empty : empty.alternativeCount = 0 := by
  have idle : ∀ n, (List.replicate n ([] : List (List UInt8))).foldr
      (fun rights count => rights.length + count) 0 = 0 := by
    intro n
    induction n with
    | zero => rfl
    | succ n ih => rw [List.replicate_succ, List.foldr_cons, ih, List.length_nil]
  rw [alternativeCount]
  simp only [empty, Vector.toList_replicate]
  exact idle 256

end Count

section Runs

theorem sinceClear_concat (edits : List Edit) (e : Edit) :
    sinceClear (edits ++ [e]) = if e = .clear then [] else sinceClear edits ++ [e] := by
  rw [sinceClear, List.reverse_append, List.reverse_singleton, List.singleton_append, List.takeWhile_cons]
  by_cases clears : e = .clear
  · simp [clears]
  · simp [clears, sinceClear]

theorem ofEdits_concat (edits : List Edit) (e : Edit) : ofEdits (edits ++ [e]) = (ofEdits edits).edit e := by
  rw [ofEdits, List.foldl_append, List.foldl_cons, List.foldl_nil, ofEdits]

theorem alternatives_empty (s : Symbol) : empty.alternatives s = [] := by
  simp [alternatives, empty]

theorem records_empty : Records [] empty where
  name := rfl
  start := rfl
  escape := rfl
  terminals := rfl
  nonTerminals := rfl
  alternatives := alternatives_empty
  count := alternativeCount_empty

end Runs

section Step

variable (g : Grammar) {e : Edit}

/-- Each edit sets or lists what it names in the head of a grammar and leaves the rest of the head alone. -/
theorem headAfter_edit (keeps : e ≠ .clear) : HeadAfter g e (g.edit e) := by
  cases e with
  | addAlternative s rhs pushed =>
    rw [edit_addAlternative]
    exact ⟨rfl, rfl, rfl, rfl, rfl⟩
  | clear => exact absurd rfl keeps
  | _ => exact ⟨rfl, rfl, rfl, rfl, rfl⟩

theorem alternatives_edit (keeps : e ≠ .clear) (t : Symbol) :
    (g.edit e).alternatives t = g.alternatives t ++ (e.addition?.toList.filter (·.1 = t)).map (·.2) := by
  cases e with
  | addAlternative s rhs pushed =>
    rw [edit_addAlternative, alternatives_addAlternative]
    by_cases same : s = t
    · simp [Edit.addition?, same]
    · simp [Edit.addition?, same]
  | clear => exact absurd rfl keeps
  | _ => exact (List.append_nil _).symm

theorem alternativeCount_edit (keeps : e ≠ .clear) :
    (g.edit e).alternativeCount = g.alternativeCount + e.addition?.toList.length := by
  cases e with
  | addAlternative s rhs pushed =>
    rw [edit_addAlternative]
    exact alternativeCount_addAlternative g s (rhs ++ pushed)
  | clear => exact absurd rfl keeps
  | _ => rfl

variable {α : Type} {g : Grammar} {history : List Edit}

theorem filterMap_concat (f : Edit → Option α) (history : List Edit) (e : Edit) :
    (history ++ [e]).filterMap f = history.filterMap f ++ (f e).toList := by
  rw [List.filterMap_append]
  cases h : f e with
  | none => simp [h]
  | some a => simp [h]

theorem getLast?_append_toList (as : List α) (last : Option α) :
    (as ++ last.toList).getLast? = last.or as.getLast? := by
  cases last with
  | none => simp
  | some a => simp

theorem enlist_toList (symbols : List Symbol) (last : Option Symbol) :
    last.elim symbols.eraseDups (enlist symbols.eraseDups) = (symbols ++ last.toList).eraseDups := by
  cases last with
  | none => rw [Option.toList_none, List.append_nil, Option.elim_none]
  | some s => exact enlist_eraseDups symbols s

/-- One more edit is recorded behind those before it. -/
theorem Records.edit (h : Records history g) (keeps : e ≠ .clear) :
    Records (history ++ [e]) (g.edit e) := by
  have head := headAfter_edit g keeps
  refine ⟨?_, ?_, ?_, ?_, ?_, fun t => ?_, ?_⟩
  · rw [head.name, h.name, filterMap_concat, getLast?_append_toList]
  · rw [head.start, h.start, filterMap_concat, getLast?_append_toList]
  · rw [head.escape, h.escape, filterMap_concat, getLast?_append_toList, Option.getD_or]
  · rw [head.terminals, h.terminals, filterMap_concat, enlist_toList]
  · rw [head.nonTerminals, h.nonTerminals, filterMap_concat, enlist_toList]
  · rw [alternatives_edit g keeps, h.alternatives, filterMap_concat, List.filter_append, List.map_append]
  · rw [alternativeCount_edit g keeps, h.count, filterMap_concat, List.length_append]

/-- Whatever the edits, the grammar records those since it was last cleared. -/
theorem records_ofEdits (edits : List Edit) : Records (sinceClear edits) (ofEdits edits) := by
  induction edits using List.reverseRecOn with
  | nil => exact records_empty
  | append_singleton edits e ih =>
    rw [sinceClear_concat, ofEdits_concat]
    by_cases clears : e = .clear
    · rw [if_pos clears, clears]
      exact records_empty
    · rw [if_neg clears]
      exact ih.edit clears

end Step

section Answers

theorem ofNat_lt_ofNat {i j : Nat} (hj : j < 256) (h : i < j) : UInt8.ofNat i < UInt8.ofNat j := by
  rw [UInt8.lt_iff_toNat_lt, UInt8.toNat_ofNat', UInt8.toNat_ofNat']
  omega

theorem ascending_symbols : symbols.Pairwise (· < ·) := by
  rw [symbols, List.pairwise_map]
  refine List.pairwise_lt_range.imp_of_mem ?_
  intro i j _ hj h
  exact ofNat_lt_ofNat (List.mem_range.1 hj) h

/-- The symbols with right-hand sides are listed by ascending value. -/
theorem ascending_producing (g : Grammar) : g.producing.Pairwise (· < ·) := ascending_symbols.filter _

theorem reply_declareTerminal (g : Grammar) (s : Symbol) :
    g.reply (.declareTerminal s) = .added (decide (s ∉ g.terminals)) := by
  simp [reply, isTerminal]

theorem reply_declareNonTerminal (g : Grammar) (s : Symbol) :
    g.reply (.declareNonTerminal s) = .added (decide (s ∉ g.nonTerminals)) := by
  simp [reply, isDeclared]

theorem reply_addAlternative (g : Grammar) (s : Symbol) (rhs pushed : List UInt8) :
    g.reply (.addAlternative s rhs pushed) = .slot (some (rhs ++ pushed)) := by
  rw [reply, edit_addAlternative, lastAlternative?_addAlternative]

end Answers

/-- A grammar is the faithful record of its edits since it was last cleared, and the next declaration is
answered by whether its symbol is new since then. -/
theorem ofEdits_faithful (edits : List Edit) :
    Records (sinceClear edits) (ofEdits edits) ∧
    (ofEdits edits).productions.toList.length = 256 ∧
    ((ofEdits edits).terminals.Nodup ∧ (ofEdits edits).nonTerminals.Nodup) ∧
    ((ofEdits edits).producing.Pairwise (· < ·) ∧
      ∀ s, s ∈ (ofEdits edits).producing ↔ (ofEdits edits).alternatives s ≠ []) ∧
    (∀ s, (ofEdits edits).reply (.declareTerminal s) =
        .added (decide (s ∉ (sinceClear edits).filterMap Edit.terminal?)) ∧
      (ofEdits edits).reply (.declareNonTerminal s) =
        .added (decide (s ∉ (sinceClear edits).filterMap Edit.nonTerminal?))) ∧
    ∀ s rhs pushed, (ofEdits edits).reply (.addAlternative s rhs pushed) = .slot (some (rhs ++ pushed)) := by
  have records := records_ofEdits edits
  refine ⟨records, Vector.length_toList, ⟨Grammar.terminals_nodup _, Grammar.nonTerminals_nodup _⟩,
    ⟨ascending_producing _, mem_producing_iff _⟩, fun s => ⟨?_, ?_⟩, reply_addAlternative _⟩
  · rw [reply_declareTerminal, records.terminals]
    simp only [List.mem_eraseDups]
  · rw [reply_declareNonTerminal, records.nonTerminals]
    simp only [List.mem_eraseDups]

end Descent.Grammar
