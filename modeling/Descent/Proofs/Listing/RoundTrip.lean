import Descent.Proofs.Listing.Accepted
import Descent.Proofs.Listing.Line

/-!
# Printing and reading back

A grammar comes back from its own listing exactly if a listing can carry it.
-/
namespace Descent.Listing

open Text (isBlank Trimmed)

theorem newline_not_mem_token (s : Symbol) : '\n' ∉ s.token := by
  intro newline
  have visible := (isTokenChar_of_mem_token newline).not_isBlank
  cases visible

theorem newline_not_mem_headerLine {g : Grammar} (plain : Plain g) : '\n' ∉ headerLine g.name := by
  intro newline
  rcases List.mem_append.1 newline with inName | behind
  · cases named : g.name with
    | none =>
      rw [named] at inName
      cases inName
    | some name =>
      rw [named] at inName
      have visible := (plain.name name named).visible '\n' inName
      cases visible
  · revert behind
    decide

theorem newline_not_mem_setLine (symbols : List Symbol) : '\n' ∉ setLine symbols := by
  simp only [setLine, List.cons_append, List.mem_cons, List.mem_append, List.mem_flatMap, List.not_mem_nil,
    or_false, not_or, not_exists, not_and]
  have entry : ∀ s ∈ symbols, '\n' ≠ ' ' ∧ '\n' ∉ s.token ∧ '\n' ≠ ',' := by
    intro s _
    exact ⟨by decide, newline_not_mem_token s, by decide⟩
  exact ⟨by decide, by decide, entry, by decide, by decide⟩

theorem newline_not_mem_startLine (s : Symbol) : '\n' ∉ startLine (some s) := by
  intro newline
  rcases List.mem_cons.1 newline with tab | newline
  · exact absurd tab (by decide)
  · rcases List.mem_append.1 newline with inToken | comma
    · exact newline_not_mem_token s inToken
    · exact absurd (List.mem_singleton.1 comma) (by decide)

theorem newline_not_mem_productionLine (s : Symbol) {rhs : List UInt8} (plain : PlainRight rhs) :
    '\n' ∉ productionLine s rhs := by
  obtain ⟨⟨text, rfl, -⟩, noNewline⟩ := plain
  rw [Text.Utf8.newline_mem_encode_iff] at noNewline
  simp only [productionLine, Text.Utf8.decodeLossy_encode, List.cons_append, List.mem_cons,
    List.mem_append, not_or]
  exact ⟨by decide, by decide, newline_not_mem_token s, by decide, by decide, noNewline⟩

theorem newline_not_mem_lines {g : Grammar} (w : Writable g) : ∀ line ∈ lines g, '\n' ∉ line := by
  obtain ⟨s, hs⟩ := Option.ne_none_iff_exists'.1 w.start
  intro line hline
  simp only [lines, hs, List.cons_append, List.nil_append, List.mem_cons, List.mem_append, List.not_mem_nil,
    or_false] at hline
  rcases hline with rfl | rfl | rfl | rfl | rfl | produced | rfl | rfl
  · exact newline_not_mem_headerLine w.toPlain
  · exact newline_not_mem_setLine _
  · exact newline_not_mem_setLine _
  · exact newline_not_mem_startLine s
  · decide
  · obtain ⟨t, -, ht⟩ := List.mem_flatMap.1 produced
    obtain ⟨rhs, hrhs, rfl⟩ := List.mem_map.1 ht
    exact newline_not_mem_productionLine t (w.rights t rhs hrhs)
  · decide
  · decide

/-- The grammar without its productions. -/
def head (g : Grammar) : Grammar := { g with productions := Vector.replicate 256 [] }

theorem alternatives_head (g : Grammar) (s : Symbol) : (head g).alternatives s = [] := by
  simp [head, Grammar.alternatives]

theorem takes_headerLine {g : Grammar} (plain : Plain g) :
    Takes (headerLine g.name) .header .empty .nonTerminals { name := g.name } := by
  cases named : g.name with
  | none => exact takes_header_unset
  | some name =>
    have ok := plain.name name named
    exact takes_header ok.nonempty ok.visible ok.noComment

theorem declared_eq_head {g : Grammar} {s : Symbol} (plain : Plain g) (hs : g.start = some s) :
    (g.terminals.foldl Grammar.declareTerminal
      (g.nonTerminals.foldl Grammar.declareNonTerminal { name := g.name })).setStart s = head g := by
  have nonTerminals : g.nonTerminals.foldl Grammar.enlist [] = [] ++ g.nonTerminals :=
    Grammar.foldl_enlist g.nonTerminals_nodup
  have terminals : g.terminals.foldl Grammar.enlist [] = [] ++ g.terminals :=
    Grammar.foldl_enlist g.terminals_nodup
  rw [Grammar.foldl_declareNonTerminal, Grammar.foldl_declareTerminal]
  simp only [Grammar.setStart, head, nonTerminals, terminals, List.nil_append, hs, plain.escape]

/-- The lines in front of the productions carry everything but the productions. -/
theorem run_head {g : Grammar} {s : Symbol} (plain : Plain g) (hs : g.start = some s) :
    Run .header .empty ([headerLine g.name, setLine g.nonTerminals, setLine g.terminals, startLine g.start,
      ['\t', '\x7b']].map some) .productions (head g) := by
  rw [hs, ← declared_eq_head plain hs]
  exact .step (takes_headerLine plain) (.step (takes_nonTerminals _) (.step (takes_terminals _)
    (.step (takes_start s) (.step takes_opening .nil))))

theorem run_productionsOf (s : Symbol) {rights : List (List UInt8)}
    (plain : ∀ rhs ∈ rights, PlainRight rhs) (g : Grammar) :
    Run .productions g ((rights.map (productionLine s)).map some) .productions (g.addAll s rights) := by
  induction rights generalizing g with
  | nil => exact .nil
  | cons rhs rights ih =>
    obtain ⟨text, rfl, trimmed⟩ := (plain rhs List.mem_cons_self).text
    exact .step (takes_production s trimmed) (ih (fun r hr => plain r (List.mem_cons_of_mem _ hr)) _)

theorem run_productions {g : Grammar} (plain : Plain g) (symbols : List Symbol) (h : Grammar) :
    Run .productions h ((symbols.flatMap fun s => (g.alternatives s).map (productionLine s)).map some)
      .productions (h.addEach g symbols) := by
  induction symbols generalizing h with
  | nil => exact .nil
  | cons s symbols ih =>
    rw [List.flatMap_cons, List.map_append]
    exact (run_productionsOf s (plain.rights s) h).append (ih _)

/-- The printed lines lead from nothing to the grammar that was printed. -/
theorem run_lines {g : Grammar} (w : Writable g) : Run .header .empty ((lines g).map some) .done g := by
  obtain ⟨s, hs⟩ := Option.ne_none_iff_exists'.1 w.start
  have whole : (head g).addEach g g.producing = g := by
    apply Grammar.eq_of_sameHead
    · exact (Grammar.sameHead_addEach _ _ _).trans ⟨rfl, rfl, rfl, rfl, rfl⟩
    · exact Grammar.alternatives_addEach_producing (alternatives_head g)
  have last : Run .productions g ([['\t', '\x7d'], [')']].map some) .done g :=
    .step takes_closing (.step takes_close .nil)
  have productions := run_productions w.toPlain g.producing (head g)
  rw [whole] at productions
  rw [lines, List.map_append, List.map_append]
  exact ((run_head w.toPlain hs).append productions).append last

theorem readText_print {g : Grammar} (w : Writable g) : readText (print g) = .ok g := by
  have cut : Text.cut (· == '\n') (print g) = lines g ++ [[]] := by
    apply Text.cut_flatMap
    · intro line hline c hc
      rw [beq_eq_false_iff_ne]
      rintro rfl
      exact newline_not_mem_lines w line hline hc
    · rfl
  have behind : Run .done g ([[]].map some) .done g := .skip (by decide) .nil
  rw [readText, cut, List.map_append]
  exact readLines_eq_ok_iff.2 ((run_lines w).append behind)

/-- A grammar comes back from its listing, with the same name, alphabets, start symbol, marker and
right-hand sides, exactly if its name is unset or plain, its start symbol is set, its marker is the
default, and its right-hand sides are trimmed UTF-8 without newlines. -/
theorem readText_print_eq_ok_iff (g : Grammar) : readText (print g) = .ok g ↔ Writable g := by
  constructor
  · exact writable_of_readText
  · exact readText_print

end Descent.Listing
