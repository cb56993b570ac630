import Descent.Proofs.Grammar.Building
import Descent.Proofs.Listing.Notation
import Descent.Proofs.Listing.Stable
import Descent.Proofs.Listing.Taken
import Mathlib.Data.List.Induction

/-!
# What a listing says

A text is read exactly if its lines, blank ones and comments apart, are those of the notation in their order,
and then it gives the grammar that they write down.
-/
namespace Descent.Listing

/-- The lines of a text that count, trimmed: those that are not empty then and no comments. -/
def significant (text : List Char) : List (List Char) :=
  ((Text.cut (· == '\n') text).map Text.trim).filter fun line => line ≠ [] ∧ line.head? ≠ some '#'

/-- What is written down in a listing, in its order. -/
structure Contents where
  /-- Empty if the listing gives no name. -/
  name : List Char
  nonTerminals : List Symbol
  terminals : List Symbol
  start : Symbol
  productions : List (Symbol × List Char)
  deriving DecidableEq, Repr

/-- The lines by which contents are written down. -/
inductive Contents.Written (c : Contents) : List (List Char) → Prop
  | lines {header nonTerminals terminals start : List Char} {productions : List (List Char)} :
    IsHeader header c.name → IsSet nonTerminals c.nonTerminals → IsSet terminals c.terminals →
    IsStart start c.start → List.Forall₂ (fun line p => IsProduction line p.1 p.2) productions c.productions →
    Written c (header :: nonTerminals :: terminals :: start :: ['\x7b'] ::
      (productions ++ [['\x7d'], [')']]))

/-- The grammar that contents stand for. Sets keep the first of equal symbols; right-hand sides keep their
order and equal ones stay apart. -/
structure Contents.Denotes (c : Contents) (g : Grammar) : Prop where
  name : g.name = if c.name = [] then none else some (String.ofList c.name)
  nonTerminals : g.nonTerminals = c.nonTerminals.eraseDups
  terminals : g.terminals = c.terminals.eraseDups
  start : g.start = some c.start
  escape : g.escape = 92
  rights : ∀ s, g.alternatives s =
    (c.productions.filter (·.1 = s)).map fun p => Text.Utf8.encode p.2

/-- Lines that count and lead from one part and grammar to another. -/
inductive Chain : Part → Grammar → List (List Char) → Part → Grammar → Prop
  | nil {part : Part} {g : Grammar} : Chain part g [] part g
  | cons {part middle next : Part} {g f h : Grammar} {line : List Char} {rest : List (List Char)} :
    Taken line part g middle f → Chain middle f rest next h → Chain part g (line :: rest) next h

theorem isIgnored_eq_true_iff {line : List Char} :
    isIgnored line = true ↔ line = [] ∨ line.head? = some '#' := by
  simp [isIgnored]

/-- A run is a chain of the lines that it does not pass over. -/
theorem run_iff_chain {lines : List (List Char)} {part next : Part} {g h : Grammar} :
    Run part g (lines.map some) next h ↔
      Chain part g ((lines.map Text.trim).filter fun line => line ≠ [] ∧ line.head? ≠ some '#') next h := by
  induction lines generalizing part g with
  | nil =>
    constructor
    · intro run
      cases run
      exact .nil
    · intro chain
      cases chain
      exact .nil
  | cons line lines ih =>
    rw [List.map_cons, List.map_cons, List.filter_cons]
    by_cases ignored : isIgnored (Text.trim line) = true
    · have dropped : ¬(Text.trim line ≠ [] ∧ (Text.trim line).head? ≠ some '#') := by
        rw [isIgnored_eq_true_iff] at ignored
        tauto
      rw [if_neg (by simpa using dropped), ← ih]
      constructor
      · intro run
        cases run with
        | skip _ run => exact run
        | step first _ =>
          rw [first.kept] at ignored
          cases ignored
      · exact .skip ignored
    · have kept : Text.trim line ≠ [] ∧ (Text.trim line).head? ≠ some '#' := by
        rw [isIgnored_eq_true_iff] at ignored
        tauto
      rw [if_pos (by simpa using kept)]
      constructor
      · intro run
        cases run with
        | skip passed _ => exact absurd passed ignored
        | step first run => exact .cons first.taken (ih.1 run)
      · intro chain
        cases chain with
        | cons taken chain => exact .step ⟨Bool.eq_false_iff.2 ignored, taken⟩ (ih.2 chain)

/-- Adds productions in their order. -/
def addProductions (g : Grammar) (productions : List (Symbol × List Char)) : Grammar :=
  productions.foldl (fun g p => g.addAlternative p.1 (Text.Utf8.encode p.2)) g

theorem sameHead_addProductions (g : Grammar) (productions : List (Symbol × List Char)) :
    Grammar.SameHead (addProductions g productions) g := by
  induction productions generalizing g with
  | nil => exact ⟨rfl, rfl, rfl, rfl, rfl⟩
  | cons p productions ih =>
    exact (ih _).trans (Grammar.sameHead_addAlternative g p.1 (Text.Utf8.encode p.2))

theorem alternatives_addProductions (g : Grammar) (productions : List (Symbol × List Char)) (s : Symbol) :
    (addProductions g productions).alternatives s =
      g.alternatives s ++ (productions.filter (·.1 = s)).map fun p => Text.Utf8.encode p.2 := by
  induction productions generalizing g with
  | nil => rw [addProductions, List.foldl_nil, List.filter_nil, List.map_nil, List.append_nil]
  | cons p productions ih =>
    have step : addProductions g (p :: productions) =
        addProductions (g.addAlternative p.1 (Text.Utf8.encode p.2)) productions := rfl
    rw [step, ih, Grammar.addAlternative, Grammar.alternatives_setAlternatives, List.filter_cons]
    by_cases same : p.1 = s
    · subst same
      simp
    · simp [same]

namespace Contents

/-- The grammar once the header is read. -/
def named (c : Contents) : Grammar :=
  if c.name = [] then Grammar.empty else Grammar.empty.setName (String.ofList c.name)

/-- The grammar before its productions are read. -/
def declared (c : Contents) : Grammar :=
  (c.terminals.foldl Grammar.declareTerminal
    (c.nonTerminals.foldl Grammar.declareNonTerminal c.named)).setStart c.start

/-- The grammar that is read. -/
def grammar (c : Contents) : Grammar := addProductions c.declared c.productions

theorem named_eq (c : Contents) :
    c.named = { name := if c.name = [] then none else some (String.ofList c.name) } := by
  unfold named
  split <;> rfl

theorem denotes_declared (c : Contents) : Denotes { c with productions := [] } c.declared := by
  have nonTerminals := Grammar.foldl_enlist_eq_eraseDups c.nonTerminals
  have terminals := Grammar.foldl_enlist_eq_eraseDups c.terminals
  unfold declared
  rw [Grammar.foldl_declareNonTerminal, Grammar.foldl_declareTerminal, named_eq]
  exact ⟨rfl, nonTerminals, terminals, rfl, rfl, fun s => by simp [Grammar.setStart, Grammar.alternatives]⟩

theorem denotes_grammar (c : Contents) : c.Denotes c.grammar := by
  have head := sameHead_addProductions c.declared c.productions
  have rights := alternatives_addProductions c.declared c.productions
  have declared := c.denotes_declared
  refine ⟨head.name.trans declared.name, head.nonTerminals.trans declared.nonTerminals,
    head.terminals.trans declared.terminals, head.start.trans declared.start,
    head.escape.trans declared.escape, fun s => ?_⟩
  have none : c.declared.alternatives s = [] := declared.rights s
  rw [grammar, rights, none, List.nil_append]

end Contents

theorem not_isProduction_brace {s : Symbol} {rhs : List Char} : ¬IsProduction ['\x7d'] s rhs := by
  rintro ⟨token, gap, behind, same, -⟩
  have lengths := congrArg List.length same
  simp only [List.length_append, List.length_cons, List.length_nil] at lengths
  omega

theorem chain_productions {lines : List (List Char)} {productions : List (Symbol × List Char)}
    (written : List.Forall₂ (fun line p => IsProduction line p.1 p.2) lines productions) (g : Grammar) :
    Chain .productions g (lines ++ [['\x7d'], [')']]) .done (addProductions g productions) := by
  induction written generalizing g with
  | nil => exact .cons (.closing rfl) (.cons (.close rfl) .nil)
  | @cons line p lines productions first _ ih =>
    have more : line ≠ ['\x7d'] := by
      rintro rfl
      exact not_isProduction_brace first
    exact .cons (.production more (production_eq_ok_iff.2 first)) (ih _)

/-- From the first production on, a chain takes productions, the brace and the parenthesis. -/
theorem exists_productions_of_chain {lines : List (List Char)} {g h : Grammar}
    (chain : Chain .productions g lines .done h) :
    ∃ productionLines productions, lines = productionLines ++ [['\x7d'], [')']] ∧
      List.Forall₂ (fun line p => IsProduction line p.1 p.2) productionLines productions ∧
      h = addProductions g productions := by
  generalize first : Part.productions = part at chain
  generalize last : Part.done = next at chain
  induction chain with
  | nil =>
    subst first
    cases last
  | cons taken chain ih =>
    subst first last
    cases taken with
    | production more read =>
      obtain ⟨productionLines, productions, rfl, written, rfl⟩ := ih rfl rfl
      exact ⟨_ :: productionLines, (_, _) :: productions, rfl,
        .cons (production_eq_ok_iff.1 read) written, rfl⟩
    | closing brace =>
      subst brace
      cases chain with
      | cons taken chain =>
        cases taken with
        | close parenthesis =>
          subst parenthesis
          cases chain with
          | nil => exact ⟨[], [], rfl, .nil, rfl⟩
          | cons taken _ => cases taken

theorem taken_header_iff {line : List Char} {part : Part} {g h : Grammar} :
    Taken line .header g part h ↔ ∃ name, IsHeader line name ∧ part = .nonTerminals ∧
      h = if name = [] then g else g.setName (String.ofList name) := by
  constructor
  · intro taken
    cases taken with
    | unnamed header => exact ⟨[], headerName?_eq_some_iff.1 header, rfl, rfl⟩
    | @named _ name header nonempty =>
      exact ⟨name, headerName?_eq_some_iff.1 header, rfl, (if_neg nonempty).symm⟩
  · rintro ⟨name, header, rfl, rfl⟩
    have read := headerName?_eq_some_iff.2 header
    by_cases unnamed : name = []
    · subst unnamed
      exact .unnamed read
    · rw [if_neg unnamed]
      exact .named read unnamed

/-- The lines that lead through a whole listing are those that write down some contents. -/
theorem chain_iff_written {lines : List (List Char)} {g : Grammar} :
    Chain .header .empty lines .done g ↔ ∃ c : Contents, c.Written lines ∧ g = c.grammar := by
  constructor
  · intro chain
    cases chain with
    | cons header chain =>
      obtain ⟨name, isHeader, rfl, rfl⟩ := taken_header_iff.1 header
      cases chain with
      | cons taken chain =>
        cases taken with
        | nonTerminals first =>
          cases chain with
          | cons taken chain =>
            cases taken with
            | terminals second =>
              cases chain with
              | cons taken chain =>
                cases taken with
                | start third =>
                  cases chain with
                  | cons taken chain =>
                    cases taken with
                    | opening brace =>
                      subst brace
                      obtain ⟨_, productions, rfl, written, rfl⟩ := exists_productions_of_chain chain
                      exact ⟨⟨name, _, _, _, productions⟩,
                        .lines isHeader (set_eq_ok_iff.1 first) (set_eq_ok_iff.1 second)
                          (start_eq_ok_iff.1 third) written, rfl⟩
  · rintro ⟨c, written, rfl⟩
    cases written with
    | lines header nonTerminals terminals start productions =>
      refine .cons (taken_header_iff.2 ⟨c.name, header, rfl, rfl⟩) ?_
      refine .cons (.nonTerminals (set_eq_ok_iff.2 nonTerminals)) ?_
      refine .cons (.terminals (set_eq_ok_iff.2 terminals)) ?_
      refine .cons (.start (start_eq_ok_iff.2 start)) ?_
      exact .cons (.opening rfl) (chain_productions productions c.declared)

theorem readText_eq_ok_iff_written {text : List Char} {g : Grammar} :
    readText text = .ok g ↔ ∃ c : Contents, c.Written (significant text) ∧ g = c.grammar := by
  rw [readText, readLines_eq_ok_iff, run_iff_chain, chain_iff_written]
  rfl

/-- The reader accepts its notation and nothing else. Whatever it reads was written down in it, and every
text that is written in it is read, as the grammar that it writes down. -/
theorem readText_accepts_notation (text : List Char) :
    (∀ g, readText text = .ok g → ∃ c : Contents, c.Written (significant text) ∧ c.Denotes g) ∧
      ∀ c : Contents, c.Written (significant text) → ∃ g, readText text = .ok g ∧ c.Denotes g := by
  constructor
  · intro g read
    obtain ⟨c, written, rfl⟩ := readText_eq_ok_iff_written.1 read
    exact ⟨c, written, c.denotes_grammar⟩
  · intro c written
    exact ⟨c.grammar, readText_eq_ok_iff_written.2 ⟨c, written, rfl⟩, c.denotes_grammar⟩

/-- What `looseText` writes down. -/
def looseContents : Contents :=
  ⟨['G'], [83, 44, 65, 83], [97, 98], 83,
    [(83, ['a', 'A']), (65, ['\u00e9']), (83, []), (44, ['b'])]⟩

/-- The lines of `looseText` that count. -/
def looseLines : List (List Char) :=
  ["G=(", "\x7bS,\\x2C A S\x7d ,", "\x7b\\x61 b,,\x7d", "S", "\x7b", "S -> aA", "A->\u00e9", "S->", "\\x2c->b",
    "\x7d", ")"].map String.toList

theorem significant_looseText : significant looseText.toList = looseLines := by
  rfl

theorem written_looseLines : looseContents.Written looseLines := by
  have header : headerName? "G=(".toList = some ['G'] := by rfl
  have nonTerminals : set .nonTerminals "\x7bS,\\x2C A S\x7d ,".toList = .ok [83, 44, 65, 83] := by rfl
  have terminals : set .terminals "\x7b\\x61 b,,\x7d".toList = .ok [97, 98] := by rfl
  have start : start "S".toList = .ok 83 := by rfl
  have first : production "S -> aA".toList = .ok (83, ['a', 'A']) := by rfl
  have second : production "A->\u00e9".toList = .ok (65, ['\u00e9']) := by rfl
  have third : production "S->".toList = .ok (83, []) := by rfl
  have fourth : production "\\x2c->b".toList = .ok (44, ['b']) := by rfl
  have productions : List.Forall₂ (fun line p => IsProduction line p.1 p.2)
      (["S -> aA", "A->\u00e9", "S->", "\\x2c->b"].map String.toList) looseContents.productions :=
    .cons (production_eq_ok_iff.1 first) (.cons (production_eq_ok_iff.1 second)
      (.cons (production_eq_ok_iff.1 third) (.cons (production_eq_ok_iff.1 fourth) .nil)))
  exact .lines (headerName?_eq_some_iff.1 header) (set_eq_ok_iff.1 nonTerminals)
    (set_eq_ok_iff.1 terminals) (start_eq_ok_iff.1 start) productions

theorem readText_accepts_notation_loose :
    (readText looseText.toList = .ok looseGrammar ∧ looseContents.Written (significant looseText.toList)) ∧
      (∃ c : Contents, c.Written (significant looseText.toList) ∧ c.Denotes looseGrammar) ∧
        ∃ g, readText looseText.toList = .ok g ∧ looseContents.Denotes g := by
  have written : looseContents.Written (significant looseText.toList) :=
    significant_looseText ▸ written_looseLines
  obtain ⟨sound, complete⟩ := readText_accepts_notation looseText.toList
  exact ⟨⟨readText_looseText, written⟩, sound _ readText_looseText, complete _ written⟩

end Descent.Listing
