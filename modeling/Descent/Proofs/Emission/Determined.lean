import Descent.Grammar.Draft
import Descent.Proofs.Emission.Legible
import Descent.Proofs.Ruleset.Agreement
import Descent.Recognition.Search
import Mathlib.Control.Monad.Basic

/-!
# The source determines the recognizer

Two grammars with the same source agree on everything that recognition looks at. Only what the source does not
carry may differ: the alternatives of undeclared symbols, the terminals, and names that are spelled alike.
-/
namespace Descent

open Emission Ruleset

variable {g g' : Grammar} {t : Target} {mode mode' : EscapeMode} {comments comments' : Bool} {R S : Ruleset}
  {source : String}

theorem Target.agree_of_lines (ruled : R.rules ≠ []) (ruled' : S.rules ≠ [])
    (same : (t.program R comments).lines = (t.program S comments').lines) : Agree R S comments comments' := by
  cases t with
  | rust => exact Rust.legible.lines_inj ruled ruled' same
  | c => exact C.legible.lines_inj ruled ruled' same

namespace Ruleset

theorem source_of_emit (h : R.emit t comments = .ok source) : (t.program R comments).source = source := by
  unfold emit at h
  split at h
  · cases h
  · exact Except.ok.inj h

theorem rules_ne_nil (built : ofGrammar g mode = .ok R) : R.rules ≠ [] := by
  rw [rules_eq built, rulesOf, ne_eq, List.map_eq_nil_iff]
  exact List.ne_nil_of_mem (start_mem built)

theorem views_eq (built : ofGrammar g mode = .ok R) :
    R.rules.map (fun r => (r.symbol, r.rights)) = g.nonTerminals.map fun s => (s, g.alternatives s) := by
  rw [rules_eq built, rulesOf, List.map_map]
  exact List.map_congr_left fun s _ => congrArg (Prod.mk s) (rights_ruleOf g mode s)

theorem rulesOf_congr (nonTerminals : g.nonTerminals = g'.nonTerminals) (escape : g.escape = g'.escape)
    (alternatives : ∀ s ∈ g.nonTerminals, g.alternatives s = g'.alternatives s) :
    rulesOf g mode = rulesOf g' mode := by
  rw [rulesOf, rulesOf, ← nonTerminals]
  refine List.map_congr_left fun s hs => ?_
  rw [ruleOf, ruleOf, alternatives s hs, escape]

/-- Recognition does not look at the name. -/
theorem derivation?_congr_name (start : R.start = S.start) (rules : R.rules = S.rules) (limit : Option Nat)
    (input : List UInt8) : R.derivation? limit input = S.derivation? limit input := by
  obtain ⟨_, _, _, _, _⟩ := R
  obtain ⟨_, _, _, _, _⟩ := S
  cases start
  cases rules
  rfl

end Ruleset

namespace Grammar

theorem exists_ruleset_of_emit (h : g.emit t mode comments = .ok source) :
    ∃ R, ofGrammar g mode = .ok R ∧ (t.program R comments).source = source := by
  unfold emit at h
  cases built : ofGrammar g mode with
  | error fault =>
    rw [built] at h
    cases h
  | ok R =>
    rw [built] at h
    exact ⟨R, rfl, source_of_emit h⟩

/-- Equal sources of one target come from the same escape mode and comment flag, and from grammars with the same
escape marker, start symbol, declared non-terminals and alternatives of these; so recognition gives the same
result for every input under every limit. -/
theorem emit_determines (h : g.emit t mode comments = .ok source) (h' : g'.emit t mode' comments' = .ok source) :
    mode = mode' ∧ comments = comments' ∧ g.escape = g'.escape ∧ g.start = g'.start ∧
      g.nonTerminals = g'.nonTerminals ∧ (∀ s ∈ g.nonTerminals, g.alternatives s = g'.alternatives s) ∧
      ∃ R S, ofGrammar g mode = .ok R ∧ ofGrammar g' mode' = .ok S ∧
        ∀ limit input, R.derivation? limit input = S.derivation? limit input ∧
          R.recognize limit input = S.recognize limit input := by
  obtain ⟨R, built, sourceR⟩ := exists_ruleset_of_emit h
  obtain ⟨S, built', sourceS⟩ := exists_ruleset_of_emit h'
  have lines : (t.program R comments).lines = (t.program S comments').lines :=
    text_inj (plainLines_program t R comments) (plainLines_program t S comments') (sourceR.trans sourceS.symm)
  have agree := Target.agree_of_lines (rules_ne_nil built) (rules_ne_nil built') lines
  have modes : mode = mode' := (mode_eq built).symm.trans (agree.mode.trans (mode_eq built'))
  have escapes : g.escape = g'.escape := (escape_eq built).symm.trans (agree.escape.trans (escape_eq built'))
  have starts : g.start = g'.start := by rw [start_eq built, start_eq built', agree.start]
  have views := agree.rules
  rw [views_eq built, views_eq built'] at views
  have nonTerminals : g.nonTerminals = g'.nonTerminals := by
    simpa only [List.map_map, Function.comp_def, List.map_id'] using congrArg (List.map Prod.fst) views
  have alternatives : ∀ s ∈ g.nonTerminals, g.alternatives s = g'.alternatives s := by
    rw [← nonTerminals] at views
    intro s hs
    exact (Prod.mk.inj (List.map_inj_left.1 views s hs)).2
  have rules : R.rules = S.rules := by
    rw [rules_eq built, rules_eq built', ← modes, rulesOf_congr nonTerminals escapes alternatives]
  have same : ∀ limit input, R.derivation? limit input = S.derivation? limit input :=
    derivation?_congr_name agree.start rules
  refine ⟨modes, agree.comments, escapes, starts, nonTerminals, alternatives, R, S, built, built', ?_⟩
  intro limit input
  exact ⟨same limit input, by rw [recognize, recognize, same]⟩

/-- `S → aSb | ε` without a name. -/
def unnamed : Grammar := ofDraft 'S' [.rule 'S' [97, 83, 98], .rule 'S' []]

/-- The same rules under the name that the source shows when there is none. -/
def misnamed : Grammar := ofDraft 'S' [.name "<unnamed>", .rule 'S' [97, 83, 98], .rule 'S' []]

/-- The rules of both. -/
def balanced (name : Option String) : Ruleset :=
  ⟨name, 83, 92, .skip, [⟨83, [⟨[97, 83, 98], [.literal 97, .call 83, .literal 98]⟩, ⟨[], []⟩]⟩]⟩

theorem unnamed_built : ofGrammar unnamed .skip = .ok (balanced none) := by decide +kernel

theorem misnamed_built : ofGrammar misnamed .skip = .ok (balanced (some "<unnamed>")) := by decide +kernel

theorem emit_of_built (built : ofGrammar g mode = .ok R) (spelled : R.spelled.find? (!t.canSpell ·) = none)
    (comments : Bool) : g.emit t mode comments = .ok (t.program R comments).source := by
  rw [emit, built]
  simp only [bind, Except.bind, Ruleset.emit, spelled]

theorem balanced_program : C.program (balanced none) true = C.program (balanced (some "<unnamed>")) true := by
  have names : nameText none = nameText (some "<unnamed>") := by decide
  have headers : opening (balanced none) = opening (balanced (some "<unnamed>")) := by
    unfold opening balanced
    rw [names]
  have preludes : C.prelude (balanced none) = C.prelude (balanced (some "<unnamed>")) := by
    unfold C.prelude
    rw [headers]
    rfl
  unfold C.program
  rw [preludes]
  rfl

theorem emit_determines_misnamed :
    (unnamed.emit .c .skip true = .ok (C.program (balanced none) true).source ∧
      misnamed.emit .c .skip true = .ok (C.program (balanced none) true).source) ∧
    unnamed.escape = misnamed.escape ∧ unnamed.start = misnamed.start ∧
      unnamed.nonTerminals = misnamed.nonTerminals ∧
      (∀ s ∈ unnamed.nonTerminals, unnamed.alternatives s = misnamed.alternatives s) ∧
      ∃ R S, ofGrammar unnamed .skip = .ok R ∧ ofGrammar misnamed .skip = .ok S ∧
        ∀ limit input, R.derivation? limit input = S.derivation? limit input ∧
          R.recognize limit input = S.recognize limit input := by
  have emitted : unnamed.emit .c .skip true = .ok (C.program (balanced none) true).source :=
    emit_of_built unnamed_built (by decide) true
  have emitted' : misnamed.emit .c .skip true = .ok (C.program (balanced none) true).source := by
    rw [balanced_program]
    exact emit_of_built misnamed_built (by decide) true
  exact ⟨⟨emitted, emitted'⟩, (emit_determines emitted emitted').2.2⟩

end Grammar

end Descent
