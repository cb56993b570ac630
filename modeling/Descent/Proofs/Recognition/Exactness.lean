import Descent.Grammar.Draft
import Descent.Proofs.Recognition.Coverage
import Descent.Proofs.Ruleset.Agreement

/-!
# Exactness of recognition

An answer is right in both directions, and a derivation that is found is a leftmost derivation of the
input, the first one by the alternatives chosen. Whether there is an answer is not said here.
-/
namespace Descent

open Recognition

namespace Recognition

/-- The state before the start symbol is entered. -/
def State.initial (start : Symbol) (input : List UInt8) : State := ⟨input, ⟨[.call start], []⟩, 0, []⟩

variable {E : Replacements} {start : Symbol} {input : List UInt8}

theorem expand_initial : (State.initial start input).expand E = .states (opening E start input) := rfl

theorem completes_initial_iff {c : List (Symbol × Nat)} :
    Completes E (State.initial start input) c ↔ replay E [.call start] c = some input := by
  simp [Completes, State.pending, State.initial]

/-- The search starts with all leftmost derivations of the input before it. -/
theorem completes_opening_iff {c : List (Symbol × Nat)} :
    (∃ s ∈ opening E start input, Completes E s c) ↔ replay E [.call start] c = some input := by
  rw [← completes_iff_of_states expand_initial, completes_initial_iff]

theorem settles_of_ends {limit : Option Nat} {v : Verdict} (h : Ends E limit (opening E start input) v) :
    Settles E (opening E start input) v :=
  h.settles (pairwise_of_states expand_initial)

theorem accepts_settles {limit : Option Nat} {d : Derivation}
    (h : Ends E limit (opening E start input) (.accepts d)) :
    replay E [.call start] d.choices = some input ∧
      ∀ c, replay E [.call start] c = some input → c = d.choices ∨ Earlier d.choices c := by
  obtain ⟨found, least⟩ := settles_of_ends h
  refine ⟨completes_opening_iff.1 found, ?_⟩
  intro c hc
  obtain ⟨s, hs, hc⟩ := completes_opening_iff.2 hc
  exact least s hs c hc

theorem rejects_settles {limit : Option Nat} (h : Ends E limit (opening E start input) .rejects)
    (c : List (Symbol × Nat)) : replay E [.call start] c ≠ some input := by
  intro hc
  obtain ⟨s, hs, hc⟩ := completes_opening_iff.2 hc
  exact settles_of_ends h s hs c hc

end Recognition

/-- `S → Ab`, `A → Xa | ab | ab`, `X → ε`: on `abb` the first way through `A` has to be given up, and two
others lead on. -/
def Grammar.detour : Grammar :=
  Grammar.ofDraft 'S'
    [.rule 'S' [65, 98], .rule 'A' [88, 97], .rule 'A' [97, 98], .rule 'A' [97, 98], .rule 'X' []]

/-- The rules of `Grammar.detour`. -/
def Ruleset.detour : Ruleset :=
  ⟨none, 83, 92, .literal,
    [⟨83, [⟨[65, 98], [.call 65, .literal 98]⟩]⟩,
      ⟨65, [⟨[88, 97], [.call 88, .literal 97]⟩, ⟨[97, 98], [.literal 97, .literal 98]⟩,
        ⟨[97, 98], [.literal 97, .literal 98]⟩]⟩,
      ⟨88, [⟨[], []⟩]⟩]⟩

namespace Ruleset

variable {g : Grammar} {mode : EscapeMode} {R : Ruleset} {limit : Option Nat} {input : List UInt8}

theorem derives_of_accepts (built : ofGrammar g mode = .ok R) {d : Derivation}
    (h : R.Answers limit input (.accepts d)) : g.Derives mode input :=
  Grammar.derives_iff_exists_leftmost.2 ⟨d.choices, (leftmostDerivation_iff built).2 (accepts_settles h).1⟩

theorem not_derives_of_rejects (built : ofGrammar g mode = .ok R) (h : R.Answers limit input .rejects) :
    ¬g.Derives mode input := by
  intro derived
  obtain ⟨c, hc⟩ := Grammar.derives_iff_exists_leftmost.1 derived
  exact rejects_settles h c ((leftmostDerivation_iff built).1 hc)

/-- An answer of yes or no says whether the start symbol yields the input. -/
theorem isSome_iff_derives (built : ofGrammar g mode = .ok R) {r : Option Derivation}
    (h : R.derivation? limit input = .ok r) : r.isSome = true ↔ g.Derives mode input := by
  cases r with
  | none =>
    have rejected := derivation?_eq_result_iff (v := .rejects).1 h
    simpa using not_derives_of_rejects built rejected
  | some d =>
    have accepted := derivation?_eq_result_iff (v := .accepts d).1 h
    simpa using derives_of_accepts built accepted

/-- Recognition is exact: whatever the limit and the order of alternatives, an answer says whether the
start symbol of the grammar yields the input. -/
theorem recognize_exact (built : ofGrammar g mode = .ok R) {b : Bool}
    (answered : R.recognize limit input = .ok b) : b = true ↔ g.Derives mode input := by
  obtain ⟨r, hr, rfl⟩ := recognize_eq_ok_iff.1 answered
  exact isSome_iff_derives built hr

theorem detour_built : ofGrammar .detour .literal = .ok detour := by decide +kernel

theorem recognize_exact_abb :
    (ofGrammar .detour .literal = .ok detour ∧ detour.recognize (some 3) [97, 98, 98] = .ok true) ∧
      (true = true ↔ Grammar.detour.Derives .literal [97, 98, 98]) := by
  have explored : detour.deriveWithin 9 (some 3) [97, 98, 98] = some (.accepts ⟨[(83, 0), (65, 1)]⟩) := by
    rw [deriveWithin_eq]
    decide
  have answered : detour.recognize (some 3) [97, 98, 98] = .ok true :=
    recognize_eq_ok_iff.2 ⟨_, derivation?_eq_result_iff.2 (answers_of_deriveWithin explored), rfl⟩
  exact ⟨⟨detour_built, answered⟩, recognize_exact detour_built answered⟩

/-- What is found is a leftmost derivation of the input, and every other one chooses a later alternative
where it first differs. -/
theorem derivation?_first (built : ofGrammar g mode = .ok R) {d : Derivation}
    (found : R.derivation? limit input = .ok (some d)) :
    g.LeftmostDerivation mode input d.choices ∧
      ∀ c, g.LeftmostDerivation mode input c → c = d.choices ∨ Earlier d.choices c := by
  have accepted := derivation?_eq_result_iff (v := .accepts d).1 found
  obtain ⟨replayed, least⟩ := accepts_settles accepted
  refine ⟨(leftmostDerivation_iff built).2 replayed, ?_⟩
  intro c hc
  exact least c ((leftmostDerivation_iff built).1 hc)

theorem derivation?_first_abb :
    (ofGrammar .detour .literal = .ok detour ∧
      detour.derivation? none [97, 98, 98] = .ok (some ⟨[(83, 0), (65, 1)]⟩)) ∧
    Grammar.detour.LeftmostDerivation .literal [97, 98, 98] [(83, 0), (65, 1)] ∧
      ∀ c, Grammar.detour.LeftmostDerivation .literal [97, 98, 98] c →
        c = [(83, 0), (65, 1)] ∨ Earlier [(83, 0), (65, 1)] c := by
  have explored : detour.deriveWithin 9 none [97, 98, 98] = some (.accepts ⟨[(83, 0), (65, 1)]⟩) := by
    rw [deriveWithin_eq]
    decide
  have found : detour.derivation? none [97, 98, 98] = .ok (some ⟨[(83, 0), (65, 1)]⟩) :=
    derivation?_eq_result_iff.2 (answers_of_deriveWithin explored)
  exact ⟨⟨detour_built, found⟩, derivation?_first detour_built found⟩

end Ruleset

end Descent
