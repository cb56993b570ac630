import Descent.Proofs.Recognition.Leftmost

/-!
# Rulesets and their grammars

A ruleset that was built has the alternatives of its grammar for the declared symbols, and these call
declared symbols only. So derivations from the start symbol are those of the grammar.
-/
namespace Descent.Ruleset

variable {g : Grammar} {mode : EscapeMode} {R : Ruleset}

theorem mem_callees {steps : List Step} {s : Symbol} : s ∈ callees steps ↔ .call s ∈ steps := by
  unfold callees
  rw [List.mem_filterMap]
  constructor
  · rintro ⟨step, hstep, h⟩
    cases step with
    | literal b => simp at h
    | call t =>
      obtain rfl := Option.some.inj h
      exact hstep
  · intro h
    exact ⟨.call s, h, rfl⟩

theorem mem_calls {rules : List Rule} {callee caller : Symbol} {i : Nat} :
    (callee, caller, i) ∈ calls rules ↔
      ∃ r ∈ rules, r.symbol = caller ∧
        ∃ a, r.alternatives[i]? = some a ∧ .call callee ∈ a.steps := by
  simp only [calls, List.mem_flatMap, List.mem_map, mem_callees, Prod.exists, Prod.mk.injEq]
  constructor
  · rintro ⟨r, hr, a, j, ha, s, hs, rfl, rfl, rfl⟩
    exact ⟨r, hr, rfl, a, List.mem_zipIdx_iff_getElem?.1 ha, hs⟩
  · rintro ⟨r, hr, rfl, a, ha, hs⟩
    exact ⟨r, hr, a, i, List.mem_zipIdx_iff_getElem?.2 ha, callee, hs, rfl, rfl, rfl⟩

/-- When a ruleset is built, and which one. -/
theorem ofGrammar_eq_ok_iff :
    ofGrammar g mode = .ok R ↔
      ∃ start, g.start = some start ∧ start ∈ g.nonTerminals ∧
        (∀ callee caller i, (callee, caller, i) ∈ calls (rulesOf g mode) → callee ∈ g.nonTerminals) ∧
        R = ⟨g.name, start, g.escape, mode, rulesOf g mode⟩ := by
  unfold ofGrammar
  cases hstart : g.start with
  | none => simp
  | some start =>
    simp only [Grammar.isDeclared, decide_eq_true_eq]
    by_cases declared : start ∈ g.nonTerminals
    · simp only [declared, if_true]
      split
      · rename_i callee caller i hfind
        constructor
        · simp
        · rintro ⟨_, -, -, known, -⟩
          have unknown := List.find?_some hfind
          simp [known callee caller i (List.mem_of_find?_eq_some hfind)] at unknown
      · rename_i hfind
        have known : ∀ callee caller i,
            (callee, caller, i) ∈ calls (rulesOf g mode) → callee ∈ g.nonTerminals := by
          intro callee caller i h
          simpa using List.find?_eq_none.1 hfind _ h
        constructor
        · intro h
          exact ⟨start, rfl, declared, known, (Except.ok.inj h).symm⟩
        · rintro ⟨_, h, -, -, rfl⟩
          obtain rfl := Option.some.inj h
          rfl
    · simp only [declared, if_false]
      constructor
      · simp
      · rintro ⟨_, h, known, -⟩
        obtain rfl := Option.some.inj h
        exact absurd known declared

theorem rules_eq (built : ofGrammar g mode = .ok R) : R.rules = rulesOf g mode := by
  obtain ⟨start, -, -, -, rfl⟩ := ofGrammar_eq_ok_iff.1 built
  rfl

theorem start_eq (built : ofGrammar g mode = .ok R) : g.start = some R.start := by
  obtain ⟨start, hstart, -, -, rfl⟩ := ofGrammar_eq_ok_iff.1 built
  exact hstart

theorem escape_eq (built : ofGrammar g mode = .ok R) : R.escape = g.escape := by
  obtain ⟨_, -, -, -, rfl⟩ := ofGrammar_eq_ok_iff.1 built
  rfl

theorem mode_eq (built : ofGrammar g mode = .ok R) : R.mode = mode := by
  obtain ⟨_, -, -, -, rfl⟩ := ofGrammar_eq_ok_iff.1 built
  rfl

theorem start_mem (built : ofGrammar g mode = .ok R) : R.start ∈ g.nonTerminals := by
  obtain ⟨start, -, declared, -, rfl⟩ := ofGrammar_eq_ok_iff.1 built
  exact declared

theorem find?_rulesOf (s : Symbol) :
    (rulesOf g mode).find? (·.symbol == s) =
      if s ∈ g.nonTerminals then some (ruleOf g mode s) else none := by
  rw [rulesOf, List.find?_map]
  by_cases h : s ∈ g.nonTerminals
  · rw [if_pos h]
    cases hfind : g.nonTerminals.find? ((fun r : Rule => r.symbol == s) ∘ ruleOf g mode) with
    | none =>
      have unseen := List.find?_eq_none.1 hfind s h
      simp [ruleOf] at unseen
    | some t =>
      have same := List.find?_some hfind
      simp only [Function.comp_apply, ruleOf, beq_iff_eq] at same
      subst same
      rfl
  · rw [if_neg h, Option.map_eq_none_iff, List.find?_eq_none]
    intro t ht
    simp only [Function.comp_apply, ruleOf, beq_iff_eq]
    rintro rfl
    exact h ht

theorem rule?_eq (built : ofGrammar g mode = .ok R) (s : Symbol) :
    R.rule? s = if s ∈ g.nonTerminals then some (ruleOf g mode s) else none := by
  rw [rule?, rules_eq built, find?_rulesOf]

theorem rights_ruleOf (g : Grammar) (mode : EscapeMode) (s : Symbol) : (ruleOf g mode s).rights = g.alternatives s := by
  simp [ruleOf, Rule.rights, Function.comp_def]

theorem replacements_eq (built : ofGrammar g mode = .ok R) (s : Symbol) :
    R.replacements s =
      if s ∈ g.nonTerminals then some ((g.alternatives s).map (Step.all g.escape mode)) else none := by
  rw [replacements, rule?_eq built]
  by_cases h : s ∈ g.nonTerminals
  · simp [h, ruleOf, Function.comp_def]
  · simp [h]

/-- A built ruleset replaces the declared symbols as the grammar does, and no others. -/
theorem bodies_eq (built : ofGrammar g mode = .ok R) (s : Symbol) :
    R.replacements.bodies s = if s ∈ g.nonTerminals then (g.replacements mode).bodies s else [] := by
  rw [Replacements.bodies, replacements_eq built]
  by_cases h : s ∈ g.nonTerminals
  · rw [if_pos h, if_pos h]
    rfl
  · rw [if_neg h, if_neg h]
    rfl

/-- A body in a built ruleset is how an alternative of a declared symbol reads. -/
theorem exists_right_of_mem_bodies (built : ofGrammar g mode = .ok R) {s : Symbol} {body : List Step}
    (h : body ∈ R.replacements.bodies s) :
    s ∈ g.nonTerminals ∧ ∃ rhs ∈ g.alternatives s, Step.all g.escape mode rhs = body := by
  rw [bodies_eq built] at h
  by_cases declared : s ∈ g.nonTerminals
  · rw [if_pos declared] at h
    simp only [Replacements.bodies, Grammar.replacements, Option.getD_some] at h
    exact ⟨declared, List.mem_map.1 h⟩
  · rw [if_neg declared] at h
    cases h

theorem agreeOn (built : ofGrammar g mode = .ok R) :
    AgreeOn (· ∈ g.nonTerminals) R.replacements (g.replacements mode) := by
  constructor
  · intro s hs
    rw [bodies_eq built, if_pos hs]
  · intro s hs body hbody t ht
    obtain ⟨-, rhs, hrhs, rfl⟩ := exists_right_of_mem_bodies built hbody
    obtain ⟨i, hi⟩ := List.getElem?_of_mem hrhs
    obtain ⟨start, -, -, known, -⟩ := ofGrammar_eq_ok_iff.1 built
    refine known t s i (mem_calls.2 ⟨ruleOf g mode s, List.mem_map_of_mem hs, rfl,
      ⟨rhs, Step.all g.escape mode rhs⟩, ?_, ht⟩)
    simp [ruleOf, hi]

/-- Leftmost derivations in the grammar are replays in the ruleset. -/
theorem leftmostDerivation_iff (built : ofGrammar g mode = .ok R) {w : List UInt8}
    {choices : List (Symbol × Nat)} :
    g.LeftmostDerivation mode w choices ↔ replay R.replacements [.call R.start] choices = some w := by
  have same : replay R.replacements [.call R.start] choices =
      replay (g.replacements mode) [.call R.start] choices := by
    refine (agreeOn built).replay_eq fun t ht => ?_
    simp only [List.mem_singleton, Step.call.injEq] at ht
    exact ht ▸ start_mem built
  unfold Grammar.LeftmostDerivation
  rw [start_eq built, same]
  simp

end Descent.Ruleset

namespace Descent

/-- A grammar derives what has a leftmost derivation. -/
theorem Grammar.derives_iff_exists_leftmost {g : Grammar} {mode : EscapeMode} {w : List UInt8} :
    g.Derives mode w ↔ ∃ choices, g.LeftmostDerivation mode w choices := by
  simp only [Grammar.Derives, Grammar.LeftmostDerivation, yields_iff_exists_replay]
  constructor
  · rintro ⟨start, hstart, choices, h⟩
    exact ⟨choices, start, hstart, h⟩
  · rintro ⟨choices, start, hstart, h⟩
    exact ⟨start, hstart, choices, h⟩

end Descent
