import Descent.Proofs.Ruleset.Agreement
import Descent.Ruleset.Dispatch

/-!
# The slots hold the places

While the list of rules grows, each slot keeps holding the place of the rule of its symbol, as no symbol has two rules. So
the table of a ruleset that was built finds the rule that a search through the list finds.
-/
namespace Descent

namespace RuleTable

variable {t : RuleTable} {r found : Rule} {rules : List Rule} {s : Symbol} {i : Nat}

theorem place?_push (t : RuleTable) (r : Rule) (s : Symbol) :
    (t.push r).place? s = if r.symbol = s then some t.rules.length else t.place? s := by
  simp only [place?, push, Vector.getElem_set, UInt8.toNat_inj]

theorem getElem?_rules_push :
    (t.push r).rules[i]? = some found ↔ t.rules[i]? = some found ∨ i = t.rules.length ∧ r = found := by
  show (t.rules ++ [r])[i]? = some found ↔ _
  grind

/-- Each slot holds the place of the rule of its symbol, and nothing if there is no such rule. -/
def Aligned (t : RuleTable) : Prop :=
  ∀ s i, t.place? s = some i ↔ ∃ r, t.rules[i]? = some r ∧ r.symbol = s

theorem aligned_empty : empty.Aligned := by
  intro s i
  simp [empty, place?]

/-- What one more rule preserves if its symbol has none yet. -/
theorem Aligned.push (h : t.Aligned) (fresh : ∀ other ∈ t.rules, other.symbol ≠ r.symbol) : (t.push r).Aligned := by
  intro s i
  rw [place?_push]
  by_cases own : r.symbol = s
  · rw [if_pos own]
    constructor
    · intro placed
      exact ⟨r, getElem?_rules_push.2 (.inr ⟨(Option.some.inj placed).symm, rfl⟩), own⟩
    · intro ruled
      obtain ⟨found, there, same⟩ := ruled
      rcases getElem?_rules_push.1 there with earlier | ⟨last, -⟩
      · exact absurd (same.trans own.symm) (fresh found (List.mem_of_getElem? earlier))
      · rw [last]
  · rw [if_neg own, h s i]
    constructor
    · intro ruled
      obtain ⟨found, there, same⟩ := ruled
      exact ⟨found, getElem?_rules_push.2 (.inl there), same⟩
    · intro ruled
      obtain ⟨found, there, same⟩ := ruled
      rcases getElem?_rules_push.1 there with earlier | ⟨-, rfl⟩
      · exact ⟨found, earlier, same⟩
      · exact absurd same own

/-- What all rules preserve, put one behind the other. -/
theorem Aligned.foldl (h : t.Aligned) (distinct : ((t.rules ++ rules).map (·.symbol)).Nodup) :
    (rules.foldl RuleTable.push t).Aligned ∧ (rules.foldl RuleTable.push t).rules = t.rules ++ rules := by
  induction rules generalizing t with
  | nil => exact ⟨h, (List.append_nil _).symm⟩
  | cons r rules ih =>
    have grown : (t.push r).rules ++ rules = t.rules ++ r :: rules := List.append_assoc _ [r] rules
    have fresh : ∀ other ∈ t.rules, other.symbol ≠ r.symbol := by
      intro other present same
      rw [List.map_append, List.nodup_append] at distinct
      exact distinct.2.2 _ (List.mem_map_of_mem present) _ List.mem_cons_self same
    rw [← grown] at distinct ⊢
    exact ih (h.push fresh) distinct

theorem Aligned.dispatch_eq_some_iff (h : t.Aligned) : t.dispatch s = some r ↔ r ∈ t.rules ∧ r.symbol = s := by
  rw [dispatch, Option.bind_eq_some_iff]
  constructor
  · intro held
    obtain ⟨i, placed, there⟩ := held
    obtain ⟨found, there', same⟩ := (h s i).1 placed
    rw [there] at there'
    obtain rfl := Option.some.inj there'
    exact ⟨List.mem_of_getElem? there, same⟩
  · intro ruled
    obtain ⟨present, same⟩ := ruled
    obtain ⟨i, there⟩ := List.getElem?_of_mem present
    exact ⟨i, (h s i).2 ⟨r, there, same⟩, there⟩

end RuleTable

namespace Ruleset

variable {g : Grammar} {mode : EscapeMode} {R : Ruleset}

theorem nodup_symbols_rules (built : ofGrammar g mode = .ok R) : (R.rules.map (·.symbol)).Nodup := by
  have symbols : R.rules.map (·.symbol) = g.nonTerminals := by
    rw [rules_eq built, rulesOf, List.map_map]
    exact List.map_id g.nonTerminals
  rw [symbols]
  exact g.nonTerminals_nodup

/-- The table of a ruleset that was built has its rules, in their order, with their places in the slots. -/
theorem aligned_table (built : ofGrammar g mode = .ok R) : R.table.Aligned ∧ R.table.rules = R.rules :=
  RuleTable.aligned_empty.foldl (nodup_symbols_rules built)

/-- The slots lead to the same rule as the search through the list. -/
theorem dispatch_eq_rule? (built : ofGrammar g mode = .ok R) (s : Symbol) : R.dispatch s = R.rule? s := by
  obtain ⟨aligned, rules⟩ := aligned_table built
  cases found : R.rule? s with
  | none =>
    rw [Option.eq_none_iff_forall_ne_some]
    intro r dispatched
    obtain ⟨present, same⟩ := aligned.dispatch_eq_some_iff.1 dispatched
    rw [rules] at present
    exact List.find?_eq_none.1 found r present (beq_iff_eq.2 same)
  | some r =>
    have owner := List.find?_some found
    apply aligned.dispatch_eq_some_iff.2
    rw [rules]
    exact ⟨List.mem_of_find?_eq_some found, beq_iff_eq.1 owner⟩

end Ruleset

end Descent
