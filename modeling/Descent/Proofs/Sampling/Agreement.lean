import Descent.Proofs.Recognition.LeftRecursion
import Descent.Proofs.Sampling.Words

/-!
# Sampling and recognition agree

What is drawn is never rejected, and whatever is recognised is drawn by some words, one for each choice of
the derivation found.
-/
namespace Descent

open Recognition Sampling

namespace Ruleset

variable {R : Ruleset} {σ : Type} {pick : Chooser σ} {levels : Nat} {state last : σ} {w : List UInt8}

theorem exists_replay_of_sentence (drawn : sentence R pick levels state = (.ok w, last)) :
    ∃ choices, replay R.replacements [.call R.start] choices = some w := by
  obtain ⟨t, ht, rfl⟩ := sentence_eq_ok_iff.1 drawn
  exact ⟨t.choices, ht.grows.replay_eq⟩

/-- A sentence that is drawn is not rejected. -/
theorem derivation?_ne_none_of_sentence (drawn : sentence R pick levels state = (.ok w, last))
    (limit : Option Nat) : R.derivation? limit w ≠ .ok none := by
  intro h
  obtain ⟨choices, replayed⟩ := exists_replay_of_sentence drawn
  exact rejects_settles (derivation?_eq_result_iff (v := .rejects).1 h) choices replayed

theorem recognize_ne_false_of_sentence (drawn : sentence R pick levels state = (.ok w, last))
    (limit : Option Nat) : R.recognize limit w ≠ .ok false := by
  intro h
  obtain ⟨r, hr, none⟩ := recognize_eq_ok_iff.1 h
  rw [Option.isSome_eq_false_iff, Option.isNone_iff_eq_none] at none
  exact derivation?_ne_none_of_sentence drawn limit (none ▸ hr)

theorem recognize_of_sentence (drawn : sentence R pick levels state = (.ok w, last))
    (free : ∀ s, ¬LeftRecursive R.replacements s) {limit : Option Nat}
    (wide : Wider R.rules.length limit) : R.recognize limit w = .ok true := by
  obtain ⟨r, hr⟩ := exists_answer free wide w
  have answered : R.recognize limit w = .ok r.isSome := recognize_eq_ok_iff.2 ⟨r, hr, rfl⟩
  cases hsome : r.isSome with
  | true => rwa [hsome] at answered
  | false =>
    rw [hsome] at answered
    exact absurd answered (recognize_ne_false_of_sentence drawn limit)

/-- A derivation that is found has one derivation tree, and its bytes are the input. -/
theorem exists_tree_of_derivation? {limit : Option Nat} {d : Derivation}
    (found : R.derivation? limit w = .ok (some d)) :
    ∃ t, (∀ u, R.IsTreeOf d u ↔ u = t) ∧ t.yield = w := by
  have accepted := derivation?_eq_result_iff (v := .accepts d).1 found
  obtain ⟨t, grown, choices, yield⟩ := replay_eq_some_iff_exists_grows.1 (accepts_settles accepted).1
  refine ⟨t, fun u => ⟨?_, ?_⟩, yield⟩
  · rintro ⟨other, same⟩
    exact other.unique grown (same.trans choices.symm)
  · rintro rfl
    exact ⟨grown, choices⟩

theorem length_bodies_lt {n : Nat} (small : ∀ r ∈ R.rules, r.alternatives.length < n) (positive : 0 < n)
    (s : Symbol) : (R.replacements.bodies s).length < n := by
  unfold Replacements.bodies replacements
  cases hr : R.rule? s with
  | none => exact positive
  | some r =>
    rw [Option.map_some, Option.getD_some, List.length_map]
    exact small r (List.mem_of_find?_eq_some hr)

/-- The words for the choices of a derivation tree draw its bytes, each word taken once. -/
theorem sentence_wordsFor {t : Forest} (grown : Grows R.replacements [.call R.start] t)
    (small : ∀ r ∈ R.rules, r.alternatives.length < UInt32.size) (low : t.height ≤ levels) :
    sentence R cycles.pick levels (.ofWords (wordsFor R.replacements t.choices)) =
      (.ok t.yield, ⟨wordsFor R.replacements t.choices, [], t.choices.length⟩) := by
  have supplied := supplies_wordsFor (length_bodies_lt small (by decide)) grown.lt_of_mem_choices
    (wordsFor R.replacements t.choices) [] 0
  rw [List.append_nil, Nat.zero_add] at supplied
  exact sentence_eq_ok_iff.2 ⟨t, ⟨grown, low, supplied⟩, rfl⟩

/-- Sampling and recognition agree. What is drawn, whatever picks, is rejected under no limit, and it is
recognised if no symbol is left-recursive and the limit is at least the number of rules. What is recognised
is drawn by as many words as its derivation has choices, at every number of levels that its derivation tree
fits in. -/
theorem sentence_agrees_with_recognition (R : Ruleset) :
    (∀ (σ : Type) (pick : Chooser σ) (levels : Nat) (state last : σ) (w : List UInt8),
      sentence R pick levels state = (.ok w, last) →
        (∀ limit, R.recognize limit w ≠ .ok false) ∧
          ((∀ s, ¬LeftRecursive R.replacements s) →
            ∀ limit, Wider R.rules.length limit → R.recognize limit w = .ok true)) ∧
      ∀ limit w d, R.derivation? limit w = .ok (some d) →
        (∀ r ∈ R.rules, r.alternatives.length < UInt32.size) →
          ∃ t words, (∀ u, R.IsTreeOf d u ↔ u = t) ∧ t.yield = w ∧ words.length = d.choices.length ∧
            ∀ levels, t.height ≤ levels →
              sentence R cycles.pick levels (.ofWords words) = (.ok w, ⟨words, [], words.length⟩) := by
  constructor
  · intro σ pick levels state last w drawn
    refine ⟨recognize_ne_false_of_sentence drawn, ?_⟩
    intro free limit wide
    exact recognize_of_sentence drawn free wide
  · intro limit w d found small
    obtain ⟨t, tree, rfl⟩ := exists_tree_of_derivation? found
    obtain ⟨grown, choices⟩ := (tree t).2 rfl
    have length : (wordsFor R.replacements t.choices).length = t.choices.length := List.length_map _
    refine ⟨t, wordsFor R.replacements t.choices, tree, rfl, by rw [length, choices], ?_⟩
    intro levels low
    rw [length]
    exact sentence_wordsFor grown small low

theorem sentence_agrees_with_recognition_aac :
    tailed.derivation? none [97, 97, 99] =
        .ok (some ⟨[(83, 0), (83, 0), (83, 1), (88, 0), (88, 0), (88, 1)]⟩) ∧
      ∃ words levels, words.length = 6 ∧
        (sentence tailed cycles.pick levels (.ofWords words)).1 = .ok [97, 97, 99] ∧
        tailed.recognize (some 2) [97, 97, 99] = .ok true := by
  have explored : tailed.deriveWithin 30 none [97, 97, 99] =
      some (.accepts ⟨[(83, 0), (83, 0), (83, 1), (88, 0), (88, 0), (88, 1)]⟩) := by
    rw [deriveWithin_eq]
    decide
  have found := derivation?_eq_result_iff.2 (answers_of_deriveWithin explored)
  obtain ⟨t, words, -, -, length, drawn⟩ := (sentence_agrees_with_recognition tailed).2 _ _ _ found (by decide)
  have sampled := drawn t.height (Nat.le_refl _)
  have recognized := ((sentence_agrees_with_recognition tailed).1 _ _ _ _ _ _ sampled).2 tailed_free
    (some 2) (wider_some (by decide))
  exact ⟨found, words, t.height, length, by rw [sampled], recognized⟩

end Ruleset

end Descent
