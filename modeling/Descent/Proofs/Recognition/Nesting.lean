import Descent.Proofs.Recognition.LeftRecursion
import Descent.Proofs.Ruleset.Landing

/-!
# Nesting

How many levels a search nests under a limit. Levels and depth do not run in step: a consumed byte resets the depth and
leaves every level as it is, and a level that is finished takes nothing from a depth that is zero already. What is bounded
is how far the levels are ahead of the depth: by the limit for each byte consumed. That such a search ends is not said here.
-/
namespace Descent

namespace Recognition

variable {E : Replacements} {limit levels depth : Nat} {consumed input : List UInt8} {s : State}

/-- How far the number of levels may be ahead of the depth once some bytes are consumed. -/
structure Nesting (limit : Nat) (consumed : List UInt8) (levels depth : Nat) : Prop where
  depth_lt : depth < levels
  levels_le : levels ≤ 1 + limit * consumed.length + depth

theorem depthAfter_le (w : List UInt8) (depth : Nat) : depthAfter w depth ≤ depth := by
  unfold depthAfter
  split
  · exact Nat.le_refl depth
  · exact Nat.zero_le depth

/-- The bytes that reset a depth make up for it. -/
theorem le_add_depthAfter (within : depth ≤ limit) (w : List UInt8) :
    depth ≤ limit * w.length + depthAfter w depth := by
  cases w with
  | nil => exact Nat.le_add_left depth _
  | cons b w =>
    have once : limit ≤ limit * (b :: w).length := Nat.le_mul_of_pos_right limit (Nat.succ_pos w.length)
    exact (within.trans once).trans (Nat.le_add_right _ _)

namespace Nesting

theorem outermost : Nesting limit [] (Continuation.outermost : Continuation Step).depth 0 where
  depth_lt := Nat.zero_lt_one
  levels_le := by rw [Continuation.depth_outermost, List.length_nil]; omega

/-- Literals that are matched leave the levels as they are. This is the one place where the limit comes in. -/
theorem consume (h : Nesting limit consumed levels depth) (within : depth ≤ limit) (w : List UInt8) :
    Nesting limit (consumed ++ w) levels (depthAfter w depth) where
  depth_lt := (depthAfter_le w depth).trans_lt h.depth_lt
  levels_le := by
    have reset := le_add_depthAfter within w
    have before := h.levels_le
    rw [List.length_append, Nat.mul_add]
    omega

/-- A rule that is entered adds a level and is counted by the depth. -/
theorem enter (h : Nesting limit consumed levels depth) : Nesting limit consumed (levels + 1) (depth + 1) where
  depth_lt := Nat.succ_lt_succ h.depth_lt
  levels_le := Nat.succ_le_succ h.levels_le

/-- A level that is finished is one less, and the depth is at most one less. -/
theorem finish (h : Nesting limit consumed (levels + 1) depth) (enclosed : 0 < levels) :
    Nesting limit consumed levels (depth - 1) where
  depth_lt := by
    have above := h.depth_lt
    omega
  levels_le := by
    have before := h.levels_le
    omega

end Nesting

/-- A state with some bytes consumed before it, by which its levels are bounded. -/
def State.Nests (limit : Nat) (input : List UInt8) (s : State) : Prop :=
  ∃ consumed, consumed ++ s.input = input ∧ Nesting limit consumed s.continuation.depth s.depth

theorem nests_enter {callee : Symbol} {left : List UInt8} {c : Continuation Step} {choices : List (Symbol × Nat)}
    (split : consumed ++ left = input) (h : Nesting limit consumed c.depth depth) :
    ∀ t ∈ enter E callee left c depth choices, t.Nests limit input := by
  intro t ht
  obtain ⟨i, body, -, rfl⟩ := mem_enter_iff.1 ht
  exact ⟨consumed, split, h.enter⟩

/-- What one turn preserves: the states that take the place of one within the limit are bounded like it. -/
theorem State.Nests.next (h : s.Nests limit input) (within : s.exceeds (some limit) = false) {next : List State}
    (expanded : s.expand E = .states next) : ∀ t ∈ next, t.Nests limit input := by
  have shallow : s.depth ≤ limit := exceeds_eq_false_iff.1 within limit rfl
  obtain ⟨consumed, split, nesting⟩ := h
  cases expands_of_expand_eq expanded with
  | mismatch => simp
  | leftover => simp
  | @call w callee rest left parents depth choices =>
    have further : (consumed ++ w) ++ left = input := by rw [List.append_assoc, split]
    exact nests_enter further (nesting.consume shallow w)
  | @finish w left parent parents depth choices =>
    intro t ht
    rw [List.mem_singleton] at ht
    subst ht
    have further : (consumed ++ w) ++ left = input := by rw [List.append_assoc, split]
    exact ⟨consumed ++ w, further, (nesting.consume shallow w).finish (Nat.succ_pos _)⟩

/-- What a run preserves: every state that a search takes up is bounded by what it has consumed. -/
theorem Visits.nests {start : Symbol} (visited : Visits E (some limit) (opening E start input) s) :
    s.Nests limit input := by
  apply visited.preserves
  · intro t next nests within expanded
    exact nests.next within expanded
  · exact nests_enter (List.nil_append input) .outermost

end Recognition

namespace Ruleset

open Recognition

variable {R : Ruleset} {limit : Nat} {input : List UInt8} {s : State}

/-- A search nests levels in proportion to what it has consumed. Wherever it is within its limit it has consumed some
bytes of the input; besides the outermost level there are at most as many as the limit for each of these bytes and once
more; and the depth is less than the number of levels. -/
theorem nesting_bounded
    (visited : Visits R.replacements (some limit) (opening R.replacements R.start input) s)
    (within : s.exceeds (some limit) = false) :
    ∃ consumed, consumed ++ s.input = input ∧
      s.continuation.depth ≤ 1 + limit * (consumed.length + 1) ∧
      s.depth ≤ s.continuation.depth - 1 := by
  obtain ⟨consumed, split, nesting⟩ := visited.nests
  have shallow : s.depth ≤ limit := exceeds_eq_false_iff.1 within limit rfl
  refine ⟨consumed, split, ?levels, ?depth⟩
  case levels =>
    calc s.continuation.depth
        ≤ 1 + limit * consumed.length + s.depth := nesting.levels_le
      _ ≤ 1 + limit * consumed.length + limit := Nat.add_le_add_left shallow _
      _ = 1 + limit * (consumed.length + 1) := by rw [Nat.mul_succ, Nat.add_assoc]
  case depth =>
    exact Nat.le_sub_one_of_lt nesting.depth_lt

/-- The state of the search for `aac` in which both `a` are consumed and the first alternative of `S` has been given up.
It has as many levels as two bytes allow under a limit of 1. -/
def tailedState : State :=
  ⟨[99], ⟨[.call 88], [[.call 88], [.call 88], []]⟩, 1, [(83, 1), (83, 0), (83, 0)]⟩

theorem nesting_bounded_aac :
    (Visits tailed.replacements (some 1) (opening tailed.replacements 83 [97, 97, 99]) tailedState ∧
      tailedState.exceeds (some 1) = false) ∧
    ∃ consumed, consumed ++ tailedState.input = [97, 97, 99] ∧
      tailedState.continuation.depth ≤ 1 + 1 * (consumed.length + 1) ∧
      tailedState.depth ≤ tailedState.continuation.depth - 1 := by
  have visited : Visits tailed.replacements (some 1) (opening tailed.replacements 83 [97, 97, 99]) tailedState :=
    .later rfl (.later rfl (.later rfl .first))
  have within : tailedState.exceeds (some 1) = false := by decide
  exact ⟨⟨visited, within⟩, nesting_bounded visited within⟩

end Ruleset

end Descent
