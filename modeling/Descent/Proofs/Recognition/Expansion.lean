import Descent.Proofs.Recognition.Leftmost
import Descent.Recognition.State

/-!
# What one expansion does

The expansion of a state as a relation with one case for each way in which the literals at the front of
its pattern can end. Everything said of the search below is said case by case of this relation.
-/
namespace Descent.Recognition

variable {E : Replacements}

/-- The depth of a match once some bytes are consumed. -/
def depthAfter (consumed : List UInt8) (depth : Nat) : Nat := if consumed = [] then depth else 0

theorem depthAfter_zero (w : List UInt8) : depthAfter w 0 = 0 := by
  unfold depthAfter
  split <;> rfl

/-- Where the literals at the front of a pattern take a match. -/
inductive Advances : List Step → List UInt8 → Nat → Advance Step → Prop
  | mismatch {w : List UInt8} {b : UInt8} {rest : List Step} {left : List UInt8} {depth : Nat} :
    left.head? ≠ some b → Advances (w.map .literal ++ .literal b :: rest) (w ++ left) depth .mismatch
  | call {w : List UInt8} {callee : Symbol} {rest : List Step} {left : List UInt8} {depth : Nat} :
    Advances (w.map .literal ++ .call callee :: rest) (w ++ left) depth
      (.call callee rest left (depthAfter w depth))
  | finished {w left : List UInt8} {depth : Nat} :
    Advances (w.map .literal) (w ++ left) depth (.finished left (depthAfter w depth))

theorem Advances.cons {b : UInt8} {pattern : List Step} {input : List UInt8} {depth : Nat} {a : Advance Step}
    (h : Advances pattern input 0 a) : Advances (.literal b :: pattern) (b :: input) depth a := by
  cases h with
  | @mismatch w c rest left _ hne => exact .mismatch (w := b :: w) hne
  | @call w callee rest left =>
    rw [depthAfter_zero]
    exact .call (w := b :: w)
  | @finished w left =>
    rw [depthAfter_zero]
    exact .finished (w := b :: w)

theorem advances_advance (pattern : List Step) (input : List UInt8) (depth : Nat) :
    Advances pattern input depth (advance pattern input depth) := by
  fun_induction advance pattern input depth with
  | case1 input depth => exact .finished (w := [])
  | case2 callee rest input depth => exact .call (w := [])
  | case3 b rest depth => exact .mismatch (w := []) (by simp)
  | case4 rest input depth c ih => exact ih.cons
  | case5 b rest c input depth hne =>
    refine .mismatch (w := []) ?_
    simpa using fun same => hne same.symm

/-- What a state expands to. -/
inductive Expands (E : Replacements) : State → Expansion → Prop
  /-- A literal of the pattern is not the next byte. -/
  | mismatch {w : List UInt8} {b : UInt8} {rest : List Step} {left : List UInt8}
    {parents : List (List Step)} {depth : Nat} {choices : List (Symbol × Nat)} :
    left.head? ≠ some b →
    Expands E ⟨w ++ left, ⟨w.map .literal ++ .literal b :: rest, parents⟩, depth, choices⟩ (.states [])
  /-- A call is reached. -/
  | call {w : List UInt8} {callee : Symbol} {rest : List Step} {left : List UInt8}
    {parents : List (List Step)} {depth : Nat} {choices : List (Symbol × Nat)} :
    Expands E ⟨w ++ left, ⟨w.map .literal ++ .call callee :: rest, parents⟩, depth, choices⟩
      (.states (enter E callee left ⟨rest, parents⟩ (depthAfter w depth) choices))
  /-- The pattern is used up and the enclosing level goes on. -/
  | finish {w left : List UInt8} {parent : List Step} {parents : List (List Step)} {depth : Nat}
    {choices : List (Symbol × Nat)} :
    Expands E ⟨w ++ left, ⟨w.map .literal, parent :: parents⟩, depth, choices⟩
      (.states [⟨left, ⟨parent, parents⟩, depthAfter w depth - 1, choices⟩])
  /-- All patterns and the input are used up. -/
  | accept {w : List UInt8} {depth : Nat} {choices : List (Symbol × Nat)} :
    Expands E ⟨w, ⟨w.map .literal, []⟩, depth, choices⟩ .accepted
  /-- All patterns are used up and input is left. -/
  | leftover {w left : List UInt8} {depth : Nat} {choices : List (Symbol × Nat)} :
    left ≠ [] → Expands E ⟨w ++ left, ⟨w.map .literal, []⟩, depth, choices⟩ (.states [])

theorem expands_expand (s : State) : Expands E s (s.expand E) := by
  obtain ⟨input, ⟨pattern, parents⟩, depth, choices⟩ := s
  unfold State.expand
  have spec := advances_advance pattern input depth
  simp only
  generalize advance pattern input depth = a at spec
  cases spec with
  | mismatch hne => exact .mismatch hne
  | call => exact .call
  | @finished w left =>
    cases parents with
    | cons parent parents => exact .finish
    | nil =>
      by_cases hleft : left = []
      · subst hleft
        rw [List.append_nil]
        exact .accept
      · simp only [Continuation.parent?, hleft, if_false]
        exact .leftover hleft

theorem expands_of_expand_eq {s : State} {x : Expansion} (h : s.expand E = x) : Expands E s x :=
  h ▸ expands_expand s

/-- The states entered are those of the callee's bodies, in order. -/
theorem enter_eq (s : Symbol) (input : List UInt8) (c : Continuation Step) (depth : Nat)
    (choices : List (Symbol × Nat)) :
    enter E s input c depth choices =
      (E.bodies s).mapIdx fun i body => ⟨input, c.push body, depth + 1, (s, i) :: choices⟩ := by
  unfold enter Replacements.bodies
  split <;> simp_all

theorem mem_enter_iff {s : Symbol} {input : List UInt8} {c : Continuation Step} {depth : Nat}
    {choices : List (Symbol × Nat)} {t : State} :
    t ∈ enter E s input c depth choices ↔
      ∃ i body, (E.bodies s)[i]? = some body ∧
        t = ⟨input, c.push body, depth + 1, (s, i) :: choices⟩ := by
  rw [enter_eq, List.mem_mapIdx]
  constructor
  · rintro ⟨i, hi, rfl⟩
    exact ⟨i, (E.bodies s)[i], List.getElem?_eq_getElem hi, rfl⟩
  · rintro ⟨i, body, hbody, rfl⟩
    obtain ⟨hi, rfl⟩ := List.getElem?_eq_some_iff.1 hbody
    exact ⟨i, hi, rfl⟩

end Descent.Recognition
