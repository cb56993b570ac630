import Descent.Ruleset

/-!
# What steps yield

The context-free reading of replacements, with no order in it: a call is replaced by one of the bodies
of its symbol, and what the parts yield is put together.
-/
namespace Descent

/-- The bodies that a symbol can be replaced by; none if it has no rule. -/
def Replacements.bodies (E : Replacements) (s : Symbol) : List (List Step) := (E s).getD []

/-- A byte string that a sequence of steps yields, by some choice of bodies and some split. -/
inductive Yields (E : Replacements) : List Step → List UInt8 → Prop
  | nil : Yields E [] []
  | literal {b : UInt8} {rest : List Step} {w : List UInt8} :
    Yields E rest w → Yields E (.literal b :: rest) (b :: w)
  | call {s : Symbol} {body rest : List Step} {u v : List UInt8} :
    body ∈ E.bodies s → Yields E body u → Yields E rest v → Yields E (.call s :: rest) (u ++ v)

/-- A symbol that yields the empty string. -/
def Nullable (E : Replacements) (s : Symbol) : Prop := Yields E [.call s] []

namespace Grammar

/-- The alternatives of every symbol of a grammar, each as the steps that it reads as. -/
def replacements (g : Grammar) (mode : EscapeMode) : Replacements := fun s =>
  some ((g.alternatives s).map (Step.all g.escape mode))

/-- A byte string that the start symbol of a grammar yields. -/
def Derives (g : Grammar) (mode : EscapeMode) (w : List UInt8) : Prop :=
  ∃ start, g.start = some start ∧ Yields (g.replacements mode) [.call start] w

end Grammar

namespace Yields

variable {E : Replacements}

theorem eq_nil {w : List UInt8} (h : Yields E [] w) : w = [] := by
  cases h
  rfl

theorem append {p q : List Step} {u v : List UInt8} (hp : Yields E p u) (hq : Yields E q v) :
    Yields E (p ++ q) (u ++ v) := by
  induction hp with
  | nil => exact hq
  | literal _ ih => exact .literal ih
  | call hbody hu _ _ ih =>
    rw [List.cons_append, List.append_assoc]
    exact .call hbody hu ih

/-- What a sequence yields splits where the sequence does. -/
theorem split {p q : List Step} {w : List UInt8} (h : Yields E (p ++ q) w) :
    ∃ u v, w = u ++ v ∧ Yields E p u ∧ Yields E q v := by
  induction p generalizing w with
  | nil => exact ⟨[], w, rfl, .nil, h⟩
  | cons step p ih =>
    cases h with
    | literal h =>
      obtain ⟨u, v, rfl, hu, hv⟩ := ih h
      exact ⟨_ :: u, v, rfl, .literal hu, hv⟩
    | @call s body _ x _ hbody hx h =>
      obtain ⟨u, v, rfl, hu, hv⟩ := ih h
      exact ⟨x ++ u, v, (List.append_assoc _ _ _).symm, .call hbody hx hu, hv⟩

/-- Yielding nothing takes calls of nullable symbols and no literal. -/
theorem nullable_of_nil {p : List Step} (h : Yields E p []) :
    ∀ step ∈ p, ∃ s, step = .call s ∧ Nullable E s := by
  induction p with
  | nil => simp
  | cons step p ih =>
    obtain ⟨u, v, hw, hstep, hrest⟩ := split (p := [step]) h
    obtain ⟨rfl, rfl⟩ := List.append_eq_nil_iff.1 hw.symm
    intro t ht
    rcases List.mem_cons.1 ht with rfl | ht
    · cases t with
      | literal b => cases hstep
      | call s => exact ⟨s, rfl, hstep⟩
    · exact ih hrest t ht

/-- A symbol yields what one of its bodies yields. -/
theorem of_body {s : Symbol} {body : List Step} {w : List UInt8} (hbody : body ∈ E.bodies s)
    (h : Yields E body w) : Yields E [.call s] w := by
  have joined := Yields.call hbody h .nil
  rwa [List.append_nil] at joined

end Yields

end Descent
