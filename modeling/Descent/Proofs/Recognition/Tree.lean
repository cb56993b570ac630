import Descent.Proofs.Recognition.Leftmost
import Descent.Recognition.Derivation

/-!
# Derivation trees

The trees that a sequence of steps grows into, side by side. Read in the order in which their nodes are
entered they are the leftmost derivations that `replay` follows, and no two of them read the same.
-/
namespace Descent

/-- Trees side by side: bytes, and nodes with the symbol, the alternative chosen and the trees below. -/
inductive Forest
  | nil
  | leaf (b : UInt8) (rest : Forest)
  | node (s : Symbol) (i : Nat) (below rest : Forest)
  deriving DecidableEq, Repr

namespace Forest

/-- The bytes of a forest from left to right. -/
def yield : Forest → List UInt8
  | nil => []
  | leaf b rest => b :: rest.yield
  | node _ _ below rest => below.yield ++ rest.yield

/-- The alternatives chosen at the nodes, each before those below it. -/
def choices : Forest → List (Symbol × Nat)
  | nil => []
  | leaf _ rest => rest.choices
  | node s i below rest => (s, i) :: (below.choices ++ rest.choices)

/-- How many nodes lie below one another at most. -/
def height : Forest → Nat
  | nil => 0
  | leaf _ rest => rest.height
  | node _ _ below rest => max (below.height + 1) rest.height

end Forest

/-- The forests of a sequence of steps: at every node the trees below are those of the body chosen. -/
inductive Grows (E : Replacements) : List Step → Forest → Prop
  | nil : Grows E [] .nil
  | leaf {b : UInt8} {rest : List Step} {t : Forest} :
    Grows E rest t → Grows E (.literal b :: rest) (.leaf b t)
  | node {s : Symbol} {i : Nat} {body rest : List Step} {below t : Forest} :
    (E.bodies s)[i]? = some body → Grows E body below → Grows E rest t →
    Grows E (.call s :: rest) (.node s i below t)

namespace Grows

variable {E : Replacements} {p q : List Step} {t u : Forest}

/-- The forest of two sequences is one of each, side by side. -/
theorem split (h : Grows E (p ++ q) t) : ∃ a b, Grows E p a ∧ Grows E q b ∧
    a.choices ++ b.choices = t.choices ∧ a.yield ++ b.yield = t.yield := by
  induction p generalizing t with
  | nil => exact ⟨.nil, t, .nil, h, rfl, rfl⟩
  | cons step p ih =>
    cases h with
    | @leaf byte _ _ h =>
      obtain ⟨a, b, ha, hb, choices, yield⟩ := ih h
      refine ⟨.leaf byte a, b, .leaf ha, hb, choices, ?_⟩
      rw [Forest.yield, Forest.yield, List.cons_append, yield]
    | @node s i body _ below _ hbody hbelow h =>
      obtain ⟨a, b, ha, hb, choices, yield⟩ := ih h
      refine ⟨.node s i below a, b, .node hbody hbelow ha, hb, ?_, ?_⟩
      · rw [Forest.choices, Forest.choices, List.cons_append, List.append_assoc, choices]
      · rw [Forest.yield, Forest.yield, List.append_assoc, yield]

/-- A forest is a leftmost derivation of its bytes. -/
theorem replay_eq (h : Grows E p t) : replay E p t.choices = some t.yield := by
  induction h with
  | nil => exact replay_nil_nil
  | leaf _ ih =>
    rw [replay_literal, Forest.choices, ih]
    rfl
  | node hbody _ _ ihbelow ihrest =>
    exact replay_call_eq_some_iff.2 ⟨_, _, _, rfl, hbody, replay_append ihbelow ihrest⟩

/-- Every choice in a forest names a body of its symbol. -/
theorem lt_of_mem_choices (h : Grows E p t) : ∀ c ∈ t.choices, c.2 < (E.bodies c.1).length := by
  induction h with
  | nil => simp [Forest.choices]
  | leaf _ ih => exact ih
  | node hbody _ _ ihbelow ihrest =>
    intro c hc
    rcases List.mem_cons.1 hc with rfl | hc
    · exact (List.getElem?_eq_some_iff.1 hbody).1
    · rcases List.mem_append.1 hc with hc | hc
      · exact ihbelow c hc
      · exact ihrest c hc

/-- The choices say where a forest ends. -/
theorem eq_of_choices_append (ht : Grows E p t) (hu : Grows E p u) {c d : List (Symbol × Nat)}
    (h : t.choices ++ c = u.choices ++ d) : t = u ∧ c = d := by
  induction ht generalizing u c d with
  | nil =>
    cases hu
    exact ⟨rfl, h⟩
  | leaf _ ih =>
    cases hu with
    | leaf hu =>
      obtain ⟨rfl, rfl⟩ := ih hu h
      exact ⟨rfl, rfl⟩
  | @node s i body rest below t hbody _ _ ihbelow ihrest =>
    cases hu with
    | @node _ j other _ beneath u hother hbeneath hu =>
      rw [Forest.choices, Forest.choices, List.cons_append, List.cons_append, List.cons.injEq,
        Prod.mk.injEq, List.append_assoc, List.append_assoc] at h
      obtain ⟨⟨-, rfl⟩, h⟩ := h
      -- the same index names the same body, so both forests below start with the same steps
      obtain rfl : body = other := Option.some.inj (hbody.symm.trans hother)
      obtain ⟨rfl, after⟩ := ihbelow hbeneath h
      obtain ⟨rfl, rfl⟩ := ihrest hu after
      exact ⟨rfl, rfl⟩

/-- No two forests of a sequence have the same choices. -/
theorem unique (ht : Grows E p t) (hu : Grows E p u) (h : t.choices = u.choices) : t = u := by
  have padded : t.choices ++ [] = u.choices ++ [] := by rw [h]
  exact (ht.eq_of_choices_append hu padded).1

end Grows

variable {E : Replacements}

/-- A leftmost derivation is followed through a forest. -/
theorem exists_grows_of_replay {p : List Step} {choices : List (Symbol × Nat)} {w : List UInt8}
    (h : replay E p choices = some w) : ∃ t, Grows E p t ∧ t.choices = choices ∧ t.yield = w := by
  fun_induction replay E p choices generalizing w with
  | case1 =>
    obtain rfl := Option.some.inj h
    exact ⟨.nil, .nil, rfl, rfl⟩
  | case2 => simp at h
  | case3 b rest choices ih =>
    obtain ⟨v, hv, rfl⟩ := Option.map_eq_some_iff.1 h
    obtain ⟨t, ht, rfl, rfl⟩ := ih hv
    exact ⟨.leaf b t, .leaf ht, rfl, rfl⟩
  | case4 => simp at h
  | case5 rest s i choices body hbody ih =>
    obtain ⟨t, ht, rfl, rfl⟩ := ih h
    obtain ⟨below, next, hbelow, hnext, choices, yield⟩ := ht.split
    refine ⟨.node s i below next, .node hbody hbelow hnext, ?_, yield⟩
    rw [Forest.choices, choices]
  | case6 => simp at h
  | case7 => simp at h

theorem replay_eq_some_iff_exists_grows {p : List Step} {choices : List (Symbol × Nat)} {w : List UInt8} :
    replay E p choices = some w ↔ ∃ t, Grows E p t ∧ t.choices = choices ∧ t.yield = w := by
  constructor
  · exact exists_grows_of_replay
  · rintro ⟨t, ht, rfl, rfl⟩
    exact ht.replay_eq

/-- A derivation tree of a derivation from the start symbol. -/
def Ruleset.IsTreeOf (R : Ruleset) (d : Derivation) (t : Forest) : Prop :=
  Grows R.replacements [.call R.start] t ∧ t.choices = d.choices

end Descent
