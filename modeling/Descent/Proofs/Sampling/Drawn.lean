import Descent.Proofs.Recognition.Tree
import Descent.Sampling.Sentence

/-!
# What a draw returns

A draw that succeeds has grown a derivation tree of at most so many levels out of the alternatives that its
chooser picked, in the order in which the nodes are entered, and has emitted the bytes of the tree. Every
such tree is drawn by a chooser that picks its alternatives.
-/
namespace Descent.Sampling

variable {σ α β : Type}

/-- From one state to another a chooser picks these alternatives, each among the bodies of its symbol. -/
inductive Supplies (E : Replacements) (pick : Chooser σ) : List (Symbol × Nat) → σ → σ → Prop
  | nil {state : σ} : Supplies E pick [] state state
  | cons {s : Symbol} {i : Nat} {choices : List (Symbol × Nat)} {state next last : σ} :
    pick (E.bodies s).length state = (some i, next) → Supplies E pick choices next last →
    Supplies E pick ((s, i) :: choices) state last

variable {E : Replacements} {pick : Chooser σ}

theorem supplies_append_iff {c d : List (Symbol × Nat)} {state last : σ} :
    Supplies E pick (c ++ d) state last ↔
      ∃ mid, Supplies E pick c state mid ∧ Supplies E pick d mid last := by
  induction c generalizing state with
  | nil =>
    constructor
    · intro h
      exact ⟨state, .nil, h⟩
    · rintro ⟨mid, h, hd⟩
      cases h
      exact hd
  | cons c choices ih =>
    constructor
    · intro h
      cases h with
      | cons picked h =>
        obtain ⟨mid, hc, hd⟩ := ih.1 h
        exact ⟨mid, .cons picked hc, hd⟩
    · rintro ⟨mid, h, hd⟩
      cases h with
      | cons picked hc => exact .cons picked (ih.2 ⟨mid, hc, hd⟩)

/-- Two draws succeed if the first one does and then the second. -/
theorem Draw.andThen_eq_ok_iff {first : Draw σ α} {second : α → Draw σ β} {state last : σ} {b : β} :
    first.andThen second state = (.ok b, last) ↔
      ∃ a mid, first state = (.ok a, mid) ∧ second a mid = (.ok b, last) := by
  unfold Draw.andThen
  constructor
  · intro h
    split at h
    · rename_i a mid hfirst
      exact ⟨a, mid, hfirst, h⟩
    · cases h
  · rintro ⟨a, mid, hfirst, h⟩
    rw [hfirst]
    exact h

/-- A body is chosen if its index is picked. -/
theorem choose_eq_ok_iff {s : Symbol} {body : List Step} {state next : σ} :
    choose E pick s state = (.ok body, next) ↔
      ∃ i, pick (E.bodies s).length state = (some i, next) ∧ (E.bodies s)[i]? = some body := by
  cases hrule : E s with
  | none => simp [choose, Replacements.bodies, hrule, Draw.fail]
  | some bodies =>
    have hbodies : E.bodies s = bodies := by rw [Replacements.bodies, hrule, Option.getD_some]
    rw [hbodies]
    cases bodies with
    | nil => simp [choose, hrule, Draw.fail]
    | cons first others =>
      simp only [choose, hrule]
      constructor
      · intro h
        split at h
        · cases h
        · rename_i i mid picked
          split at h
          · rename_i chosen hbody
            cases h
            exact ⟨i, picked, hbody⟩
          · cases h
      · rintro ⟨i, picked, hbody⟩
        rw [picked]
        simp only [hbody]

/-- A forest drawn from one state to another: the trees of some steps, of at most so many levels, with the
alternatives that the chooser picks. -/
structure Draws (E : Replacements) (pick : Chooser σ) (levels : Nat) (steps : List Step) (state : σ)
    (t : Forest) (last : σ) : Prop where
  grows : Grows E steps t
  height_le : t.height ≤ levels
  supplies : Supplies E pick t.choices state last

namespace Draws

variable {levels : Nat} {s : Symbol} {i : Nat} {rest : List Step} {t below : Forest} {state mid last : σ}

/-- The tree of a call that comes first is drawn first. -/
theorem split_node (h : Draws E pick levels (.call s :: rest) state (.node s i below t) last) :
    ∃ mid, Draws E pick levels [.call s] state (.node s i below .nil) mid ∧
      Draws E pick levels rest mid t last := by
  obtain ⟨grown, low, supplied⟩ := h
  cases grown with
  | node hbody hbelow ht =>
    obtain ⟨lowBelow, lowRest⟩ := Nat.max_le.1 low
    have ordered : Supplies E pick (((s, i) :: below.choices) ++ t.choices) state last := supplied
    obtain ⟨mid, here, after⟩ := supplies_append_iff.1 ordered
    refine ⟨mid, ⟨.node hbody hbelow .nil, Nat.max_le.2 ⟨lowBelow, Nat.zero_le _⟩, ?_⟩,
      ht, lowRest, after⟩
    rw [Forest.choices, Forest.choices, List.append_nil]
    exact here

theorem node (first : Draws E pick levels [.call s] state (.node s i below .nil) mid)
    (others : Draws E pick levels rest mid t last) :
    Draws E pick levels (.call s :: rest) state (.node s i below t) last := by
  obtain ⟨grown, low, supplied⟩ := first
  cases grown with
  | node hbody hbelow _ =>
    rw [Forest.choices, Forest.choices, List.append_nil] at supplied
    refine ⟨.node hbody hbelow others.grows, ?_, ?_⟩
    · exact Nat.max_le.2 ⟨(Nat.max_le.1 low).1, others.height_le⟩
    · exact supplies_append_iff.2 ⟨mid, supplied, others.supplies⟩

/-- The tree of a call takes a choice of one of its bodies and the forest of that body one level below. -/
theorem call_iff :
    Draws E pick (levels + 1) [.call s] state (.node s i below .nil) last ↔
      ∃ body next, pick (E.bodies s).length state = (some i, next) ∧ (E.bodies s)[i]? = some body ∧
        Draws E pick levels body next below last := by
  constructor
  · rintro ⟨grown, low, supplied⟩
    rw [Forest.choices, Forest.choices, List.append_nil] at supplied
    cases grown with
    | @node _ _ body _ _ _ hbody hbelow _ =>
      cases supplied with
      | @cons _ _ _ _ next _ picked supplied =>
        have lower : below.height ≤ levels := Nat.le_of_succ_le_succ (Nat.max_le.1 low).1
        exact ⟨body, next, picked, hbody, hbelow, lower, supplied⟩
  · rintro ⟨body, next, picked, hbody, hbelow, low, supplied⟩
    refine ⟨.node hbody hbelow .nil, Nat.max_le.2 ⟨Nat.succ_le_succ low, Nat.zero_le _⟩, ?_⟩
    rw [Forest.choices, Forest.choices, List.append_nil]
    exact .cons picked supplied

end Draws

/-- Steps are emitted as a forest of theirs, if each call among them is. -/
theorem emitSteps_eq_ok_iff {limit levels : Nat}
    (calls : ∀ {s : Symbol} {out w : List UInt8} {state last : σ},
      expand E pick limit levels s out state = (.ok w, last) ↔
        ∃ t, Draws E pick levels [.call s] state t last ∧ w = t.yield.reverse ++ out)
    {steps : List Step} {out w : List UInt8} {state last : σ} :
    emitSteps (expand E pick limit levels) steps out state = (.ok w, last) ↔
      ∃ t, Draws E pick levels steps state t last ∧ w = t.yield.reverse ++ out := by
  induction steps generalizing out state with
  | nil =>
    rw [emitSteps, Draw.pure, Prod.mk.injEq, Except.ok.injEq]
    constructor
    · rintro ⟨rfl, rfl⟩
      exact ⟨.nil, ⟨.nil, Nat.zero_le _, .nil⟩, rfl⟩
    · rintro ⟨t, ⟨grown, -, supplied⟩, rfl⟩
      cases grown
      cases supplied
      exact ⟨rfl, rfl⟩
  | cons step rest ih =>
    cases step with
    | literal b =>
      rw [emitSteps, ih]
      constructor
      · rintro ⟨t, ⟨grown, low, supplied⟩, rfl⟩
        exact ⟨.leaf b t, ⟨.leaf grown, low, supplied⟩, by simp [Forest.yield]⟩
      · rintro ⟨t, ⟨grown, low, supplied⟩, rfl⟩
        cases grown with
        | @leaf _ _ t grown => exact ⟨t, ⟨grown, low, supplied⟩, by simp [Forest.yield]⟩
    | call s =>
      rw [emitSteps, Draw.andThen_eq_ok_iff]
      constructor
      · rintro ⟨v, mid, called, emitted⟩
        obtain ⟨first, hfirst, rfl⟩ := calls.1 called
        obtain ⟨t, ht, rfl⟩ := ih.1 emitted
        cases hfirst.grows with
        | @node _ i _ _ below _ _ _ none =>
          cases none
          exact ⟨.node s i below t, hfirst.node ht, by simp [Forest.yield]⟩
      · rintro ⟨t, ht, rfl⟩
        cases ht.grows with
        | @node _ i _ _ below t _ _ _ =>
          obtain ⟨mid, hfirst, hrest⟩ := ht.split_node
          refine ⟨below.yield.reverse ++ out, mid, ?_, ?_⟩
          · exact calls.2 ⟨_, hfirst, by simp [Forest.yield]⟩
          · exact ih.2 ⟨t, hrest, by simp [Forest.yield]⟩

/-- A call is expanded to the bytes of a tree of at most as many levels as are left. -/
theorem expand_eq_ok_iff {limit levels : Nat} {s : Symbol} {out w : List UInt8} {state last : σ} :
    expand E pick limit levels s out state = (.ok w, last) ↔
      ∃ t, Draws E pick levels [.call s] state t last ∧ w = t.yield.reverse ++ out := by
  -- the levels left carry the induction; inside a level the steps of the chosen body do
  induction levels generalizing s out w state last with
  | zero =>
    constructor
    · intro h
      cases h
    · rintro ⟨t, ⟨grown, low, -⟩, -⟩
      cases grown
      exact absurd (Nat.max_le.1 low).1 (Nat.not_succ_le_zero _)
  | succ levels ih =>
    rw [expand, Draw.andThen_eq_ok_iff]
    constructor
    · rintro ⟨body, next, chosen, emitted⟩
      obtain ⟨i, picked, hbody⟩ := choose_eq_ok_iff.1 chosen
      obtain ⟨below, hbelow, rfl⟩ := (emitSteps_eq_ok_iff ih).1 emitted
      exact ⟨_, Draws.call_iff.2 ⟨body, next, picked, hbody, hbelow⟩, by simp [Forest.yield]⟩
    · rintro ⟨t, ht, rfl⟩
      cases ht.grows with
      | @node _ i _ _ below _ _ _ none =>
        cases none
        obtain ⟨body, next, picked, hbody, hbelow⟩ := Draws.call_iff.1 ht
        refine ⟨body, next, choose_eq_ok_iff.2 ⟨i, picked, hbody⟩, ?_⟩
        exact (emitSteps_eq_ok_iff ih).2 ⟨below, hbelow, by simp [Forest.yield]⟩

/-- A sentence is drawn if the chooser picks the alternatives of a derivation tree of it with at most so
many levels, and the draw makes just these choices. -/
theorem sentence_eq_ok_iff {R : Ruleset} {limit : Nat} {w : List UInt8} {state last : σ} :
    sentence R pick limit state = (.ok w, last) ↔
      ∃ t, Draws R.replacements pick limit [.call R.start] state t last ∧ t.yield = w := by
  have called : sentence R pick limit state = (.ok w, last) ↔
      expand R.replacements pick limit limit R.start [] state = (.ok w.reverse, last) := by
    unfold sentence
    cases expand R.replacements pick limit limit R.start [] state with
    | mk outcome next =>
      cases outcome with
      | error fault => simp
      | ok out => simp [List.reverse_eq_iff]
  rw [called, expand_eq_ok_iff]
  constructor
  · rintro ⟨t, ht, hw⟩
    rw [List.append_nil, List.reverse_inj] at hw
    exact ⟨t, ht, hw.symm⟩
  · rintro ⟨t, ht, rfl⟩
    exact ⟨t, ht, (List.append_nil _).symm⟩

end Descent.Sampling
