import Descent.Proofs.Recognition.Yield

/-!
# Leftmost derivations

A list of choices replayed as a leftmost derivation. A sequence of steps yields exactly the strings that
some choices replay to, and a replay depends only on the bodies of the symbols that it can reach.
-/
namespace Descent

/-- Replays choices as a leftmost derivation: each has to be for the leftmost call and to name one of
the callee's bodies, which takes its place. The string emitted, if the choices are used up by the time
that no step is left. -/
def replay (E : Replacements) : List Step → List (Symbol × Nat) → Option (List UInt8)
  | [], [] => some []
  | [], _ :: _ => none
  | .literal b :: rest, choices => (replay E rest choices).map (b :: ·)
  | .call _ :: _, [] => none
  | .call s :: rest, (t, i) :: choices =>
    if t = s then
      match (E.bodies s)[i]? with
      | some body => replay E (body ++ rest) choices
      | none => none
    else none
termination_by steps choices => (choices.length, steps.length)

/-- The choices of a complete leftmost derivation of a byte string from the start symbol. -/
def Grammar.LeftmostDerivation (g : Grammar) (mode : EscapeMode) (w : List UInt8)
    (choices : List (Symbol × Nat)) : Prop :=
  ∃ start, g.start = some start ∧ replay (g.replacements mode) [.call start] choices = some w

variable {E F : Replacements}

@[simp]
theorem replay_nil_nil : replay E [] [] = some [] := by
  rw [replay]

@[simp]
theorem replay_nil_cons (c : Symbol × Nat) (choices : List (Symbol × Nat)) :
    replay E [] (c :: choices) = none := by
  rw [replay]

@[simp]
theorem replay_literal (b : UInt8) (rest : List Step) (choices : List (Symbol × Nat)) :
    replay E (.literal b :: rest) choices = (replay E rest choices).map (b :: ·) := by
  rw [replay]

@[simp]
theorem replay_call_nil (s : Symbol) (rest : List Step) : replay E (.call s :: rest) [] = none := by
  rw [replay]

theorem replay_call_cons (s t : Symbol) (i : Nat) (rest : List Step) (choices : List (Symbol × Nat)) :
    replay E (.call s :: rest) ((t, i) :: choices) =
      if t = s then
        match (E.bodies s)[i]? with
        | some body => replay E (body ++ rest) choices
        | none => none
      else none := by
  rw [replay]

/-- A call is replayed by a choice of one of its bodies. -/
theorem replay_call_eq_some_iff {s : Symbol} {rest : List Step} {choices : List (Symbol × Nat)}
    {w : List UInt8} :
    replay E (.call s :: rest) choices = some w ↔
      ∃ i body more, choices = (s, i) :: more ∧ (E.bodies s)[i]? = some body ∧
        replay E (body ++ rest) more = some w := by
  constructor
  · intro h
    cases choices with
    | nil => simp at h
    | cons c more =>
      obtain ⟨t, i⟩ := c
      rw [replay_call_cons] at h
      split at h
      · rename_i same
        subst same
        split at h
        · rename_i body hbody
          exact ⟨i, body, more, rfl, hbody, h⟩
        · simp at h
      · simp at h
  · rintro ⟨i, body, more, rfl, hbody, h⟩
    rw [replay_call_cons, if_pos rfl, hbody]
    exact h

/-- Literals in front emit their bytes. -/
theorem replay_literals (w : List UInt8) (steps : List Step) (choices : List (Symbol × Nat)) :
    replay E (w.map .literal ++ steps) choices = (replay E steps choices).map (w ++ ·) := by
  induction w with
  | nil => simp
  | cons b w ih =>
    rw [List.map_cons, List.cons_append, replay_literal, ih, Option.map_map]
    rfl

theorem replay_append {p q : List Step} {c d : List (Symbol × Nat)} {u v : List UInt8}
    (hp : replay E p c = some u) (hq : replay E q d = some v) :
    replay E (p ++ q) (c ++ d) = some (u ++ v) := by
  fun_induction replay E p c generalizing u with
  | case1 =>
    obtain rfl := Option.some.inj hp
    exact hq
  | case2 => simp at hp
  | case3 choices b rest ih =>
    obtain ⟨u, hu, rfl⟩ := Option.map_eq_some_iff.1 hp
    rw [List.cons_append, replay_literal, ih hu]
    rfl
  | case4 => simp at hp
  | case5 rest t i choices body hbody ih =>
    have joined := ih hp
    rw [List.append_assoc] at joined
    exact replay_call_eq_some_iff.2 ⟨i, body, choices ++ d, rfl, hbody, joined⟩
  | case6 => simp at hp
  | case7 => simp at hp

theorem Yields.exists_replay {p : List Step} {w : List UInt8} (h : Yields E p w) :
    ∃ choices, replay E p choices = some w := by
  induction h with
  | nil => exact ⟨[], replay_nil_nil⟩
  | literal _ ih =>
    obtain ⟨choices, h⟩ := ih
    exact ⟨choices, by rw [replay_literal, h]; rfl⟩
  | @call s body rest u v hbody _ _ ihu ihv =>
    obtain ⟨c, hc⟩ := ihu
    obtain ⟨d, hd⟩ := ihv
    obtain ⟨i, hi⟩ := List.getElem?_of_mem hbody
    exact ⟨(s, i) :: (c ++ d), replay_call_eq_some_iff.2 ⟨i, body, c ++ d, rfl, hi, replay_append hc hd⟩⟩

theorem yields_of_replay {p : List Step} {choices : List (Symbol × Nat)} {w : List UInt8}
    (h : replay E p choices = some w) : Yields E p w := by
  fun_induction replay E p choices generalizing w with
  | case1 =>
    obtain rfl := Option.some.inj h
    exact .nil
  | case2 => simp at h
  | case3 choices b rest ih =>
    obtain ⟨u, hu, rfl⟩ := Option.map_eq_some_iff.1 h
    exact .literal (ih hu)
  | case4 => simp at h
  | case5 rest t i choices body hbody ih =>
    obtain ⟨u, v, rfl, hu, hv⟩ := (ih h).split
    exact .call (List.mem_of_getElem? hbody) hu hv
  | case6 => simp at h
  | case7 => simp at h

/-- A sequence yields what some choices replay to. -/
theorem yields_iff_exists_replay {p : List Step} {w : List UInt8} :
    Yields E p w ↔ ∃ choices, replay E p choices = some w :=
  ⟨Yields.exists_replay, fun ⟨_, h⟩ => yields_of_replay h⟩

/-- Two tables give some symbols the same bodies, and these call only such symbols. -/
structure AgreeOn (D : Symbol → Prop) (E F : Replacements) : Prop where
  bodies_eq : ∀ s, D s → E.bodies s = F.bodies s
  closed : ∀ s, D s → ∀ body ∈ E.bodies s, ∀ t, .call t ∈ body → D t

/-- Replays agree where the tables do. -/
theorem AgreeOn.replay_eq {D : Symbol → Prop} (agree : AgreeOn D E F) {p : List Step}
    {choices : List (Symbol × Nat)} (hp : ∀ t, .call t ∈ p → D t) :
    replay E p choices = replay F p choices := by
  fun_induction replay E p choices with
  | case1 => rw [replay_nil_nil]
  | case2 => rw [replay_nil_cons]
  | case3 choices b rest ih =>
    rw [replay_literal, ih fun t ht => hp t (List.mem_cons_of_mem _ ht)]
  | case4 => rw [replay_call_nil]
  | case5 rest t i choices body hbody ih =>
    have ht : D t := hp t List.mem_cons_self
    rw [replay_call_cons, if_pos rfl, ← agree.bodies_eq t ht, hbody]
    refine ih fun u hu => ?_
    rcases List.mem_append.1 hu with hu | hu
    · exact agree.closed t ht body (List.mem_of_getElem? hbody) u hu
    · exact hp u (List.mem_cons_of_mem _ hu)
  | case6 rest t i choices hbody =>
    rw [replay_call_cons, if_pos rfl, ← agree.bodies_eq t (hp t List.mem_cons_self), hbody]
  | case7 s rest t i choices hne => rw [replay_call_cons, if_neg hne]

end Descent
