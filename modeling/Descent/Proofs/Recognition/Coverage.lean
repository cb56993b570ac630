import Descent.Proofs.Recognition.Answer
import Descent.Proofs.Recognition.Expansion
import Mathlib.Data.List.Lex

/-!
# What an agenda covers

A state stands for the complete leftmost derivations that start with its choices. An expansion keeps
that set and spreads it over the next states, earlier derivations first, so the agenda of a search always
lists what is still to be looked at in the order of derivations, and the answer settles all of it.
-/
namespace Descent.Recognition

variable {E : Replacements}

/-- The steps that are still to be matched, all levels together. -/
def State.pending (s : State) : List Step := s.continuation.pattern ++ s.continuation.parents.flatten

/-- Choices that start with those of a state and match the rest of its input. -/
def Completes (E : Replacements) (s : State) (choices : List (Symbol × Nat)) : Prop :=
  ∃ more, choices = s.choices.reverse ++ more ∧ replay E s.pending more = some s.input

/-- The order of derivations: by the alternatives chosen, lexicographically. -/
def Earlier (c d : List (Symbol × Nat)) : Prop := List.Lex (· < ·) (c.map (·.2)) (d.map (·.2))

/-- Whatever completes one state is earlier than whatever completes another. -/
def Precedes (E : Replacements) (s t : State) : Prop :=
  ∀ c d, Completes E s c → Completes E t d → Earlier c d

theorem earlier_of_lt (c d e : List (Symbol × Nat)) (s : Symbol) {i j : Nat} (h : i < j) :
    Earlier (c ++ (s, i) :: d) (c ++ (s, j) :: e) := by
  unfold Earlier
  rw [List.map_append, List.map_append]
  exact List.Lex.append_left _ (.rel h) _

theorem replay_literals_eq_some_iff (w left : List UInt8) (steps : List Step)
    (choices : List (Symbol × Nat)) :
    replay E (w.map .literal ++ steps) choices = some (w ++ left) ↔ replay E steps choices = some left := by
  rw [replay_literals, Option.map_eq_some_iff]
  constructor
  · rintro ⟨v, hv, same⟩
    rw [List.append_cancel_left same] at hv
    exact hv
  · intro h
    exact ⟨left, h, rfl⟩

theorem completes_entered {s : Symbol} {i : Nat} {body rest : List Step} {parents : List (List Step)}
    {input : List UInt8} {depth : Nat} {choices c : List (Symbol × Nat)} :
    Completes E ⟨input, (Continuation.mk rest parents).push body, depth, (s, i) :: choices⟩ c ↔
      ∃ more, c = choices.reverse ++ (s, i) :: more ∧
        replay E (body ++ (rest ++ parents.flatten)) more = some input := by
  simp [Completes, State.pending, Continuation.push]

/-- A match that is accepted has no other completion than what was chosen. -/
theorem completes_iff_of_accepted {s : State} (h : s.expand E = .accepted) (c : List (Symbol × Nat)) :
    Completes E s c ↔ c = s.choices.reverse := by
  cases expands_of_expand_eq h with
  | @accept w depth choices =>
    have closing := replay_literals_eq_some_iff (E := E) w [] []
    simp only [List.append_nil] at closing
    simp only [Completes, State.pending, List.flatten_nil, List.append_nil, closing]
    constructor
    · rintro ⟨more, rfl, hmore⟩
      cases more with
      | nil => rw [List.append_nil]
      | cons _ _ => simp at hmore
    · rintro rfl
      exact ⟨[], (List.append_nil _).symm, replay_nil_nil⟩

/-- The next states have the completions of the state between them. -/
theorem completes_iff_of_states {s : State} {next : List State} (h : s.expand E = .states next)
    (c : List (Symbol × Nat)) : Completes E s c ↔ ∃ t ∈ next, Completes E t c := by
  cases expands_of_expand_eq h with
  | @mismatch w b rest left parents depth choices hne =>
    simp only [Completes, State.pending, List.append_assoc, replay_literals_eq_some_iff]
    constructor
    · rintro ⟨more, -, hmore⟩
      rw [List.cons_append, replay_literal, Option.map_eq_some_iff] at hmore
      obtain ⟨v, -, rfl⟩ := hmore
      simp at hne
    · rintro ⟨t, ht, -⟩
      simp at ht
  | @call w callee rest left parents depth choices =>
    simp only [mem_enter_iff]
    constructor
    · rintro ⟨more, rfl, hmore⟩
      simp only [State.pending, List.append_assoc, List.cons_append,
        replay_literals_eq_some_iff] at hmore
      obtain ⟨i, body, after, rfl, hbody, hafter⟩ := replay_call_eq_some_iff.1 hmore
      exact ⟨_, ⟨i, body, hbody, rfl⟩, completes_entered.2 ⟨after, rfl, hafter⟩⟩
    · rintro ⟨t, ⟨i, body, hbody, rfl⟩, ht⟩
      obtain ⟨after, rfl, hafter⟩ := completes_entered.1 ht
      refine ⟨(callee, i) :: after, rfl, ?_⟩
      simp only [State.pending, List.append_assoc, List.cons_append, replay_literals_eq_some_iff]
      exact replay_call_eq_some_iff.2 ⟨i, body, after, rfl, hbody, hafter⟩
  | @finish w left parent parents depth choices =>
    simp only [List.mem_singleton, exists_eq_left, Completes, State.pending, List.flatten_cons,
      replay_literals_eq_some_iff]
  | @leftover w left depth choices hleft =>
    simp only [Completes, State.pending, List.flatten_nil, replay_literals_eq_some_iff]
    constructor
    · rintro ⟨more, -, hmore⟩
      exact absurd (yields_of_replay hmore).eq_nil hleft
    · rintro ⟨t, ht, -⟩
      simp at ht

/-- The next states come in the order of their completions. -/
theorem pairwise_of_states {s : State} {next : List State} (h : s.expand E = .states next) :
    next.Pairwise (Precedes E) := by
  cases expands_of_expand_eq h with
  | mismatch => exact List.Pairwise.nil
  | leftover => exact List.Pairwise.nil
  | finish => exact List.pairwise_singleton _ _
  | call =>
    rw [enter_eq, List.pairwise_iff_getElem]
    intro i j hi hj hlt c d hc hd
    rw [List.getElem_mapIdx] at hc hd
    obtain ⟨_, rfl, -⟩ := completes_entered.1 hc
    obtain ⟨_, rfl, -⟩ := completes_entered.1 hd
    exact earlier_of_lt _ _ _ _ hlt

/-- What an answer says of the completions of an agenda. -/
def Settles (E : Replacements) (agenda : List State) : Verdict → Prop
  | .accepts d =>
    (∃ s ∈ agenda, Completes E s d.choices) ∧
      ∀ s ∈ agenda, ∀ c, Completes E s c → c = d.choices ∨ Earlier d.choices c
  | .rejects => ∀ s ∈ agenda, ∀ c, ¬Completes E s c
  | .tooDeep _ => True

/-- An answer for the next states and the rest is one for the state and the rest. -/
theorem Settles.of_states {s : State} {next rest : List State} {v : Verdict}
    (h : s.expand E = .states next) (settled : Settles E (next ++ rest) v) :
    Settles E (s :: rest) v := by
  have spread := completes_iff_of_states h
  cases v with
  | accepts d =>
    obtain ⟨⟨t, ht, hd⟩, least⟩ := settled
    refine ⟨?_, ?_⟩
    · rcases List.mem_append.1 ht with ht | ht
      · exact ⟨s, List.mem_cons_self, (spread _).2 ⟨t, ht, hd⟩⟩
      · exact ⟨t, List.mem_cons_of_mem _ ht, hd⟩
    · intro u hu c hc
      rcases List.mem_cons.1 hu with rfl | hu
      · obtain ⟨t, ht, hc⟩ := (spread c).1 hc
        exact least t (List.mem_append_left _ ht) c hc
      · exact least u (List.mem_append_right _ hu) c hc
  | rejects =>
    intro u hu c hc
    rcases List.mem_cons.1 hu with rfl | hu
    · obtain ⟨t, ht, hc⟩ := (spread c).1 hc
      exact settled t (List.mem_append_left _ ht) c hc
    · exact settled u (List.mem_append_right _ hu) c hc
  | tooDeep n => trivial

theorem pairwise_turn {s : State} {next rest : List State} (h : s.expand E = .states next)
    (sorted : (s :: rest).Pairwise (Precedes E)) : (next ++ rest).Pairwise (Precedes E) := by
  obtain ⟨hs, hrest⟩ := List.pairwise_cons.1 sorted
  refine List.pairwise_append.2 ⟨pairwise_of_states h, hrest, ?_⟩
  intro t ht u hu c d hc hd
  exact hs u hu c d ((completes_iff_of_states h c).2 ⟨t, ht, hc⟩) hd

/-- A search that works off an ordered agenda settles it. -/
theorem Ends.settles {limit : Option Nat} {agenda : List State} {v : Verdict} (h : Ends E limit agenda v)
    (sorted : agenda.Pairwise (Precedes E)) : Settles E agenda v := by
  -- along the run; the order of the agenda is what each turn keeps
  induction h with
  | rejects =>
    intro s hs
    simp at hs
  | tooDeep => trivial
  | @accepts s rest _ hx =>
    have only := completes_iff_of_accepted hx
    refine ⟨⟨s, List.mem_cons_self, (only _).2 rfl⟩, ?_⟩
    intro t ht c hc
    rcases List.mem_cons.1 ht with rfl | ht
    · exact .inl ((only c).1 hc)
    · exact .inr ((List.pairwise_cons.1 sorted).1 t ht _ _ ((only _).2 rfl) hc)
  | states _ hx _ ih => exact (ih (pairwise_turn hx sorted)).of_states hx

end Descent.Recognition
