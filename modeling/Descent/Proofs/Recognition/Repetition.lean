import Descent.Proofs.Grammar.History
import Descent.Proofs.Recognition.Recursion
import Descent.Proofs.Ruleset.Reachable
import Descent.Proofs.Ruleset.WellFormed

/-!
# Repeated alternatives

A search tries an alternative that is stored a second time only where the first of the two was rejected, and it tries
it on the same input, at the same depth and with the same patterns pending. So the second is rejected as well, and a
search ends with it as it does without it.
-/
namespace Descent

variable {E F : Replacements}

/-- Behind the bodies that it shares with another table, a table has bodies that are among these already. -/
def Replacements.Repeats (E F : Replacements) : Prop :=
  ∀ s, ∃ more, F.bodies s = E.bodies s ++ more ∧ ∀ body ∈ more, body ∈ E.bodies s

namespace Recognition

variable {limit : Option Nat} {agenda front back next twins rest : List State} {s t : State} {v : Verdict}

/-- Two states that differ at most in the choices that led to them. -/
structure State.Twin (s t : State) : Prop where
  input : s.input = t.input
  continuation : s.continuation = t.continuation
  depth : s.depth = t.depth

theorem ends_append_iff :
    Ends E limit (front ++ back) v ↔
      Ends E limit front v ∧ v ≠ .rejects ∨ Ends E limit front .rejects ∧ Ends E limit back v := by
  constructor
  · intro h
    obtain ⟨steps, found⟩ := ends_iff_exists_steps.1 h
    rcases firstAnswer_append_eq_some found with ⟨found, hv⟩ | ⟨rejected, found⟩
    · exact .inl ⟨ends_iff_exists_steps.2 ⟨steps, found⟩, hv⟩
    · exact .inr ⟨ends_iff_exists_steps.2 ⟨steps, rejected⟩, ends_iff_exists_steps.2 ⟨steps, found⟩⟩
  · rintro (⟨found, hv⟩ | ⟨rejected, h⟩)
    · exact found.append_of_found hv
    · exact rejected.append_of_rejects h

/-- An agenda is rejected if each of its states is. -/
theorem rejects_iff : Ends E limit agenda .rejects ↔ ∀ s ∈ agenda, Ends E limit [s] .rejects := by
  induction agenda with
  | nil => simp [Ends.rejects]
  | cons s rest ih =>
    have split : Ends E limit (s :: rest) .rejects ↔
        Ends E limit [s] .rejects ∧ Ends E limit rest .rejects := by
      rw [← List.singleton_append, ends_append_iff]
      simp
    rw [split, ih, List.forall_mem_cons]

theorem exists_twin_enter {callee : Symbol} {input : List UInt8} {c : Continuation Step} {depth : Nat}
    {choices others : List (Symbol × Nat)} (h : t ∈ enter E callee input c depth others) :
    ∃ s ∈ enter E callee input c depth choices, s.Twin t := by
  obtain ⟨i, body, hbody, rfl⟩ := mem_enter_iff.1 h
  exact ⟨_, mem_enter_iff.2 ⟨i, body, hbody, rfl⟩, rfl, rfl, rfl⟩

/-- A twin of a state expands to twins of its next states. -/
theorem State.Twin.expand (twin : s.Twin t) (hx : s.expand E = .states next) :
    ∃ others, t.expand E = .states others ∧ ∀ u ∈ others, ∃ r ∈ next, r.Twin u := by
  obtain ⟨input, continuation, depth, choices⟩ := s
  obtain ⟨input', continuation', depth', choices'⟩ := t
  obtain ⟨rfl, rfl, rfl⟩ := twin
  unfold State.expand at hx ⊢
  simp only at hx ⊢
  cases reached : advance continuation.pattern input depth with
  | mismatch => exact ⟨[], rfl, by simp⟩
  | call callee rest left level =>
    rw [reached] at hx
    obtain rfl := Expansion.states.inj hx
    exact ⟨_, rfl, fun u hu => exists_twin_enter hu⟩
  | finished left level =>
    rw [reached] at hx
    cases enclosing : continuation.parent? with
    | some parent =>
      simp only [enclosing] at hx ⊢
      obtain rfl := Expansion.states.inj hx
      exact ⟨_, rfl, by simpa using ⟨rfl, rfl, rfl⟩⟩
    | none =>
      simp only [enclosing] at hx ⊢
      split at hx
      · cases hx
      · rename_i unfinished
        exact ⟨[], if_neg unfinished, by simp⟩

/-- What a rejected search shows of each of its states it shows of all their twins. -/
theorem Ends.rejects_twins (h : Ends E limit agenda .rejects) :
    ∀ s ∈ agenda, ∀ t, s.Twin t → Ends E limit [t] .rejects := by
  generalize hv : Verdict.rejects = v at h
  induction h with
  | rejects => simp
  | tooDeep => cases hv
  | accepts => cases hv
  | @states s next rest v shallow hx _ ih =>
    subst hv
    have later := ih rfl
    intro r hr t twin
    rcases List.mem_cons.1 hr with rfl | hr
    · obtain ⟨others, expanded, twins⟩ := twin.expand hx
      have within : t.exceeds limit = false := by
        rw [exceeds_eq_false_iff] at shallow ⊢
        exact twin.depth ▸ shallow
      have rejected : Ends E limit others .rejects := by
        refine rejects_iff.2 fun u hu => ?_
        obtain ⟨r, hr, twin⟩ := twins u hu
        exact later r (List.mem_append_left _ hr) u twin
      exact .states within expanded (by rwa [List.append_nil])
    · exact later r (List.mem_append_right _ hr) t twin

/-- Twins of states that come before them on an agenda make no difference: they are taken up only once all of
these are rejected. -/
theorem ends_append_twins_iff (twin : ∀ t ∈ twins, ∃ s ∈ next, s.Twin t) :
    Ends E limit (next ++ twins ++ rest) v ↔ Ends E limit (next ++ rest) v := by
  have rejected : Ends E limit next .rejects → Ends E limit twins .rejects := by
    intro h
    refine rejects_iff.2 fun t ht => ?_
    obtain ⟨s, hs, twin⟩ := twin t ht
    exact h.rejects_twins s hs t twin
  constructor
  · intro h
    rcases ends_append_iff.1 h with ⟨found, hv⟩ | ⟨none, h⟩
    · rcases ends_append_iff.1 found with ⟨found, -⟩ | ⟨none, found⟩
      · exact found.append_of_found hv
      · exact absurd (found.unique (rejected none)) hv
    · rcases ends_append_iff.1 none with ⟨-, hv⟩ | ⟨none, -⟩
      · exact absurd rfl hv
      · exact none.append_of_rejects h
  · intro h
    rw [List.append_assoc]
    rcases ends_append_iff.1 h with ⟨found, hv⟩ | ⟨none, h⟩
    · exact found.append_of_found hv
    · exact none.append_of_rejects ((rejected none).append_of_rejects h)

theorem exists_twins_enter (repeats : E.Repeats F) (callee : Symbol) (input : List UInt8) (c : Continuation Step)
    (depth : Nat) (choices : List (Symbol × Nat)) :
    ∃ twins, enter F callee input c depth choices = enter E callee input c depth choices ++ twins ∧
      ∀ t ∈ twins, ∃ s ∈ enter E callee input c depth choices, s.Twin t := by
  obtain ⟨more, bodies, stored⟩ := repeats callee
  refine ⟨_, by rw [enter_eq, enter_eq, bodies, List.mapIdx_append], fun t ht => ?_⟩
  obtain ⟨i, hi, rfl⟩ := List.mem_mapIdx.1 ht
  obtain ⟨j, hj⟩ := List.getElem?_of_mem (stored more[i] (List.getElem_mem hi))
  exact ⟨_, mem_enter_iff.2 ⟨j, more[i], hj, rfl⟩, rfl, rfl, rfl⟩

/-- No table is looked at in a state that accepts. -/
theorem expand_accepted (hx : s.expand E = .accepted) : s.expand F = .accepted := by
  unfold State.expand at hx ⊢
  split at hx
  · cases hx
  · cases hx
  · exact hx

/-- What a state expands to is followed by twins of it in a table that repeats bodies. -/
theorem exists_twins_expand (repeats : E.Repeats F) (hx : s.expand E = .states next) :
    ∃ twins, s.expand F = .states (next ++ twins) ∧ ∀ t ∈ twins, ∃ u ∈ next, u.Twin t := by
  unfold State.expand at hx ⊢
  cases reached : advance s.continuation.pattern s.input s.depth with
  | call callee rest left depth =>
    rw [reached] at hx
    obtain rfl := Expansion.states.inj hx
    obtain ⟨twins, entered, twin⟩ :=
      exists_twins_enter repeats callee left ⟨rest, s.continuation.parents⟩ depth s.choices
    exact ⟨twins, congrArg Expansion.states entered, twin⟩
  | _ =>
    rw [reached] at hx
    exact ⟨[], by rw [List.append_nil]; exact hx, by simp⟩

/-- A search ends in both tables in the same way, a cut-off at the limit included. -/
theorem ends_repeats_iff (repeats : E.Repeats F) : Ends E limit agenda v ↔ Ends F limit agenda v := by
  constructor
  · intro h
    induction h with
    | rejects => exact .rejects
    | tooDeep hlimit hn => exact .tooDeep hlimit hn
    | accepts shallow hx => exact .accepts shallow (expand_accepted hx)
    | states shallow hx _ ih =>
      obtain ⟨twins, expanded, twin⟩ := exists_twins_expand repeats hx
      exact .states shallow expanded ((ends_append_twins_iff twin).2 ih)
  · intro h
    induction h with
    | rejects => exact .rejects
    | tooDeep hlimit hn => exact .tooDeep hlimit hn
    | @accepts s rest shallow hx =>
      cases expanded : s.expand E with
      | accepted => exact .accepts shallow expanded
      | states next =>
        obtain ⟨twins, expanded, -⟩ := exists_twins_expand repeats expanded
        rw [hx] at expanded
        cases expanded
    | @states s others rest v shallow hx _ ih =>
      cases expanded : s.expand E with
      | accepted =>
        rw [expand_accepted expanded] at hx
        cases hx
      | states next =>
        obtain ⟨twins, repeated, twin⟩ := exists_twins_expand repeats expanded
        obtain rfl := Expansion.states.inj (hx.symm.trans repeated)
        exact .states shallow expanded ((ends_append_twins_iff twin).1 ih)

/-- A search starts by the expansion of a call of the start symbol. -/
theorem ends_initial_iff {start : Symbol} {input : List UInt8} :
    Ends E limit [State.initial start input] v ↔ Ends E limit (opening E start input) v := by
  have shallow : (State.initial start input).exceeds limit = false :=
    exceeds_eq_false_iff.2 fun n _ => Nat.zero_le n
  rw [ends_cons_iff, turn_of_states shallow expand_initial, List.append_nil]

end Recognition

namespace Ruleset

open Recognition

variable {g : Grammar} {mode : EscapeMode} {R S : Ruleset} {s : Symbol} {rhs : List UInt8}

theorem derivation?_repeats (start : R.start = S.start) (repeats : R.replacements.Repeats S.replacements)
    (limit : Option Nat) (input : List UInt8) : S.derivation? limit input = R.derivation? limit input := by
  apply derivation?_congr
  intro v
  rw [derivation?_eq_result_iff, derivation?_eq_result_iff, Answers, Answers]
  rw [← ends_initial_iff, ← ends_initial_iff, ← start, ends_repeats_iff repeats]

/-- One more alternative of a symbol is the last of its bodies. -/
theorem bodies_addAlternative (t : Symbol) :
    ((g.addAlternative s rhs).replacements mode).bodies t =
      (g.replacements mode).bodies t ++ if s = t then [Step.all g.escape mode rhs] else [] := by
  simp only [Replacements.bodies, Grammar.replacements, Option.getD_some, Grammar.alternatives_addAlternative]
  split
  · rw [List.map_append]
    rfl
  · exact (List.append_nil _).symm

theorem mem_bodies_of_mem_alternatives (known : rhs ∈ g.alternatives s) :
    Step.all g.escape mode rhs ∈ (g.replacements mode).bodies s := List.mem_map_of_mem known

theorem exists_ofGrammar_again (built : ofGrammar g mode = .ok R) (known : rhs ∈ g.alternatives s) :
    ∃ S, ofGrammar (g.addAlternative s rhs) mode = .ok S := by
  obtain ⟨started, calls⟩ := exists_ofGrammar_iff.1 ⟨R, built⟩
  refine exists_ofGrammar_iff.2 ⟨started, ?_⟩
  intro caller declared right hright
  refine calls caller declared right ?_
  rw [Grammar.alternatives_addAlternative] at hright
  split at hright
  · rename_i same
    subst same
    rcases List.mem_append.1 hright with old | new
    · exact old
    · rwa [List.mem_singleton.1 new]
  · exact hright

theorem repeats_again (builtR : ofGrammar g mode = .ok R) (builtS : ofGrammar (g.addAlternative s rhs) mode = .ok S)
    (known : rhs ∈ g.alternatives s) : R.replacements.Repeats S.replacements := by
  intro t
  have declared : (g.addAlternative s rhs).nonTerminals = g.nonTerminals := rfl
  rw [bodies_eq builtR, bodies_eq builtS, declared]
  by_cases ht : t ∈ g.nonTerminals
  · rw [if_pos ht, if_pos ht, bodies_addAlternative]
    refine ⟨_, rfl, fun body hbody => ?_⟩
    split at hbody
    · rename_i same
      rw [List.mem_singleton.1 hbody, ← same]
      exact mem_bodies_of_mem_alternatives known
    · cases hbody
  · rw [if_neg ht, if_neg ht]
    exact ⟨[], rfl, by simp⟩

/-- To store a right-hand side of a symbol once more is harmless: there is a ruleset as before, and it finds the same
derivation, rejects the same inputs and is cut off at the same limits, with a finite limit and without one. -/
theorem derivation?_addAlternative_again (built : ofGrammar g mode = .ok R) (known : rhs ∈ g.alternatives s) :
    ∃ S, ofGrammar (g.addAlternative s rhs) mode = .ok S ∧
      ∀ limit input, S.derivation? limit input = R.derivation? limit input := by
  obtain ⟨S, again⟩ := exists_ofGrammar_again built known
  have kept : (g.addAlternative s rhs).start = some S.start := start_eq again
  have start : R.start = S.start := Option.some.inj ((start_eq built).symm.trans kept)
  exact ⟨S, again, derivation?_repeats start (repeats_again built again known)⟩

/-- The alternative of `A` that the search for `abb` gives up first is stored once more. -/
theorem derivation?_addAlternative_again_abb :
    (ofGrammar .detour .literal = .ok detour ∧ [88, 97] ∈ Grammar.detour.alternatives 65) ∧
    ∃ S, ofGrammar (Grammar.detour.addAlternative 65 [88, 97]) .literal = .ok S ∧
      S.derivation? (some 3) [97, 98, 98] = .ok (some ⟨[(83, 0), (65, 1)]⟩) ∧
      S.derivation? (some 1) [97, 98, 98] = .error (.tooDeep 1) ∧
      S.derivation? (some 3) [97, 98, 97] = .ok none := by
  have known : [88, 97] ∈ Grammar.detour.alternatives 65 := by decide
  have explored : detour.deriveWithin 9 (some 3) [97, 98, 98] = some (.accepts ⟨[(83, 0), (65, 1)]⟩) := by
    rw [deriveWithin_eq]
    decide
  have cut : detour.deriveWithin 9 (some 1) [97, 98, 98] = some (.tooDeep 1) := by
    rw [deriveWithin_eq]
    decide
  have refused : detour.deriveWithin 20 (some 3) [97, 98, 97] = some .rejects := by
    rw [deriveWithin_eq]
    decide
  obtain ⟨S, again, same⟩ := derivation?_addAlternative_again detour_built known
  refine ⟨⟨detour_built, known⟩, S, again, ?_, ?_, ?_⟩
  · exact (same _ _).trans (derivation?_eq_result_iff.2 (answers_of_deriveWithin explored))
  · exact (same _ _).trans (derivation?_eq_result_iff.2 (answers_of_deriveWithin cut))
  · exact (same _ _).trans (derivation?_eq_result_iff.2 (answers_of_deriveWithin refused))

end Ruleset

end Descent
