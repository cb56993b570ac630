import Descent.Proofs.Recognition.Expansion
import Descent.Proofs.Recognition.Visited
import Descent.Proofs.Ruleset.Decoding
import Descent.Proofs.Ruleset.Dispatch
import Descent.Proofs.Ruleset.Reachable

/-!
# Every dispatch lands

The symbols that a search and a draw look up are calls in what is left of alternatives that were checked, so each of
them has its rule. A search comes to many continuations at once; what it preserves is said of all patterns in them.
-/
namespace Descent

variable {E F : Replacements} {g : Grammar} {mode : EscapeMode} {R : Ruleset}

namespace Recognition

variable {limit : Option Nat} {agenda : List State} {s : State}

/-- A symbol whose rule is looked up when a state is expanded. -/
def State.LooksUp (limit : Option Nat) (s : State) (callee : Symbol) : Prop :=
  s.exceeds limit = false ∧
    ∃ rest left depth, advance s.continuation.pattern s.input s.depth = .call callee rest left depth

/-- All patterns of a state are left of alternatives of declared non-terminals. -/
def State.Rests (g : Grammar) (mode : EscapeMode) (s : State) : Prop :=
  ∀ pattern ∈ s.continuation.pattern :: s.continuation.parents, g.IsRest mode pattern

theorem turn_congr {rest : List State} (same : ∀ callee, s.LooksUp limit callee → E callee = F callee) :
    turn E limit s rest = turn F limit s rest := by
  unfold turn
  by_cases shallow : s.exceeds limit = false
  · have expansion : s.expand E = s.expand F := by
      unfold State.expand
      cases reached : advance s.continuation.pattern s.input s.depth with
      | mismatch => rfl
      | call callee rest left depth =>
        simp only [enter, same callee ⟨shallow, rest, left, depth, reached⟩]
      | finished => rfl
    rw [expansion]
  · rw [Bool.not_eq_false] at shallow
    rw [if_pos shallow, if_pos shallow]

/-- A search depends on the rules that it looks up and on no other. -/
theorem exploreWithin_congr (turns : Nat)
    (same : ∀ s callee, Visits E limit agenda s → s.LooksUp limit callee → E callee = F callee) :
    exploreWithin E limit turns agenda = exploreWithin F limit turns agenda := by
  induction turns generalizing agenda with
  | zero => cases agenda <;> rfl
  | succ turns ih =>
    cases agenda with
    | nil => rfl
    | cons s rest =>
      have first : turn E limit s rest = turn F limit s rest := turn_congr fun callee => same s callee .first
      rw [exploreWithin_cons, exploreWithin_cons, ← first]
      cases taken : turn E limit s rest with
      | error verdict => rfl
      | ok agenda => exact ih fun t callee visited => same t callee (.later taken visited)

/-- What one turn preserves: the states that take the place of the first are made of rests as well. -/
theorem State.Rests.next (bodies : ∀ s, ∀ body ∈ E.bodies s, g.IsRest mode body) (h : s.Rests g mode)
    {next : List State} (expanded : s.expand E = .states next) : ∀ t ∈ next, t.Rests g mode := by
  cases expands_of_expand_eq expanded with
  | mismatch => simp
  | leftover => simp
  | @call w callee rest left parents depth choices =>
    intro t ht
    obtain ⟨i, body, hbody, rfl⟩ := mem_enter_iff.1 ht
    have here : g.IsRest mode (w.map .literal ++ .call callee :: rest) := h _ List.mem_cons_self
    have tail : g.IsRest mode rest := by
      rw [← List.singleton_append, ← List.append_assoc] at here
      exact here.of_append
    exact List.forall_mem_cons.2 ⟨bodies callee body (List.mem_of_getElem? hbody),
      List.forall_mem_cons.2 ⟨tail, fun pattern hp => h pattern (List.mem_cons_of_mem _ hp)⟩⟩
  | @finish w left parent parents depth choices =>
    intro t ht
    rw [List.mem_singleton] at ht
    subst ht
    exact fun pattern hp => h pattern (List.mem_cons_of_mem _ hp)

theorem rests_opening (bodies : ∀ s, ∀ body ∈ E.bodies s, g.IsRest mode body) (start : Symbol)
    (input : List UInt8) : ∀ s ∈ opening E start input, s.Rests g mode := by
  intro s hs
  obtain ⟨i, body, hbody, rfl⟩ := mem_enter_iff.1 hs
  exact List.forall_mem_cons.2 ⟨bodies start body (List.mem_of_getElem? hbody),
    List.forall_mem_cons.2 ⟨Grammar.isRest_nil, by simp [Continuation.outermost]⟩⟩

/-- What a run preserves: every state that a search takes up is made of rests. -/
theorem Visits.rests (bodies : ∀ s, ∀ body ∈ E.bodies s, g.IsRest mode body) (visited : Visits E limit agenda s)
    (h : ∀ t ∈ agenda, t.Rests g mode) : s.Rests g mode := by
  apply visited.preserves _ h
  intro t next rests _ expanded
  exact rests.next bodies expanded

/-- A symbol that is looked up is called in the pattern of its state. -/
theorem State.LooksUp.mem_pattern {callee : Symbol} (h : s.LooksUp limit callee) :
    .call callee ∈ s.continuation.pattern := by
  obtain ⟨-, rest, left, depth, reached⟩ := h
  have spec := advances_advance s.continuation.pattern s.input s.depth
  rw [reached] at spec
  generalize s.continuation.pattern = pattern, s.input = input, s.depth = level at spec ⊢
  cases spec with
  | call => simp

end Recognition

namespace Sampling

variable {σ : Type} {pick : Chooser σ} {limit levels : Nat} {steps : List Step} {out : List UInt8} {state : σ}

/-- The symbols that a draw expands while it emits some steps, with so many levels left for them. -/
inductive Asks (E : Replacements) (pick : Chooser σ) (limit : Nat) :
    Nat → List Step → List UInt8 → σ → Symbol → Prop
  | literal {levels : Nat} {b : UInt8} {rest : List Step} {out : List UInt8} {state : σ} {t : Symbol} :
    Asks E pick limit levels rest (b :: out) state t → Asks E pick limit levels (.literal b :: rest) out state t
  | here {levels : Nat} {s : Symbol} {rest : List Step} {out : List UInt8} {state : σ} :
    Asks E pick limit levels (.call s :: rest) out state s
  | within {levels : Nat} {s t : Symbol} {body rest : List Step} {out : List UInt8} {state next : σ} :
    choose E pick s state = (.ok body, next) → Asks E pick limit levels body out next t →
    Asks E pick limit (levels + 1) (.call s :: rest) out state t
  | behind {levels : Nat} {s t : Symbol} {rest : List Step} {out emitted : List UInt8} {state next : σ} :
    expand E pick limit levels s out state = (.ok emitted, next) → Asks E pick limit levels rest emitted next t →
    Asks E pick limit levels (.call s :: rest) out state t

/-- What a draw preserves: emitting calls of declared non-terminals, it expands no other symbols. -/
theorem Asks.declared {t : Symbol} (bodies : ∀ s, ∀ body ∈ E.bodies s, g.IsRest mode body)
    (known : g.CallsDeclared mode) (asked : Asks E pick limit levels steps out state t)
    (h : ∀ callee, .call callee ∈ steps → callee ∈ g.nonTerminals) : t ∈ g.nonTerminals := by
  induction asked with
  | literal _ ih => exact ih fun callee called => h callee (List.mem_cons_of_mem _ called)
  | here => exact h _ List.mem_cons_self
  | @within levels s t body rest out state next chosen _ ih =>
    obtain ⟨i, -, hbody⟩ := choose_eq_ok_iff.1 chosen
    exact ih fun callee called => (bodies s body (List.mem_of_getElem? hbody)).declared known called
  | behind _ _ ih => exact ih fun callee called => h callee (List.mem_cons_of_mem _ called)

theorem eq_none_of_choose {s t : Symbol} (h : (choose E pick s state).1 = .error (.noRule t)) :
    t = s ∧ E s = none := by
  cases rule : E s with
  | none =>
    simp only [choose, rule, Draw.fail, Except.error.injEq, Fault.noRule.injEq] at h
    exact ⟨h.symm, rfl⟩
  | some bodies =>
    cases bodies with
    | nil => simp [choose, rule, Draw.fail] at h
    | cons first others =>
      simp only [choose, rule] at h
      split at h
      · simp at h
      · split at h <;> simp at h

/-- An expansion that misses a rule misses that of its own symbol or one below. -/
theorem cases_of_expand {s t : Symbol} (h : (expand E pick limit levels s out state).1 = .error (.noRule t)) :
    t = s ∧ E s = none ∨ ∃ fewer body next, levels = fewer + 1 ∧ choose E pick s state = (.ok body, next) ∧
      (emitSteps (expand E pick limit fewer) body out next).1 = .error (.noRule t) := by
  cases levels with
  | zero => simp [expand, Draw.fail] at h
  | succ fewer =>
    rw [expand, Draw.andThen] at h
    cases chosen : choose E pick s state with
    | mk outcome next =>
      rw [chosen] at h
      cases outcome with
      | ok body => exact .inr ⟨fewer, body, next, rfl, rfl, h⟩
      | error fault =>
        have failed : fault = .noRule t := Except.error.inj h
        have missed : (choose E pick s state).1 = .error (.noRule t) := by rw [chosen, failed]
        exact .inl (eq_none_of_choose missed)

/-- A draw that misses a rule has asked for it. -/
theorem asks_of_noRule {t : Symbol}
    (h : (emitSteps (expand E pick limit levels) steps out state).1 = .error (.noRule t)) :
    Asks E pick limit levels steps out state t ∧ E t = none := by
  -- On the levels first, since a body is emitted with fewer of them, and on the steps within.
  induction levels using Nat.strongRecOn generalizing steps out state with
  | ind levels below =>
    induction steps generalizing out state with
    | nil => simp [emitSteps, Draw.pure] at h
    | cons step rest ih =>
      cases step with
      | literal b =>
        obtain ⟨asked, missing⟩ := ih h
        exact ⟨.literal asked, missing⟩
      | call s =>
        rw [emitSteps, Draw.andThen] at h
        cases expanded : expand E pick limit levels s out state with
        | mk outcome next =>
          rw [expanded] at h
          cases outcome with
          | ok emitted =>
            obtain ⟨asked, missing⟩ := ih h
            exact ⟨.behind expanded asked, missing⟩
          | error fault =>
            have missed : (expand E pick limit levels s out state).1 = .error (.noRule t) := by
              rw [expanded]
              exact h
            rcases cases_of_expand missed with ⟨rfl, missing⟩ | ⟨fewer, body, next, rfl, chosen, inner⟩
            · exact ⟨.here, missing⟩
            · obtain ⟨asked, missing⟩ := below fewer (Nat.lt_succ_self fewer) inner
              exact ⟨.within chosen asked, missing⟩

/-- A draw depends on the rules that it asks for and on no other. -/
theorem emitSteps_congr_of_asks (same : ∀ t, Asks E pick limit levels steps out state t → E t = F t) :
    emitSteps (expand E pick limit levels) steps out state =
      emitSteps (expand F pick limit levels) steps out state := by
  induction levels using Nat.strongRecOn generalizing steps out state with
  | ind levels below =>
    induction steps generalizing out state with
    | nil => rfl
    | cons step rest ih =>
      cases step with
      | literal b => exact ih fun t asked => same t (.literal asked)
      | call s =>
        have first : expand E pick limit levels s out state = expand F pick limit levels s out state := by
          cases levels with
          | zero => rfl
          | succ fewer =>
            rw [expand, expand, ← choose_congr (same s .here), Draw.andThen, Draw.andThen]
            cases chosen : choose E pick s state with
            | mk outcome next =>
              cases outcome with
              | error fault => rfl
              | ok body => exact below fewer (Nat.lt_succ_self fewer) fun t asked => same t (.within chosen asked)
        rw [emitSteps, emitSteps, Draw.andThen, Draw.andThen, ← first]
        cases expanded : expand E pick limit levels s out state with
        | mk outcome next =>
          cases outcome with
          | error fault => rfl
          | ok emitted => exact ih fun t asked => same t (.behind expanded asked)

end Sampling

namespace Ruleset

open Recognition Sampling

/-- The look-up of a symbol lands: its slot holds the place in which the symbol was declared, the rule found there is of
that symbol, it has the symbol's alternatives in the grammar, and these are what replaces the symbol. -/
def Lands (R : Ruleset) (g : Grammar) (mode : EscapeMode) (s : Symbol) : Prop :=
  ∃ (r : Rule) (i : Nat), R.table.place? s = some i ∧ R.dispatch s = some r ∧
    R.rule? s = some r ∧ R.rules[i]? = some r ∧ g.nonTerminals[i]? = some s ∧
    r.symbol = s ∧ r.rights = g.alternatives s ∧
    R.replacements s = some (r.rights.map (Step.all g.escape mode))

theorem lands_of_mem (built : ofGrammar g mode = .ok R) {s : Symbol} (declared : s ∈ g.nonTerminals) :
    R.Lands g mode s := by
  obtain ⟨i, hi⟩ := List.getElem?_of_mem declared
  obtain ⟨aligned, rules⟩ := aligned_table built
  have found : R.rule? s = some (ruleOf g mode s) := by rw [rule?_eq built, if_pos declared]
  have placed : R.rules[i]? = some (ruleOf g mode s) := by
    rw [rules_eq built, rulesOf, List.getElem?_map, hi]
    rfl
  have slot : R.table.place? s = some i := by
    rw [aligned s i, rules]
    exact ⟨ruleOf g mode s, placed, rfl⟩
  have dispatched : R.dispatch s = some (ruleOf g mode s) := (dispatch_eq_rule? built s).trans found
  refine ⟨ruleOf g mode s, i, slot, dispatched, found, placed, hi, rfl, rights_ruleOf g mode s, ?_⟩
  rw [replacements_eq built, if_pos declared, rights_ruleOf]

theorem isRest_of_mem_bodies (built : ofGrammar g mode = .ok R) :
    ∀ s, ∀ body ∈ R.replacements.bodies s, g.IsRest mode body := by
  intro s body hbody
  obtain ⟨declared, rhs, hrhs, rfl⟩ := exists_right_of_mem_bodies built hbody
  exact Grammar.isRest_all declared hrhs

/-- A draw of a sentence is the emission of one call. -/
theorem emitSteps_of_sentence {σ : Type} {pick : Chooser σ} {limit : Nat} {state : σ} {fault : Fault}
    (h : (sentence R pick limit state).1 = .error fault) :
    (emitSteps (expand R.replacements pick limit limit) [.call R.start] [] state).1 = .error fault := by
  rw [emitSteps, Draw.andThen]
  rw [sentence] at h
  cases expanded : expand R.replacements pick limit limit R.start [] state with
  | mk outcome next =>
    rw [expanded] at h
    cases outcome with
    | ok out => cases h
    | error fault => exact h

/-- Every dispatch in a run lands, whatever the input, the limit and the random words are. A search looks up the
start symbol and what its states call, and all patterns in these are left of alternatives that were checked; a draw
looks up the symbols that it expands, and never misses a rule. -/
theorem dispatch_lands (built : ofGrammar g mode = .ok R) :
    R.Lands g mode R.start ∧
    (∀ limit input s, Visits R.replacements limit (opening R.replacements R.start input) s →
      s.Rests g mode ∧ ∀ callee, s.LooksUp limit callee → R.Lands g mode callee) ∧
    ∀ {σ : Type} (pick : Chooser σ) limit state,
      (∀ s, Asks R.replacements pick limit limit [.call R.start] [] state s → R.Lands g mode s) ∧
      ∀ s, (sentence R pick limit state).1 ≠ .error (.noRule s) := by
  have bodies := isRest_of_mem_bodies built
  have known : g.CallsDeclared mode := (exists_ofGrammar_iff.1 ⟨R, built⟩).2
  refine ⟨lands_of_mem built (start_mem built), ?search, ?draw⟩
  case search =>
    intro limit input s visited
    have rests : s.Rests g mode := visited.rests bodies (rests_opening bodies R.start input)
    refine ⟨rests, fun callee looked => lands_of_mem built ?_⟩
    exact (rests _ List.mem_cons_self).declared known looked.mem_pattern
  case draw =>
    intro σ pick limit state
    have lands : ∀ s, Asks R.replacements pick limit limit [.call R.start] [] state s → R.Lands g mode s := by
      intro s asked
      refine lands_of_mem built (asked.declared bodies known fun callee called => ?_)
      simp only [List.mem_singleton, Step.call.injEq] at called
      exact called ▸ start_mem built
    refine ⟨lands, fun s missed => ?_⟩
    obtain ⟨asked, missing⟩ := asks_of_noRule (emitSteps_of_sentence missed)
    obtain ⟨_, _, -, -, -, -, -, -, -, found⟩ := lands s asked
    rw [missing] at found
    cases found

/-- `S → a\AS | ε`, where `A` is a literal and no declared symbol. -/
def shielded : Grammar := .ofDraft 'S' [.rule 'S' [97, 92, 65, 83], .rule 'S' []]

def shieldedRules : Ruleset :=
  ⟨none, 83, 92, .literal,
    [⟨83, [⟨[97, 92, 65, 83], [.literal 97, .literal 65, .call 83]⟩, ⟨[], []⟩]⟩]⟩

theorem shielded_built : ofGrammar shielded .literal = .ok shieldedRules := by decide +kernel

/-- The state in which the search for `aA` calls `S` from behind the escaped letter. -/
def shieldedState : State := ⟨[97, 65], ⟨[.literal 97, .literal 65, .call 83], [[]]⟩, 1, [(83, 0)]⟩

theorem dispatch_lands_shielded :
    (Visits shieldedRules.replacements (some 5) (opening shieldedRules.replacements 83 [97, 65]) shieldedState ∧
      shieldedState.LooksUp (some 5) 83) ∧
    shieldedState.Rests shielded .literal ∧ shieldedRules.Lands shielded .literal 83 ∧
    ∀ s, (sentence shieldedRules (fun _ i => (some i, i + 1)) 4 0).1 ≠ .error (.noRule s) := by
  have visited : Visits shieldedRules.replacements (some 5)
      (opening shieldedRules.replacements 83 [97, 65]) shieldedState := .first
  have looked : shieldedState.LooksUp (some 5) 83 := ⟨by decide, [], [], 0, rfl⟩
  obtain ⟨-, search, draw⟩ := dispatch_lands shielded_built
  obtain ⟨rests, lands⟩ := search (some 5) [97, 65] shieldedState visited
  exact ⟨⟨visited, looked⟩, rests, lands 83 looked, (draw (fun _ i => (some i, i + 1)) 4 0).2⟩

end Ruleset

end Descent
