import Descent.Proofs.Recognition.Exactness
import Descent.Proofs.Recognition.Matcher
import Descent.Proofs.Sampling.Drawn

/-!
# What can be reached

Recognition and sampling look at the bodies of symbols that the start symbol reaches through calls, and at
nothing else of a ruleset. Two rulesets that agree on these bodies behave the same, errors included, however
their right-hand sides are spelled and whatever else they declare.
-/
namespace Descent

/-- The symbols that a start symbol leads to through the calls in their bodies, itself included. -/
inductive Reachable (E : Replacements) (start : Symbol) : Symbol → Prop
  | start : Reachable E start start
  | call {s t : Symbol} {body : List Step} :
    Reachable E start s → body ∈ E.bodies s → .call t ∈ body → Reachable E start t

variable {E F : Replacements} {D : Symbol → Prop}

theorem Reachable.of_agree {start s : Symbol} (same : ∀ s, Reachable E start s → E.bodies s = F.bodies s)
    (reached : Reachable E start s) : Reachable F start s := by
  induction reached with
  | start => exact .start
  | call hs hbody ht ih => exact .call ih (same _ hs ▸ hbody) ht

theorem agreeOn_reachable {start : Symbol}
    (same : ∀ s, Reachable E start s → E.bodies s = F.bodies s) : AgreeOn (Reachable E start) E F where
  bodies_eq := same
  closed := fun _ hs _ hbody _ ht => hs.call hbody ht

namespace Recognition

/-- A state with calls of symbols in `D` before it and of no others. -/
def State.CallsWithin (D : Symbol → Prop) (s : State) : Prop := ∀ t, .call t ∈ s.pending → D t

theorem enter_congr (agree : AgreeOn D E F) {s : Symbol} (hs : D s) (input : List UInt8)
    (c : Continuation Step) (depth : Nat) (choices : List (Symbol × Nat)) :
    enter E s input c depth choices = enter F s input c depth choices := by
  rw [enter_eq, enter_eq, agree.bodies_eq s hs]

theorem callsWithin_enter (agree : AgreeOn D E F) {s : Symbol} (hs : D s) {input : List UInt8}
    {rest : List Step} {parents : List (List Step)} {depth : Nat} {choices : List (Symbol × Nat)}
    (others : ∀ t, .call t ∈ rest ++ parents.flatten → D t) :
    ∀ t ∈ enter E s input ⟨rest, parents⟩ depth choices, t.CallsWithin D := by
  intro t ht
  obtain ⟨i, body, hbody, rfl⟩ := mem_enter_iff.1 ht
  intro u hu
  have whereCalled : .call u ∈ body ∨ .call u ∈ rest ++ parents.flatten := by
    simpa [State.pending, Continuation.push] using hu
  rcases whereCalled with inBody | outside
  · exact agree.closed s hs body (List.mem_of_getElem? hbody) u inBody
  · exact others u outside

/-- Tables that agree on the symbols that a state calls expand it to the same states. -/
theorem State.expand_congr (agree : AgreeOn D E F) {s : State} (within : s.CallsWithin D) :
    s.expand E = s.expand F := by
  obtain ⟨input, ⟨pattern, parents⟩, depth, choices⟩ := s
  have spec := advances_advance pattern input depth
  unfold State.expand
  simp only
  generalize advance pattern input depth = a at spec
  cases spec with
  | mismatch => rfl
  | @call w callee rest left =>
    have known : D callee := within callee (by simp [State.pending])
    exact congrArg Expansion.states (enter_congr agree known _ _ _ _)
  | finished => rfl

/-- The next states call no other symbols either. -/
theorem callsWithin_next (agree : AgreeOn D E F) {s : State} (within : s.CallsWithin D)
    {next : List State} (hx : s.expand E = .states next) : ∀ t ∈ next, t.CallsWithin D := by
  cases expands_of_expand_eq hx with
  | mismatch => simp
  | leftover => simp
  | @call w callee rest left parents depth choices =>
    have known : D callee := within callee (by simp [State.pending])
    have others : ∀ t, .call t ∈ rest ++ parents.flatten → D t := by
      intro t ht
      have inside : .call t ∈ w.map Step.literal ++ .call callee :: rest ++ parents.flatten := by
        rw [List.append_assoc, List.cons_append]
        exact List.mem_append_right _ (List.mem_cons_of_mem _ ht)
      exact within t inside
    exact callsWithin_enter agree known others
  | @finish w left parent parents depth choices =>
    intro t ht
    rw [List.mem_singleton] at ht
    subst ht
    intro u hu
    have inside : .call u ∈ w.map Step.literal ++ (parent :: parents).flatten := by
      rw [List.flatten_cons]
      exact List.mem_append_right _ hu
    exact within u inside

/-- A recursion comes to the same in both tables: no state that it takes up ever calls a symbol on which they differ. -/
theorem descend_congr (agree : AgreeOn D E F) (limit : Option Nat) (steps : Nat) {s : State}
    (within : s.CallsWithin D) : descend E limit steps s = descend F limit steps s := by
  induction steps generalizing s with
  | zero => rfl
  | succ steps ih =>
    rw [descend, descend, ← State.expand_congr agree within]
    split
    · rfl
    · cases expanded : s.expand E with
      | accepted => rfl
      | states next =>
        have below := callsWithin_next agree within expanded
        exact firstAnswer_congr fun t ht => ih (below t ht)

end Recognition

namespace Sampling

variable {σ : Type} {pick : Chooser σ}

theorem emitSteps_congr {call other : Symbol → List UInt8 → Draw σ (List UInt8)} {steps : List Step}
    (same : ∀ s, .call s ∈ steps → ∀ out, call s out = other s out) (out : List UInt8) :
    emitSteps call steps out = emitSteps other steps out := by
  induction steps generalizing out with
  | nil => rfl
  | cons step rest ih =>
    have later := ih fun s hs => same s (List.mem_cons_of_mem _ hs)
    cases step with
    | literal b => exact later (b :: out)
    | call s =>
      have here : call s out = other s out := same s List.mem_cons_self out
      have after : emitSteps call rest = emitSteps other rest := funext later
      rw [emitSteps, emitSteps, here, after]

theorem choose_congr {s : Symbol} (same : E s = F s) : choose E pick s = choose F pick s := by
  unfold choose
  rw [same]

/-- Tables that agree on a symbol and on all that it leads to expand it by the same choices to the same
bytes or the same error. -/
theorem expand_congr (agree : AgreeOn D E F) (same : ∀ s, D s → E s = F s) (limit levels : Nat)
    {s : Symbol} (hs : D s) (out : List UInt8) :
    expand E pick limit levels s out = expand F pick limit levels s out := by
  induction levels generalizing s out with
  | zero => rfl
  | succ levels ih =>
    funext state
    rw [expand, expand, ← choose_congr (same s hs)]
    unfold Draw.andThen
    cases chosen : choose E pick s state with
    | mk outcome next =>
      cases outcome with
      | error fault => rfl
      | ok body =>
        obtain ⟨i, -, hbody⟩ := choose_eq_ok_iff.1 chosen
        have inner : ∀ t, .call t ∈ body →
            ∀ out, expand E pick limit levels t out = expand F pick limit levels t out := by
          intro t ht out
          exact ih (agree.closed s hs body (List.mem_of_getElem? hbody) t ht) out
        exact congrFun (emitSteps_congr inner out) next

end Sampling

namespace Ruleset

open Recognition Sampling

variable {D : Symbol → Prop} {g h : Grammar} {mode mode' : EscapeMode} {R S : Ruleset} {limit : Option Nat}
  {input : List UInt8}

theorem descendWithin_congr (agree : AgreeOn D R.replacements S.replacements) (start : R.start = S.start)
    (known : D R.start) (steps : Nat) (limit : Option Nat) (input : List UInt8) :
    R.descendWithin steps limit input = S.descendWithin steps limit input := by
  have same : opening R.replacements R.start input = opening S.replacements R.start input :=
    enter_congr agree known _ _ _ _
  have within : ∀ s ∈ opening R.replacements R.start input, s.CallsWithin D :=
    callsWithin_enter agree known (by simp)
  rw [descendWithin, descendWithin, ← start, ← same]
  exact firstAnswer_congr fun s hs => descend_congr agree limit steps (within s hs)

theorem isSome_replacements (built : ofGrammar g mode = .ok R) {s : Symbol} (hs : s ∈ g.nonTerminals) :
    (R.replacements s).isSome := by
  rw [replacements_eq built, if_pos hs]
  rfl

theorem mem_nonTerminals_of_reachable (built : ofGrammar g mode = .ok R) {s : Symbol}
    (reached : Reachable R.replacements R.start s) : s ∈ g.nonTerminals := by
  induction reached with
  | start => exact start_mem built
  | call _ hbody ht ih => exact (agreeOn built).closed _ ih _ hbody _ ht

/-- A reached symbol has a rule in both rulesets, so that not even a missing rule tells them apart. -/
theorem replacements_eq_of_reachable (builtR : ofGrammar g mode = .ok R) (builtS : ofGrammar h mode' = .ok S)
    (start : R.start = S.start)
    (same : ∀ s, Reachable R.replacements R.start s → R.replacements.bodies s = S.replacements.bodies s)
    {s : Symbol} (reached : Reachable R.replacements R.start s) :
    R.replacements s = S.replacements s := by
  have reachedS : Reachable S.replacements S.start s := start ▸ reached.of_agree same
  have ruledR := isSome_replacements builtR (mem_nonTerminals_of_reachable builtR reached)
  have ruledS := isSome_replacements builtS (mem_nonTerminals_of_reachable builtS reachedS)
  obtain ⟨bodiesR, hR⟩ := Option.isSome_iff_exists.1 ruledR
  obtain ⟨bodiesS, hS⟩ := Option.isSome_iff_exists.1 ruledS
  have bodies := same s reached
  rw [Replacements.bodies, Replacements.bodies, hR, hS, Option.getD_some, Option.getD_some] at bodies
  rw [hR, hS, bodies]

/-- Two rulesets with the same start symbol whose reached symbols read as the same bodies in the same order
find the same derivation or report the same error for every input under every limit, and draw the same
sentence or error by the same choices, whatever makes them. So do matches on the bytes, call by call, though
the bytes that are left of the right-hand sides differ. -/
theorem behaviour_eq_of_reachable (builtR : ofGrammar g mode = .ok R) (builtS : ofGrammar h mode' = .ok S)
    (start : R.start = S.start)
    (same : ∀ s, Reachable R.replacements R.start s → R.replacements.bodies s = S.replacements.bodies s) :
    (∀ limit input, R.derivation? limit input = S.derivation? limit input) ∧
      (∀ steps limit input, R.matchWithin steps limit input = S.matchWithin steps limit input) ∧
      ∀ (σ : Type) (pick : Chooser σ) (levels : Nat) (state : σ),
        sentence R pick levels state = sentence S pick levels state := by
  have agree := agreeOn_reachable same
  have descends := descendWithin_congr agree start .start
  refine ⟨?search, ?bytes, ?draw⟩
  case search =>
    intro limit input
    apply derivation?_congr
    intro v
    simp only [derivation?_eq_result_iff_descends, descends]
  case bytes =>
    intro steps limit input
    rw [matchWithin_eq builtR, matchWithin_eq builtS, descends]
  case draw =>
    intro σ pick levels state
    have tables : ∀ s, Reachable R.replacements R.start s → R.replacements s = S.replacements s :=
      fun s => replacements_eq_of_reachable builtR builtS start same
    have expanded : expand R.replacements pick levels levels R.start [] =
        expand S.replacements pick levels levels R.start [] := expand_congr agree tables _ _ .start []
    rw [sentence, sentence, ← start, expanded]

end Ruleset

/-- `S → aB` and `B → \b`, where the marker is a backslash and makes the byte after it a literal. -/
def Grammar.terse : Grammar := Grammar.ofDraft 'S' [.rule 'S' [97, 66], .rule 'B' [92, 98]]

/-- `S → a!B` and `B → !b!`, where the marker is `!` and is dropped, with a rule that nothing calls. -/
def Grammar.ornate : Grammar :=
  Grammar.ofDraft 'S'
    [.name "ornate", .escape '!', .rule 'Z' [83, 122], .rule 'B' [33, 98, 33], .rule 'S' [97, 33, 66]]

namespace Ruleset

open Sampling

/-- The rules of `Grammar.terse`. -/
def terse : Ruleset :=
  ⟨none, 83, 92, .literal,
    [⟨83, [⟨[97, 66], [.literal 97, .call 66]⟩]⟩, ⟨66, [⟨[92, 98], [.literal 98]⟩]⟩]⟩

/-- The rules of `Grammar.ornate`. -/
def ornate : Ruleset :=
  ⟨some "ornate", 83, 33, .skip,
    [⟨90, [⟨[83, 122], [.call 83, .literal 122]⟩]⟩, ⟨66, [⟨[33, 98, 33], [.literal 98]⟩]⟩,
      ⟨83, [⟨[97, 33, 66], [.literal 97, .call 66]⟩]⟩]⟩

theorem terse_built : ofGrammar .terse .literal = .ok terse := by decide +kernel

theorem ornate_built : ofGrammar .ornate .skip = .ok ornate := by decide +kernel

theorem bodies_terse_eq {s : Symbol} (reached : Reachable terse.replacements terse.start s) :
    terse.replacements.bodies s = ornate.replacements.bodies s := by
  have closed : ([83, 66] : List Symbol).all (fun s => (terse.replacements.bodies s).all fun body =>
      (callees body).all fun t => t == 83 || t == 66) = true := by decide
  have same : ([83, 66] : List Symbol).all (fun s =>
      terse.replacements.bodies s == ornate.replacements.bodies s) = true := by decide
  simp only [List.all_eq_true, Bool.or_eq_true, beq_iff_eq] at closed same
  apply same
  induction reached with
  | start => decide
  | call _ hbody ht ih =>
    have named := closed _ ih _ hbody _ (mem_callees.2 ht)
    simpa using named

theorem behaviour_eq_of_reachable_terse :
    (ofGrammar .terse .literal = .ok terse ∧ ofGrammar .ornate .skip = .ok ornate ∧
      terse.start = ornate.start ∧
      ∀ s, Reachable terse.replacements terse.start s →
        terse.replacements.bodies s = ornate.replacements.bodies s) ∧
    (∀ limit input, terse.derivation? limit input = ornate.derivation? limit input) ∧
      (∀ steps limit input, terse.matchWithin steps limit input = ornate.matchWithin steps limit input) ∧
      ∀ (σ : Type) (pick : Chooser σ) (levels : Nat) (state : σ),
        sentence terse pick levels state = sentence ornate pick levels state := by
  have same : ∀ s, Reachable terse.replacements terse.start s →
      terse.replacements.bodies s = ornate.replacements.bodies s := fun _ => bodies_terse_eq
  exact ⟨⟨terse_built, ornate_built, rfl, same⟩,
    behaviour_eq_of_reachable terse_built ornate_built rfl same⟩

end Ruleset

end Descent
