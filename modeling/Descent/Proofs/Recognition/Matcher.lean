import Descent.Proofs.Recognition.Recursion
import Descent.Proofs.Ruleset.Decoding
import Descent.Proofs.Ruleset.Dispatch
import Descent.Recognition.Matcher

/-!
# Matching on the bytes is the search

A match on the bytes goes through the states of the search, with all patterns decoded and the choices the other way round.
The one thing that has to be carried along is what becomes of the list of choices: it comes back as it was from a match
that fails, so that no alternative starts with choices of those that were tried before it.
-/
namespace Descent

variable {α β : Type}

/-- A continuation with each of its patterns replaced. -/
def Continuation.map (f : List α → List β) (c : Continuation α) : Continuation β := ⟨f c.pattern, c.parents.map f⟩

/-- What is reached in a pattern, with the rest of the pattern replaced. -/
def Recognition.Advance.map (f : List α → List β) : Advance α → Advance β
  | .mismatch => .mismatch
  | .call callee rest input depth => .call callee (f rest) input depth
  | .finished input depth => .finished input depth

/-- How a match returns that starts with some choices and comes to a verdict. -/
def Verdict.outcome (choices : List (Symbol × Nat)) : Verdict → Recognition.Match
  | .accepts d => .ok (true, d.choices)
  | .rejects => .ok (false, choices)
  | .tooDeep limit => .error (.tooDeep limit)

namespace Recognition

variable {g : Grammar} {mode : EscapeMode} {R : Ruleset} {answer : State → Option Verdict}

/-- Reading a step at a time comes as far as reading the steps of the whole. -/
theorem advance_all (marker : Symbol) (mode : EscapeMode) (pattern input : List UInt8) (depth : Nat) :
    advance (Step.all marker mode pattern) input depth =
      (advanceBytes marker mode pattern input depth).map (Step.all marker mode) := by
  fun_induction advanceBytes marker mode pattern input depth with
  | case1 pattern input depth read =>
    rw [Step.all_of_next?_eq_none read]
    rfl
  | case2 pattern input depth callee rest read =>
    rw [Step.all_of_next?_eq_some read]
    rfl
  | case3 pattern depth b rest read =>
    rw [Step.all_of_next?_eq_some read]
    rfl
  | case4 pattern depth rest c input read ih =>
    rw [Step.all_of_next?_eq_some read, advance, if_pos rfl]
    exact ih
  | case5 pattern depth b rest read c input different =>
    rw [Step.all_of_next?_eq_some read, advance, if_neg different]
    rfl

theorem parent?_map (f : List α → List β) (c : Continuation α) :
    (c.map f).parent? = c.parent?.map (Continuation.map f) := by
  obtain ⟨pattern, parents⟩ := c
  cases parents <;> rfl

theorem map_outermost (marker : Symbol) (mode : EscapeMode) :
    Continuation.outermost.map (Step.all marker mode) = .outermost := by
  have empty : Step.all marker mode [] = [] := Step.all_of_next?_eq_none rfl
  rw [Continuation.map, Continuation.outermost, empty]
  rfl

/-- What a state expands to whose patterns are read step by step. -/
theorem expand_map (E : Replacements) (input : List UInt8) (c : Continuation UInt8) (depth : Nat)
    (choices : List (Symbol × Nat)) (marker : Symbol) (mode : EscapeMode) :
    (State.mk input (c.map (Step.all marker mode)) depth choices).expand E =
      match advanceBytes marker mode c.pattern input depth with
      | .mismatch => .states []
      | .call callee rest left depth =>
        .states (enter E callee left (Continuation.map (Step.all marker mode) ⟨rest, c.parents⟩) depth choices)
      | .finished left depth =>
        match c.parent? with
        | some parent => .states [⟨left, parent.map (Step.all marker mode), depth - 1, choices⟩]
        | none => if left = [] then .accepted else .states [] := by
  have pattern : (c.map (Step.all marker mode)).pattern = Step.all marker mode c.pattern := rfl
  rw [State.expand, pattern, advance_all, parent?_map]
  cases advanceBytes marker mode c.pattern input depth with
  | mismatch => rfl
  | call => rfl
  | finished => cases c.parent? <;> rfl

/-- Alternatives tried one after another are states tried one after another, if each of them is. -/
theorem tryFrom_eq {attempt : List UInt8 → List (Symbol × Nat) → Option Match} {decode : List UInt8 → List Step}
    (entered : List Step → List (Symbol × Nat) → State)
    (h : ∀ rhs choices,
      attempt rhs choices = (answer (entered (decode rhs) choices.reverse)).map (Verdict.outcome choices))
    (s : Symbol) (i : Nat) (rights : List (List UInt8)) (choices : List (Symbol × Nat)) :
    tryFrom attempt s i rights choices =
      (firstAnswer answer
        ((rights.map decode).mapIdx fun j body => entered body ((s, i + j) :: choices.reverse))).map
          (Verdict.outcome choices) := by
  induction rights generalizing i with
  | nil => rfl
  | cons rhs rest ih =>
    have added : (choices ++ [(s, i)]).reverse = (s, i + 0) :: choices.reverse := List.reverse_concat
    have later : (fun j body => entered body ((s, i + (j + 1)) :: choices.reverse)) =
        fun j body => entered body ((s, i + 1 + j) :: choices.reverse) := by
      funext j body
      rw [Nat.add_comm j 1, Nat.add_assoc]
    rw [tryFrom, h, added, List.map_cons, List.mapIdx_cons, later, firstAnswer]
    cases answer (entered (decode rhs) ((s, i + 0) :: choices.reverse)) with
    | none => rfl
    | some v =>
      cases v with
      | accepts d => rfl
      | tooDeep n => rfl
      | rejects =>
        -- what the failed alternative has added is cut off, and nothing else
        have cut : (choices ++ [(s, i)]).take choices.length = choices := List.take_left
        simp only [Option.map_some, Verdict.outcome, cut]
        exact ih (i + 1)

/-- Entering a rule is trying the states of its alternatives. -/
theorem matchRule_eq (built : Ruleset.ofGrammar g mode = .ok R)
    {attempt : List UInt8 → Continuation UInt8 → Nat → List (Symbol × Nat) → Option Match}
    (h : ∀ input c depth choices, attempt input c depth choices =
      (answer ⟨input, c.map (Step.all R.escape R.mode), depth, choices.reverse⟩).map (Verdict.outcome choices))
    (s : Symbol) (input : List UInt8) (c : Continuation UInt8) (depth : Nat) (choices : List (Symbol × Nat)) :
    matchRule R attempt s input c depth choices =
      (firstAnswer answer
        (enter R.replacements s input (c.map (Step.all R.escape R.mode)) depth choices.reverse)).map
          (Verdict.outcome choices) := by
  have decoded : Step.all g.escape mode = Step.all R.escape R.mode := by
    rw [Ruleset.escape_eq built, Ruleset.mode_eq built]
  rw [matchRule, enter, Ruleset.dispatch_eq_rule? built, Ruleset.rule?_eq built, Ruleset.replacements_eq built]
  by_cases declared : s ∈ g.nonTerminals
  · rw [if_pos declared, if_pos declared, decoded]
    have tried := tryFrom_eq
      (fun body choices => ⟨input, (c.map (Step.all R.escape R.mode)).push body, depth + 1, choices⟩)
      (fun rhs choices => h input (c.push rhs) (depth + 1) choices) s 0 (g.alternatives s) choices
    simp only [Nat.zero_add] at tried
    simp only [Ruleset.rights_ruleOf]
    exact tried
  · rw [if_neg declared, if_neg declared]
    rfl

/-- A match on the bytes comes to the verdict of the search, call by call. -/
theorem matchPattern_eq (built : Ruleset.ofGrammar g mode = .ok R) (limit : Option Nat) (steps : Nat)
    (input : List UInt8) (c : Continuation UInt8) (depth : Nat) (choices : List (Symbol × Nat)) :
    matchPattern R limit steps input c depth choices =
      (descend R.replacements limit steps
        ⟨input, c.map (Step.all R.escape R.mode), depth, choices.reverse⟩).map (Verdict.outcome choices) := by
  induction steps generalizing input c depth choices with
  | zero => rfl
  | succ steps ih =>
    rw [matchPattern, descend, State.exceeds]
    by_cases deep : limit.any (· < depth) = true
    · rw [if_pos deep, if_pos deep]
      rfl
    · rw [if_neg deep, if_neg deep, expand_map]
      cases advanceBytes R.escape R.mode c.pattern input depth with
      | mismatch => rfl
      | call callee rest left depth => exact matchRule_eq built ih callee left ⟨rest, c.parents⟩ depth choices
      | finished left depth =>
        cases c.parent? with
        | some parent =>
          simp only [firstAnswer_singleton]
          exact ih left parent (depth - 1) choices
        | none =>
          cases left with
          | nil => simp [Verdict.outcome]
          | cons b left => rfl

end Recognition

namespace Ruleset

open Recognition

variable {g : Grammar} {mode : EscapeMode} {R : Ruleset} {limit : Option Nat} {input : List UInt8}

theorem matchWithin_eq (built : ofGrammar g mode = .ok R) (steps : Nat) (limit : Option Nat) (input : List UInt8) :
    R.matchWithin steps limit input = (R.descendWithin steps limit input).map Verdict.result := by
  have reported : Match.result ∘ Verdict.outcome [] = Verdict.result := by
    funext v
    cases v <;> rfl
  rw [matchWithin, matchRule_eq built (matchPattern_eq built limit steps), Option.map_map, reported, map_outermost]
  rfl

/-- Recognition is matching on the bytes. What is reported of an input is what a match comes to once its calls may be
nested deep enough; if a match comes to nothing however deep they are, the search has no answer. -/
theorem derivation?_eq_iff_matchWithin (built : ofGrammar g mode = .ok R) {r : Except Fault (Option Derivation)} :
    R.derivation? limit input = r ↔
      (∃ steps, R.matchWithin steps limit input = some r) ∨
        (∀ steps, R.matchWithin steps limit input = none) ∧ r = .error .outOfSteps := by
  simp only [matchWithin_eq built, Option.map_eq_some_iff, Option.map_eq_none_iff]
  constructor
  · intro reported
    subst reported
    rcases derivation?_cases R limit input with ⟨v, ends⟩ | endless
    · obtain ⟨steps, found⟩ := derivation?_eq_result_iff_descends.1 ends
      exact .inl ⟨steps, v, found, ends.symm⟩
    · right
      refine ⟨fun steps => ?_, endless⟩
      cases found : R.descendWithin steps limit input with
      | none => rfl
      | some v =>
        have ends : R.derivation? limit input = v.result := derivation?_eq_result_iff_descends.2 ⟨steps, found⟩
        exact absurd (endless.symm.trans ends) v.result_ne_outOfSteps
  · rintro (⟨steps, v, found, rfl⟩ | ⟨never, rfl⟩)
    · exact derivation?_eq_result_iff_descends.2 ⟨steps, found⟩
    · rcases derivation?_cases R limit input with ⟨v, ends⟩ | endless
      · obtain ⟨steps, found⟩ := derivation?_eq_result_iff_descends.1 ends
        rw [never steps] at found
        cases found
      · exact endless

example : (Ruleset.mk none 83 92 .literal
    [⟨83, [⟨[97, 92, 66, 83], [.literal 97, .literal 66, .call 83]⟩, ⟨[], []⟩]⟩]).matchWithin 4 (some 3) [97, 66] =
      some (.ok (some ⟨[(83, 0), (83, 1)]⟩)) := rfl

end Ruleset

end Descent
