import Descent.Grammar.Draft
import Descent.Proofs.Ruleset.Dispatch
import Descent.Proofs.Ruleset.Escapes
import Descent.Proofs.Ruleset.WellFormed

/-!
# The first fault

A grammar without a ruleset is faulted for its start symbol or, if that is declared, for the first call of an undeclared
symbol: first by the rule, in the order of declaration, then by the alternative, then by the step.
-/
namespace Descent

namespace Grammar

/-- Where a step stands: its rule, in the order of declaration, its alternative and its place in that. -/
structure Place where
  rule : Nat
  alternative : Nat
  step : Nat
  deriving DecidableEq, Repr

/-- The order in which steps are checked. -/
def Place.Before (p q : Place) : Prop :=
  p.rule < q.rule ∨ p.rule = q.rule ∧
    (p.alternative < q.alternative ∨ p.alternative = q.alternative ∧ p.step < q.step)

/-- A call of an undeclared symbol in an alternative of a declared one. -/
structure UndeclaredAt (g : Grammar) (mode : EscapeMode) (p : Place) (callee caller : Symbol) : Prop where
  rule : g.nonTerminals[p.rule]? = some caller
  step : ∃ rhs, (g.alternatives caller)[p.alternative]? = some rhs ∧
    (Step.all g.escape mode rhs)[p.step]? = some (.call callee)
  undeclared : callee ∉ g.nonTerminals

/-- The first of all calls of undeclared symbols, by its caller and the index of the alternative. -/
def FirstUndeclared (g : Grammar) (mode : EscapeMode) (callee caller : Symbol) (i : Nat) : Prop :=
  ∃ p, g.UndeclaredAt mode p callee caller ∧ p.alternative = i ∧
    ∀ q callee' caller', g.UndeclaredAt mode q callee' caller' → q = p ∨ p.Before q

variable {g : Grammar} {mode : EscapeMode} {p q : Place} {callee caller callee' caller' : Symbol} {i j : Nat}

theorem Place.not_before_and_before (h : p.Before q) (h' : q.Before p) : False := by
  unfold Place.Before at h h'
  omega

theorem UndeclaredAt.unique (h : g.UndeclaredAt mode p callee caller) (h' : g.UndeclaredAt mode p callee' caller') :
    callee = callee' ∧ caller = caller' := by
  obtain rfl : caller = caller' := Option.some.inj (h.rule.symm.trans h'.rule)
  obtain ⟨rhs, hrhs, called⟩ := h.step
  obtain ⟨rhs', hrhs', called'⟩ := h'.step
  obtain rfl : rhs = rhs' := Option.some.inj (hrhs.symm.trans hrhs')
  obtain rfl := Step.call.inj (Option.some.inj (called.symm.trans called'))
  exact ⟨rfl, rfl⟩

/-- There is one first call of an undeclared symbol at most. -/
theorem FirstUndeclared.unique (h : g.FirstUndeclared mode callee caller i)
    (h' : g.FirstUndeclared mode callee' caller' j) : callee = callee' ∧ caller = caller' ∧ i = j := by
  obtain ⟨p, here, rfl, least⟩ := h
  obtain ⟨q, there, rfl, least'⟩ := h'
  obtain rfl : p = q := by
    rcases least q _ _ there with same | before
    · exact same.symm
    · rcases least' p _ _ here with same | before'
      · exact same
      · exact absurd before (fun before => Place.not_before_and_before before before')
  obtain ⟨rfl, rfl⟩ := here.unique there
  exact ⟨rfl, rfl, rfl⟩

theorem UndeclaredAt.calls (h : g.UndeclaredAt mode p callee caller) : g.Calls mode callee caller p.alternative := by
  obtain ⟨rhs, hrhs, called⟩ := h.step
  exact ⟨List.mem_of_getElem? h.rule, rhs, hrhs, List.mem_of_getElem? called⟩

theorem FirstUndeclared.not_callsDeclared (h : g.FirstUndeclared mode callee caller i) : ¬g.CallsDeclared mode := by
  obtain ⟨p, here, -, -⟩ := h
  intro known
  exact here.undeclared (callsDeclared_iff.1 known _ _ _ here.calls)

end Grammar

namespace Ruleset

variable {g : Grammar} {mode : EscapeMode} {R : Ruleset} {callee caller : Symbol} {i : Nat}

/-- What is found first in lists one after another is found first in the first of them that has any such. -/
theorem exists_first_of_find?_flatMap {α β : Type} {l : List α} {f : α → List β} {p : β → Bool} {b : β}
    (found : (l.flatMap f).find? p = some b) :
    ∃ (i : Nat) (a : α), l[i]? = some a ∧ (f a).find? p = some b ∧
      ∀ (j : Nat) (a' : α), l[j]? = some a' → (∃ x ∈ f a', p x = true) → i ≤ j := by
  rw [List.find?_flatMap] at found
  obtain ⟨front, a, back, rfl, first, none⟩ := List.findSome?_eq_some_iff.1 found
  refine ⟨front.length, a, by simp, first, ?_⟩
  rintro j a' hj ⟨x, hx, holds⟩
  by_contra early
  rw [Nat.not_le] at early
  rw [List.getElem?_append_left early] at hj
  exact List.find?_eq_none.1 (none a' (List.mem_of_getElem? hj)) x hx holds

/-- What is reported of a step if it calls an undeclared symbol. -/
def callIn (caller : Symbol) (i : Nat) : Step → List (Symbol × Symbol × Nat)
  | .call s => [(s, caller, i)]
  | .literal _ => []

def callsIn (g : Grammar) (mode : EscapeMode) (caller : Symbol) (right : List UInt8 × Nat) :
    List (Symbol × Symbol × Nat) :=
  (Step.all g.escape mode right.1).flatMap (callIn caller right.2)

def callsOf (g : Grammar) (mode : EscapeMode) (caller : Symbol) : List (Symbol × Symbol × Nat) :=
  (g.alternatives caller).zipIdx.flatMap (callsIn g mode caller)

theorem map_callees (caller : Symbol) (i : Nat) (steps : List Step) :
    (callees steps).map (fun s => (s, caller, i)) = steps.flatMap (callIn caller i) := by
  induction steps with
  | nil => rfl
  | cons step rest ih =>
    rw [List.flatMap_cons, ← ih]
    cases step <;> rfl

/-- The calls of a grammar are looked up rule by rule, alternative by alternative and step by step. -/
theorem calls_rulesOf (g : Grammar) (mode : EscapeMode) :
    calls (rulesOf g mode) = g.nonTerminals.flatMap (callsOf g mode) := by
  rw [calls, rulesOf, List.flatMap_map]
  congr 1
  funext s
  simp only [ruleOf, callsOf, List.zipIdx_map, List.flatMap_map, Prod.map_fst, Prod.map_snd, map_callees]
  rfl

theorem mem_callIn {s : Symbol} {k : Nat} {step : Step} (h : (callee, caller, i) ∈ callIn s k step) :
    step = .call callee ∧ caller = s ∧ i = k := by
  cases step with
  | literal b => cases h
  | call t =>
    obtain ⟨rfl, rfl, rfl⟩ : callee = t ∧ caller = s ∧ i = k := by simpa [callIn] using h
    exact ⟨rfl, rfl, rfl⟩

theorem mem_callsIn {rhs : List UInt8} (called : .call callee ∈ Step.all g.escape mode rhs) :
    (callee, caller, i) ∈ callsIn g mode caller (rhs, i) :=
  List.mem_flatMap.2 ⟨.call callee, called, List.mem_singleton.2 rfl⟩

theorem mem_callsOf {rhs : List UInt8} (hrhs : (g.alternatives caller)[i]? = some rhs)
    (called : .call callee ∈ Step.all g.escape mode rhs) : (callee, caller, i) ∈ callsOf g mode caller :=
  List.mem_flatMap.2 ⟨(rhs, i), List.mem_zipIdx_iff_getElem?.2 hrhs, mem_callsIn called⟩

/-- A call that is found first among those checked is the first by its place. -/
theorem firstUndeclared_of_find?
    (found : (calls (rulesOf g mode)).find? (fun c => !g.isDeclared c.1) = some (callee, caller, i)) :
    g.FirstUndeclared mode callee caller i := by
  rw [calls_rulesOf] at found
  obtain ⟨a, s, hs, foundInRule, leastRule⟩ := exists_first_of_find?_flatMap found
  obtain ⟨k, ⟨rhs, k'⟩, hk, foundInRight, leastRight⟩ := exists_first_of_find?_flatMap foundInRule
  obtain ⟨n, step, hn, foundHere, leastStep⟩ := exists_first_of_find?_flatMap foundInRight
  have undeclared : callee ∉ g.nonTerminals := by simpa [Grammar.isDeclared] using List.find?_some foundHere
  obtain ⟨rfl, rfl, rfl⟩ := mem_callIn (List.mem_of_find?_eq_some foundHere)
  obtain ⟨hrhs, rfl⟩ : (g.alternatives caller)[k]? = some rhs ∧ k = i := by
    simpa [List.getElem?_zipIdx] using hk
  refine ⟨⟨a, k, n⟩, ⟨hs, ⟨rhs, hrhs, hn⟩, undeclared⟩, rfl, ?_⟩
  -- any other place comes later at the first of the three levels at which the two differ
  rintro ⟨a', k', n'⟩ callee' caller' ⟨hs', ⟨rhs', hrhs', called'⟩, undeclared'⟩
  have faulty : (!g.isDeclared callee') = true := by simpa [Grammar.isDeclared] using undeclared'
  have mem := List.mem_of_getElem? called'
  have inRule : a ≤ a' := leastRule a' caller' hs' ⟨_, mem_callsOf hrhs' mem, faulty⟩
  rcases Nat.lt_or_eq_of_le inRule with before | rfl
  · exact .inr (.inl before)
  obtain rfl : caller = caller' := Option.some.inj (hs.symm.trans hs')
  have inRight : k ≤ k' :=
    leastRight k' (rhs', k') (by simp [List.getElem?_zipIdx, hrhs']) ⟨_, mem_callsIn mem, faulty⟩
  rcases Nat.lt_or_eq_of_le inRight with before | rfl
  · exact .inr (.inr ⟨rfl, .inl before⟩)
  obtain rfl : rhs = rhs' := Option.some.inj (hrhs.symm.trans hrhs')
  have inStep : n ≤ n' := leastStep n' (.call callee') called' ⟨_, List.mem_singleton.2 rfl, faulty⟩
  rcases Nat.lt_or_eq_of_le inStep with before | rfl
  · exact .inr (.inr ⟨rfl, .inr ⟨rfl, before⟩⟩)
  · exact .inl rfl

theorem find?_calls_eq_none_iff :
    (calls (rulesOf g mode)).find? (fun c => !g.isDeclared c.1) = none ↔ g.CallsDeclared mode := by
  rw [List.find?_eq_none, Grammar.callsDeclared_iff]
  constructor
  · intro known callee caller i called
    simpa [Grammar.isDeclared] using known _ (mem_calls_rulesOf.2 called)
  · rintro known ⟨callee, caller, i⟩ called
    simpa [Grammar.isDeclared] using known callee caller i (mem_calls_rulesOf.1 called)

/-- Where any symbol that is called is undeclared, one of the calls is the first. -/
theorem not_callsDeclared_iff :
    ¬g.CallsDeclared mode ↔ ∃ callee caller i, g.FirstUndeclared mode callee caller i := by
  constructor
  · intro unknown
    cases found : (calls (rulesOf g mode)).find? (fun c => !g.isDeclared c.1) with
    | none => exact absurd (find?_calls_eq_none_iff.1 found) unknown
    | some c => exact ⟨c.1, c.2.1, c.2.2, firstUndeclared_of_find? found⟩
  · rintro ⟨callee, caller, i, first⟩
    exact first.not_callsDeclared

theorem ofGrammar_of_start {start : Symbol} (hstart : g.start = some start) (declared : start ∈ g.nonTerminals) :
    ofGrammar g mode =
      match (calls (rulesOf g mode)).find? (fun c => !g.isDeclared c.1) with
      | some (callee, caller, i) => .error (.undeclaredCall callee caller i)
      | none => .ok ⟨g.name, start, g.escape, mode, rulesOf g mode⟩ := by
  have known : g.isDeclared start = true := by simpa [Grammar.isDeclared] using declared
  rw [ofGrammar, hstart]
  exact if_pos known

theorem ofGrammar_eq_badStart_iff (named : Option Symbol) :
    ofGrammar g mode = .error (.badStart named) ↔ ¬g.StartDeclared ∧ named = g.start := by
  constructor
  · intro faulted
    by_cases started : g.StartDeclared
    · obtain ⟨start, hstart, declared⟩ := started
      rw [ofGrammar_of_start hstart declared] at faulted
      split at faulted
      · cases faulted
      · cases faulted
    · rw [ofGrammar_badStart started] at faulted
      cases faulted
      exact ⟨started, rfl⟩
  · rintro ⟨unstarted, rfl⟩
    exact ofGrammar_badStart unstarted

theorem ofGrammar_eq_undeclaredCall_iff (callee caller : Symbol) (i : Nat) :
    ofGrammar g mode = .error (.undeclaredCall callee caller i) ↔
      g.StartDeclared ∧ g.FirstUndeclared mode callee caller i := by
  constructor
  · intro faulted
    by_cases started : g.StartDeclared
    · refine ⟨started, ?_⟩
      obtain ⟨start, hstart, declared⟩ := started
      rw [ofGrammar_of_start hstart declared] at faulted
      split at faulted
      · rename_i found
        cases faulted
        exact firstUndeclared_of_find? found
      · cases faulted
    · rw [ofGrammar_badStart started] at faulted
      cases faulted
  · rintro ⟨⟨start, hstart, declared⟩, first⟩
    rw [ofGrammar_of_start hstart declared]
    cases found : (calls (rulesOf g mode)).find? (fun c => !g.isDeclared c.1) with
    | none => exact absurd (find?_calls_eq_none_iff.1 found) first.not_callsDeclared
    | some c =>
      obtain ⟨rfl, rfl, rfl⟩ := first.unique (firstUndeclared_of_find? found)
      rfl

section Unread

variable {h : Grammar} {mode' : EscapeMode}

/-- A fault depends on the start symbol, the declarations and the calls, and on nothing else. -/
theorem ofGrammar_error_congr (start : g.start = h.start) (declared : g.nonTerminals = h.nonTerminals)
    (called : calls (rulesOf g mode) = calls (rulesOf h mode')) (fault : Fault) :
    ofGrammar g mode = .error fault ↔ ofGrammar h mode' = .error fault := by
  have same : g.StartDeclared ↔ h.StartDeclared := by
    simp only [Grammar.StartDeclared, start, declared]
  by_cases started : g.StartDeclared
  · obtain ⟨first, hfirst, known⟩ := started
    rw [ofGrammar_of_start hfirst known, ofGrammar_of_start (start ▸ hfirst) (declared ▸ known)]
    simp only [Grammar.isDeclared, declared, called]
    split <;> simp
  · rw [ofGrammar_badStart started, ofGrammar_badStart (fun started' => started (same.2 started')), start]

/-- What an undeclared symbol is replaced by is not looked at. -/
theorem ofGrammar_setAlternatives_of_notMem {s : Symbol} (undeclared : s ∉ g.nonTerminals)
    (rights : List (List UInt8)) : ofGrammar (g.setAlternatives s rights) mode = ofGrammar g mode := by
  have rules : rulesOf (g.setAlternatives s rights) mode = rulesOf g mode := by
    refine List.map_congr_left fun t ht => ?_
    have other : s ≠ t := fun same => undeclared (same ▸ ht)
    simp only [ruleOf, Grammar.alternatives_setAlternatives, if_neg other]
    rfl
  unfold ofGrammar
  rw [rules]
  rfl

/-- Behind an open escape any byte is as good as any other, as far as calls are concerned. -/
theorem callsIn_hidden {u : List UInt8} (opened : Step.opensEscape g.escape false u = true)
    (b c : UInt8) (v : List UInt8) (caller : Symbol) (i : Nat) :
    callsIn g .literal caller (u ++ b :: v, i) = callsIn g .literal caller (u ++ c :: v, i) := by
  simp only [callsIn, Step.all_literal_append_cons opened, List.flatMap_append, List.flatMap_cons, callIn]

theorem calls_hidden {u : List UInt8} (opened : Step.opensEscape g.escape false u = true) (b c : UInt8)
    (v : List UInt8) (s : Symbol) (front back : List (List UInt8)) :
    calls (rulesOf (g.setAlternatives s (front ++ (u ++ b :: v) :: back)) .literal) =
      calls (rulesOf (g.setAlternatives s (front ++ (u ++ c :: v) :: back)) .literal) := by
  rw [calls_rulesOf, calls_rulesOf]
  refine congrArg (List.flatMap · g.nonTerminals) (funext fun t => ?_)
  simp only [callsOf, Grammar.alternatives_setAlternatives]
  split
  · simp only [List.zipIdx_append, List.zipIdx_cons, List.flatMap_append, List.flatMap_cons]
    congr 2
    exact callsIn_hidden opened b c v t _
  · rfl

end Unread

/-- A grammar is faulted exactly if it is not well-formed, and for its first fault: for the start symbol, or else for
the first call of an undeclared symbol. Otherwise there is one rule for each declared symbol, in the order of
declaration, and its symbol's slot leads to it. The alternatives of undeclared symbols have no part in this, and neither
have the bytes behind an open escape where these are literals. -/
theorem ofGrammar_decides (g : Grammar) (mode : EscapeMode) :
    (∀ named, ofGrammar g mode = .error (.badStart named) ↔ ¬g.StartDeclared ∧ named = g.start) ∧
    (g.StartDeclared →
      (∀ callee caller i, ofGrammar g mode = .error (.undeclaredCall callee caller i) ↔
        g.FirstUndeclared mode callee caller i) ∧
      ((∃ callee caller i, ofGrammar g mode = .error (.undeclaredCall callee caller i)) ↔ ¬g.CallsDeclared mode) ∧
      ((∃ R, ofGrammar g mode = .ok R) ↔ g.CallsDeclared mode)) ∧
    (∀ R, ofGrammar g mode = .ok R → g.start = some R.start ∧ R.rules = g.nonTerminals.map (ruleOf g mode) ∧
      ∀ s, R.dispatch s = R.rule? s ∧ R.rule? s = if s ∈ g.nonTerminals then some (ruleOf g mode s) else none) ∧
    (∀ s rights, s ∉ g.nonTerminals → ofGrammar (g.setAlternatives s rights) mode = ofGrammar g mode) ∧
    ∀ s front u v back, Step.opensEscape g.escape false u = true → ∀ b c fault,
      (ofGrammar (g.setAlternatives s (front ++ (u ++ b :: v) :: back)) .literal = .error fault ↔
        ofGrammar (g.setAlternatives s (front ++ (u ++ c :: v) :: back)) .literal = .error fault) := by
  refine ⟨ofGrammar_eq_badStart_iff, ?calls, ?rules, fun s rights undeclared => ?unread, ?hidden⟩
  case calls =>
    intro started
    have first : ∀ callee caller i, ofGrammar g mode = .error (.undeclaredCall callee caller i) ↔
        g.FirstUndeclared mode callee caller i := by
      intro callee caller i
      rw [ofGrammar_eq_undeclaredCall_iff, and_iff_right started]
    refine ⟨first, ?_, ?_⟩
    · simp only [first, not_callsDeclared_iff]
    · rw [exists_ofGrammar_iff, and_iff_right started]
  case rules =>
    intro R built
    exact ⟨start_eq built, rules_eq built, fun s => ⟨dispatch_eq_rule? built s, rule?_eq built s⟩⟩
  case unread => exact ofGrammar_setAlternatives_of_notMem undeclared rights
  case hidden =>
    intro s front u v back opened b c
    exact ofGrammar_error_congr rfl rfl (calls_hidden opened b c v s front back)

/-- `S → a\Zb | bQcZ`, where `Z` is called second or, if it is not escaped, first. -/
def dangling : Grammar := .ofDraft 'S' [.rule 'S' [97, 92, 90, 98], .rule 'S' [98, 81, 99, 90]]

/-- `S → a\ZS | ε`, where `Z` is called only if it is not escaped. -/
def mended : Grammar := .ofDraft 'S' [.rule 'S' [97, 92, 90, 83], .rule 'S' []]

theorem ofGrammar_decides_dangling :
    ofGrammar .empty .literal = .error (.badStart none) ∧
    (dangling.FirstUndeclared .literal 81 83 1 ∧ dangling.FirstUndeclared .skip 90 83 0) ∧
    (∃ R, ofGrammar mended .literal = .ok R ∧ R.dispatch 83 = some (ruleOf mended .literal 83) ∧
      R.dispatch 90 = none) ∧
    ofGrammar (mended.setAlternatives 90 [[81]]) .literal = ofGrammar mended .literal ∧
    ∀ fault, ofGrammar (mended.setAlternatives 83 [[97, 92, 90, 83]]) .literal = .error fault ↔
      ofGrammar (mended.setAlternatives 83 [[97, 92, 98, 83]]) .literal = .error fault := by
  have unset : ¬Grammar.empty.StartDeclared := fun ⟨_, hstart, _⟩ => nomatch hstart
  have danglingStarts : dangling.StartDeclared := ⟨83, rfl, by decide⟩
  have mendedBuilds : ∃ R, ofGrammar mended .literal = .ok R := ⟨⟨none, 83, 92, .literal,
    [⟨83, [⟨[97, 92, 90, 83], [.literal 97, .literal 90, .call 83]⟩, ⟨[], []⟩]⟩]⟩, by decide +kernel⟩
  obtain ⟨R, built⟩ := mendedBuilds
  obtain ⟨-, -, rules, unread, hidden⟩ := ofGrammar_decides mended .literal
  obtain ⟨-, -, found⟩ := rules R built
  refine ⟨((ofGrammar_decides .empty .literal).1 none).2 ⟨unset, rfl⟩, ⟨?_, ?_⟩, ⟨R, built, ?_, ?_⟩,
    unread 90 [[81]] (by decide), hidden 83 [] [97, 92] [83] [] (by decide) 90 98⟩
  · exact (((ofGrammar_decides dangling .literal).2.1 danglingStarts).1 81 83 1).1 (by decide +kernel)
  · exact (((ofGrammar_decides dangling .skip).2.1 danglingStarts).1 90 83 0).1 (by decide +kernel)
  · exact (found 83).1.trans ((found 83).2.trans (if_pos (by decide)))
  · exact (found 90).1.trans ((found 90).2.trans (if_neg (by decide)))

end Ruleset

end Descent
