import Descent.Proofs.Recognition.Exactness
import Descent.Proofs.Recognition.Visited
import Descent.Settings
import Mathlib.Data.List.Perm.Subperm
import Mathlib.Logic.Relation

/-!
# Left recursion

The rules that a match has nested since the last consumed byte form a chain in which each left-calls the
next. Without left recursion such a chain repeats no symbol, so the depth stays within the number of
rules and a search under that limit, or under none, always ends with an answer.
-/
namespace Descent

/-- A symbol with a body in which only calls of nullable symbols stand before a call of another. -/
def LeftCalls (E : Replacements) (s t : Symbol) : Prop :=
  ∃ before rest, before ++ .call t :: rest ∈ E.bodies s ∧
    ∀ step ∈ before, ∃ u, step = .call u ∧ Nullable E u

/-- A symbol that left-calls itself, directly or through others. -/
def LeftRecursive (E : Replacements) (s : Symbol) : Prop := Relation.TransGen (LeftCalls E) s s

namespace Recognition

variable {E : Replacements}

/-- The rules of the enclosing levels, as many as were entered since the last consumed byte: each has
called the next one after a part that yields nothing. -/
inductive Lineage (E : Replacements) : Symbol → Nat → List (List Step) → Prop
  | start {s : Symbol} {parents : List (List Step)} : Lineage E s 0 parents
  | called {s t : Symbol} {n : Nat} {before rest : List Step} {parents : List (List Step)} :
    Lineage E s n parents → before ++ .call t :: rest ∈ E.bodies s → Yields E before [] →
    Lineage E t (n + 1) (rest :: parents)

/-- The depth of a state counts rules that were entered since the last consumed byte. -/
def Nested (E : Replacements) (s : State) : Prop :=
  s.depth = 0 ∨ ∃ owner before n, s.depth = n + 1 ∧
    before ++ s.continuation.pattern ∈ E.bodies owner ∧ Yields E before [] ∧
    Lineage E owner n s.continuation.parents

theorem Nested.lineage {w left : List UInt8} {callee : Symbol} {rest : List Step}
    {parents : List (List Step)} {depth : Nat} {choices : List (Symbol × Nat)}
    (h : Nested E ⟨w ++ left, ⟨w.map .literal ++ .call callee :: rest, parents⟩, depth, choices⟩) :
    Lineage E callee (depthAfter w depth) (rest :: parents) := by
  cases w with
  | cons b w => exact .start
  | nil =>
    rcases h with h | ⟨owner, before, n, hdepth, hbody, hyields, hlineage⟩
    · change depth = 0 at h
      subst h
      exact .start
    · change depth = n + 1 at hdepth
      subst hdepth
      exact .called hlineage hbody hyields

theorem Nested.parent {w left : List UInt8} {parent : List Step} {parents : List (List Step)}
    {depth : Nat} {choices : List (Symbol × Nat)}
    (h : Nested E ⟨w ++ left, ⟨w.map .literal, parent :: parents⟩, depth, choices⟩) :
    Nested E ⟨left, ⟨parent, parents⟩, depthAfter w depth - 1, choices⟩ := by
  cases w with
  | cons b w => exact .inl rfl
  | nil =>
    rcases h with h | ⟨owner, before, n, hdepth, hbody, hyields, hlineage⟩
    · change depth = 0 at h
      subst h
      exact .inl rfl
    · change depth = n + 1 at hdepth
      subst hdepth
      cases hlineage with
      | start => exact .inl rfl
      | @called caller _ n earlier _ _ hcaller hcall hempty =>
        -- the finished rule yields nothing, so the caller has still consumed nothing
        have nullable : Yields E [.call owner] [] := by
          rw [List.map_nil, List.append_nil] at hbody
          exact .of_body hbody hyields
        refine .inr ⟨caller, earlier ++ [.call owner], n, rfl, ?_, hempty.append nullable, hcaller⟩
        simpa using hcall

theorem nested_entered {callee : Symbol} {input : List UInt8} {rest : List Step}
    {parents : List (List Step)} {depth : Nat} {choices : List (Symbol × Nat)} {t : State}
    (hlineage : Lineage E callee depth (rest :: parents))
    (ht : t ∈ enter E callee input ⟨rest, parents⟩ depth choices) : Nested E t := by
  obtain ⟨i, body, hbody, rfl⟩ := mem_enter_iff.1 ht
  exact .inr ⟨callee, [], depth, rfl, List.mem_of_getElem? hbody, .nil, hlineage⟩

/-- Expansion keeps the count of nested rules. -/
theorem Nested.next {s t : State} {next : List State} (hs : Nested E s) (h : s.expand E = .states next)
    (ht : t ∈ next) : Nested E t := by
  cases expands_of_expand_eq h with
  | mismatch => cases ht
  | leftover => cases ht
  | call => exact nested_entered hs.lineage ht
  | finish =>
    obtain rfl := List.mem_singleton.1 ht
    exact hs.parent

theorem Visits.nested {limit : Option Nat} {start : Symbol} {input : List UInt8} {s : State}
    (visited : Visits E limit (opening E start input) s) : Nested E s := by
  apply visited.preserves
  · intro s next nested _ expanded t ht
    exact nested.next expanded ht
  · intro s hs
    exact nested_entered .start hs

/-- Without left recursion the rules of a lineage are distinct. -/
theorem Lineage.callers (free : ∀ s, ¬LeftRecursive E s) {s : Symbol} {n : Nat}
    {parents : List (List Step)} (h : Lineage E s n parents) :
    ∃ callers : List Symbol, callers.length = n ∧ (s :: callers).Nodup ∧
      ∀ t ∈ callers, Relation.TransGen (LeftCalls E) t s ∧ E.bodies t ≠ [] := by
  induction h with
  | start => exact ⟨[], rfl, by simp, by simp⟩
  | @called s t n before rest parents _ hbody hyields ih =>
    obtain ⟨callers, hlength, hnodup, hcallers⟩ := ih
    have calls : LeftCalls E s t := ⟨before, rest, hbody, hyields.nullable_of_nil⟩
    -- a caller that came back as `t` would left-call itself
    have above : ∀ u ∈ s :: callers, Relation.TransGen (LeftCalls E) u t := by
      intro u hu
      rcases List.mem_cons.1 hu with rfl | hu
      · exact .single calls
      · exact (hcallers u hu).1.tail calls
    refine ⟨s :: callers, by rw [List.length_cons, hlength], ?_, ?_⟩
    · exact List.nodup_cons.2 ⟨fun ht => free t (above t ht), hnodup⟩
    · intro u hu
      refine ⟨above u hu, ?_⟩
      rcases List.mem_cons.1 hu with rfl | hu
      · exact List.ne_nil_of_mem hbody
      · exact (hcallers u hu).2

end Recognition

/-- A symbol is not left-recursive where left-calls go down in some order. -/
theorem not_leftRecursive_of_rank {E : Replacements} (rank : Symbol → Nat)
    (down : ∀ s t, LeftCalls E s t → rank t < rank s) (s : Symbol) : ¬LeftRecursive E s := by
  have lower : ∀ t, Relation.TransGen (LeftCalls E) s t → rank t < rank s := by
    intro t h
    induction h with
    | single h => exact down _ _ h
    | tail _ h ih => exact (down _ _ h).trans ih
  intro h
  exact Nat.lt_irrefl _ (lower s h)

/-- `S → aSX | X`, `X → ε | c`: each `a` leaves an `X` behind, and only `X` is left-called. -/
def Grammar.tailed : Grammar :=
  Grammar.ofDraft 'S' [.rule 'S' [97, 83, 88], .rule 'S' [88], .rule 'X' [], .rule 'X' [99]]

/-- The rules of `Grammar.tailed`. -/
def Ruleset.tailed : Ruleset :=
  ⟨none, 83, 92, .literal,
    [⟨83, [⟨[97, 83, 88], [.literal 97, .call 83, .call 88]⟩, ⟨[88], [.call 88]⟩]⟩,
      ⟨88, [⟨[], []⟩, ⟨[99], [.literal 99]⟩]⟩]⟩

namespace Ruleset

open Recognition

variable {g : Grammar} {mode : EscapeMode} {R : Ruleset}

theorem mem_symbols_of_bodies {s : Symbol} (h : R.replacements.bodies s ≠ []) :
    s ∈ R.rules.map (·.symbol) := by
  cases hr : R.rule? s with
  | none => simp [Replacements.bodies, replacements, hr] at h
  | some r =>
    have same : r.symbol = s := by simpa using List.find?_some hr
    exact List.mem_map.2 ⟨r, List.mem_of_find?_eq_some hr, same⟩

/-- Without left recursion the depth never exceeds the number of rules. -/
theorem depth_le_rules (free : ∀ s, ¬LeftRecursive R.replacements s) {s : State}
    (h : Nested R.replacements s) : s.depth ≤ R.rules.length := by
  rcases h with h | ⟨owner, before, n, hdepth, hbody, -, hlineage⟩
  · omega
  · obtain ⟨callers, hlength, hnodup, hcallers⟩ := hlineage.callers free
    have inside : owner :: callers ⊆ R.rules.map (·.symbol) := by
      intro t ht
      rcases List.mem_cons.1 ht with rfl | ht
      · exact mem_symbols_of_bodies (List.ne_nil_of_mem hbody)
      · exact mem_symbols_of_bodies (hcallers t ht).2
    have bound := (hnodup.subperm inside).length_le
    rw [List.length_cons, hlength, List.length_map] at bound
    omega

theorem length_rules_le (built : ofGrammar g mode = .ok R) : R.rules.length ≤ 256 := by
  have inside : g.nonTerminals ⊆ Grammar.symbols := fun s _ => Grammar.mem_symbols s
  have bound := (g.nonTerminals_nodup.subperm inside).length_le
  rw [rules_eq built, rulesOf, List.length_map]
  simpa [Grammar.symbols] using bound

/-- Without left recursion a search ends with an answer, under any limit that is wide enough. -/
theorem exists_answer (free : ∀ s, ¬LeftRecursive R.replacements s) {limit : Option Nat}
    (wide : Wider R.rules.length limit) (input : List UInt8) :
    ∃ r, R.derivation? limit input = .ok r := by
  -- the search under the number of rules always ends; what it ends in holds under the wider limit too
  have ends := ends_explore (E := R.replacements) R.rules.length
    (opening R.replacements R.start input)
  generalize explore R.replacements R.rules.length (opening R.replacements R.start input) = v at ends
  have uncut : ∀ n, v ≠ .tooDeep n := by
    rintro n rfl
    obtain ⟨hlimit, s, visited, hn⟩ := exists_visits_of_ends_tooDeep ends
    obtain rfl := Option.some.inj hlimit
    have bound := depth_le_rules free visited.nested
    omega
  have answer := derivation?_eq_result_iff.2 (ends.of_wider wide uncut)
  cases v with
  | accepts d => exact ⟨some d, answer⟩
  | rejects => exact ⟨none, answer⟩
  | tooDeep n => exact absurd rfl (uncut n)

/-- A grammar without left recursion is never cut off by a limit of at least the number of its rules, so
neither by the limit of the settings: every input gets its answer. -/
theorem recognize_uncut (built : ofGrammar g mode = .ok R)
    (free : ∀ s, ¬LeftRecursive R.replacements s) :
    Wider R.rules.length ({} : Settings).limit ∧
      ∀ limit input, Wider R.rules.length limit →
        (∀ n, R.derivation? limit input ≠ .error (.tooDeep n)) ∧
          ∃ b, R.recognize limit input = .ok b ∧ (b = true ↔ g.Derives mode input) := by
  constructor
  · intro n hn
    obtain rfl : 2000 = n := by simpa [Settings.limit] using hn
    exact (length_rules_le built).trans (by decide)
  · intro limit input wide
    obtain ⟨r, hr⟩ := exists_answer free wide input
    refine ⟨fun n => by simp [hr], r.isSome, recognize_eq_ok_iff.2 ⟨r, hr, rfl⟩, ?_⟩
    exact isSome_iff_derives built hr

theorem tailed_built : ofGrammar .tailed .literal = .ok tailed := by decide +kernel

theorem tailed_free (s : Symbol) : ¬LeftRecursive tailed.replacements s := by
  refine not_leftRecursive_of_rank (fun s => if s = 83 then 1 else 0) ?_ s
  rintro s t ⟨before, rest, hbody, hbefore⟩
  have owner := mem_symbols_of_bodies (List.ne_nil_of_mem hbody)
  simp only [tailed, List.map_cons, List.map_nil, List.mem_cons, List.not_mem_nil, or_false] at owner
  rcases owner with rfl | rfl
  · have bodies : tailed.replacements.bodies 83 =
        [[.literal 97, .call 83, .call 88], [.call 88]] := by decide
    rw [bodies] at hbody
    cases before with
    | nil =>
      obtain ⟨rfl, -⟩ : t = 88 ∧ rest = [] := by simpa using hbody
      decide
    | cons step before =>
      obtain ⟨rfl, -⟩ : step = .literal 97 ∧ before ++ .call t :: rest = [.call 83, .call 88] := by
        simpa using hbody
      obtain ⟨u, literal, -⟩ := hbefore _ List.mem_cons_self
      cases literal
  · have bodies : tailed.replacements.bodies 88 = [[], [.literal 99]] := by decide
    rw [bodies] at hbody
    cases before <;> simp at hbody

theorem recognize_uncut_aac :
    (ofGrammar .tailed .literal = .ok tailed ∧ (∀ s, ¬LeftRecursive tailed.replacements s) ∧
      Wider tailed.rules.length (some 2)) ∧
    (∀ n, tailed.derivation? (some 2) [97, 97, 99] ≠ .error (.tooDeep n)) ∧
      ∃ b, tailed.recognize (some 2) [97, 97, 99] = .ok b ∧
        (b = true ↔ Grammar.tailed.Derives .literal [97, 97, 99]) := by
  have wide : Wider tailed.rules.length (some 2) := by
    intro n hn
    obtain rfl := Option.some.inj hn
    decide
  exact ⟨⟨tailed_built, tailed_free, wide⟩,
    (recognize_uncut tailed_built tailed_free).2 (some 2) [97, 97, 99] wide⟩

end Ruleset

end Descent
