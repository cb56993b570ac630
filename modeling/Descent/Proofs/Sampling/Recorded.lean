import Descent.Proofs.Sampling.Agreement
import Descent.Proofs.Sampling.Unfolding

/-!
# A draw ends as its choices spell

A draw is run with a chooser that behaves like the given one and lists the indices that it returns. These expand the
start symbol leftmost, and the draw ends where that expansion ends.
-/
namespace Descent.Sampling

variable {σ α β : Type}

/-- The same choices, with a list of the indices returned so far. -/
def Chooser.recorded (pick : Chooser σ) : Chooser (σ × List Nat) := fun n (state, made) =>
  let (picked, next) := pick n state
  (picked, next, made ++ picked.toList)

/-- The indices that the choices of a draw return, in their order. -/
def indicesMade (R : Ruleset) (pick : Chooser σ) (limit : Nat) (state : σ) : List Nat :=
  (sentence R pick.recorded limit (state, [])).2.2

section Record

/-- One draw does as another does, and lists choices besides. -/
def Erases (recording : Draw (σ × List Nat) α) (plain : Draw σ α) : Prop :=
  ∀ state made, ((recording (state, made)).1, (recording (state, made)).2.1) = plain state

variable {E : Replacements} {pick : Chooser σ}

theorem Erases.andThen {first : Draw (σ × List Nat) α} {first' : Draw σ α} {second : α → Draw (σ × List Nat) β}
    {second' : α → Draw σ β} (h : Erases first first') (hs : ∀ a, Erases (second a) (second' a)) :
    Erases (first.andThen second) (first'.andThen second') := by
  intro state made
  have same := h state made
  unfold Draw.andThen
  cases outcome : first (state, made) with
  | mk result next =>
    rw [outcome] at same
    rw [← same]
    cases result with
    | ok a => exact hs a next.1 next.2
    | error fault => rfl

theorem erases_choose (s : Symbol) : Erases (choose E pick.recorded s) (choose E pick s) := by
  intro state made
  unfold choose
  cases rule : E s with
  | none => rfl
  | some bodies =>
    cases bodies with
    | nil => rfl
    | cons first others =>
      simp only [Chooser.recorded]
      cases pick (first :: others).length state with
      | mk picked next =>
        cases picked with
        | none => rfl
        | some i =>
          dsimp only
          cases (first :: others)[i]? with
          | none => rfl
          | some body => rfl

theorem erases_emitSteps {call : Symbol → List UInt8 → Draw (σ × List Nat) (List UInt8)}
    {call' : Symbol → List UInt8 → Draw σ (List UInt8)} (h : ∀ s out, Erases (call s out) (call' s out))
    (steps : List Step) (out : List UInt8) : Erases (emitSteps call steps out) (emitSteps call' steps out) := by
  induction steps generalizing out with
  | nil => exact fun _ _ => rfl
  | cons step rest ih =>
    cases step with
    | literal b => exact ih (b :: out)
    | call s => exact (h s out).andThen ih

theorem erases_expand (limit levels : Nat) (s : Symbol) (out : List UInt8) :
    Erases (expand E pick.recorded limit levels s out) (expand E pick limit levels s out) := by
  induction levels generalizing s out with
  | zero => exact fun _ _ => rfl
  | succ levels ih => exact (erases_choose s).andThen fun body => erases_emitSteps ih body out

theorem sentence_eq (R : Ruleset) (pick : Chooser σ) (limit : Nat) (state : σ) :
    sentence R pick limit state =
      ((expand R.replacements pick limit limit R.start [] state).1.map List.reverse,
        (expand R.replacements pick limit limit R.start [] state).2) := by
  unfold sentence
  cases expand R.replacements pick limit limit R.start [] state with
  | mk outcome next => cases outcome <;> rfl

/-- A draw whose choices are listed is the draw itself. -/
theorem erases_sentence (R : Ruleset) (pick : Chooser σ) (limit : Nat) :
    Erases (sentence R pick.recorded limit) (sentence R pick limit) := by
  intro state made
  rw [sentence_eq, sentence_eq, ← erases_expand limit limit R.start [] state made]

end Record

section Run

variable {E : Replacements} {pick : Chooser σ} {limit k : Nat} {s : Symbol} {form rest : Form} {out : List UInt8}
  {made : List Nat} {state : σ} {next : σ × List Nat} {fault : Fault}

theorem of_recorded {n : Nat} {picked : Option Nat} (h : pick.recorded n (state, made) = (picked, next)) :
    pick n state = (picked, next.1) ∧ next.2 = made ++ picked.toList := by
  cases h
  exact ⟨rfl, rfl⟩

/-- A body is chosen by its index, which is listed. -/
theorem choose_recorded_ok {body : List Step} (h : choose E pick.recorded s (state, made) = (.ok body, next)) :
    ∃ i, (E.bodies s)[i]? = some body ∧ next.2 = made ++ [i] := by
  obtain ⟨i, picked, hbody⟩ := choose_eq_ok_iff.1 h
  exact ⟨i, hbody, (of_recorded picked).2⟩

/-- Where no body is chosen the call is blocked. -/
theorem choose_recorded_error (low : k ≤ limit)
    (h : choose E pick.recorded s (state, made) = (.error fault, next)) :
    ∃ odd, Blocked E pick limit [(k, .call s)] odd fault ∧ next.2 = made ++ odd := by
  cases rule : E s with
  | none =>
    simp only [choose, rule, Draw.fail] at h
    cases h
    exact ⟨[], .noRule low rule, (List.append_nil made).symm⟩
  | some bodies =>
    cases bodies with
    | nil =>
      simp only [choose, rule, Draw.fail] at h
      cases h
      exact ⟨[], .noAlternatives low rule, (List.append_nil made).symm⟩
    | cons first others =>
      have known : E.bodies s = first :: others := by rw [Replacements.bodies, rule, Option.getD_some]
      have offered : E.bodies s ≠ [] := known ▸ List.cons_ne_nil first others
      simp only [choose, rule, ← known] at h
      split at h
      · rename_i mid picked
        cases h
        obtain ⟨picked, listed⟩ := of_recorded picked
        refine ⟨[], .unpicked low offered picked ?_, listed⟩
        intro i same
        cases same
      · rename_i i mid picked
        split at h
        · cases h
        · rename_i out
          cases h
          obtain ⟨picked, listed⟩ := of_recorded picked
          refine ⟨[i], .unpicked low offered picked ?_, listed⟩
          intro j same
          exact Option.some.inj same ▸ out

/-- What a recorded draw returns behind some output, and lists behind some indices, is how a form ends. -/
def Runs (E : Replacements) (pick : Chooser σ) (limit : Nat) (form : Form) (out : List UInt8) (made : List Nat)
    (result : Except Fault (List UInt8) × (σ × List Nat)) : Prop :=
  ∃ more outcome, Halts E pick limit form more outcome ∧ result.1 = outcome.map (fun w => w.reverse ++ out) ∧
    result.2.2 = made ++ more

/-- A form runs as the form does that it unfolds to, behind what it emits on the way. -/
theorem Runs.after {mid : Form} {more : List Nat} {w : List UInt8}
    {result : Except Fault (List UInt8) × (σ × List Nat)} (first : Unfolds E limit form more w mid)
    (h : Runs E pick limit mid (w.reverse ++ out) (made ++ more) result) : Runs E pick limit form out made result := by
  obtain ⟨others, outcome, halts, same, listed⟩ := h
  refine ⟨more ++ others, outcome.map (w ++ ·), .after first halts, same.trans ?_, ?_⟩
  · cases outcome <;> simp [Except.map]
  · exact listed.trans (List.append_assoc made more others)

theorem Runs.literal {b : UInt8} {result : Except Fault (List UInt8) × (σ × List Nat)}
    (h : Runs E pick limit rest (b :: out) made result) : Runs E pick limit ((k, .literal b) :: rest) out made result := by
  have behind : Runs E pick limit rest ([b].reverse ++ out) (made ++ []) result := by rwa [List.append_nil]
  exact behind.after (.literal .done)

theorem Runs.andThen {first : Draw (σ × List Nat) (List UInt8)} {second : List UInt8 → Draw (σ × List Nat) (List UInt8)}
    (h : Runs E pick limit form out made (first (state, made)))
    (hs : ∀ out state made, Runs E pick limit rest out made (second out (state, made))) :
    Runs E pick limit (form ++ rest) out made (first.andThen second (state, made)) := by
  obtain ⟨more, outcome, halts, same, listed⟩ := h
  unfold Draw.andThen
  cases found : first (state, made) with
  | mk result next =>
    obtain ⟨mid, made'⟩ := next
    rw [found] at same listed
    dsimp only at same listed
    subst same listed
    cases outcome with
    | error fault => exact ⟨more, .error fault, halts.frame rest, rfl, rfl⟩
    | ok w =>
      cases halts with
      | ok unfolded => exact (hs (w.reverse ++ out) mid (made ++ more)).after (unfolded.frame rest)

/-- The steps of a body run as its form ends, if the calls among them do. -/
theorem runs_emitSteps {call : Symbol → List UInt8 → Draw (σ × List Nat) (List UInt8)}
    (calls : ∀ s out state made, Runs E pick limit [(k, .call s)] out made (call s out (state, made)))
    (steps : List Step) (out : List UInt8) (state : σ) (made : List Nat) :
    Runs E pick limit (steps.map (k, ·)) out made (emitSteps call steps out (state, made)) := by
  induction steps generalizing out state made with
  | nil => exact ⟨[], .ok [], .ok .done, rfl, (List.append_nil made).symm⟩
  | cons step rest ih =>
    cases step with
    | literal b => exact (ih (b :: out) state made).literal
    | call s => exact Runs.andThen (calls s out state made) ih

/-- A call runs as its form ends, at the level that is given by the levels left. -/
theorem runs_expand {levels : Nat} (level : k + levels = limit + 1) (s : Symbol) (out : List UInt8) (state : σ)
    (made : List Nat) :
    Runs E pick limit [(k, .call s)] out made (expand E pick.recorded limit levels s out (state, made)) := by
  -- on the levels left: a body has one less than its call and stands one level below it, so their sum stays
  induction levels generalizing k s out state made with
  | zero =>
    obtain rfl : k = limit + 1 := level
    exact ⟨[], .error (.tooDeep limit), .error .done .tooDeep, rfl, (List.append_nil made).symm⟩
  | succ levels ih =>
    have low : k ≤ limit := by omega
    rw [expand, Draw.andThen]
    cases chosen : choose E pick.recorded s (state, made) with
    | mk outcome next =>
      cases outcome with
      | error fault =>
        obtain ⟨odd, blocked, listed⟩ := choose_recorded_error low chosen
        exact ⟨odd, .error fault, .error .done blocked, rfl, listed⟩
      | ok body =>
        obtain ⟨i, hbody, listed⟩ := choose_recorded_ok chosen
        obtain ⟨mid, made'⟩ := next
        obtain rfl : made' = made ++ [i] := listed
        have below := runs_emitSteps (ih (by omega : k + 1 + levels = limit + 1)) body out mid (made ++ [i])
        have entered : Unfolds E limit [(k, .call s)] [i] [] (body.map (k + 1, ·)) := by
          refine .call low hbody ?_
          rw [List.append_nil]
          exact .done
        exact below.after entered

/-- A draw ends as the start symbol does, at the first level, with the indices made. -/
theorem halts_sentence (R : Ruleset) (pick : Chooser σ) (limit : Nat) (state : σ) :
    Halts R.replacements pick limit [(1, .call R.start)] (indicesMade R pick limit state)
      (sentence R pick limit state).1 := by
  have run : Runs R.replacements pick limit [(1, .call R.start)] [] []
      (expand R.replacements pick.recorded limit limit R.start [] (state, [])) :=
    runs_expand (Nat.add_comm 1 limit) R.start [] state []
  obtain ⟨more, outcome, halts, same, listed⟩ := run
  have made : indicesMade R pick limit state = more := by
    rw [indicesMade, sentence_eq]
    exact listed
  have returned : (sentence R pick limit state).1 = outcome := by
    rw [← erases_sentence R pick limit state [], sentence_eq]
    dsimp only
    rw [same]
    cases outcome <;> simp [Except.map]
  rw [made, returned]
  exact halts

end Run

/-- Choices among the bodies of their symbols are returned one after another from some state. -/
theorem exists_supplies {E : Replacements} {pick : Chooser σ}
    (each : ∀ s, pick.ReturnsEach (E.bodies s).length) {choices : List (Symbol × Nat)}
    (valid : ∀ c ∈ choices, c.2 < (E.bodies c.1).length) (last : σ) : ∃ state, Supplies E pick choices state last := by
  induction choices with
  | nil => exact ⟨last, .nil⟩
  | cons c choices ih =>
    obtain ⟨next, supplied⟩ := ih fun d hd => valid d (List.mem_cons_of_mem _ hd)
    obtain ⟨state, picked⟩ := each c.1 c.2 (valid c List.mem_cons_self) next
    exact ⟨state, .cons picked supplied⟩

/-- What can be drawn, if each alternative can be picked, is what the low derivation trees yield. -/
theorem exists_sentence_iff [Nonempty σ] {R : Ruleset} {pick : Chooser σ} {limit : Nat}
    (each : ∀ s, pick.ReturnsEach (R.replacements.bodies s).length) (w : List UInt8) :
    (∃ state, (sentence R pick limit state).1 = .ok w) ↔
      ∃ t, Grows R.replacements [.call R.start] t ∧ t.height ≤ limit ∧ t.yield = w := by
  constructor
  · rintro ⟨state, drawn⟩
    have whole : sentence R pick limit state = (.ok w, (sentence R pick limit state).2) := by rw [← drawn]
    obtain ⟨t, ⟨grown, low, -⟩, yield⟩ := sentence_eq_ok_iff.1 whole
    exact ⟨t, grown, low, yield⟩
  · rintro ⟨t, grown, low, yield⟩
    obtain ⟨last⟩ := ‹Nonempty σ›
    obtain ⟨state, supplied⟩ := exists_supplies each grown.lt_of_mem_choices last
    exact ⟨state, by rw [sentence_eq_ok_iff.2 ⟨t, ⟨grown, low, supplied⟩, yield⟩]⟩

/-- A draw is the leftmost expansion that its choices spell, from the start symbol at the first level on. It returns a
sentence exactly if the expansion completes with it, runs out of levels exactly if the expansion comes to a call one
level below the limit, and finds the ruleset wanting exactly if it comes to a symbol without alternatives at a level
that it may have. There is no other outcome if an index below the number of alternatives is always returned; and if
each one can be returned, then the sentences that can be drawn are those of the derivation trees that fit in the levels. -/
theorem sentence_ends_as_spelled [Nonempty σ] (R : Ruleset) (pick : Chooser σ) (limit : Nat) :
    (∀ state,
      let outcome := (sentence R pick limit state).1
      let made := indicesMade R pick limit state
      let recorded := sentence R pick.recorded limit (state, [])
      (recorded.1, recorded.2.1) = sentence R pick limit state ∧
      (∀ w, outcome = .ok w ↔ Unfolds R.replacements limit [(1, .call R.start)] made w []) ∧
      (∀ n, outcome = .error (.tooDeep n) ↔ n = limit ∧ ∃ w s rest,
        Unfolds R.replacements limit [(1, .call R.start)] made w ((limit + 1, .call s) :: rest)) ∧
      (∀ s, outcome = .error (.noRule s) ∨ outcome = .error (.noAlternatives s) ↔ ∃ w k rest,
        k ≤ limit ∧ R.replacements.bodies s = [] ∧
          Unfolds R.replacements limit [(1, .call R.start)] made w ((k, .call s) :: rest)) ∧
      ((∀ s, R.replacements.bodies s ≠ [] → pick.Returns (R.replacements.bodies s).length) →
        (∃ w, outcome = .ok w) ∨ outcome = .error (.tooDeep limit) ∨
          ∃ s, outcome = .error (.noRule s) ∨ outcome = .error (.noAlternatives s))) ∧
    ((∀ s, pick.ReturnsEach (R.replacements.bodies s).length) →
      ∀ w, (∃ state, (sentence R pick limit state).1 = .ok w) ↔
        ∃ t, Grows R.replacements [.call R.start] t ∧ t.height ≤ limit ∧ t.yield = w) := by
  constructor
  · intro state outcome made recorded
    have halts : Halts R.replacements pick limit [(1, .call R.start)] made outcome := halts_sentence R pick limit state
    exact ⟨erases_sentence R pick limit state [], halts.eq_ok_iff, halts.eq_tooDeep_iff, halts.eq_barren_iff, halts.cases⟩
  · exact exists_sentence_iff

section Scripted

/-- A list of words, and zeros behind it. -/
def scripted : Source (List UInt32) where
  next
    | word :: left => (word, left)
    | [] => (0, [])
  patience left := left.length + 1

variable {n : Nat}

theorem lt_of_index? {i : Nat} {word : UInt32} (positive : 0 < n) (h : index? n word = some i) : i < n := by
  unfold index? at h
  split at h
  · cases h
    exact Nat.div_lt_of_lt_mul (Nat.mul_lt_mul_of_pos_right word.toNat_lt positive)
  · cases h

/-- A zero can always be used, so some word of a script can. -/
theorem returns_scripted (positive : 0 < n) : Chooser.Returns scripted.pick n := by
  intro words
  have zero : index? n 0 = some 0 := by simp [index?]
  unfold Source.pick scripted
  induction words with
  | nil => exact ⟨0, [], positive, by simp [pickWithin, zero]⟩
  | cons word left ih =>
    simp only [List.length_cons, pickWithin]
    cases usable : index? n word with
    | some i => exact ⟨i, left, lt_of_index? positive usable, rfl⟩
    | none => exact ih

theorem returnsEach_scripted (small : n < UInt32.size) : Chooser.ReturnsEach scripted.pick n := by
  intro i below left
  exact ⟨wordFor n i :: left, pick_of_index? (Nat.succ_pos _) rfl (index?_wordFor below small)⟩

/-- `S → aS | b | X`, where `X` has no alternatives. -/
def thorny : Ruleset :=
  ⟨none, 83, 92, .literal,
    [⟨83, [⟨[97, 83], [.literal 97, .call 83]⟩, ⟨[98], [.literal 98]⟩, ⟨[88], [.call 88]⟩]⟩, ⟨88, []⟩]⟩

theorem sentence_ends_as_spelled_thorny :
    (∀ s, thorny.replacements.bodies s ≠ [] → Chooser.Returns scripted.pick (thorny.replacements.bodies s).length) ∧
    (∀ s, Chooser.ReturnsEach scripted.pick (thorny.replacements.bodies s).length) ∧
    Unfolds thorny.replacements 2 [(1, .call 83)] [0, 1] [97, 98] [] ∧
    (∃ w s rest, Unfolds thorny.replacements 2 [(1, .call 83)] [0, 0] w ((3, .call s) :: rest)) ∧
    (∃ w k rest, k ≤ 2 ∧ Unfolds thorny.replacements 2 [(1, .call 83)] [2] w ((k, .call 88) :: rest)) ∧
    (∀ words, (sentence thorny scripted.pick 2 words).1 ≠ .error .noUsableWord) ∧
    ∃ t, Grows thorny.replacements [.call 83] t ∧ t.height ≤ 2 ∧ t.yield = [97, 98] := by
  have returns : ∀ s, thorny.replacements.bodies s ≠ [] →
      Chooser.Returns scripted.pick (thorny.replacements.bodies s).length :=
    fun s offered => returns_scripted (List.length_pos_iff.2 offered)
  have each : ∀ s, Chooser.ReturnsEach scripted.pick (thorny.replacements.bodies s).length :=
    fun s => returnsEach_scripted (Ruleset.length_bodies_lt (by decide) (by decide) s)
  obtain ⟨runs, possible⟩ := sentence_ends_as_spelled thorny scripted.pick 2
  have ended : indicesMade thorny scripted.pick 2 [wordFor 3 0, wordFor 3 1] = [0, 1] := by decide +kernel
  have deep : indicesMade thorny scripted.pick 2 [wordFor 3 0, wordFor 3 0] = [0, 0] := by decide +kernel
  have barren : indicesMade thorny scripted.pick 2 [wordFor 3 2] = [2] := by decide +kernel
  have drawn : (sentence thorny scripted.pick 2 [wordFor 3 0, wordFor 3 1]).1 = .ok [97, 98] := by decide +kernel
  refine ⟨returns, each, ?_, ?_, ?_, fun words unusable => ?_, (possible each [97, 98]).1 ⟨_, drawn⟩⟩
  · exact ended ▸ ((runs [wordFor 3 0, wordFor 3 1]).2.1 [97, 98]).1 drawn
  · exact deep ▸ (((runs [wordFor 3 0, wordFor 3 0]).2.2.1 2).1 (by decide +kernel)).2
  · obtain ⟨w, k, rest, low, -, unfolded⟩ := ((runs [wordFor 3 2]).2.2.2.1 88).1 (.inr (by decide +kernel))
    exact ⟨w, k, rest, low, barren ▸ unfolded⟩
  · rcases (runs words).2.2.2.2 returns with ⟨w, same⟩ | same | ⟨s, same | same⟩ <;>
      simp [unusable] at same

end Scripted

end Descent.Sampling