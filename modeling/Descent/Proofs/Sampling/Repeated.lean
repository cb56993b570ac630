import Descent.Proofs.Sampling.Recorded
import Descent.Sampling.Cycle

/-!
# Draws made again and again

Several sentences are drawn by one draw after another from the same source. The draws stop as soon as enough of them
have succeeded, or too many in a row have nested too deep, or one has failed for another reason; and what has been drawn
until then says what is returned. If there is no room for so many sentences, none is drawn.
-/
namespace Descent.Sampling

variable {σ α : Type}

namespace Draw

/-- The state behind so many draws, made one after another. -/
def stateAfter (draw : Draw σ α) (state : σ) : Nat → σ
  | 0 => state
  | n + 1 => (draw (draw.stateAfter state n)).2

/-- What so many draws return, made one after another. -/
def outcomes (draw : Draw σ α) (state : σ) (n : Nat) : List (Except Fault α) :=
  (List.range n).map fun i => (draw (draw.stateAfter state i)).1

theorem outcomes_succ (draw : Draw σ α) (state : σ) (n : Nat) :
    draw.outcomes state (n + 1) = draw.outcomes state n ++ [(draw (draw.stateAfter state n)).1] := by
  rw [outcomes, List.range_succ, List.map_append]
  rfl

/-- One more draw adds what it returns and leaves its state. -/
theorem outcomes_of_eq {draw : Draw σ α} {state now next : σ} {n : Nat} {result : Except Fault α}
    (here : now = draw.stateAfter state n) (made : draw now = (result, next)) :
    draw.outcomes state (n + 1) = draw.outcomes state n ++ [result] ∧ next = draw.stateAfter state (n + 1) := by
  subst here
  rw [outcomes_succ, stateAfter, made]
  exact ⟨rfl, rfl⟩

theorem length_outcomes (draw : Draw σ α) (state : σ) (n : Nat) : (draw.outcomes state n).length = n := by
  rw [outcomes, List.length_map, List.length_range]

end Draw

section Stopping

variable {ds : List (Except Fault α)} {outcome : Except Fault (List α)} {limit count patience more left n : Nat}
  {a : α} {fault : Fault}

def isTooDeep : Except Fault α → Bool
  | .error (.tooDeep _) => true
  | _ => false

/-- What the draws that succeeded have returned, in their order. -/
def successes (ds : List (Except Fault α)) : List α := ds.filterMap Except.toOption

/-- How many of the last draws, without one between them that did not, have nested too deep. -/
def failing (ds : List (Except Fault α)) : Nat := (ds.reverse.takeWhile isTooDeep).length

@[simp]
theorem successes_concat_ok (ds : List (Except Fault α)) (a : α) : successes (ds ++ [.ok a]) = successes ds ++ [a] :=
  List.filterMap_append

@[simp]
theorem successes_concat_error (ds : List (Except Fault α)) (fault : Fault) :
    successes (ds ++ [.error fault]) = successes ds := by
  rw [successes, List.filterMap_append]
  exact List.append_nil _

@[simp]
theorem failing_concat_ok (ds : List (Except Fault α)) (a : α) : failing (ds ++ [.ok a]) = 0 := by
  rw [failing, List.reverse_append]
  rfl

@[simp]
theorem failing_concat_tooDeep (ds : List (Except Fault α)) (n : Nat) :
    failing (ds ++ [.error (.tooDeep n)]) = failing ds + 1 := by
  rw [failing, List.reverse_append]
  rfl

theorem failing_concat_error (ds : List (Except Fault α)) (other : ∀ n, fault ≠ .tooDeep n) :
    failing (ds ++ [.error fault]) = 0 := by
  have sound : isTooDeep (.error fault : Except Fault α) = false := by
    unfold isTooDeep
    split
    · rename_i n same
      cases same
      exact absurd rfl (other n)
    · rfl
  rw [failing, List.reverse_append, List.reverse_singleton, List.singleton_append,
    List.takeWhile_cons_of_neg (Bool.eq_false_iff.1 sound)]
  rfl

/-- Draws behind which no more are made, and what is returned then: the sentences once there are enough, or the fault of
the last draw, which is either one of another kind or the last one of as many in a row as are put up with. -/
inductive Stops (limit count patience : Nat) : List (Except Fault α) → Except Fault (List α) → Prop
  | enough {ds : List (Except Fault α)} : (successes ds).length = count →
    Stops limit count patience ds (.ok (successes ds))
  | tooDeep {ds : List (Except Fault α)} : patience ≤ failing ds →
    Stops limit count patience ds (.error (.tooDeep limit))
  | failed {ds : List (Except Fault α)} {fault : Fault} : (∀ n, fault ≠ .tooDeep n) →
    Stops limit count patience (ds ++ [.error fault]) (.error fault)

/-- Draws behind which so many more successes are wanted, and so many more draws may nest too deep before one succeeds;
the one that is always made counts as one of them. -/
structure Pending (count patience more left : Nat) (ds : List (Except Fault α)) : Prop where
  wanted : (successes ds).length + more = count
  allowed : failing ds + max left 1 = patience
  settled : more = 0 → failing ds = 0
  cost : ds.length ≤ (successes ds).length * patience + failing ds
  retried : ∀ fault, ds.getLast? = some (.error fault) → ∃ n, fault = .tooDeep n

theorem pending_nil (attempts count : Nat) :
    Pending count (max attempts 1) count attempts ([] : List (Except Fault α)) where
  wanted := Nat.zero_add count
  allowed := Nat.zero_add _
  settled := fun _ => rfl
  cost := Nat.zero_le _
  retried := by
    intro fault last
    cases last

/-- Each success takes at most as many draws as are put up with. -/
theorem Pending.succeed {attempts : Nat} (h : Pending count (max attempts 1) (more + 1) left ds) (a : α) :
    Pending count (max attempts 1) more attempts (ds ++ [.ok a]) := by
  have wanted := h.wanted
  have allowed := h.allowed
  have cost := h.cost
  constructor
  · rw [successes_concat_ok, List.length_append, List.length_singleton]
    omega
  · rw [failing_concat_ok, Nat.zero_add]
  · intro _
    exact failing_concat_ok ds a
  · rw [successes_concat_ok, failing_concat_ok, List.length_append, List.length_append, List.length_singleton,
      List.length_singleton, Nat.succ_mul]
    omega
  · intro fault last
    rw [List.getLast?_concat] at last
    cases last

theorem Pending.retry (h : Pending count patience (more + 1) left ds) (again : 1 < left) (n : Nat) :
    Pending count patience (more + 1) (left - 1) (ds ++ [.error (.tooDeep n)]) := by
  have allowed := h.allowed
  have cost := h.cost
  constructor
  · rw [successes_concat_error]
    exact h.wanted
  · rw [failing_concat_tooDeep]
    omega
  · intro none
    cases none
  · rw [successes_concat_error, failing_concat_tooDeep, List.length_append, List.length_singleton]
    omega
  · intro fault last
    rw [List.getLast?_concat] at last
    cases last
    exact ⟨n, rfl⟩

theorem Pending.not_stops (h : Pending count patience (more + 1) left ds) : ¬Stops limit count patience ds outcome := by
  have wanted := h.wanted
  have allowed := h.allowed
  intro stops
  cases stops with
  | enough reached => omega
  | tooDeep exhausted => omega
  | failed other =>
    obtain ⟨n, same⟩ := h.retried _ List.getLast?_concat
    exact other n same

theorem Pending.stops_enough (h : Pending count patience 0 left ds) :
    Stops limit count patience ds outcome ↔ outcome = .ok (successes ds) := by
  have wanted := h.wanted
  have allowed := h.allowed
  constructor
  · intro stops
    cases stops with
    | enough _ => rfl
    | tooDeep exhausted =>
      have none := h.settled rfl
      omega
    | failed other =>
      obtain ⟨n, same⟩ := h.retried _ List.getLast?_concat
      exact absurd same (other n)
  · rintro rfl
    exact .enough wanted

theorem Pending.stops_tooDeep (h : Pending count patience (more + 1) left ds) (last : ¬1 < left) :
    Stops limit count patience (ds ++ [.error (.tooDeep n)]) outcome ↔ outcome = .error (.tooDeep limit) := by
  have wanted := h.wanted
  have allowed := h.allowed
  constructor
  · intro stops
    generalize whole : ds ++ [.error (.tooDeep n)] = es at stops
    cases stops with
    | enough reached =>
      rw [← whole, successes_concat_error] at reached
      omega
    | tooDeep _ => rfl
    | failed other =>
      obtain ⟨-, same⟩ := List.append_inj' whole rfl
      cases same
      exact absurd rfl (other n)
  · rintro rfl
    apply Stops.tooDeep
    rw [failing_concat_tooDeep]
    omega

theorem Pending.stops_failed (h : Pending count patience (more + 1) left ds) (other : ∀ n, fault ≠ .tooDeep n) :
    Stops limit count patience (ds ++ [.error fault]) outcome ↔ outcome = .error fault := by
  have wanted := h.wanted
  have allowed := h.allowed
  constructor
  · intro stops
    generalize whole : ds ++ [.error fault] = es at stops
    cases stops with
    | enough reached =>
      rw [← whole, successes_concat_error] at reached
      omega
    | tooDeep exhausted =>
      rw [← whole, failing_concat_error ds other] at exhausted
      omega
    | failed _ =>
      obtain ⟨-, same⟩ := List.append_inj' whole rfl
      cases same
      rfl
  · rintro rfl
    exact .failed other

theorem Pending.length_le (h : Pending count patience 0 left ds) : ds.length ≤ count * patience := by
  have wanted : (successes ds).length = count := h.wanted
  have settled := h.settled rfl
  have cost := h.cost
  rwa [wanted, settled] at cost

/-- The next draw is the last: it and those before it are no more than what the successes wanted may take. -/
theorem Pending.length_lt (h : Pending count patience (more + 1) left ds) : ds.length < count * patience := by
  have wanted := h.wanted
  have allowed := h.allowed
  have cost := h.cost
  have room : ((successes ds).length + 1) * patience ≤ count * patience := Nat.mul_le_mul_right _ (by omega)
  rw [Nat.succ_mul] at room
  omega

end Stopping

section Repeating

variable {R : Ruleset} {pick : Chooser σ} {limit attempts count more left j : Nat} {state : σ}

theorem eq_limit_of_tooDeep {n : Nat} (h : (sentence R pick limit state).1 = .error (.tooDeep n)) : n = limit :=
  (((halts_sentence R pick limit state).eq_tooDeep_iff n).1 h).1

/-- From the draws that were made so far, the first ones behind which no more are made: how many they are, and that the
repetition makes just these and returns what they say. -/
structure Halt (R : Ruleset) (pick : Chooser σ) (limit count patience : Nat) (state : σ) (j k : Nat)
    (result : Except Fault (List (List UInt8)) × σ) : Prop where
  state_eq : result.2 = (sentence R pick limit).stateAfter state k
  stops_iff : ∀ other, Stops limit count patience ((sentence R pick limit).outcomes state k) other ↔ other = result.1
  first : ∀ i, j ≤ i → i < k → ∀ other, ¬Stops limit count patience ((sentence R pick limit).outcomes state i) other
  le : k ≤ count * patience

/-- Draws that do not stop here stop where they do from the next one on. -/
theorem Halt.earlier {k patience : Nat} {result : Except Fault (List (List UInt8)) × σ}
    (h : Halt R pick limit count patience state (j + 1) k result)
    (here : ∀ other, ¬Stops limit count patience ((sentence R pick limit).outcomes state j) other) :
    Halt R pick limit count patience state j k result where
  state_eq := h.state_eq
  stops_iff := h.stops_iff
  first := by
    intro i low high
    rcases Nat.eq_or_lt_of_le low with same | later
    · exact same ▸ here
    · exact h.first i later high
  le := h.le

/-- Draws that wait for more stop with the one that is made next. -/
theorem Pending.halt {patience : Nat} {result : Except Fault (List (List UInt8)) × σ}
    (h : Pending count patience (more + 1) left ((sentence R pick limit).outcomes state j))
    (state_eq : result.2 = (sentence R pick limit).stateAfter state (j + 1))
    (stops_iff : ∀ other,
      Stops limit count patience ((sentence R pick limit).outcomes state (j + 1)) other ↔ other = result.1) :
    Halt R pick limit count patience state j (j + 1) result where
  state_eq := state_eq
  stops_iff := stops_iff
  first := by
    intro i low high
    obtain rfl : i = j := by omega
    exact fun _ => h.not_stops
  le := by
    have room := h.length_lt
    rwa [Draw.length_outcomes] at room

/-- From draws that wait for more, those that follow lead to the first ones that stop. -/
theorem exists_halt {done : List (List UInt8)} {now : σ}
    (h : Pending count (max attempts 1) more left ((sentence R pick limit).outcomes state j))
    (hdone : done = (successes ((sentence R pick limit).outcomes state j)).reverse)
    (hnow : now = (sentence R pick limit).stateAfter state j) :
    ∃ k, Halt R pick limit count (max attempts 1) state j k
      (sentencesFrom R pick limit attempts more left done now) := by
  fun_induction sentencesFrom R pick limit attempts more left done now generalizing j with
  | case1 left done now =>
    refine ⟨j, hnow, fun other => ?_, fun i low high => absurd high (Nat.not_lt.2 low), ?_⟩
    · rw [h.stops_enough, hdone, List.reverse_reverse]
    · have room := h.length_le
      rwa [Draw.length_outcomes] at room
  | case2 left done now more w next drawn ih =>
    obtain ⟨grown, hnext⟩ := Draw.outcomes_of_eq hnow drawn
    have pending := h.succeed w
    rw [← grown] at pending
    obtain ⟨k, halt⟩ := ih pending (by rw [grown, successes_concat_ok, hdone, List.reverse_concat]) hnext
    exact ⟨k, halt.earlier fun _ => h.not_stops⟩
  | case3 left done now more n next drawn again ih =>
    obtain ⟨grown, hnext⟩ := Draw.outcomes_of_eq hnow drawn
    have pending := h.retry again n
    rw [← grown] at pending
    obtain ⟨k, halt⟩ := ih pending (by rw [grown, successes_concat_error, hdone]) hnext
    exact ⟨k, halt.earlier fun _ => h.not_stops⟩
  | case4 left done now more n next drawn last =>
    obtain ⟨grown, hnext⟩ := Draw.outcomes_of_eq hnow drawn
    obtain rfl : n = limit := eq_limit_of_tooDeep (congrArg Prod.fst drawn)
    refine ⟨j + 1, h.halt hnext fun other => ?_⟩
    rw [grown, h.stops_tooDeep last]
  | case5 left done now more fault next other drawn =>
    obtain ⟨grown, hnext⟩ := Draw.outcomes_of_eq hnow drawn
    refine ⟨j + 1, h.halt hnext fun outcome => ?_⟩
    rw [grown, h.stops_failed other]

/-- Drawing several sentences is drawing one again and again. As many draws are made as it takes until enough have
succeeded, or as many in a row as are put up with have nested too deep, or one has failed for another reason, and none
after that; what is returned are the sentences in the order of the draws, or the fault of the last one. Each sentence
takes at most as many draws as are put up with, of which there is at least one. -/
def RepeatsDraws (R : Ruleset) (pick : Chooser σ) (limit attempts count : Nat) (state : σ) : Prop :=
  ∃ k outcome,
    sentences R pick limit attempts count state = (outcome, (sentence R pick limit).stateAfter state k) ∧
    (∀ other, Stops limit count (max attempts 1) ((sentence R pick limit).outcomes state k) other ↔ other = outcome) ∧
    (∀ j < k, ∀ other,
      ¬Stops limit count (max attempts 1) ((sentence R pick limit).outcomes state j) other) ∧
    k ≤ count * max attempts 1

theorem repeatsDraws_of_room (room : count ≤ mostSentences) (R : Ruleset) (pick : Chooser σ) (limit attempts : Nat)
    (state : σ) : RepeatsDraws R pick limit attempts count state := by
  have granted : sentences R pick limit attempts count state =
      sentencesFrom R pick limit attempts count attempts [] state := by
    rw [sentences, if_pos room]
  obtain ⟨k, halt⟩ : ∃ k, Halt R pick limit count (max attempts 1) state 0 k
      (sentencesFrom R pick limit attempts count attempts [] state) :=
    exists_halt (pending_nil attempts count) rfl rfl
  refine ⟨k, (sentencesFrom R pick limit attempts count attempts [] state).1, ?_, halt.stops_iff, ?_, halt.le⟩
  · rw [granted, ← halt.state_eq]
  · intro j
    exact halt.first j (Nat.zero_le j)

theorem sentences_of_full (full : mostSentences < count) :
    sentences R pick limit attempts count state = (.error (.noRoom count), state) := by
  rw [sentences, if_neg (Nat.not_le.2 full)]
  rfl

/-- No single draw asks for a list. -/
theorem sentence_ne_noRoom (n : Nat) : (sentence R pick limit state).1 ≠ .error (.noRoom n) := by
  intro broken
  have halts := halts_sentence R pick limit state
  rw [broken] at halts
  generalize indicesMade R pick limit state = made at halts
  cases halts with
  | error unfolded blocked => cases blocked

/-- What is said of lists that are too long comes from none of the draws. -/
theorem not_repeatsDraws_of_full (full : mostSentences < count) : ¬RepeatsDraws R pick limit attempts count state := by
  rintro ⟨k, outcome, made, stops, -⟩
  rw [sentences_of_full full] at made
  obtain ⟨rfl, -⟩ := Prod.mk.inj made
  have stopped := (stops (.error (.noRoom count))).2 rfl
  generalize whole : (sentence R pick limit).outcomes state k = ds at stopped
  cases stopped with
  | @failed before fault other =>
    have last : .error (.noRoom count) ∈ (sentence R pick limit).outcomes state k := by
      rw [whole]
      exact List.mem_concat_self
    obtain ⟨i, -, broken⟩ := List.mem_map.1 last
    exact sentence_ne_noRoom count broken

end Repeating

/-- Several sentences are drawn by repeated draws exactly as long as a list has room for them. For more of them the
run is broken off before the first draw. -/
theorem sentences_repeat (R : Ruleset) (pick : Chooser σ) (limit attempts count : Nat) (state : σ) :
    (count ≤ mostSentences → RepeatsDraws R pick limit attempts count state) ∧
    (mostSentences < count →
      sentences R pick limit attempts count state = (.error (.noRoom count), state)) := by
  constructor
  · intro room
    exact repeatsDraws_of_room room R pick limit attempts state
  · intro full
    exact sentences_of_full full

/-- `S → aS`, all draws of which nest too deep. -/
def endless : Ruleset := ⟨none, 83, 92, .literal, [⟨83, [⟨[97, 83], [.literal 97, .call 83]⟩]⟩]⟩

theorem sentences_repeat_endless :
    (5 ≤ mostSentences ∧ RepeatsDraws endless cycles.pick 2 3 5 (.ofWords [0])) ∧
    mostSentences < 384307168202282326 ∧
      sentences endless cycles.pick 2 1 384307168202282326 (.ofWords [0]) =
        (.error (.noRoom 384307168202282326), .ofWords [0]) := by
  have room : 5 ≤ mostSentences := by decide
  have full : mostSentences < 384307168202282326 := by decide
  exact ⟨⟨room, (sentences_repeat endless cycles.pick 2 3 5 (.ofWords [0])).1 room⟩, full,
    (sentences_repeat endless cycles.pick 2 1 384307168202282326 (.ofWords [0])).2 full⟩

/-- Draws for one sentence too many for a list are not repeated draws, which would stop at the first one. -/
theorem not_repeatsDraws_endless : ¬RepeatsDraws endless cycles.pick 2 1 384307168202282326 (.ofWords [0]) :=
  not_repeatsDraws_of_full (by decide)

end Descent.Sampling
