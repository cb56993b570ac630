import Descent.Proofs.Ruleset.Escapes

/-!
# Right-hand sides put together

What two right-hand sides decode to when one stands behind the other. Where markers are dropped this is the steps of
the one and then those of the other, and the steps are those of the other mode with no marker left. Where markers are
heeded it is so unless the first ends in an open escape; then that escape takes the byte behind it.
-/
namespace Descent.Step

variable {marker : Symbol} {mode : EscapeMode} {step : Step} {steps : List Step} {b s : UInt8}
  {u v rhs rest : List UInt8}

/-- Steps that are taken off the front of some bytes until there is none. -/
inductive Decodes (marker : Symbol) (mode : EscapeMode) : List UInt8 → List Step → Prop
  | stop {rhs : List UInt8} : next? marker mode rhs = none → Decodes marker mode rhs []
  | step {rhs rest : List UInt8} {step : Step} {steps : List Step} : next? marker mode rhs = some (step, rest) →
    Decodes marker mode rest steps → Decodes marker mode rhs (step :: steps)

section Single

/-- A step is read off one byte behind markers: as a literal if a marker shields it, and else as what it is, which is no
marker. -/
theorem exists_byte_of_next? (h : next? marker mode rhs = some (step, rest)) :
    ∃ markers b, rhs = markers ++ b :: rest ∧ (∀ c ∈ markers, c = marker) ∧
      (step = .literal b ∨ b ≠ marker ∧ step = bare b) := by
  induction rhs with
  | nil => cases h
  | cons b tail ih =>
    by_cases same : b = marker
    · subst same
      cases mode with
      | skip =>
        rw [next?_marker_skip] at h
        obtain ⟨markers, c, rfl, same, read⟩ := ih h
        exact ⟨b :: markers, c, rfl, List.forall_mem_cons.2 ⟨rfl, same⟩, read⟩
      | literal =>
        cases tail with
        | nil =>
          rw [next?_marker_end] at h
          cases h
        | cons c tail =>
          rw [next?_marker_literal] at h
          cases h
          exact ⟨[b], c, rfl, List.forall_mem_singleton.2 rfl, .inl rfl⟩
    · rw [next?_cons_of_ne same] at h
      cases h
      exact ⟨[], b, rfl, List.forall_mem_nil _, .inr ⟨same, rfl⟩⟩

theorem isSuffix_of_next? (h : next? marker mode rhs = some (step, rest)) : rest <:+ rhs := by
  obtain ⟨markers, b, rfl, -⟩ := exists_byte_of_next? h
  exact (List.suffix_cons b rest).trans (List.suffix_append markers (b :: rest))

theorem ne_of_next? (h : next? marker mode rhs = some (step, rest)) : rest ≠ rhs := by
  have shorter := length_lt_of_next? h
  rintro rfl
  exact Nat.lt_irrefl _ shorter

theorem bare_eq_call_iff : bare b = .call s ↔ b = s ∧ 65 ≤ s ∧ s ≤ 90 := by
  have capital : Symbol.isNonTerminal b = true ↔ 65 ≤ b ∧ b ≤ 90 := by
    rw [Symbol.isNonTerminal, Bool.and_eq_true, decide_eq_true_eq, decide_eq_true_eq]
  unfold bare
  constructor
  · intro h
    split at h
    · rename_i isCapital
      cases h
      exact ⟨rfl, capital.1 isCapital⟩
    · cases h
  · rintro ⟨rfl, inRange⟩
    rw [if_pos (capital.2 inRange)]

/-- A call is of a capital letter other than the marker. -/
theorem callee_of_next? (h : next? marker mode rhs = some (.call s, rest)) : s ≠ marker ∧ 65 ≤ s ∧ s ≤ 90 := by
  obtain ⟨-, b, -, -, literal | ⟨other, read⟩⟩ := exists_byte_of_next? h
  · cases literal
  · obtain ⟨rfl, inRange⟩ := bare_eq_call_iff.1 read.symm
    exact ⟨other, inRange⟩

end Single

section Whole

/-- Each step leaves fewer bytes, so there is an end to them. -/
theorem decodes_all (rhs : List UInt8) : Decodes marker mode rhs (all marker mode rhs) := by
  -- on the number of bytes, since a step may take several
  induction size : rhs.length using Nat.strongRecOn generalizing rhs with
  | ind n ih =>
    cases found : next? marker mode rhs with
    | none =>
      rw [all_of_next?_eq_none found]
      exact .stop found
    | some first =>
      obtain ⟨step, rest⟩ := first
      have shorter : rest.length < n := size ▸ length_lt_of_next? found
      rw [all_of_next?_eq_some found]
      exact .step found (ih rest.length shorter rest rfl)

theorem Decodes.eq_all (h : Decodes marker mode rhs steps) : steps = all marker mode rhs := by
  induction h with
  | stop ended => exact (all_of_next?_eq_none ended).symm
  | step first _ ih => rw [all_of_next?_eq_some first, ih]

theorem decodes_iff : Decodes marker mode rhs steps ↔ steps = all marker mode rhs := by
  constructor
  · exact Decodes.eq_all
  · intro same
    rw [same]
    exact decodes_all rhs

theorem Decodes.callee (h : Decodes marker mode rhs steps) (called : .call s ∈ steps) :
    s ≠ marker ∧ 65 ≤ s ∧ s ≤ 90 := by
  induction h with
  | stop _ => cases called
  | step first _ ih =>
    rcases List.mem_cons.1 called with here | later
    · apply callee_of_next?
      rw [here]
      exact first
    · exact ih later

end Whole

section Joined

theorem all_skip_append (u v : List UInt8) : all marker .skip (u ++ v) = all marker .skip u ++ all marker .skip v := by
  simp only [all_skip_eq, List.filter_append, List.map_append]

/-- Where there is no marker the bytes are read one by one. -/
theorem readFrom_of_not_mem (h : marker ∉ rhs) : readFrom marker false rhs = rhs.map bare := by
  induction rhs with
  | nil => rfl
  | cons b rest ih =>
    have other : b ≠ marker := fun same => h (same ▸ List.mem_cons_self)
    have others : marker ∉ rest := fun inside => h (List.mem_cons_of_mem _ inside)
    rw [readFrom, if_neg other, ih others, List.map_cons]

/-- To drop markers while reading is to read what has none. -/
theorem all_skip_eq_all_literal (u : List UInt8) :
    all marker .skip u = all marker .literal (u.filter (· ≠ marker)) := by
  have none : marker ∉ u.filter (· ≠ marker) := by simp
  rw [all_skip_eq, all_literal_eq, readFrom_of_not_mem none]

/-- A marker at the end opens an escape unless it is escaped itself. -/
theorem opensEscape_iff : opensEscape marker false u = true ↔
    ∃ front, u = front ++ [marker] ∧ opensEscape marker false front = false := by
  have last (front : List UInt8) (b : UInt8) :
      opensEscape marker false (front ++ [b]) = (!opensEscape marker false front && b == marker) := by
    rw [opensEscape, List.foldl_append]
    rfl
  constructor
  · intro opens
    rcases List.eq_nil_or_concat u with rfl | ⟨front, b, rfl⟩
    · cases opens
    · rw [List.concat_eq_append, last, Bool.and_eq_true, Bool.not_eq_true', beq_iff_eq] at opens
      obtain ⟨closed, rfl⟩ := opens
      exact ⟨front, List.concat_eq_append, closed⟩
  · rintro ⟨front, rfl, closed⟩
    rw [last, closed, beq_self_eq_true]
    rfl

theorem all_literal_append (closed : opensEscape marker false u = false) (v : List UInt8) :
    all marker .literal (u ++ v) = all marker .literal u ++ all marker .literal v := by
  rw [all_literal_eq, readFrom_append, closed, ← all_literal_eq, ← all_literal_eq]

end Joined

/-- Decoding is put together from its parts. A step leaves a proper suffix, so the steps of any bytes come to an end.
Where markers are dropped, bytes put behind others add their steps behind those of the others, and the steps are those
which the other mode finds with all markers deleted. Where markers are heeded, the steps add up unless the first part
ends in a marker that no marker escapes; then the byte behind it is a literal between them. No call is of the marker, or
of anything but a capital letter. -/
theorem all_compositional (marker : Symbol) :
    (∀ mode rhs step rest, next? marker mode rhs = some (step, rest) → rest <:+ rhs ∧ rest ≠ rhs) ∧
    (∀ mode rhs steps, Decodes marker mode rhs steps ↔ steps = all marker mode rhs) ∧
    (∀ u v, all marker .skip (u ++ v) = all marker .skip u ++ all marker .skip v) ∧
    (∀ u, all marker .skip u = all marker .literal (u.filter (· ≠ marker))) ∧
    (∀ u, opensEscape marker false u = true ↔
      ∃ front, u = front ++ [marker] ∧ opensEscape marker false front = false) ∧
    (∀ u v, opensEscape marker false u = false →
      all marker .literal (u ++ v) = all marker .literal u ++ all marker .literal v) ∧
    (∀ u b v, opensEscape marker false u = true →
      all marker .literal (u ++ [b] ++ v) = all marker .literal u ++ [.literal b] ++ all marker .literal v) ∧
    ∀ mode rhs s, .call s ∈ all marker mode rhs → s ≠ marker ∧ 65 ≤ s ∧ s ≤ 90 := by
  refine ⟨?_, fun _ _ _ => decodes_iff, all_skip_append, all_skip_eq_all_literal, fun _ => opensEscape_iff, ?_, ?_, ?_⟩
  · intro mode rhs step rest h
    exact ⟨isSuffix_of_next? h, ne_of_next? h⟩
  · intro u v closed
    exact all_literal_append closed v
  · intro u b v opened
    rw [List.append_assoc, List.append_assoc]
    exact all_literal_append_cons opened b v
  · intro mode rhs s called
    exact (decodes_all rhs).callee called

/-- With the letter `E` for a marker: `aEE` ends in no open escape and `aE` does, and of `EB` and `B` only the second is
a call. -/
theorem all_compositional_capital :
    ([66] <:+ ([69, 69, 66] : List UInt8) ∧ [66] ≠ ([69, 69, 66] : List UInt8)) ∧
    all 69 .literal ([97, 69, 69] ++ [66]) = all 69 .literal [97, 69, 69] ++ all 69 .literal [66] ∧
    all 69 .literal ([97, 69] ++ [66] ++ [66]) = all 69 .literal [97, 69] ++ [.literal 66] ++ all 69 .literal [66] ∧
    ((66 : Symbol) ≠ 69 ∧ (65 : Symbol) ≤ 66 ∧ (66 : Symbol) ≤ 90) := by
  have first : next? 69 .literal [69, 69, 66] = some (.literal 69, [66]) := by decide
  have called : .call 66 ∈ all 69 .literal [97, 66] := by
    rw [all_literal_eq]
    decide
  obtain ⟨proper, -, -, -, -, closed, opened, capital⟩ := all_compositional 69
  exact ⟨proper _ _ _ _ first, closed _ _ (by decide), opened _ _ _ (by decide), capital _ _ _ called⟩

end Descent.Step
