import Descent.Text.Blank

/-!
# Trimming and cutting

Trimming gives a text without blanks around it and leaves such a text alone. Cutting at a separator gives
back the runs that were joined with it.
-/
namespace Descent.Text

/-- A text that neither starts nor ends with a blank. -/
structure Trimmed (cs : List Char) : Prop where
  first : ∀ c, cs.head? = some c → isBlank c = false
  last : ∀ c, cs.getLast? = some c → isBlank c = false

theorem trimStart_cons_of_blank {c : Char} (h : isBlank c = true) (cs : List Char) :
    trimStart (c :: cs) = trimStart cs := by
  simp [trimStart, h]

theorem trimStart_cons_of_not_blank {c : Char} (h : isBlank c = false) (cs : List Char) :
    trimStart (c :: cs) = c :: cs := by
  simp [trimStart, h]

theorem trimStart_of_first {cs : List Char} (h : ∀ c, cs.head? = some c → isBlank c = false) :
    trimStart cs = cs := by
  cases cs with
  | nil => rfl
  | cons c cs => exact trimStart_cons_of_not_blank (h c rfl) cs

theorem isBlank_of_head?_trimStart {cs : List Char} {c : Char} (h : (trimStart cs).head? = some c) :
    isBlank c = false := by
  have first := List.head?_dropWhile_not isBlank cs
  unfold trimStart at h
  rw [h] at first
  exact first

theorem trimStart_suffix (cs : List Char) : trimStart cs <:+ cs := List.dropWhile_suffix _

theorem trimEnd_isPrefix (cs : List Char) : trimEnd cs <+: cs := by
  have reversed := List.reverse_prefix.2 (trimStart_suffix cs.reverse)
  rwa [List.reverse_reverse] at reversed

theorem trim_of_trimmed {cs : List Char} (h : Trimmed cs) : trim cs = cs := by
  have last : trimStart cs.reverse = cs.reverse := by
    refine trimStart_of_first fun c hc => h.last c ?_
    rwa [List.head?_reverse] at hc
  rw [trim, trimStart_of_first h.first, trimEnd, last, List.reverse_reverse]

theorem trim_cons_of_blank {c : Char} (h : isBlank c = true) (cs : List Char) :
    trim (c :: cs) = trim cs := by
  rw [trim, trimStart_cons_of_blank h, trim]

theorem trimEnd_concat_of_blank {c : Char} (h : isBlank c = true) (cs : List Char) :
    trimEnd (cs ++ [c]) = trimEnd cs := by
  rw [trimEnd, List.reverse_append, List.reverse_singleton, List.singleton_append, trimStart_cons_of_blank h, trimEnd]

theorem trim_concat_of_blank {c : Char} (h : isBlank c = true) (cs : List Char) : trim (cs ++ [c]) = trim cs := by
  have front : trimStart (cs ++ [c]) = if (trimStart cs).isEmpty then [] else trimStart cs ++ [c] := by
    rw [trimStart, List.dropWhile_append, ← trimStart, ← trimStart, trimStart_cons_of_blank h]
    rfl
  rw [trim, trim, front]
  split
  · rename_i empty
    rw [List.isEmpty_iff.1 empty]
  · exact trimEnd_concat_of_blank h _

theorem trimmed_trim (cs : List Char) : Trimmed (trim cs) := by
  constructor
  · intro c hc
    obtain ⟨rest, joined⟩ := trimEnd_isPrefix (trimStart cs)
    change (trimEnd (trimStart cs)).head? = some c at hc
    have first : (trimStart cs).head? = some c := by
      rw [← joined, List.head?_append, hc]
      rfl
    exact isBlank_of_head?_trimStart first
  · intro c hc
    rw [trim, trimEnd, List.getLast?_reverse] at hc
    exact isBlank_of_head?_trimStart hc

theorem mem_of_mem_trim {cs : List Char} {c : Char} (h : c ∈ trim cs) : c ∈ cs :=
  (trimStart_suffix cs).mem ((trimEnd_isPrefix _).mem h)

variable {α : Type} {p : α → Bool}

theorem cut_ne_nil (p : α → Bool) (as : List α) : cut p as ≠ [] := by
  fun_induction cut p as <;> simp

theorem cut_append_cons {run : List α} (h : ∀ a ∈ run, p a = false) {sep : α} (hsep : p sep = true)
    (rest : List α) : cut p (run ++ sep :: rest) = run :: cut p rest := by
  induction run with
  | nil => rw [List.nil_append, cut, if_pos hsep]
  | cons a run ih =>
    rw [List.cons_append, cut, if_neg (by simp [h a List.mem_cons_self]),
      ih fun b hb => h b (List.mem_cons_of_mem _ hb)]

theorem cut_append {run : List α} (h : ∀ a ∈ run, p a = false) {rest first : List α}
    {runs : List (List α)} (hrest : cut p rest = first :: runs) : cut p (run ++ rest) = (run ++ first) :: runs := by
  induction run with
  | nil => exact hrest
  | cons a run ih =>
    rw [List.cons_append, cut, if_neg (by simp [h a List.mem_cons_self]),
      ih fun b hb => h b (List.mem_cons_of_mem _ hb)]
    rfl

/-- A separator parts the runs in front of it from those behind it. -/
theorem cut_append_separator {sep : α} (hsep : p sep = true) (as rest : List α) :
    cut p (as ++ sep :: rest) = cut p as ++ cut p rest := by
  induction as with
  | nil => exact cut_append_cons (List.forall_mem_nil _) hsep rest
  | cons a as ih =>
    rw [List.cons_append, cut, cut, ih]
    split
    · rfl
    · cases runs : cut p as with
      | nil => exact absurd runs (cut_ne_nil p as)
      | cons run runs => rfl

theorem cut_flatMap_append {runs : List (List α)} (h : ∀ run ∈ runs, ∀ a ∈ run, p a = false) {sep : α}
    (hsep : p sep = true) (rest : List α) : cut p (runs.flatMap (· ++ [sep]) ++ rest) = runs ++ cut p rest := by
  induction runs with
  | nil => rfl
  | cons run runs ih =>
    rw [List.flatMap_cons, List.append_assoc, List.append_assoc, List.singleton_append,
      cut_append_cons (h run List.mem_cons_self) hsep, ih fun r hr => h r (List.mem_cons_of_mem _ hr)]
    rfl

/-- Runs that a separator follows each are cut out again, and nothing stands behind the last. -/
theorem cut_flatMap {runs : List (List α)} (h : ∀ run ∈ runs, ∀ a ∈ run, p a = false) {sep : α}
    (hsep : p sep = true) : cut p (runs.flatMap (· ++ [sep])) = runs ++ [[]] := by
  rw [← List.append_nil (runs.flatMap _), cut_flatMap_append h hsep]
  rfl

/-- A text is its first run, or its first run and what stands behind the separator after it. -/
theorem eq_append_of_cut {as run : List α} {runs : List (List α)} (h : cut p as = run :: runs) :
    runs = [] ∧ as = run ∨ ∃ sep rest, p sep = true ∧ as = run ++ sep :: rest ∧ cut p rest = runs := by
  induction as generalizing run with
  | nil =>
    cases h
    exact .inl ⟨rfl, rfl⟩
  | cons a as ih =>
    rw [cut] at h
    split at h
    · rename_i separates
      cases h
      exact .inr ⟨a, as, separates, rfl, rfl⟩
    · cases first : cut p as with
      | nil => exact absurd first (cut_ne_nil p as)
      | cons front others =>
        rw [first] at h
        cases h
        rcases ih first with ⟨rfl, rfl⟩ | ⟨sep, rest, hsep, rfl, hrest⟩
        · exact .inl ⟨rfl, rfl⟩
        · exact .inr ⟨sep, rest, hsep, rfl, hrest⟩

/-- Runs with others behind them stand in front of the text, with a separator behind each. -/
theorem exists_eq_flatMap_append {sep : α} (only : ∀ a, p a = true → a = sep) {as : List α}
    {front behind : List (List α)} (h : cut p as = front ++ behind) (more : behind ≠ []) :
    ∃ rest, as = front.flatMap (· ++ [sep]) ++ rest ∧ cut p rest = behind := by
  induction front generalizing as with
  | nil => exact ⟨as, rfl, h⟩
  | cons run front ih =>
    rcases eq_append_of_cut h with ⟨none, -⟩ | ⟨a, rest, hsep, rfl, hrest⟩
    · exact absurd (List.append_eq_nil_iff.1 none).2 more
    · obtain ⟨last, rfl, hlast⟩ := ih hrest
      refine ⟨last, ?_, hlast⟩
      rw [only a hsep, List.flatMap_cons, List.append_assoc, List.append_assoc, List.singleton_append]

theorem not_mem_of_mem_cut {as : List α} {run : List α} (hrun : run ∈ cut p as) :
    ∀ a ∈ run, p a = false ∧ a ∈ as := by
  induction as generalizing run with
  | nil =>
    rw [cut, List.mem_singleton] at hrun
    simp [hrun]
  | cons b as ih =>
    intro a ha
    rw [cut] at hrun
    split at hrun
    · rcases List.mem_cons.1 hrun with rfl | hrun
      · simp at ha
      · obtain ⟨hp, hmem⟩ := ih hrun a ha
        exact ⟨hp, List.mem_cons_of_mem _ hmem⟩
    · rename_i hb
      cases hcut : cut p as with
      | nil => exact absurd hcut (cut_ne_nil p as)
      | cons first runs =>
        rw [hcut] at hrun
        rcases List.mem_cons.1 hrun with rfl | hrun
        · rcases List.mem_cons.1 ha with rfl | ha
          · exact ⟨by simpa using hb, List.mem_cons_self⟩
          · obtain ⟨hp, hmem⟩ := ih (hcut ▸ List.mem_cons_self) a ha
            exact ⟨hp, List.mem_cons_of_mem _ hmem⟩
        · obtain ⟨hp, hmem⟩ := ih (hcut ▸ List.mem_cons_of_mem _ hrun) a ha
          exact ⟨hp, List.mem_cons_of_mem _ hmem⟩

end Descent.Text
