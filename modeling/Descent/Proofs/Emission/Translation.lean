import Descent.Emission.C

/-!
# What a scanner of C sees

Trigraphs are replaced and lines spliced before a text is cut into tokens. A steady spelling passes both phases
as it is, and steady spellings can be joined: the emitter escapes question marks so that no two of
them meet.
-/
namespace Descent.Emission.C

/-- The character that two question marks and `c` stand for. -/
def trigraph? (c : Char) : Option Char :=
  match c with
  | '=' => some '#'
  | '/' => some '\\'
  | '\'' => some '^'
  | '(' => some '['
  | ')' => some ']'
  | '!' => some '|'
  | '<' => some '\x7b'
  | '>' => some '\x7d'
  | '-' => some '~'
  | _ => none

/-- The first phase of translation. -/
def replaceTrigraphs : List Char → List Char
  | '?' :: '?' :: c :: rest =>
    match trigraph? c with
    | some d => d :: replaceTrigraphs rest
    | none => '?' :: replaceTrigraphs ('?' :: c :: rest)
  | c :: rest => c :: replaceTrigraphs rest
  | [] => []

/-- The second phase: a backslash and the newline behind it are deleted. -/
def spliceLines : List Char → List Char
  | '\\' :: '\n' :: rest => spliceLines rest
  | c :: rest => c :: spliceLines rest
  | [] => []

/-- What a scanner sees of a text. -/
def translate (text : List Char) : List Char := spliceLines (replaceTrigraphs text)

/-- A trigraph can spell the backslash that splices a line. -/
example : translate ['a', '?', '?', '/', '\n', 'b'] = ['a', 'b'] := by decide

theorem replaceTrigraphs_cons (c : Char) {rest : List Char} (h : c ≠ '?' ∨ rest.head? ≠ some '?') :
    replaceTrigraphs (c :: rest) = c :: replaceTrigraphs rest := by
  rw [replaceTrigraphs]
  rintro d more rfl rfl
  simp at h

theorem spliceLines_cons (c : Char) {rest : List Char} (h : c ≠ '\\' ∨ rest.head? ≠ some '\n') :
    spliceLines (c :: rest) = c :: spliceLines rest := by
  rw [spliceLines]
  rintro more rfl rfl
  simp at h

/-- A text that neither completes a trigraph nor lets a line be spliced. -/
def Settled (text : List Char) : Prop := text.head? ≠ some '?' ∧ text.head? ≠ some '\n'

theorem Settled.head?_replaceTrigraphs {text : List Char} (h : Settled text) :
    (replaceTrigraphs text).head? ≠ some '\n' := by
  cases text with
  | nil => simp [replaceTrigraphs]
  | cons c cs =>
    have other : c ≠ '?' := by simpa using h.1
    rw [replaceTrigraphs_cons c (.inl other)]
    exact h.2

theorem translate_cons {c : Char} (notMark : c ≠ '?') (notBackslash : c ≠ '\\') (rest : List Char) :
    translate (c :: rest) = c :: translate rest := by
  rw [translate, replaceTrigraphs_cons c (.inl notMark), spliceLines_cons c (.inl notBackslash), translate]

theorem translate_of_ordinary {cs : List Char} (h : ∀ c ∈ cs, c ≠ '?' ∧ c ≠ '\\') (rest : List Char) :
    translate (cs ++ rest) = cs ++ translate rest := by
  induction cs with
  | nil => rfl
  | cons c cs ih =>
    obtain ⟨notMark, notBackslash⟩ := h c List.mem_cons_self
    rw [List.cons_append, translate_cons notMark notBackslash, ih fun d hd => h d (List.mem_cons_of_mem _ hd)]
    rfl

theorem translate_cons_of_settled (c : Char) {rest : List Char} (h : Settled rest) :
    translate (c :: rest) = c :: translate rest := by
  rw [translate, replaceTrigraphs_cons c (.inr h.1), spliceLines_cons c (.inr h.head?_replaceTrigraphs),
    translate]

/-- A spelling that both phases leave as it is in front of any settled text. -/
structure Steady (spelling : List Char) : Prop where
  settled : ∀ {rest}, Settled rest → Settled (spelling ++ rest)
  kept : ∀ {rest}, Settled rest → translate (spelling ++ rest) = spelling ++ translate rest

theorem steady_nil : Steady [] := ⟨id, fun _ => rfl⟩

theorem Steady.append {front back : List Char} (hf : Steady front) (hb : Steady back) :
    Steady (front ++ back) := by
  refine ⟨fun {rest} h => ?_, fun {rest} h => ?_⟩
  · rw [List.append_assoc]
    exact hf.settled (hb.settled h)
  · rw [List.append_assoc, hf.kept (hb.settled h), hb.kept h, List.append_assoc]

theorem steady_flatMap {α : Type} {spell : α → List Char} {as : List α} (h : ∀ a ∈ as, Steady (spell a)) :
    Steady (as.flatMap spell) := by
  induction as with
  | nil => exact steady_nil
  | cons a as ih =>
    rw [List.flatMap_cons]
    exact (h a List.mem_cons_self).append (ih fun b hb => h b (List.mem_cons_of_mem _ hb))

theorem steady_singleton {c : Char} (notMark : c ≠ '?') (notNewline : c ≠ '\n') : Steady [c] :=
  ⟨fun _ => ⟨by simpa using notMark, by simpa using notNewline⟩, fun h => translate_cons_of_settled c h⟩

theorem steady_of_forall {cs : List Char} (h : ∀ c ∈ cs, c ≠ '?' ∧ c ≠ '\n') : Steady cs := by
  rw [← List.flatMap_singleton' cs]
  exact steady_flatMap fun c hc => steady_singleton (h c hc).1 (h c hc).2

/-- The escape that keeps question marks apart. -/
theorem steady_escapedMark : Steady ['\\', '?'] := by
  refine ⟨fun _ => ⟨by simp, by simp⟩, fun {rest} h => ?_⟩
  have mark : replaceTrigraphs ('?' :: rest) = '?' :: replaceTrigraphs rest := replaceTrigraphs_cons _ (.inr h.1)
  have backslash : replaceTrigraphs ('\\' :: '?' :: rest) = '\\' :: replaceTrigraphs ('?' :: rest) :=
    replaceTrigraphs_cons _ (.inl (by decide))
  rw [List.cons_append, List.cons_append, List.nil_append, translate, backslash, mark,
    spliceLines_cons _ (.inr (by simp)), spliceLines_cons _ (.inl (by decide))]
  rfl

/-- A character that takes part in neither phase. -/
structure Ordinary (c : Char) : Prop where
  noTrigraph : trigraph? c = none
  notMark : c ≠ '?'
  notNewline : c ≠ '\n'
  notBackslash : c ≠ '\\'

theorem replaceTrigraphs_pair {c : Char} (h : trigraph? c = none) (rest : List Char) :
    replaceTrigraphs ('?' :: '?' :: c :: rest) = '?' :: replaceTrigraphs ('?' :: c :: rest) := by
  rw [replaceTrigraphs, h]

theorem replaceTrigraphs_append {c : Char} (noTrigraph : trigraph? c = none) (notMark : c ≠ '?')
    (before rest : List Char) :
    replaceTrigraphs (before ++ c :: rest) = replaceTrigraphs before ++ c :: replaceTrigraphs rest := by
  have unmarked : (c :: rest).head? ≠ some '?' := by simpa using notMark
  fun_induction replaceTrigraphs before with
  | case1 d before e replaced ih =>
    rw [List.cons_append, List.cons_append, List.cons_append, replaceTrigraphs, replaced, ih]
    rfl
  | case2 d before kept ih =>
    rw [List.cons_append, List.cons_append, List.cons_append, replaceTrigraphs_pair kept]
    exact congrArg _ ih
  | case3 d before single ih =>
    rw [List.cons_append, List.cons_append, ← ih]
    by_cases apart : d ≠ '?' ∨ (before ++ c :: rest).head? ≠ some '?'
    · exact replaceTrigraphs_cons d apart
    · -- Two question marks right before `c`: no third character of `before` can follow them.
      obtain ⟨rfl, first⟩ : d = '?' ∧ (before ++ c :: rest).head? = some '?' := by simpa using apart
      match before with
      | [] => exact absurd first unmarked
      | [e] =>
        obtain rfl : e = '?' := by simpa using first
        exact replaceTrigraphs_pair noTrigraph rest
      | e :: f :: more =>
        obtain rfl : e = '?' := by simpa using first
        exact absurd rfl (single f more rfl)
  | case4 => exact replaceTrigraphs_cons c (.inl notMark)

theorem spliceLines_append {c : Char} (h : Ordinary c) (before rest : List Char) :
    spliceLines (before ++ c :: rest) = spliceLines before ++ c :: spliceLines rest := by
  fun_induction spliceLines before with
  | case1 before ih =>
    rw [List.cons_append, List.cons_append, spliceLines, ih]
  | case2 d before single ih =>
    rw [List.cons_append, List.cons_append, ← ih]
    refine spliceLines_cons d ?_
    cases before with
    | nil => exact .inr (by simpa using h.notNewline)
    | cons e before =>
      by_cases backslash : d = '\\'
      · subst backslash
        refine .inr fun newline => ?_
        have newline : e = '\n' := by simpa using newline
        exact single before rfl (newline ▸ rfl)
      · exact .inl backslash
  | case3 => exact spliceLines_cons c (.inl h.notBackslash)

/-- An ordinary character stays, and what stands on its two sides is translated by itself. -/
theorem translate_append {c : Char} (h : Ordinary c) (before rest : List Char) :
    translate (before ++ c :: rest) = translate before ++ c :: translate rest := by
  rw [translate, replaceTrigraphs_append h.noTrigraph h.notMark, spliceLines_append h, translate, translate]

theorem getLast?_cons_eq_some {c d : Char} {cs : List Char} (h : (c :: cs).getLast? = some d) :
    cs = [] ∧ c = d ∨ cs.getLast? = some d := by
  cases cs with
  | nil => exact .inl ⟨rfl, by simpa using h⟩
  | cons e cs => exact .inr (by simpa using h)

theorem spliceLines_append_newline {before : List Char} (h : before.getLast? ≠ some '\\') (rest : List Char) :
    spliceLines (before ++ '\n' :: rest) = spliceLines before ++ '\n' :: spliceLines rest := by
  fun_induction spliceLines before with
  | case1 before ih =>
    have inner : before.getLast? ≠ some '\\' := by
      cases before with
      | nil => simp
      | cons c before => simpa using h
    rw [List.cons_append, List.cons_append, spliceLines, ih inner]
  | case2 d before single ih =>
    have inner : before.getLast? ≠ some '\\' := by
      cases before with
      | nil => simp
      | cons c before => simpa using h
    have kept : d ≠ '\\' ∨ (before ++ '\n' :: rest).head? ≠ some '\n' := by
      by_cases backslash : d = '\\'
      · subst backslash
        cases before with
        | nil => exact absurd rfl h
        | cons e before =>
          refine .inr fun newline => ?_
          have newline : e = '\n' := by simpa using newline
          exact single before rfl (newline ▸ rfl)
      · exact .inl backslash
    rw [List.cons_append, List.cons_append, ← ih inner]
    exact spliceLines_cons d kept
  | case3 => exact spliceLines_cons '\n' (.inl (by decide))

/-- A line that is joined with the next one: it ends with a backslash or with the trigraph for one. -/
def Joins (line : List Char) : Prop := ['\\'] <:+ line ∨ ['?', '?', '/'] <:+ line

theorem Joins.cons {line : List Char} (h : Joins line) (c : Char) : Joins (c :: line) :=
  h.imp (·.trans (List.suffix_cons c line)) (·.trans (List.suffix_cons c line))

theorem eq_nil_of_replaceTrigraphs {cs : List Char} (h : replaceTrigraphs cs = []) : cs = [] := by
  fun_cases replaceTrigraphs cs with
  | case1 c rest d replaced => simp [replaceTrigraphs, replaced] at h
  | case2 c rest kept => simp [replaceTrigraphs, kept] at h
  | case3 c rest single => simp [replaceTrigraphs] at h
  | case4 => rfl

theorem eq_slash_of_trigraph? {c : Char} (h : trigraph? c = some '\\') : c = '/' := by
  unfold trigraph? at h
  split at h <;> simp_all

/-- Only a backslash, or a trigraph for one, at the end of a line makes a backslash there. -/
theorem joins_of_replaceTrigraphs {line : List Char}
    (h : (replaceTrigraphs line).getLast? = some '\\') : Joins line := by
  fun_induction replaceTrigraphs line with
  | case1 c rest d replaced ih =>
    rcases getLast?_cons_eq_some h with ⟨none, rfl⟩ | last
    · rw [eq_nil_of_replaceTrigraphs none, eq_slash_of_trigraph? replaced]
      exact .inr (List.suffix_refl _)
    · exact (((ih last).cons c).cons '?').cons '?'
  | case2 c rest kept ih =>
    rcases getLast?_cons_eq_some h with ⟨none, -⟩ | last
    · cases eq_nil_of_replaceTrigraphs none
    · exact (ih last).cons '?'
  | case3 c rest single ih =>
    rcases getLast?_cons_eq_some h with ⟨none, rfl⟩ | last
    · rw [eq_nil_of_replaceTrigraphs none]
      exact .inl (List.suffix_refl _)
    · exact (ih last).cons c
  | case4 => simp at h

/-- A line that is not joined with the next one is translated by itself. -/
theorem translate_append_newline {line : List Char} (h : ¬Joins line) (rest : List Char) :
    translate (line ++ '\n' :: rest) = translate line ++ '\n' :: translate rest := by
  have last : (replaceTrigraphs line).getLast? ≠ some '\\' := mt joins_of_replaceTrigraphs h
  rw [translate, replaceTrigraphs_append rfl (by decide), spliceLines_append_newline last, translate, translate]

/-- A steady spelling that is closed by an ordinary character is left as it is in front of any text. -/
theorem Steady.translate_closed {spelling : List Char} (h : Steady spelling) (close : Char)
    (notMark : close ≠ '?') (notNewline : close ≠ '\n') (notBackslash : close ≠ '\\') (rest : List Char) :
    translate (spelling ++ close :: rest) = spelling ++ close :: translate rest := by
  have settled : Settled (close :: rest) := ⟨by simpa using notMark, by simpa using notNewline⟩
  rw [h.kept settled, translate_cons notMark notBackslash]

end Descent.Emission.C
