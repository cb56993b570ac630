import Descent.Proofs.Emission.Denotation

/-!
# What the lines of a program show

The parts of a program stand one behind the other without a mark between them, so each has to show where it ends.
The prelude shows the escape marker, the matcher the escape mode, a rule its symbol, its right-hand sides and whether
it carries a comment, and the entry the start symbol.
-/
namespace Descent.Emission

/-- What each part of a program shows, whatever stands behind it. -/
structure Legible (program : Ruleset → Bool → Program) (rule : Bool → Rule → List String) : Prop where
  escape : ∀ {R S c d s t}, (program R c).prelude ++ s = (program S d).prelude ++ t →
    R.escape = S.escape ∧ s = t
  mode : ∀ {R S c d s t}, (program R c).matcher ++ s = (program S d).matcher ++ t →
    R.mode = S.mode ∧ s = t
  rules : ∀ R c, (program R c).rules = R.rules.map (rule c)
  block : ∀ {c q r s t}, rule c q ++ s = rule c r ++ t →
    (q.symbol, q.rights) = (r.symbol, r.rights) ∧ s = t
  comments : ∀ {c d q r s t}, rule c q ++ s = rule d r ++ t → c = d
  apart : ∀ {R c d r s t}, rule c r ++ s ≠ (program R d).dispatch ++ t
  dispatch : ∀ {R S c d}, R.rules.map (·.symbol) = S.rules.map (·.symbol) →
    (program R c).dispatch = (program S d).dispatch
  start : ∀ {R S c d}, (program R c).entry = (program S d).entry → R.start = S.start

/-- The rulesets and the comment flags of two programs with the same lines agree, but for the names. -/
structure Agree (R S : Ruleset) (c d : Bool) : Prop where
  mode : R.mode = S.mode
  comments : c = d
  escape : R.escape = S.escape
  start : R.start = S.start
  rules : R.rules.map (fun r => (r.symbol, r.rights)) = S.rules.map fun r => (r.symbol, r.rights)

theorem lines_eq (p : Program) : p.lines =
    p.prelude ++ "" :: (p.matcher ++ (p.rules.flatMap ("" :: ·) ++ "" :: (p.dispatch ++ "" :: p.entry))) := by
  simp only [Program.lines, List.append_assoc, List.cons_append]

section Legible

variable {program : Ruleset → Bool → Program} {rule : Bool → Rule → List String} {R S : Ruleset} {c d : Bool}

/-- Rules of two programs that stand before their dispatch tables. -/
theorem Legible.rules_inj (h : Legible program rule) (ruled : R.rules ≠ []) (ruled' : S.rules ≠ [])
    {s t : List String}
    (same : (program R c).rules.flatMap ("" :: ·) ++ "" :: ((program R c).dispatch ++ s) =
      (program S d).rules.flatMap ("" :: ·) ++ "" :: ((program S d).dispatch ++ t)) :
    c = d ∧ R.rules.map (fun r => (r.symbol, r.rights)) = S.rules.map (fun r => (r.symbol, r.rights)) ∧
      (program R c).dispatch ++ s = (program S d).dispatch ++ t := by
  rw [h.rules, h.rules, List.flatMap_map, List.flatMap_map] at same
  -- The first rules show whether there are comments; under one flag all blocks have the same shape.
  obtain ⟨q, qs, hq⟩ := List.exists_cons_of_ne_nil ruled
  obtain ⟨r, rs, hr⟩ := List.exists_cons_of_ne_nil ruled'
  have first := same
  rw [hq, hr, List.flatMap_cons, List.flatMap_cons, List.cons_append, List.cons_append, List.cons_append,
    List.cons_append, List.append_assoc, List.append_assoc] at first
  obtain rfl : c = d := h.comments (List.cons.inj first).2
  have block : ∀ {q r s t}, "" :: rule c q ++ s = "" :: rule c r ++ t →
      (q.symbol, q.rights) = (r.symbol, r.rights) ∧ s = t := fun same => h.block (List.cons.inj same).2
  have apart : ∀ (R : Ruleset) (t : List String) (r : Rule) (s : List String),
      "" :: rule c r ++ s ≠ "" :: ((program R c).dispatch ++ t) := fun R t r s same =>
    h.apart (List.cons.inj same).2
  obtain ⟨views, stops⟩ := run_inj block (apart R s) (apart S t) same
  exact ⟨rfl, views, (List.cons.inj stops).2⟩

/-- The lines of a program with a rule determine everything in its ruleset but the name. -/
theorem Legible.lines_inj (h : Legible program rule) (ruled : R.rules ≠ []) (ruled' : S.rules ≠ [])
    (same : (program R c).lines = (program S d).lines) : Agree R S c d := by
  rw [lines_eq, lines_eq] at same
  obtain ⟨escape, same⟩ := h.escape same
  obtain ⟨mode, same⟩ := h.mode (List.cons.inj same).2
  obtain ⟨comments, rules, same⟩ := h.rules_inj ruled ruled' same
  have symbols : R.rules.map (·.symbol) = S.rules.map (·.symbol) := by
    simpa only [List.map_map, Function.comp_def] using congrArg (List.map Prod.fst) rules
  have table : (program R c).dispatch = (program S d).dispatch := h.dispatch symbols
  rw [table] at same
  have entry := (List.cons.inj (List.append_cancel_left same)).2
  exact ⟨mode, comments, escape, h.start entry, rules⟩

end Legible

section Names

theorem ident_inj {s s' : Symbol} (same : s.ident = s'.ident) : s = s' := by
  unfold Symbol.ident at same
  by_cases h : s.isAlphanumeric = true
  · by_cases h' : s'.isAlphanumeric = true
    · rw [if_pos h, if_pos h'] at same
      have chars : s.char = s'.char := (List.cons.inj same).1
      rw [eq_ofNat_of_char chars, ← eq_ofNat_of_char (b := s') rfl]
    · rw [if_pos h, if_neg h'] at same
      cases (List.cons.inj same).2
  · by_cases h' : s'.isAlphanumeric = true
    · rw [if_neg h, if_pos h'] at same
      cases (List.cons.inj same).2
    · rw [if_neg h, if_neg h'] at same
      have digits := Rust.reads_hex s
      rw [(List.cons.inj same).2] at digits
      exact digits.unique (Rust.reads_hex s')

theorem routine_inj {s s' : Symbol} (same : routine s = routine s') : s = s' := by
  have idents := (String.append_right_inj _).1 same
  exact ident_inj (by simpa only [String.toList_ofList] using congrArg String.toList idents)

theorem ofList_inj {cs cs' : List Char} (same : String.ofList cs = String.ofList cs') : cs = cs' := by
  simpa only [String.toList_ofList] using congrArg String.toList same

end Names

/-- The first of the lines starts with a word. -/
def Starts (word : String) (lines : List String) : Prop := ∃ back rest, lines = (word ++ back) :: rest

theorem Starts.apart {word word' : String} {lines lines' : List String} (h : Starts word lines)
    (h' : Starts word' lines') (length : word.toList.length = word'.toList.length) (ne : word ≠ word')
    (s t : List String) : lines ++ s ≠ lines' ++ t := by
  intro same
  obtain ⟨back, rest, rfl⟩ := h
  obtain ⟨back', rest', rfl⟩ := h'
  have chars := congrArg String.toList (List.cons.inj same).1
  rw [String.toList_append, String.toList_append] at chars
  exact ne (String.toList_inj.1 (List.append_inj_left chars length))

theorem Starts.shorten {word more : String} {lines : List String} (h : Starts (word ++ more) lines) :
    Starts word lines := by
  obtain ⟨back, rest, rfl⟩ := h
  exact ⟨more ++ back, rest, by rw [String.append_assoc]⟩

/-- Rules that start with another word under a comment show whether they carry one. -/
theorem comments_of_words {rule : Bool → Rule → List String} {word remark : String}
    (bare : ∀ r, Starts word (rule false r)) (remarked : ∀ r, Starts remark (rule true r))
    (length : word.toList.length = remark.toList.length) (ne : word ≠ remark) {c d : Bool} {q r : Rule}
    {s t : List String} (same : rule c q ++ s = rule d r ++ t) : c = d := by
  have differ : ∀ q r s t, rule false q ++ s ≠ rule true r ++ t := fun q r =>
    (bare q).apart (remarked r) length ne
  cases c
  · cases d
    · rfl
    · exact absurd same (differ q r s t)
  · cases d
    · exact absurd same.symm (differ r q t s)
    · rfl

/-- A matcher that depends on the escape mode only shows it by one line that differs. -/
theorem mode_of_line {matcher : Ruleset → List String} {n : Nat} {literal skip : String}
    (congr : ∀ {R S : Ruleset}, R.mode = S.mode → matcher R = matcher S)
    (line : ∀ R s, (matcher R ++ s)[n]? = some (if R.mode = .literal then literal else skip))
    (ne : literal ≠ skip) {R S : Ruleset} {s t : List String} (same : matcher R ++ s = matcher S ++ t) :
    R.mode = S.mode ∧ s = t := by
  have modes : R.mode = S.mode := by
    have here := line R s
    rw [same, line S t, Option.some.injEq] at here
    cases hR : R.mode
    · cases hS : S.mode
      · rfl
      · exact absurd (by simpa [hR, hS] using here) ne.symm
    · cases hS : S.mode
      · exact absurd (by simpa [hR, hS] using here) ne
      · rfl
  rw [congr modes] at same
  exact ⟨modes, List.append_cancel_left same⟩

theorem map_eq_of_factor {α β γ : Type} {f : α → β} {g : α → γ} (k : γ → β) (factor : ∀ a, f a = k (g a))
    {as bs : List α} (same : as.map g = bs.map g) : as.map f = bs.map f := by
  have split : ∀ as : List α, as.map f = (as.map g).map k := fun as => by
    rw [List.map_map]
    exact List.map_congr_left fun a _ => factor a
  rw [split, split, same]

theorem length_opening (R : Ruleset) : (opening R).length = 2 := rfl

namespace Rust

theorem length_prelude (R : Ruleset) : (prelude R).length = 18 := by
  unfold prelude
  simp [length_opening]

theorem escape_of_prelude {R S : Ruleset} {s t : List String} (same : prelude R ++ s = prelude S ++ t) :
    R.escape = S.escape ∧ s = t := by
  obtain ⟨preludes, rests⟩ := List.append_inj same (by rw [length_prelude, length_prelude])
  have marker := (List.cons.inj (List.cons.inj (List.append_inj_right' preludes rfl)).2).1
  have literals := ofList_inj ((String.append_right_inj _).1 ((String.append_left_inj _).1 marker))
  have read := reads_rustByte R.escape
  rw [literals] at read
  exact ⟨read.unique (reads_rustByte S.escape), rests⟩

theorem line_matcher (R : Ruleset) (s : List String) : (matcher R ++ s)[4]? =
    some (if R.mode = .literal then "        let c = if c == ESCAPE \x7b" else "        if c == ESCAPE \x7b") := by
  obtain ⟨_, _, _, mode, _⟩ := R
  cases mode
  · rfl
  · rfl

theorem matcher_congr {R S : Ruleset} (h : R.mode = S.mode) : matcher R = matcher S := by
  unfold matcher
  rw [h]

theorem length_rule (c : Bool) (r : Rule) : (rule c r).length = (if c then 1 else 0) + 13 := by
  unfold rule
  simp [length_remark]

theorem block_of_rule {c : Bool} {q r : Rule} {s t : List String} (same : rule c q ++ s = rule c r ++ t) :
    (q.symbol, q.rights) = (r.symbol, r.rights) ∧ s = t := by
  -- Both rules have the same number of lines, so they end at the same place.
  obtain ⟨rules, rests⟩ := List.append_inj same (by rw [length_rule, length_rule])
  obtain ⟨-, blocks⟩ := List.append_inj rules (by rw [length_remark, length_remark])
  obtain ⟨heads, bodies⟩ := block_inj blocks
  have symbols := routine_inj ((String.append_right_inj _).1 ((String.append_left_inj _).1 heads))
  have tables : table q = table r := (List.cons.inj bodies).1
  have read := scan_table q []
  rw [tables, scan_table r [], Option.some.injEq, Prod.mk.injEq, Prod.mk.injEq] at read
  exact ⟨Prod.ext symbols read.1.2.symm, rests⟩

theorem starts_rule_bare (r : Rule) : Starts "fn " (rule false r) := by
  unfold rule block blockThen opened
  rw [String.append_assoc, String.append_assoc]
  exact ⟨_, _, rfl⟩

theorem starts_rule_remark (r : Rule) : Starts "// " (rule true r) := ⟨_, _, rfl⟩

theorem starts_dispatch (R : Ruleset) : Starts "con" (dispatch R) :=
  ⟨"st DISPATCH: [Option<Rule>; 256] = \x7b", _, rfl⟩

theorem rule_ne_dispatch {R : Ruleset} {c : Bool} {r : Rule} {s t : List String} :
    rule c r ++ s ≠ dispatch R ++ t := by
  cases c
  · exact (starts_rule_bare r).apart (starts_dispatch R) (by decide) (by decide) s t
  · exact (starts_rule_remark r).apart (starts_dispatch R) (by decide) (by decide) s t

theorem dispatch_eq {R S : Ruleset} (symbols : R.rules.map (·.symbol) = S.rules.map (·.symbol)) :
    dispatch R = dispatch S := by
  have entries := map_eq_of_factor (f := tableEntry) (fun s => tableEntry ⟨s, []⟩) (fun _ => rfl) symbols
  unfold dispatch
  rw [entries]

theorem start_of_entry {R S : Ruleset} (same : entry R = entry S) : R.start = S.start := by
  unfold entry at same
  have recognizers := List.append_inj_left' (List.append_inj_left' same rfl) rfl
  have calls := List.append_inj_right' (block_inj recognizers).2 rfl
  exact routine_inj ((String.append_left_inj _).1 (List.cons.inj calls).1)

theorem legible : Legible program rule where
  escape := escape_of_prelude
  mode := mode_of_line matcher_congr line_matcher (by decide)
  rules _ _ := rfl
  block := block_of_rule
  comments := comments_of_words starts_rule_bare starts_rule_remark (by decide) (by decide)
  apart := rule_ne_dispatch
  dispatch := dispatch_eq
  start := start_of_entry

end Rust

namespace C

theorem starts_routineHead (s : Symbol) (back : String) (lines : List String) :
    Starts ("sta" ++ "tic b") ((routineHead s ++ back) :: lines) := by
  have word : "static bool " = ("sta" ++ "tic b") ++ "ool " := rfl
  unfold routineHead
  rw [word, String.append_assoc, String.append_assoc, String.append_assoc]
  exact ⟨_, _, rfl⟩

theorem starts_dispatch (R : Ruleset) : Starts ("sta" ++ "tic c") (dispatch R) :=
  ⟨"onst rule_fn dispatch[256] = \x7b", _, rfl⟩

/-- The declarations show where they end, whatever they declare. -/
theorem declarations_inj {qs rs : List Rule} {s t : List String}
    (same : qs.map (fun r => routineHead r.symbol ++ ";") ++ "static const rule_fn dispatch[256];" :: s =
      rs.map (fun r => routineHead r.symbol ++ ";") ++ "static const rule_fn dispatch[256];" :: t) : s = t := by
  have last : Starts ("sta" ++ "tic c") ["static const rule_fn dispatch[256];"] :=
    ⟨"onst rule_fn dispatch[256];", _, rfl⟩
  have apart : ∀ (rest : List String) (r : Rule) (s : List String),
      [routineHead r.symbol ++ ";"] ++ s ≠ "static const rule_fn dispatch[256];" :: rest := fun rest r s =>
    (starts_routineHead r.symbol ";" []).apart last (by decide) (by decide) s rest
  have block : ∀ {q r : Rule} {s t : List String},
      [routineHead q.symbol ++ ";"] ++ s = [routineHead r.symbol ++ ";"] ++ t → () = () ∧ s = t := fun same =>
    ⟨rfl, (List.cons.inj same).2⟩
  rw [List.map_eq_flatMap, List.map_eq_flatMap] at same
  exact (List.cons.inj (run_inj block (apart s) (apart t) same).2).2

theorem escape_of_prelude {R S : Ruleset} {s t : List String} (same : prelude R ++ s = prelude S ++ t) :
    R.escape = S.escape ∧ s = t := by
  unfold prelude at same
  simp only [List.append_assoc] at same
  have same := List.append_inj_right same (by rw [length_opening, length_opening])
  obtain ⟨markers, same⟩ := List.append_inj same (by simp only [List.length_cons])
  have rests := declarations_inj (List.append_cancel_left (List.append_cancel_left same))
  simp only [List.cons.injEq, String.append_right_inj, true_and, and_true] at markers
  have read := reads_cChar R.escape
  rw [ofList_inj markers] at read
  exact ⟨read.unique (reads_cChar S.escape), rests⟩

theorem line_matcher (R : Ruleset) (s : List String) : (matcher R ++ s)[7]? =
    some (if R.mode = .literal then "        if (c == ESCAPE) \x7b" else "        if (c == ESCAPE)") := by
  obtain ⟨_, _, _, mode, _⟩ := R
  cases mode
  · rfl
  · rfl

theorem matcher_congr {R S : Ruleset} (h : R.mode = S.mode) : matcher R = matcher S := by
  unfold matcher
  rw [h]

theorem length_rule (c : Bool) (r : Rule) : (rule c r).length = (if c then 1 else 0) + 12 := by
  unfold rule
  simp [length_remark]

theorem block_of_rule {c : Bool} {q r : Rule} {s t : List String} (same : rule c q ++ s = rule c r ++ t) :
    (q.symbol, q.rights) = (r.symbol, r.rights) ∧ s = t := by
  obtain ⟨rules, rests⟩ := List.append_inj same (by rw [length_rule, length_rule])
  obtain ⟨-, blocks⟩ := List.append_inj rules (by rw [length_remark, length_remark])
  obtain ⟨heads, bodies⟩ := function_inj blocks
  have symbols := routine_inj ((String.append_right_inj _).1 ((String.append_left_inj _).1 heads))
  have tables : table q = table r := (List.cons.inj bodies).1
  have read := scan_table q []
  rw [tables, scan_table r [], Option.some.injEq, Prod.mk.injEq] at read
  have rights := List.append_inj_left' read.1.symm rfl
  exact ⟨Prod.ext symbols ((List.map_inj_right fun _ _ => Option.some.inj).1 rights), rests⟩

theorem starts_rule_bare (r : Rule) : Starts ("sta" ++ "tic b") (rule false r) := by
  have head := starts_routineHead r.symbol "" []
  rw [String.append_empty] at head
  obtain ⟨back, rest, split⟩ := head
  unfold rule function
  exact ⟨back, _, by rw [(List.cons.inj split).1]; rfl⟩

theorem starts_rule_remark (r : Rule) : Starts "// " (rule true r) := ⟨_, _, rfl⟩

theorem rule_ne_dispatch {R : Ruleset} {c : Bool} {r : Rule} {s t : List String} :
    rule c r ++ s ≠ dispatch R ++ t := by
  cases c
  · exact (starts_rule_bare r).apart (starts_dispatch R) (by decide) (by decide) s t
  · exact (starts_rule_remark r).apart (starts_dispatch R).shorten (by decide) (by decide) s t

theorem dispatch_eq {R S : Ruleset} (symbols : R.rules.map (·.symbol) = S.rules.map (·.symbol)) :
    dispatch R = dispatch S := by
  have entries := map_eq_of_factor (f := tableEntry) (fun s => tableEntry ⟨s, []⟩) (fun _ => rfl) symbols
  unfold dispatch
  rw [entries]

theorem start_of_entry {R S : Ruleset} (same : entry R = entry S) : R.start = S.start := by
  unfold entry at same
  have recognizers := List.append_inj_left' (List.append_inj_left' same rfl) rfl
  have calls := (List.cons.inj (function_inj recognizers).2).2
  exact routine_inj ((String.append_right_inj _).1 ((String.append_left_inj _).1 (List.cons.inj calls).1))

theorem legible : Legible program rule where
  escape := escape_of_prelude
  mode := mode_of_line matcher_congr line_matcher (by decide)
  rules _ _ := rfl
  block := block_of_rule
  comments := comments_of_words (fun r => (starts_rule_bare r).shorten) starts_rule_remark (by decide) (by decide)
  apart := rule_ne_dispatch
  dispatch := dispatch_eq
  start := start_of_entry

end C

end Descent.Emission
