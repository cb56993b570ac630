import Descent.Listing.Reader
import Descent.Proofs.Listing.Token
import Descent.Proofs.Text.Trim
import Mathlib.Data.List.Forall2
import Mathlib.Data.List.TakeWhile

/-!
# The notation of listings

What each line of a listing may look like, said by how the line is put together and not by how it is taken
apart. The reader takes exactly these lines, and a line has one meaning only.
-/
namespace Descent.Listing

open Text (isBlank)

/-- Blanks and nothing else. -/
def Gap (cs : List Char) : Prop := ∀ c ∈ cs, isBlank c = true

/-- Nothing, or a single comma. -/
def OptionalComma (cs : List Char) : Prop := cs = [] ∨ cs = [',']

/-- A token of one byte, or a backslash, an `x` and two hexadecimal digits in either case. -/
inductive Spells : List Char → Symbol → Prop
  | byte {c : Char} (ascii : c.toNat < 128) : Spells [c] (UInt8.ofNat c.toNat)
  | escape {high low : Char} {h l : Nat} (hh : Text.hexValue? high = some h)
    (hl : Text.hexValue? low = some l) : Spells ['\\', 'x', high, low] (UInt8.ofNat (16 * h + l))

/-- A token that stands on a line of its own or in front of an arrow; it is no blank. -/
structure Names (token : List Char) (s : Symbol) : Prop where
  spells : Spells token s
  visible : ∀ c ∈ token, isBlank c = false

/-- A name without blanks, an equals sign and an opening parenthesis. -/
def IsHeader (line name : List Char) : Prop :=
  ∃ before behind, line = name ++ before ++ '=' :: behind ++ ['('] ∧
    (∀ c ∈ name, isBlank c = false) ∧ Gap before ∧ Gap behind

/-- A set between braces. What stands inside, cut at commas and blanks, is tokens and nothing else; the
closing brace is the last one of the line. -/
def IsSet (line : List Char) (symbols : List Symbol) : Prop :=
  ∃ body gap comma, line = '\x7b' :: body ++ '\x7d' :: gap ++ comma ∧ Gap gap ∧ OptionalComma comma ∧
    List.Forall₂ Spells (tokens body) symbols

/-- A symbol alone. -/
def IsStart (line : List Char) (s : Symbol) : Prop :=
  ∃ token gap comma, line = token ++ gap ++ comma ∧ Names token s ∧ Gap gap ∧ OptionalComma comma

/-- A symbol, an arrow, and a right-hand side, which counts without the blanks around it. -/
def IsProduction (line : List Char) (s : Symbol) (rhs : List Char) : Prop :=
  ∃ token gap behind, line = token ++ gap ++ '-' :: '>' :: behind ∧ Names token s ∧ Gap gap ∧
    rhs = Text.trim behind

variable {line token rest : List Char} {s : Symbol}

theorem Gap.reverse {gap : List Char} (h : Gap gap) : Gap gap.reverse := by
  intro c hc
  exact h c (List.mem_reverse.1 hc)

theorem trimStart_gap_append {gap : List Char} (h : Gap gap) (rest : List Char) :
    Text.trimStart (gap ++ rest) = Text.trimStart rest :=
  List.dropWhile_append_of_pos h

/-- What is trimmed off the front of a text is a gap. -/
theorem exists_gap (cs : List Char) : ∃ gap, Gap gap ∧ cs = gap ++ Text.trimStart cs := by
  refine ⟨cs.takeWhile isBlank, ?_, List.takeWhile_append_dropWhile.symm⟩
  intro c hc
  exact List.mem_takeWhile_imp hc

theorem exists_comma (cs : List Char) : ∃ comma, OptionalComma comma ∧ cs = comma ++ dropComma cs := by
  unfold dropComma
  split
  · exact ⟨[','], .inr rfl, rfl⟩
  · exact ⟨[], .inl rfl, rfl⟩

theorem OptionalComma.reverse {comma : List Char} (h : OptionalComma comma) : comma.reverse = comma := by
  rcases h with rfl | rfl <;> rfl

theorem isBlank_of_hexValue? {c : Char} {n : Nat} (h : Text.hexValue? c = some n) : isBlank c = false := by
  have range : ('0' ≤ c ∧ c ≤ '9') ∨ ('a' ≤ c ∧ c ≤ 'f') ∨ ('A' ≤ c ∧ c ≤ 'F') := by
    unfold Text.hexValue? at h
    split at h
    · exact .inl ‹_›
    · split at h
      · exact .inr (.inl ‹_›)
      · split at h
        · exact .inr (.inr ‹_›)
        · cases h
  have bounds : 48 ≤ c.toNat ∧ c.toNat ≤ 102 := by
    have values : ∀ d e : Char, d ≤ e ↔ d.toNat ≤ e.toNat := fun d e => Char.le_def
    simp only [values] at range
    have digits : ('0'.toNat = 48 ∧ '9'.toNat = 57) ∧ ('a'.toNat = 97 ∧ 'f'.toNat = 102) ∧
        'A'.toNat = 65 ∧ 'F'.toNat = 70 := by decide
    omega
  simp only [isBlank, Bool.or_eq_false_iff, Bool.and_eq_false_iff, decide_eq_false_iff_not,
    beq_eq_false_iff_ne]
  omega

theorem ofToken?_eq_some_iff : Symbol.ofToken? token = some s ↔ Spells token s := by
  constructor
  · intro h
    unfold Symbol.ofToken? at h
    split at h
    · rename_i c
      split at h
      · rename_i ascii
        cases h
        exact .byte ascii
      · cases h
    · rename_i high low
      simp only [Text.hexByte?, Option.bind_eq_bind, Option.bind_eq_some_iff, Option.some.injEq] at h
      obtain ⟨n, hh, l, hl, rfl⟩ := h
      exact .escape hh hl
    · cases h
  · intro h
    cases h with
    | byte ascii => exact if_pos ascii
    | escape hh hl => simp only [Symbol.ofToken?, Text.hexByte?, hh, hl, Option.bind_eq_bind, Option.bind_some]

theorem symbol_eq_ok_iff : symbol token = .ok s ↔ Spells token s := by
  rw [← ofToken?_eq_some_iff, symbol]
  cases Symbol.ofToken? token <;> simp

theorem mapM_symbol_eq_ok_iff {tokens : List (List Char)} {symbols : List Symbol} :
    tokens.mapM symbol = .ok symbols ↔ List.Forall₂ Spells tokens symbols := by
  induction tokens generalizing symbols with
  | nil =>
    rw [List.mapM_nil, List.forall₂_nil_left_iff]
    constructor
    · intro h
      cases h
      rfl
    · rintro rfl
      rfl
  | cons token tokens ih =>
    rw [List.mapM_cons, List.forall₂_cons_left_iff]
    constructor
    · intro h
      cases first : symbol token with
      | error problem =>
        rw [first] at h
        cases h
      | ok s =>
        cases others : tokens.mapM symbol with
        | error problem =>
          rw [first, others] at h
          cases h
        | ok more =>
          rw [first, others] at h
          cases h
          exact ⟨s, more, symbol_eq_ok_iff.1 first, ih.1 others, rfl⟩
    · rintro ⟨s, more, first, others, rfl⟩
      rw [symbol_eq_ok_iff.2 first, ih.2 others]
      rfl

theorem headerName?_eq_some_iff {name : List Char} : headerName? line = some name ↔ IsHeader line name := by
  constructor
  · intro h
    unfold headerName? at h
    split at h
    · rename_i rest parenthesis
      split at h
      · rename_i front equals
        simp only at h
        split at h
        · cases h
        · rename_i visible
          cases h
          obtain ⟨behind, hbehind, rest_eq⟩ := exists_gap rest
          obtain ⟨before, hbefore, front_eq⟩ := exists_gap front
          refine ⟨before.reverse, behind.reverse, ?_, ?_, hbefore.reverse, hbehind.reverse⟩
          · have reversed : line.reverse = '(' :: (behind ++ '=' :: (before ++ Text.trimStart front)) := by
              rw [parenthesis, ← front_eq, ← equals, ← rest_eq]
            have restored := congrArg List.reverse reversed
            rw [List.reverse_reverse] at restored
            rw [restored]
            simp
          · rw [Bool.not_eq_true, List.any_eq_false] at visible
            intro c hc
            simpa using visible c hc
      · cases h
    · cases h
  · rintro ⟨before, behind, rfl, visible, hbefore, hbehind⟩
    have reversed : (name ++ before ++ '=' :: behind ++ ['(']).reverse =
        '(' :: (behind.reverse ++ '=' :: (before.reverse ++ name.reverse)) := by simp
    have equals : Text.trimStart (behind.reverse ++ '=' :: (before.reverse ++ name.reverse)) =
        '=' :: (before.reverse ++ name.reverse) := by
      rw [trimStart_gap_append hbehind.reverse, Text.trimStart_cons_of_not_blank (by decide)]
    have front : Text.trimStart (before.reverse ++ name.reverse) = name.reverse := by
      rw [trimStart_gap_append hbefore.reverse, Text.trimStart_of_first]
      intro c hc
      exact visible c (List.mem_reverse.1 (List.mem_of_mem_head? hc))
    have noBlank : name.any isBlank = false := by
      rw [List.any_eq_false]
      intro c hc
      simp [visible c hc]
    simp only [headerName?, reversed, equals, front, List.reverse_reverse, noBlank, Bool.false_eq_true,
      if_false]

/-- A comma is dropped only where the notation has one. -/
theorem dropComma_append {gap comma rest : List Char} (hgap : Gap gap) (hcomma : OptionalComma comma) :
    dropComma (comma ++ (gap ++ '\x7d' :: rest)) = gap ++ '\x7d' :: rest := by
  rcases hcomma with rfl | rfl
  · cases gap with
    | nil => rfl
    | cons c gap =>
      have noComma : c ≠ ',' := by
        rintro rfl
        exact absurd (hgap ',' List.mem_cons_self) (by decide)
      rw [List.nil_append, List.cons_append, dropComma]
      intro more same
      exact noComma (List.cons.inj same).1
  · rfl

theorem setBody?_eq_some_iff {body : List Char} :
    setBody? line = some body ↔
      ∃ gap comma, line = '\x7b' :: body ++ '\x7d' :: gap ++ comma ∧ Gap gap ∧ OptionalComma comma := by
  constructor
  · intro h
    unfold setBody? at h
    split at h
    · rename_i rest
      split at h
      · rename_i inside brace
        cases h
        obtain ⟨comma, hcomma, comma_eq⟩ := exists_comma rest.reverse
        obtain ⟨gap, hgap, gap_eq⟩ := exists_gap (dropComma rest.reverse)
        refine ⟨gap.reverse, comma, ?_, hgap.reverse, hcomma⟩
        have reversed : rest.reverse = comma ++ (gap ++ '\x7d' :: inside) := by
          rw [← brace, ← gap_eq, ← comma_eq]
        have restored := congrArg List.reverse reversed
        rw [List.reverse_reverse] at restored
        rw [restored]
        simp [hcomma.reverse]
      · cases h
    · cases h
  · rintro ⟨gap, comma, rfl, hgap, hcomma⟩
    have reversed : (body ++ '\x7d' :: (gap ++ comma)).reverse =
        comma ++ (gap.reverse ++ '\x7d' :: body.reverse) := by
      simp [hcomma.reverse]
    have brace : Text.trimStart (dropComma (body ++ '\x7d' :: (gap ++ comma)).reverse) =
        '\x7d' :: body.reverse := by
      rw [reversed, dropComma_append hgap.reverse hcomma, trimStart_gap_append hgap.reverse,
        Text.trimStart_cons_of_not_blank (by decide)]
    simp only [List.cons_append, List.append_assoc, setBody?, brace, List.reverse_reverse]

theorem set_eq_ok_iff {part : Part} {symbols : List Symbol} :
    set part line = .ok symbols ↔ IsSet line symbols := by
  constructor
  · intro h
    unfold set at h
    split at h
    · cases h
    · rename_i body inside
      obtain ⟨gap, comma, joined, hgap, hcomma⟩ := setBody?_eq_some_iff.1 inside
      exact ⟨body, gap, comma, joined, hgap, hcomma, mapM_symbol_eq_ok_iff.1 h⟩
  · rintro ⟨body, gap, comma, joined, hgap, hcomma, spelled⟩
    have inside : setBody? line = some body := setBody?_eq_some_iff.2 ⟨gap, comma, joined, hgap, hcomma⟩
    rw [set, inside]
    exact mapM_symbol_eq_ok_iff.2 spelled

theorem isTail_iff : isTail rest = true ↔ ∃ gap comma, rest = gap ++ comma ∧ Gap gap ∧ OptionalComma comma := by
  simp only [isTail, Bool.or_eq_true, decide_eq_true_eq]
  constructor
  · intro h
    obtain ⟨gap, hgap, joined⟩ := exists_gap rest
    exact ⟨gap, Text.trimStart rest, joined, hgap, h⟩
  · rintro ⟨gap, comma, rfl, hgap, hcomma⟩
    rw [trimStart_gap_append hgap]
    rcases hcomma with rfl | rfl
    · exact .inl rfl
    · exact .inr rfl

/-- The token that a line starts with is the line's own front, and no blank. -/
theorem eq_append_of_leadingToken? (h : leadingToken? line = some (token, rest)) :
    line = token ++ rest ∧ ∀ c ∈ token, isBlank c = false := by
  unfold leadingToken? at h
  split at h
  · cases h
  · split at h
    · split at h
      · rename_i high low rest' digits
        cases h
        obtain ⟨b, hb⟩ := Option.isSome_iff_exists.1 digits
        simp only [Text.hexByte?, Option.bind_eq_bind, Option.bind_eq_some_iff] at hb
        obtain ⟨n, hh, l, hl, -⟩ := hb
        refine ⟨rfl, ?_⟩
        intro c hc
        simp only [List.mem_cons, List.not_mem_nil, or_false] at hc
        rcases hc with rfl | rfl | rfl | rfl
        · decide
        · decide
        · exact isBlank_of_hexValue? hh
        · exact isBlank_of_hexValue? hl
      · cases h
        refine ⟨rfl, ?_⟩
        intro c hc
        rw [List.mem_singleton.1 hc]
        decide
    · split at h
      · cases h
      · rename_i visible
        cases h
        refine ⟨rfl, ?_⟩
        intro c hc
        rw [List.mem_singleton.1 hc]
        exact Bool.eq_false_iff.2 visible

theorem leadingToken?_single {c : Char} (visible : isBlank c = false) (ends : rest.head? ≠ some 'x') :
    leadingToken? (c :: rest) = some ([c], rest) := by
  unfold leadingToken?
  split
  · rename_i nil
    cases nil
  · rename_i c' rest' same
    cases same
    split
    · exact absurd rfl ends
    · rw [if_neg (by simp [visible])]

/-- A line that starts with a symbol's token is split behind it, unless an `x` follows: behind a backslash it
could make the token longer. -/
theorem leadingToken?_append (h : Names token s) (ends : rest.head? ≠ some 'x') :
    leadingToken? (token ++ rest) = some (token, rest) := by
  obtain ⟨spelled, visible⟩ := h
  cases spelled with
  | @byte c ascii =>
    have seen : isBlank c = false := visible c (List.mem_singleton_self c)
    exact leadingToken?_single seen ends
  | @escape high low n l hh hl =>
    refine leadingToken?_escape ?_ rest
    simp [Text.hexByte?, hh, hl]

theorem head?_ne_x_of_gap {gap back : List Char} (hgap : Gap gap) (h : back.head? ≠ some 'x') :
    (gap ++ back).head? ≠ some 'x' := by
  cases gap with
  | nil => exact h
  | cons c gap =>
    intro same
    cases same
    exact absurd (hgap 'x' List.mem_cons_self) (by decide)

theorem start_eq_ok_iff : start line = .ok s ↔ IsStart line s := by
  constructor
  · intro h
    unfold start at h
    split at h
    · rename_i token rest leading
      split at h
      · rename_i tail
        obtain ⟨rfl, visible⟩ := eq_append_of_leadingToken? leading
        obtain ⟨gap, comma, rfl, hgap, hcomma⟩ := isTail_iff.1 tail
        exact ⟨token, gap, comma, (List.append_assoc _ _ _).symm, ⟨symbol_eq_ok_iff.1 h, visible⟩, hgap, hcomma⟩
      · cases h
    · cases h
  · rintro ⟨token, gap, comma, rfl, names, hgap, hcomma⟩
    have ends : (gap ++ comma).head? ≠ some 'x' := by
      apply head?_ne_x_of_gap hgap
      rcases hcomma with rfl | rfl <;> decide
    have tail : isTail (gap ++ comma) = true := isTail_iff.2 ⟨gap, comma, rfl, hgap, hcomma⟩
    rw [List.append_assoc, start, leadingToken?_append names ends]
    simp only [tail, if_true]
    exact symbol_eq_ok_iff.2 names.spells

theorem production_eq_ok_iff {rhs : List Char} : production line = .ok (s, rhs) ↔ IsProduction line s rhs := by
  constructor
  · intro h
    unfold production at h
    split at h
    · rename_i token rest leading
      split at h
      · rename_i behind arrow
        cases spelled : symbol token with
        | error problem =>
          rw [spelled] at h
          cases h
        | ok t =>
          rw [spelled] at h
          cases h
          obtain ⟨rfl, visible⟩ := eq_append_of_leadingToken? leading
          obtain ⟨gap, hgap, joined⟩ := exists_gap rest
          refine ⟨token, gap, behind, ?_, ⟨symbol_eq_ok_iff.1 spelled, visible⟩, hgap, rfl⟩
          rw [joined, arrow, List.append_assoc]
      · cases h
    · cases h
  · rintro ⟨token, gap, behind, rfl, names, hgap, rfl⟩
    have ends : (gap ++ '-' :: '>' :: behind).head? ≠ some 'x' := head?_ne_x_of_gap hgap (by simp)
    have arrow : Text.trimStart (gap ++ '-' :: '>' :: behind) = '-' :: '>' :: behind := by
      rw [trimStart_gap_append hgap, Text.trimStart_cons_of_not_blank (by decide)]
    rw [List.append_assoc, production, leadingToken?_append names ends]
    simp only [arrow, symbol_eq_ok_iff.2 names.spells]
    rfl

end Descent.Listing
