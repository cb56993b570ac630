import Descent.Emission.Spelling

/-!
# Scanners

Readers of the front of a text, put together from smaller ones. A spelling that is read back whatever
follows can be joined to any other, so nothing has to be known of its neighbours, and two texts that
begin with such spellings differ as soon as the spellings do.
-/
namespace Descent.Emission

theorem eq_ofNat_of_char {b : Symbol} {c : Char} (h : b.char = c) : b = UInt8.ofNat c.toNat := by
  have value : c.toNat = b.toNat := by rw [← h]; rfl
  rw [value, UInt8.ofNat_toNat]

/-- The byte of an ASCII character. -/
def ofAscii? (c : Char) : Option UInt8 := if c.toNat < 128 then some (UInt8.ofNat c.toNat) else none

theorem ofAscii?_char {b : Symbol} (plain : isPlain b.char = true) : ofAscii? b.char = some b := by
  have value : b.char.toNat = b.toNat := rfl
  simp only [isPlain, Bool.and_eq_true, decide_eq_true_eq] at plain
  rw [ofAscii?, if_pos (by omega), value, UInt8.ofNat_toNat]

/-- The value of a literal that holds one byte. -/
def single? : List UInt8 → Option UInt8
  | [b] => some b
  | _ => none

/-- A reader of the front of a text. What it leaves is shorter. -/
structure Scanner (α : Type) where
  scan : List Char → Option (α × List Char)
  shortens : ∀ {text rest a}, scan text = some (a, rest) → rest.length < text.length

namespace Scanner

variable {α β : Type}

/-- The spelling is read as `a`, and reading stops behind it whatever follows. -/
def Reads (s : Scanner α) (spelling : List Char) (a : α) : Prop :=
  ∀ rest, s.scan (spelling ++ rest) = some (a, rest)

theorem Reads.ne_nil {s : Scanner α} {spelling : List Char} {a : α} (h : s.Reads spelling a) :
    spelling ≠ [] := by
  rintro rfl
  have shorter := s.shortens (h [])
  exact Nat.lt_irrefl _ shorter

/-- Texts that begin with spellings of two values are equal only if the values and the rests are. -/
theorem Reads.inj {s : Scanner α} {front front' rest rest' : List Char} {a a' : α} (h : s.Reads front a)
    (h' : s.Reads front' a') (same : front ++ rest = front' ++ rest') : a = a' ∧ rest = rest' := by
  have read := h rest
  rw [same, h' rest', Option.some.injEq, Prod.mk.injEq] at read
  exact ⟨read.1.symm, read.2.symm⟩

theorem Reads.unique {s : Scanner α} {spelling : List Char} {a a' : α} (h : s.Reads spelling a)
    (h' : s.Reads spelling a') : a = a' :=
  (h.inj h' (Eq.refl (spelling ++ []))).1

/-- The values that `f` takes, as what it makes of them. -/
def filterMap (s : Scanner α) (f : α → Option β) : Scanner β where
  scan text := (s.scan text).bind fun p => (f p.1).map (·, p.2)
  shortens := by
    intro text rest b h
    obtain ⟨⟨a, rest'⟩, read, taken⟩ := Option.bind_eq_some_iff.1 h
    obtain ⟨b', -, same⟩ := Option.map_eq_some_iff.1 taken
    cases same
    exact s.shortens read

theorem Reads.filterMap {s : Scanner α} {spelling : List Char} {a : α} {b : β} {f : α → Option β}
    (h : s.Reads spelling a) (taken : f a = some b) : (s.filterMap f).Reads spelling b := by
  intro rest
  simp only [Scanner.filterMap, h rest, Option.bind_some, taken, Option.map_some]

def map (s : Scanner α) (f : α → β) : Scanner β := s.filterMap fun a => some (f a)

theorem Reads.map {s : Scanner α} {spelling : List Char} {a : α} (h : s.Reads spelling a) (f : α → β) :
    (s.map f).Reads spelling (f a) := h.filterMap rfl

def pair (s : Scanner α) (t : Scanner β) : Scanner (α × β) where
  scan text := (s.scan text).bind fun p => (t.scan p.2).map fun q => ((p.1, q.1), q.2)
  shortens := by
    intro text rest ab h
    obtain ⟨⟨a, middle⟩, first, h⟩ := Option.bind_eq_some_iff.1 h
    obtain ⟨⟨b, rest'⟩, second, same⟩ := Option.map_eq_some_iff.1 h
    cases same
    exact Nat.lt_trans (t.shortens second) (s.shortens first)

theorem Reads.pair {s : Scanner α} {t : Scanner β} {front back : List Char} {a : α} {b : β}
    (first : s.Reads front a) (second : t.Reads back b) : (s.pair t).Reads (front ++ back) (a, b) := by
  intro rest
  simp only [Scanner.pair, List.append_assoc, first (back ++ rest), second rest, Option.bind_some,
    Option.map_some]

/-- What stands behind a fixed word at the front of a text. -/
def behind? : List Char → List Char → Option (List Char)
  | [], text => some text
  | c :: word, d :: text => if c = d then behind? word text else none
  | _ :: _, [] => none

theorem behind?_append (word text : List Char) : behind? word (word ++ text) = some text := by
  induction word with
  | nil => rfl
  | cons c word ih => rw [List.cons_append, behind?, if_pos rfl, ih]

theorem eq_append_of_behind? {word text rest : List Char} (h : behind? word text = some rest) :
    text = word ++ rest := by
  fun_induction behind? word text with
  | case1 => exact Option.some.inj h
  | case2 c word text ih => rw [ih h, List.cons_append]
  | case3 => cases h
  | case4 => cases h

/-- A fixed word and a value behind it. -/
def behind (word : List Char) (s : Scanner α) : Scanner α where
  scan text := (behind? word text).bind s.scan
  shortens := by
    intro text rest a h
    obtain ⟨middle, opened, read⟩ := Option.bind_eq_some_iff.1 h
    have shorter := s.shortens read
    rw [eq_append_of_behind? opened, List.length_append]
    omega

theorem Reads.behind {s : Scanner α} {spelling : List Char} {a : α} (h : s.Reads spelling a)
    (word : List Char) : (s.behind word).Reads (word ++ spelling) a := by
  intro rest
  simp only [Scanner.behind, List.append_assoc, behind?_append, Option.bind_some, h rest]

/-- A fixed word, read as `a`. -/
def word (c : Char) (cs : List Char) (a : α) : Scanner α where
  scan text := (behind? (c :: cs) text).map (a, ·)
  shortens := by
    intro text rest b h
    obtain ⟨rest', opened, same⟩ := Option.map_eq_some_iff.1 h
    cases same
    rw [eq_append_of_behind? opened, List.length_append, List.length_cons]
    omega

theorem reads_word (c : Char) (cs : List Char) (a : α) : (word c cs a).Reads (c :: cs) a := by
  intro rest
  simp only [word, behind?_append, Option.map_some]

/-- One character that `f` takes. -/
def char (f : Char → Option α) : Scanner α where
  scan
    | [] => none
    | c :: rest => (f c).map (·, rest)
  shortens := by
    intro text rest a h
    cases text with
    | nil => cases h
    | cons c cs =>
      obtain ⟨_, -, same⟩ := Option.map_eq_some_iff.1 h
      cases same
      exact Nat.lt_succ_self _

theorem reads_char {f : Char → Option α} {c : Char} {a : α} (h : f c = some a) :
    (char f).Reads [c] a := by
  intro rest
  simp only [char, List.cons_append, List.nil_append, h, Option.map_some]

/-- One character that `f` takes, or what another reader makes of the text. -/
def charOr (f : Char → Option α) (s : Scanner α) : Scanner α where
  scan
    | [] => none
    | c :: rest =>
      match f c with
      | some a => some (a, rest)
      | none => s.scan (c :: rest)
  shortens := by
    intro text rest a h
    cases text with
    | nil => cases h
    | cons c cs =>
      cases taken : f c with
      | some b =>
        simp only [taken, Option.some.injEq, Prod.mk.injEq] at h
        rw [← h.2]
        exact Nat.lt_succ_self _
      | none =>
        simp only [taken] at h
        exact s.shortens h

theorem reads_charOr {f : Char → Option α} {c : Char} {a : α} (h : f c = some a) (s : Scanner α) :
    (charOr f s).Reads [c] a := by
  intro rest
  simp only [charOr, List.cons_append, List.nil_append, h]

theorem Reads.charOr {s : Scanner α} {c : Char} {spelling : List Char} {a : α}
    (h : s.Reads (c :: spelling) a) {f : Char → Option α} (untaken : f c = none) :
    (charOr f s).Reads (c :: spelling) a := by
  intro rest
  have read := h rest
  simp only [Scanner.charOr, List.cons_append, untaken] at read ⊢
  exact read

/-- One reader behind a mark, and another where the text does not start with it. -/
def marked (mark : Char) (s t : Scanner α) : Scanner α where
  scan
    | [] => none
    | c :: rest => if c = mark then s.scan rest else t.scan (c :: rest)
  shortens := by
    intro text rest a h
    cases text with
    | nil => cases h
    | cons c cs =>
      by_cases same : c = mark
      · have read : s.scan cs = some (a, rest) := by simpa only [if_pos same] using h
        exact Nat.lt_succ_of_lt (s.shortens read)
      · have read : t.scan (c :: cs) = some (a, rest) := by simpa only [if_neg same] using h
        exact t.shortens read

theorem Reads.mark {s : Scanner α} {spelling : List Char} {a : α} (h : s.Reads spelling a) (mark : Char)
    (t : Scanner α) : (marked mark s t).Reads (mark :: spelling) a := by
  intro rest
  simp only [marked, List.cons_append, if_true, h rest]

theorem Reads.unmarked {t : Scanner α} {c mark : Char} {spelling : List Char} {a : α}
    (h : t.Reads (c :: spelling) a) (other : c ≠ mark) (s : Scanner α) :
    (marked mark s t).Reads (c :: spelling) a := by
  intro rest
  have read := h rest
  simp only [marked, List.cons_append, if_neg other] at read ⊢
  exact read

/-- Values up to a closing character. -/
def valuesUpTo (s : Scanner α) (close : Char) : List Char → Option (List α × List Char)
  | [] => none
  | c :: cs =>
    if c = close then some ([], cs)
    else
      match _ : s.scan (c :: cs) with
      | none => none
      | some (a, rest) => (s.valuesUpTo close rest).map fun p => (a :: p.1, p.2)
  termination_by text => text.length
  decreasing_by exact s.shortens ‹_›

theorem valuesUpTo_close (s : Scanner α) (close : Char) (rest : List Char) :
    s.valuesUpTo close (close :: rest) = some ([], rest) := by
  rw [valuesUpTo, if_pos rfl]

theorem valuesUpTo_of_scan {s : Scanner α} {close : Char} {text rest : List Char} {a : α}
    (read : s.scan text = some (a, rest)) (still : text.head? ≠ some close) :
    s.valuesUpTo close text = (s.valuesUpTo close rest).map fun p => (a :: p.1, p.2) := by
  cases text with
  | nil => exact absurd (s.shortens read) (Nat.not_lt_zero _)
  | cons c cs =>
    have other : c ≠ close := by simpa using still
    rw [valuesUpTo, if_neg other]
    split
    · rename_i none
      rw [none] at read
      cases read
    · rename_i some
      rw [some] at read
      cases read
      rfl

theorem length_lt_of_valuesUpTo {s : Scanner α} {close : Char} {text rest : List Char} {as : List α}
    (h : s.valuesUpTo close text = some (as, rest)) : rest.length < text.length := by
  fun_induction valuesUpTo s close text generalizing as with
  | case1 => cases h
  | case2 cs =>
    cases h
    exact Nat.lt_succ_self _
  | case3 => cases h
  | case4 c cs other a middle read ih =>
    obtain ⟨⟨as', rest'⟩, others, same⟩ := Option.map_eq_some_iff.1 h
    cases same
    exact Nat.lt_trans (ih others) (s.shortens read)

def upTo (s : Scanner α) (close : Char) : Scanner (List α) := ⟨s.valuesUpTo close, length_lt_of_valuesUpTo⟩

theorem head?_append_ne {front : List Char} {c : Char} (nonempty : front ≠ []) (h : front.head? ≠ some c)
    (rest : List Char) : (front ++ rest).head? ≠ some c := by
  cases front with
  | nil => exact absurd rfl nonempty
  | cons d front => exact h

/-- Spelled values are read back if none of the spellings starts like the end. -/
theorem reads_flatMap {s : Scanner α} {spell : α → List Char} {close : Char} {as : List α}
    (reads : ∀ a ∈ as, s.Reads (spell a) a) (still : ∀ a ∈ as, (spell a).head? ≠ some close) :
    (s.upTo close).Reads (as.flatMap spell ++ [close]) as := by
  intro rest
  induction as with
  | nil => exact valuesUpTo_close s close rest
  | cons a as ih =>
    have read := reads a List.mem_cons_self (as.flatMap spell ++ [close] ++ rest)
    have others := ih (fun b hb => reads b (List.mem_cons_of_mem _ hb))
      fun b hb => still b (List.mem_cons_of_mem _ hb)
    have inside := head?_append_ne (reads a List.mem_cons_self).ne_nil (still a List.mem_cons_self)
      (as.flatMap spell ++ [close] ++ rest)
    have step := valuesUpTo_of_scan read inside
    simp only [upTo] at others ⊢
    rw [List.flatMap_cons, List.append_assoc, List.append_assoc, ← List.append_assoc _ [close] rest, step,
      others, Option.map_some]

theorem reads_one {s : Scanner α} {spelling : List Char} {a : α} {close : Char} (h : s.Reads spelling a)
    (still : spelling.head? ≠ some close) : (s.upTo close).Reads (spelling ++ [close]) [a] := by
  intro rest
  have inside := head?_append_ne h.ne_nil still (close :: rest)
  have step := valuesUpTo_of_scan (h (close :: rest)) inside
  rw [valuesUpTo_close, Option.map_some] at step
  simpa only [upTo, List.append_assoc, List.singleton_append] using step

section Listed

/-- The text behind the spaces in front. -/
def skip (text : List Char) : List Char := text.dropWhile (· = ' ')

theorem skip_of_head {text : List Char} (h : text.head? ≠ some ' ') : skip text = text := by
  cases text with
  | nil => rfl
  | cons c cs =>
    have visible : c ≠ ' ' := by simpa using h
    rw [skip, List.dropWhile_cons_of_neg (by simpa using visible)]

theorem skip_replicate_append (n : Nat) (text : List Char) :
    skip (List.replicate n ' ' ++ text) = skip text := by
  induction n with
  | zero => rfl
  | succ n ih =>
    rw [List.replicate_succ, List.cons_append, skip, List.dropWhile_cons_of_pos (by simp)]
    exact ih

theorem length_skip_le (text : List Char) : (skip text).length ≤ text.length :=
  (List.dropWhile_suffix _).length_le

/-- What may stand behind an item: a comma, or the closing character, which is left where it is. -/
def behindItem? (close : Char) : List Char → Option (List Char)
  | [] => none
  | c :: rest => if c = ',' then some (skip rest) else if c = close then some (c :: rest) else none

theorem length_le_of_behindItem? {close : Char} {text rest : List Char} (h : behindItem? close text = some rest) :
    rest.length ≤ text.length := by
  unfold behindItem? at h
  split at h
  · cases h
  · rename_i c cs
    split at h
    · cases h
      exact Nat.le_trans (length_skip_le cs) (Nat.le_succ _)
    · split at h
      · cases h
        exact Nat.le_refl _
      · cases h

def item (s : Scanner α) (close : Char) : Scanner α where
  scan text := (s.scan text).bind fun p => (behindItem? close (skip p.2)).map (p.1, ·)
  shortens := by
    intro text rest a h
    obtain ⟨⟨a', middle⟩, read, h⟩ := Option.bind_eq_some_iff.1 h
    obtain ⟨rest', stop, same⟩ := Option.map_eq_some_iff.1 h
    cases same
    have shorter := s.shortens read
    have skipped := length_skip_le middle
    have behind := length_le_of_behindItem? stop
    simp only at shorter skipped behind
    omega

/-- Items between commas up to a closing character. A comma may stand behind the last one, and spaces
between any two of these. -/
def listed (s : Scanner α) (close : Char) : Scanner (List α) where
  scan text := (s.item close).valuesUpTo close (skip text)
  shortens h := Nat.lt_of_lt_of_le (length_lt_of_valuesUpTo h) (length_skip_le _)

variable {s : Scanner α} {spell : α → List Char} {close : Char}

theorem scan_item_comma {spelling rest : List Char} {a : α} (h : s.Reads spelling a)
    (visible : rest.head? ≠ some ' ') :
    (s.item close).scan (spelling ++ ',' :: ' ' :: rest) = some (a, rest) := by
  have comma : skip (',' :: ' ' :: rest) = ',' :: ' ' :: rest := skip_of_head (by simp)
  have blank : skip (' ' :: rest) = rest :=
    (skip_replicate_append 1 rest).trans (skip_of_head visible)
  simp only [item, h (',' :: ' ' :: rest), Option.bind_some, comma, behindItem?, if_true, blank,
    Option.map_some]

theorem scan_item_close {spelling : List Char} {a : α} (h : s.Reads spelling a) (visible : close ≠ ' ')
    (last : close ≠ ',') (n : Nat) (rest : List Char) :
    (s.item close).scan (spelling ++ (List.replicate n ' ' ++ close :: rest)) =
      some (a, close :: rest) := by
  have stop : skip (List.replicate n ' ' ++ close :: rest) = close :: rest := by
    rw [skip_replicate_append, skip_of_head (by simpa using visible)]
  simp only [item, h (List.replicate n ' ' ++ close :: rest), Option.bind_some, stop, behindItem?,
    if_neg last, if_true, Option.map_some]

/-- A spelling that can stand in a list: it starts neither like the end nor with a space. -/
structure IsItem (s : Scanner α) (close : Char) (spelling : List Char) (a : α) : Prop where
  reads : s.Reads spelling a
  still : spelling.head? ≠ some close
  visible : spelling.head? ≠ some ' '

theorem exists_separated_cons (separator text : List Char) (texts : List (List Char)) :
    ∃ tail, separated separator (text :: texts) = text ++ tail := by
  cases texts with
  | nil => exact ⟨[], (List.append_nil text).symm⟩
  | cons next texts => exact ⟨_, List.append_assoc _ _ _⟩

theorem IsItem.head?_separated {spelling : List Char} {a : α} (h : s.IsItem close spelling a)
    (separator : List Char) (others : List (List Char)) (rest : List Char) :
    (separated separator (spelling :: others) ++ rest).head? ≠ some close ∧
      (separated separator (spelling :: others) ++ rest).head? ≠ some ' ' := by
  obtain ⟨tail, split⟩ := exists_separated_cons separator spelling others
  rw [split, List.append_assoc]
  exact ⟨head?_append_ne h.reads.ne_nil h.still _, head?_append_ne h.reads.ne_nil h.visible _⟩

variable (notBlank : close ≠ ' ') (notComma : close ≠ ',')

include notBlank notComma in
theorem valuesUpTo_separated {a : α} {as : List α} (items : ∀ b ∈ a :: as, s.IsItem close (spell b) b)
    (n : Nat) (rest : List Char) :
    (s.item close).valuesUpTo close
      (separated [',', ' '] ((a :: as).map spell) ++ (List.replicate n ' ' ++ close :: rest)) =
      some (a :: as, rest) := by
  induction as generalizing a with
  | nil =>
    have first := items a List.mem_cons_self
    have read := scan_item_close first.reads notBlank notComma n rest
    rw [List.map_cons, List.map_nil, separated,
      valuesUpTo_of_scan read (head?_append_ne first.reads.ne_nil first.still _), valuesUpTo_close,
      Option.map_some]
  | cons b as ih =>
    have first := items a List.mem_cons_self
    have others := ih fun c hc => items c (List.mem_cons_of_mem _ hc)
    have second := items b (List.mem_cons_of_mem _ List.mem_cons_self)
    have visible := (second.head?_separated [',', ' '] (as.map spell)
      (List.replicate n ' ' ++ close :: rest)).2
    have read : (s.item close).scan _ = _ := scan_item_comma first.reads visible
    have step := valuesUpTo_of_scan read (head?_append_ne first.reads.ne_nil first.still _)
    rw [List.map_cons] at others
    rw [others, Option.map_some] at step
    simpa only [List.map_cons, separated, List.append_assoc, List.cons_append, List.nil_append] using step

include notBlank notComma in
/-- Spelled items are read back, whatever stands behind the closing character. -/
theorem reads_separated {as : List α} (items : ∀ a ∈ as, s.IsItem close (spell a) a) (n : Nat) :
    (s.listed close).Reads
      (separated [',', ' '] (as.map spell) ++ (List.replicate n ' ' ++ [close])) as := by
  intro rest
  have shape : ∀ front : List Char, front ++ (List.replicate n ' ' ++ [close]) ++ rest =
      front ++ (List.replicate n ' ' ++ close :: rest) := by
    intro front
    rw [List.append_assoc, List.append_assoc, List.singleton_append]
  simp only [shape, listed]
  cases as with
  | nil =>
    have stop : skip (List.replicate n ' ' ++ close :: rest) = close :: rest := by
      rw [skip_replicate_append, skip_of_head (by simpa using notBlank)]
    simp only [List.map_nil, separated, List.nil_append, stop, valuesUpTo_close]
  | cons a as =>
    have visible := ((items a List.mem_cons_self).head?_separated [',', ' '] (as.map spell)
      (List.replicate n ' ' ++ close :: rest)).2
    rw [← List.map_cons] at visible
    rw [skip_of_head visible]
    exact valuesUpTo_separated notBlank notComma items n rest

end Listed

end Scanner

end Descent.Emission
