import Descent.Proofs.Json.Token

/-!
# Values of JSON

The grammar of values, and that every value is passed over, however deep it nests. A value stands here without white
space around it; the items of a list or of an object carry theirs with them.
-/
namespace Descent.Json

/-- What the grammar derives: a value, or the items between two brackets. -/
inductive Phrase
  | value
  | items (b : Bracket)

def Bracket.opening : Bracket → Char
  | .list => '['
  | .object => '\x7b'

/-- What stands in front of the value of an item: white space, and in an object the key and the colon. -/
inductive Lead : Bracket → List Char → Prop
  | list {gap : List Char} : Gap gap → Lead .list gap
  | object {front key middle back : List Char} : Gap front → Content key → Gap middle → Gap back →
    Lead .object (front ++ (quoted key ++ (middle ++ ':' :: back)))

/-- The grammar. Between brackets there is white space only, or items with commas between them. -/
inductive Derives : Phrase → List Char → Prop
  | null : Derives .value ['n', 'u', 'l', 'l']
  | true : Derives .value ['t', 'r', 'u', 'e']
  | false : Derives .value ['f', 'a', 'l', 's', 'e']
  | number {n : Number} {text : List Char} : n.Writes text → Derives .value text
  | string {content : List Char} : Content content → Derives .value (quoted content)
  | empty {b : Bracket} {gap : List Char} : Gap gap → Derives .value (b.opening :: (gap ++ [b.closing]))
  | bracket {b : Bracket} {items : List Char} : Derives (.items b) items →
    Derives .value (b.opening :: (items ++ [b.closing]))
  | last {b : Bracket} {front item gap : List Char} : Lead b front → Derives .value item → Gap gap →
    Derives (.items b) (front ++ (item ++ gap))
  | more {b : Bracket} {front item gap others : List Char} : Lead b front → Derives .value item → Gap gap →
    Derives (.items b) others → Derives (.items b) (front ++ (item ++ (gap ++ ',' :: others)))

/-- A text that is a value of JSON. -/
abbrev IsValue (text : List Char) : Prop := Derives .value text

variable {b : Bracket} {outer : List Bracket} {c : Char} {text gap rest body front : List Char} {phrase : Phrase}

theorem isBlank_of_startsNumber (starts : startsNumber c = true) : isBlank c = false ∧ c ≠ ']' := by
  have other : ∀ d, startsNumber d = false → c ≠ d := by
    rintro d none rfl
    rw [none] at starts
    cases starts
  refine ⟨?_, other _ rfl⟩
  simp only [isBlank, Bool.or_eq_false_iff, beq_eq_false_iff_ne]
  exact ⟨⟨⟨other _ rfl, other _ rfl⟩, other _ rfl⟩, other _ rfl⟩

/-- White space and what closes or parts items ends a number. -/
theorem ends_gap_cons (blank : Gap gap) (ends : Ends (c :: rest)) : Ends (gap ++ c :: rest) := by
  cases gap with
  | nil => exact ends
  | cons d gap =>
    intro e first
    cases first
    have isSpace : isBlank d = true := blank d List.mem_cons_self
    simp only [isBlank, Bool.or_eq_true, beq_iff_eq] at isSpace
    rcases isSpace with ((rfl | rfl) | rfl) | rfl <;> decide

theorem ends_comma (rest : List Char) : Ends (',' :: rest) := by
  rintro c ⟨⟩
  decide

theorem ends_closing (b : Bracket) (rest : List Char) : Ends (b.closing :: rest) := by
  rintro c ⟨⟩
  cases b <;> decide

theorem Number.Writes.exists_cons {n : Number} (writes : n.Writes text) :
    ∃ c tail, text = c :: tail ∧ startsNumber c = true := by
  obtain ⟨digits, -, fraction, exponent, -, -, rfl⟩ := writes
  cases n.negative with
  | true => exact ⟨'-', _, rfl, rfl⟩
  | false =>
    obtain ⟨d, others, whole⟩ := List.exists_cons_of_ne_nil digits.nonempty
    have first : d.isDigit = true := digits.digits d (whole ▸ List.mem_cons_self)
    refine ⟨d, others ++ (fraction ++ exponent), ?_, ?_⟩
    · rw [whole]
      rfl
    · rw [startsNumber, first, Bool.or_true]

/-- A value starts with a visible character that closes no list. -/
theorem IsValue.exists_cons (value : IsValue text) :
    ∃ c tail, text = c :: tail ∧ isBlank c = false ∧ c ≠ ']' := by
  cases value with
  | null => exact ⟨'n', _, rfl, rfl, by decide⟩
  | true => exact ⟨'t', _, rfl, rfl, by decide⟩
  | false => exact ⟨'f', _, rfl, rfl, by decide⟩
  | number writes =>
    obtain ⟨c, tail, rfl, starts⟩ := writes.exists_cons
    exact ⟨c, tail, rfl, isBlank_of_startsNumber starts⟩
  | string _ => exact ⟨'"', _, rfl, rfl, by decide⟩
  | @empty b _ _ | @bracket b _ _ => exact ⟨b.opening, _, rfl, by cases b <;> decide⟩

section Steps

theorem enter_gap_cons (blank : Gap gap) (visible : isBlank c = false) (other : startsNumber c = false)
    (rest : List Char) : enter (gap ++ c :: rest) = enterAt c rest := by
  rw [enter, skipBlanks_gap_cons blank visible]
  exact if_neg (Bool.eq_false_iff.1 other)

theorem enter_number {n : Number} (blank : Gap gap) (writes : n.Writes text) (ends : Ends rest) :
    enter (gap ++ (text ++ rest)) = .ok (none, rest) := by
  have read : number .malformed (text ++ rest) = .ok (n, rest) := number_append writes ends
  obtain ⟨c, tail, rfl, starts⟩ := writes.exists_cons
  rw [List.cons_append] at read ⊢
  rw [enter, skipBlanks_gap_cons blank (isBlank_of_startsNumber starts).1]
  simp only [starts, if_true, read, Except.map]

theorem skipFrom_value (outer : List Bracket) (text : List Char) :
    skipFrom .value outer text = (do
      match ← enter text with
      | (some b, rest) => skipFrom .opened (b :: outer) rest
      | (none, rest) => skipFrom .behind outer rest) := by
  rw [skipFrom]
  split <;> rename_i entered <;> rw [entered] <;> rfl

theorem skipFrom_value_scalar (entered : enter text = .ok (none, rest)) :
    skipFrom .value outer text = skipFrom .behind outer rest := by
  rw [skipFrom_value, entered]
  rfl

theorem skipFrom_value_bracket (entered : enter text = .ok (some b, rest)) :
    skipFrom .value outer text = skipFrom .opened (b :: outer) rest := by
  rw [skipFrom_value, entered]
  rfl

theorem skipFrom_behind_nil (rest : List Char) : skipFrom .behind [] rest = .ok rest := by
  rw [skipFrom]
  rintro ⟨⟩

theorem closing_visible (b : Bracket) : isBlank b.closing = false ∧ b.closing ≠ ',' := by
  cases b <;> decide

theorem skipFrom_behind (start : skipBlanks text = c :: rest) :
    skipFrom .behind (b :: outer) text =
      if c = ',' then lead b rest >>= skipFrom .value (b :: outer)
      else if c = b.closing then skipFrom .behind outer rest else .error .malformed := by
  rw [skipFrom]
  split
  · rename_i none
    rw [none] at start
    cases start
  · rename_i same
    rw [start] at same
    cases same
    split
    · split <;> rename_i led <;> rw [led] <;> rfl
    · rfl

theorem skipFrom_opened (start : skipBlanks text = c :: rest) :
    skipFrom .opened (b :: outer) text =
      if c = b.closing then skipFrom .behind outer rest else lead b text >>= skipFrom .value (b :: outer) := by
  rw [skipFrom]
  split
  · rename_i none
    rw [none] at start
    cases start
  · rename_i same
    rw [start] at same
    cases same
    split
    · rfl
    · split <;> rename_i led <;> rw [led] <;> rfl

theorem skipFrom_behind_closing (blank : Gap gap) (rest : List Char) :
    skipFrom .behind (b :: outer) (gap ++ b.closing :: rest) = skipFrom .behind outer rest := by
  rw [skipFrom_behind (skipBlanks_gap_cons blank (closing_visible b).1 rest), if_neg (closing_visible b).2, if_pos rfl]

theorem skipFrom_behind_comma (blank : Gap gap) (led : lead b rest = .ok body) :
    skipFrom .behind (b :: outer) (gap ++ ',' :: rest) = skipFrom .value (b :: outer) body := by
  rw [skipFrom_behind (skipBlanks_gap_cons blank (by decide) rest), if_pos rfl, led]
  rfl

theorem skipFrom_opened_closing (blank : Gap gap) (rest : List Char) :
    skipFrom .opened (b :: outer) (gap ++ b.closing :: rest) = skipFrom .behind outer rest := by
  rw [skipFrom_opened (skipBlanks_gap_cons blank (closing_visible b).1 rest), if_pos rfl]

theorem skipFrom_opened_item (start : skipBlanks text = c :: rest) (more : c ≠ b.closing)
    (led : lead b text = .ok body) : skipFrom .opened (b :: outer) text = skipFrom .value (b :: outer) body := by
  rw [skipFrom_opened start, if_neg more, led]
  rfl

/-- Behind what stands in front of an item comes its value, with white space in front at most. -/
theorem lead_append (leading : Lead b front) (rest : List Char) :
    ∃ gap, Gap gap ∧ lead b (front ++ rest) = .ok (gap ++ rest) := by
  cases leading with
  | list blank => exact ⟨_, blank, rfl⟩
  | @object front key middle back hfront content hmiddle hback =>
    refine ⟨back, hback, ?_⟩
    have start : skipBlanks (front ++ (quoted key ++ (middle ++ ':' :: back)) ++ rest) =
        '"' :: (key ++ '"' :: (middle ++ ':' :: (back ++ rest))) := by
      simp only [quoted, List.append_assoc, List.cons_append, List.nil_append]
      exact skipBlanks_gap_cons hfront (by decide) _
    rw [lead, start]
    show skipString _ >>= colon = _
    rw [skipString_append content]
    exact colon_gap_append hmiddle _

/-- An item does not start as its bracket is closed. -/
theorem start_of_lead {item : List Char} (leading : Lead b front) (value : IsValue item) (rest : List Char) :
    ∃ c tail, skipBlanks (front ++ (item ++ rest)) = c :: tail ∧ c ≠ b.closing := by
  cases leading with
  | list blank =>
    obtain ⟨c, tail, rfl, visible, noClosing⟩ := value.exists_cons
    exact ⟨c, tail ++ rest, skipBlanks_gap_cons blank visible _, noClosing⟩
  | @object front key middle back hfront _ _ _ =>
    refine ⟨'"', key ++ '"' :: (middle ++ ':' :: (back ++ (item ++ rest))), ?_, by decide⟩
    simp only [quoted, List.append_assoc, List.cons_append, List.nil_append]
    exact skipBlanks_gap_cons hfront (by decide) _

end Steps

section Skipping

/-- What skipping does at a phrase: a value is passed, and so are the items up to the closing bracket, behind a comma
and behind the opening bracket. -/
def Passed : Phrase → List Char → Prop
  | .value, text => ∀ gap outer rest, Gap gap → Ends rest →
    skipFrom .value outer (gap ++ (text ++ rest)) = skipFrom .behind outer rest
  | .items b, text => ∀ outer rest,
    (∃ body, lead b (text ++ b.closing :: rest) = .ok body ∧
      skipFrom .value (b :: outer) body = skipFrom .behind outer rest) ∧
    skipFrom .opened (b :: outer) (text ++ b.closing :: rest) = skipFrom .behind outer rest

theorem enter_bracket (b : Bracket) (blank : Gap gap) (rest : List Char) :
    enter (gap ++ b.opening :: rest) = .ok (some b, rest) := by
  cases b <;> exact enter_gap_cons blank (by decide) (by decide) rest

theorem passed_scalar {tail : List Char} (visible : isBlank c = false) (other : startsNumber c = false)
    (entered : ∀ rest, enterAt c (tail ++ rest) = .ok (none, rest)) : Passed .value (c :: tail) := by
  intro gap outer rest blank _
  apply skipFrom_value_scalar
  rw [List.cons_append, enter_gap_cons blank visible other, entered]

theorem passed_word {letters : List Char} (visible : isBlank c = false) (other : startsNumber c = false)
    (entered : ∀ rest, enterAt c rest = (word letters rest).map (none, ·)) : Passed .value (c :: letters) := by
  apply passed_scalar visible other
  intro rest
  rw [entered, word_append]
  rfl

/-- An item in front of what passes is passed with it. -/
theorem passed_item {item behind : List Char} (leading : Lead b front) (value : IsValue item)
    (passed : Passed .value item)
    (goesOn : ∀ outer rest, Ends (behind ++ b.closing :: rest) ∧
      skipFrom .behind (b :: outer) (behind ++ b.closing :: rest) = skipFrom .behind outer rest) :
    Passed (.items b) (front ++ (item ++ behind)) := by
  intro outer rest
  obtain ⟨ends, rests⟩ := goesOn outer rest
  obtain ⟨gap, blank, led⟩ := lead_append leading (item ++ (behind ++ b.closing :: rest))
  obtain ⟨c, tail, start, more⟩ := start_of_lead leading value (behind ++ b.closing :: rest)
  have value : skipFrom .value (b :: outer) (gap ++ (item ++ (behind ++ b.closing :: rest))) =
      skipFrom .behind outer rest := (passed gap _ _ blank ends).trans rests
  rw [List.append_assoc, List.append_assoc]
  exact ⟨⟨_, led, value⟩, (skipFrom_opened_item start more led).trans value⟩

theorem passed_of_derives (derives : Derives phrase text) : Passed phrase text := by
  -- on the derivation, for any brackets around it: those of a value are open around its items
  induction derives with
  | null => exact passed_word (by decide) (by decide) fun _ => rfl
  | true => exact passed_word (by decide) (by decide) fun _ => rfl
  | false => exact passed_word (by decide) (by decide) fun _ => rfl
  | number writes => exact fun gap outer rest blank ends => skipFrom_value_scalar (enter_number blank writes ends)
  | @string content hcontent =>
    apply passed_scalar (by decide) (by decide)
    intro rest
    rw [List.append_assoc]
    show (skipString (content ++ '"' :: rest)).map _ = _
    rw [skipString_append hcontent]
    rfl
  | @empty b inside hinside =>
    intro gap outer rest blank _
    rw [List.cons_append, List.append_assoc, List.singleton_append, skipFrom_value_bracket (enter_bracket b blank _)]
    exact skipFrom_opened_closing hinside rest
  | @bracket b items _ ih =>
    intro gap outer rest blank _
    rw [List.cons_append, List.append_assoc, List.singleton_append, skipFrom_value_bracket (enter_bracket b blank _)]
    exact (ih outer rest).2
  | last leading value blank ih =>
    refine passed_item leading value ih fun outer rest => ⟨ends_gap_cons blank (ends_closing _ rest), ?_⟩
    exact skipFrom_behind_closing blank rest
  | more leading value blank _ ih ihOthers =>
    refine passed_item leading value ih fun outer rest => ?_
    rw [List.append_assoc, List.cons_append]
    obtain ⟨⟨body, led, others⟩, -⟩ := ihOthers outer rest
    exact ⟨ends_gap_cons blank (ends_comma _), (skipFrom_behind_comma blank led).trans others⟩

/-- Every value of JSON is passed over. -/
theorem skipValue_append (blank : Gap gap) (value : IsValue text) (ends : Ends rest) :
    skipValue (gap ++ (text ++ rest)) = .ok rest :=
  (passed_of_derives value gap [] rest blank ends).trans (skipFrom_behind_nil rest)

end Skipping

end Descent.Json
