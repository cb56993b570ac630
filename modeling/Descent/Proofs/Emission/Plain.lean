import Descent.Emission.C
import Descent.Emission.Rust
import Descent.Emission.Source

/-!
# Emitted lines are printable

Every line of an emitted program consists of printable ASCII, whatever the grammar holds: a name, a symbol or a
pattern is spelled with escapes for everything else. So no line contains a newline.
-/
namespace Descent.Emission

def Plain (cs : List Char) : Prop := ∀ c ∈ cs, isPlain c = true

instance (cs : List Char) : Decidable (Plain cs) :=
  decidable_of_iff (cs.all isPlain = true) List.all_eq_true

theorem plain_nil : Plain [] := fun _ h => absurd h List.not_mem_nil

theorem plain_cons {c : Char} {cs : List Char} : Plain (c :: cs) ↔ isPlain c = true ∧ Plain cs :=
  List.forall_mem_cons

theorem plain_append {front back : List Char} : Plain (front ++ back) ↔ Plain front ∧ Plain back :=
  List.forall_mem_append

theorem plain_flatMap {α : Type} {spell : α → List Char} {as : List α} (h : ∀ a ∈ as, Plain (spell a)) :
    Plain (as.flatMap spell) := by
  intro c hc
  obtain ⟨a, ha, hc⟩ := List.mem_flatMap.1 hc
  exact h a ha c hc

theorem plain_separated {separator : List Char} (hs : Plain separator) {texts : List (List Char)}
    (h : ∀ text ∈ texts, Plain text) : Plain (separated separator texts) := by
  induction texts with
  | nil => exact plain_nil
  | cons text texts ih =>
    have first := h text List.mem_cons_self
    have others := ih fun t ht => h t (List.mem_cons_of_mem _ ht)
    cases texts with
    | nil => exact first
    | cons next texts => exact plain_append.2 ⟨plain_append.2 ⟨first, hs⟩, others⟩

section Digits

theorem isPlain_hexDigit : ∀ n, n < 16 → isPlain (Text.hexDigit n) = true := by decide

theorem isPlain_digitChar : ∀ n, n < 16 → isPlain (Nat.digitChar n) = true := by decide

theorem plain_hexPair (b : UInt8) : Plain (Text.hexPair b) := by
  have bound : b.toNat < 256 := b.toNat_lt
  have high := isPlain_hexDigit (b.toNat / 16) (by omega)
  have low := isPlain_hexDigit (b.toNat % 16) (by omega)
  exact plain_cons.2 ⟨high, plain_cons.2 ⟨low, plain_nil⟩⟩

theorem plain_octalTriple (b : UInt8) : Plain (Text.octalTriple b) := by
  have bound : b.toNat < 256 := b.toNat_lt
  have high := isPlain_hexDigit (b.toNat / 64) (by omega)
  have middle := isPlain_hexDigit (b.toNat / 8 % 8) (by omega)
  have low := isPlain_hexDigit (b.toNat % 8) (by omega)
  exact plain_cons.2 ⟨high, plain_cons.2 ⟨middle, plain_cons.2 ⟨low, plain_nil⟩⟩⟩

theorem plain_toDigits {base : Nat} (low : 2 ≤ base) (high : base ≤ 16) (n : Nat) :
    Plain (Nat.toDigits base n) := by
  induction n using Nat.strongRecOn with
  | ind n ih =>
    by_cases small : n < base
    · rw [Nat.toDigits_of_lt_base small]
      exact plain_cons.2 ⟨isPlain_digitChar n (by omega), plain_nil⟩
    · have last : n % base < base := Nat.mod_lt _ (by omega)
      have shorter : n / base < n := Nat.div_lt_self (by omega) (by omega)
      rw [Nat.toDigits_eq_if low, if_neg small]
      exact plain_append.2 ⟨ih _ shorter, plain_cons.2 ⟨isPlain_digitChar _ (by omega), plain_nil⟩⟩

theorem plain_toString (n : Nat) : Plain (toString n).toList := by
  rw [Nat.toString_eq_repr, Nat.repr_eq_ofList_toDigits, String.toList_ofList]
  exact plain_toDigits (by decide) (by decide) n

end Digits

section Spellings

theorem isPlain_of_shortEscape? {c letter : Char} (h : shortEscape? c = some letter) : isPlain letter = true := by
  unfold shortEscape? at h
  split at h
  case h_7 => cases h
  all_goals
    cases h
    decide

theorem plain_short {letter : Char} (h : isPlain letter = true) : Plain ['\\', letter] :=
  plain_cons.2 ⟨by decide, plain_cons.2 ⟨h, plain_nil⟩⟩

theorem plain_nameChar (c : Char) : Plain (nameChar c) := by
  unfold nameChar
  cases short : shortEscape? c with
  | some letter => exact plain_short (isPlain_of_shortEscape? short)
  | none =>
    by_cases plain : isPlain c = true
    · simp only [if_pos plain]
      exact plain_cons.2 ⟨plain, plain_nil⟩
    · simp only [if_neg plain]
      have digits : Plain (Text.hexDigits c.toNat) := plain_toDigits (by decide) (by decide) c.toNat
      have start : Plain (['\\', 'u', '\x7b'] ++ Text.hexDigits c.toNat) :=
        plain_append.2 ⟨by decide, digits⟩
      exact plain_append.2 ⟨start, by decide⟩

theorem plain_nameText (name : Option String) : Plain (nameText name) := by
  have unnamed : Plain "<unnamed>".toList := by decide
  unfold nameText
  split
  · exact unnamed
  · rename_i name
    by_cases empty : name.isEmpty = true
    · rw [if_pos empty]
      exact unnamed
    · rw [if_neg empty]
      exact plain_flatMap fun c _ => plain_nameChar c

theorem plain_asciiByte (b : Symbol) : Plain (asciiByte b) := by
  unfold asciiByte
  cases short : shortEscape? b.char with
  | some letter => exact plain_short (isPlain_of_shortEscape? short)
  | none =>
    by_cases plain : isPlain b.char = true
    · simp only [if_pos plain]
      exact plain_cons.2 ⟨plain, plain_nil⟩
    · simp only [if_neg plain]
      exact plain_cons.2 ⟨by decide, plain_cons.2 ⟨by decide, plain_hexPair b⟩⟩

theorem plain_cByte {quote : Char} (hq : isPlain quote = true) (b : Symbol) : Plain (cByte quote b) := by
  unfold cByte
  by_cases special : b.char = '\\' ∨ b.char = '?' ∨ b.char = quote
  · have plain : isPlain b.char = true := by
      rcases special with h | h | h
      · rw [h]; decide
      · rw [h]; decide
      · rw [h]; exact hq
    simp only [if_pos special]
    exact plain_short plain
  · by_cases plain : isPlain b.char = true
    · simp only [if_neg special, if_pos plain]
      exact plain_cons.2 ⟨plain, plain_nil⟩
    · simp only [if_neg special, if_neg plain]
      exact plain_cons.2 ⟨by decide, plain_octalTriple b⟩

/-- Bytes between two quotes, with anything plain in front. -/
theorem plain_between {spell : Symbol → List Char} (h : ∀ b, Plain (spell b)) {front back : List Char}
    (hf : Plain front) (hb : Plain back) (bytes : List UInt8) : Plain (front ++ bytes.flatMap spell ++ back) :=
  plain_append.2 ⟨plain_append.2 ⟨hf, plain_flatMap fun b _ => h b⟩, hb⟩

theorem plain_rustBytes (bytes : List UInt8) : Plain (rustBytes bytes) := by
  have front : Plain ['b', '"'] := by decide
  have back : Plain ['"'] := by decide
  exact plain_between plain_asciiByte front back bytes

theorem plain_cString (bytes : List UInt8) : Plain (cString bytes) := by
  have quote : Plain ['"'] := by decide
  exact plain_between (plain_cByte (by decide)) quote quote bytes

theorem plain_quoted (rhs : List UInt8) : Plain (quoted rhs) := by
  have quote : Plain ['"'] := by decide
  exact plain_between plain_asciiByte quote quote rhs

theorem plain_rustByte (b : Symbol) : Plain (rustByte b) := by
  have front : Plain (['b', '\''] ++ asciiByte b) := plain_append.2 ⟨by decide, plain_asciiByte b⟩
  exact plain_append.2 ⟨front, by decide⟩

theorem plain_cChar (b : Symbol) : Plain (cChar b) := by
  have front : Plain (['\''] ++ cByte '\'' b) := plain_append.2 ⟨by decide, plain_cByte (by decide) b⟩
  exact plain_append.2 ⟨front, by decide⟩

theorem plain_shown (s : Symbol) : Plain s.shown := by
  unfold Symbol.shown
  by_cases graphic : s.isGraphic = true
  · rw [if_pos graphic]
    simp only [Symbol.isGraphic, Bool.and_eq_true, decide_eq_true_eq, UInt8.le_iff_toNat_le,
      UInt8.reduceToNat] at graphic
    have value : s.char.toNat = s.toNat := rfl
    refine plain_cons.2 ⟨?_, plain_nil⟩
    simp only [isPlain, Bool.and_eq_true, decide_eq_true_eq]
    omega
  · rw [if_neg graphic]
    exact plain_cons.2 ⟨by decide, plain_cons.2 ⟨by decide, plain_hexPair s⟩⟩

theorem plain_ident (s : Symbol) : Plain s.ident := by
  unfold Symbol.ident
  by_cases alphanumeric : s.isAlphanumeric = true
  · rw [if_pos alphanumeric]
    simp only [Symbol.isAlphanumeric, Bool.or_eq_true, Bool.and_eq_true, decide_eq_true_eq,
      UInt8.le_iff_toNat_le, UInt8.reduceToNat] at alphanumeric
    have value : s.char.toNat = s.toNat := rfl
    refine plain_cons.2 ⟨?_, plain_nil⟩
    simp only [isPlain, Bool.and_eq_true, decide_eq_true_eq]
    omega
  · rw [if_neg alphanumeric]
    exact plain_cons.2 ⟨by decide, plain_hexPair s⟩

theorem plain_summary (r : Rule) : Plain (summary r) := by
  have colon : Plain [':', ' '] := by decide
  have left : Plain (r.symbol.shown ++ [':', ' ']) := plain_append.2 ⟨plain_shown r.symbol, colon⟩
  unfold summary
  refine plain_append.2 ⟨left, ?_⟩
  by_cases none : r.alternatives.isEmpty = true
  · have empty : Plain "(no alternatives)".toList := by decide
    rw [if_pos none]
    exact empty
  · have bar : Plain [' ', '|', ' '] := by decide
    rw [if_neg none]
    refine plain_separated bar fun text ht => ?_
    obtain ⟨rhs, -, rfl⟩ := List.mem_map.1 ht
    exact plain_quoted rhs

end Spellings

section Lines

/-- Lines of printable characters. -/
def PlainLines (lines : List String) : Prop := ∀ line ∈ lines, Plain line.toList

theorem plain_toList_append {front back : String} :
    Plain (front ++ back).toList ↔ Plain front.toList ∧ Plain back.toList := by
  rw [String.toList_append, plain_append]

theorem plain_toList_ofList {cs : List Char} : Plain (String.ofList cs).toList ↔ Plain cs := by
  rw [String.toList_ofList]

theorem plainLines_cons {line : String} {lines : List String} :
    PlainLines (line :: lines) ↔ Plain line.toList ∧ PlainLines lines :=
  List.forall_mem_cons

theorem plainLines_nil : PlainLines [] := fun _ h => absurd h List.not_mem_nil

theorem plainLines_append {front back : List String} :
    PlainLines (front ++ back) ↔ PlainLines front ∧ PlainLines back :=
  List.forall_mem_append

theorem plainLines_indent {lines : List String} : PlainLines (indent lines) ↔ PlainLines lines := by
  have blanks : Plain "    ".toList := by decide
  have indented : ∀ line : String,
      Plain (if line.isEmpty then line else "    " ++ line).toList ↔ Plain line.toList := by
    intro line
    by_cases empty : line.isEmpty = true
    · rw [if_pos empty]
    · rw [if_neg empty, plain_toList_append]
      exact and_iff_right blanks
  simp only [PlainLines, indent, List.forall_mem_map, indented]

theorem plainLines_opened {head : String} {body : List String} :
    PlainLines (opened head body) ↔ Plain head.toList ∧ PlainLines body := by
  have brace : Plain " \x7b".toList := by decide
  simp only [opened, plainLines_cons, plain_toList_append, plainLines_indent, brace, and_true]

theorem plainLines_blockThen {head behind : String} {body : List String} :
    PlainLines (blockThen head body behind) ↔
      (Plain head.toList ∧ PlainLines body) ∧ Plain behind.toList := by
  have brace : Plain "\x7d".toList := by decide
  simp only [blockThen, plainLines_append, plainLines_opened, plainLines_cons, plain_toList_append, brace,
    plainLines_nil, true_and, and_true]

theorem plainLines_block {head : String} {body : List String} :
    PlainLines (block head body) ↔ Plain head.toList ∧ PlainLines body := by
  rw [block, plainLines_blockThen]
  exact and_iff_left plain_nil

theorem plainLines_function {head : String} {body : List String} :
    PlainLines (function head body) ↔ Plain head.toList ∧ PlainLines body := by
  have opening : Plain "\x7b".toList := by decide
  have closing : Plain "\x7d".toList := by decide
  simp only [function, plainLines_cons, plainLines_append, plainLines_indent, opening, closing, plainLines_nil,
    true_and, and_true]

theorem plain_literal {cs : List Char} (h : cs.all isPlain = true) : Plain (String.ofList cs).toList :=
  plain_toList_ofList.2 (List.all_eq_true.1 h)

theorem plainLines_opening (R : Ruleset) : PlainLines (opening R) := by
  unfold opening
  simp only [plainLines_cons, plain_toList_append, plain_toList_ofList]
  refine ⟨⟨⟨?_, plain_nameText R.name⟩, ?_⟩, ?_, plainLines_nil⟩
  all_goals exact plain_literal (by decide)

theorem plain_routine (s : Symbol) : Plain (routine s).toList := by
  unfold routine
  exact plain_toList_append.2 ⟨plain_literal (by decide), plain_toList_ofList.2 (plain_ident s)⟩

theorem plainLines_remark (r : Rule) (comments : Bool) : PlainLines (remark r comments) := by
  have start : Plain "// ".toList := by decide
  cases comments with
  | false => exact plainLines_nil
  | true =>
    exact plainLines_cons.2
      ⟨plain_toList_append.2 ⟨start, plain_toList_ofList.2 (plain_summary r)⟩, plainLines_nil⟩

/-- A program is plain if its parts are. -/
theorem plainLines_lines {p : Program} (prelude : PlainLines p.prelude) (matcher : PlainLines p.matcher)
    (rules : ∀ rule ∈ p.rules, PlainLines rule) (dispatch : PlainLines p.dispatch) (entry : PlainLines p.entry) :
    PlainLines p.lines := by
  have empty : Plain "".toList := plain_literal (by decide)
  have separated : PlainLines (p.rules.flatMap ("" :: ·)) := by
    intro line hline
    obtain ⟨rule, hrule, hline⟩ := List.mem_flatMap.1 hline
    exact plainLines_cons.2 ⟨empty, rules rule hrule⟩ line hline
  simp only [Program.lines, plainLines_append, plainLines_cons, empty, prelude, matcher, separated, dispatch,
    entry, and_true]

end Lines

namespace Rust

theorem plainLines_prelude (R : Ruleset) : PlainLines (prelude R) := by
  have marker := plain_rustByte R.escape
  have opening := plainLines_opening R
  unfold prelude continuationRemark
  simp only [plainLines_append, plainLines_block, plainLines_cons, plain_toList_append, plain_toList_ofList,
    plainLines_nil, marker, opening, true_and, and_true]
  and_intros
  all_goals exact plain_literal (by decide)

theorem plainLines_decode (mode : EscapeMode) : PlainLines (decode mode) := by
  unfold decode call
  cases mode
  all_goals
    simp only [plainLines_append, plainLines_opened, plainLines_block, plainLines_blockThen, plainLines_cons,
      plainLines_nil, and_true]
    and_intros
    all_goals exact plain_literal (by decide)

theorem plainLines_matcher (R : Ruleset) : PlainLines (matcher R) := by
  have decode := plainLines_decode R.mode
  unfold matcher
  simp only [plainLines_append, plainLines_block, plainLines_cons, plainLines_nil, decode, and_true]
  and_intros
  all_goals exact plain_literal (by decide)

theorem plain_table (r : Rule) : Plain (table r).toList := by
  have items : Plain (separated [',', ' '] (r.rights.map rustBytes)) := by
    refine plain_separated (by decide) fun text ht => ?_
    obtain ⟨rhs, -, rfl⟩ := List.mem_map.1 ht
    exact plain_rustBytes rhs
  unfold table
  simp only [plain_toList_append, plain_toList_ofList, plain_toString, items, and_true]
  and_intros
  all_goals exact plain_literal (by decide)

theorem plainLines_rule (comments : Bool) (r : Rule) : PlainLines (rule comments r) := by
  have remark := plainLines_remark r comments
  unfold rule
  simp only [plainLines_append, plainLines_block, plainLines_blockThen, plainLines_cons, plainLines_nil,
    plain_toList_append, plain_routine, plain_table, remark, true_and, and_true]
  and_intros
  all_goals exact plain_literal (by decide)

theorem plain_tableEntry (r : Rule) : Plain (tableEntry r).toList := by
  unfold tableEntry
  simp only [plain_toList_append, plain_toList_ofList, plain_rustByte, plain_routine, and_true]
  and_intros
  all_goals exact plain_literal (by decide)

theorem plainLines_dispatch (R : Ruleset) : PlainLines (dispatch R) := by
  have entries : PlainLines (R.rules.map tableEntry) :=
    List.forall_mem_map.2 fun r _ => plain_tableEntry r
  unfold dispatch
  simp only [plainLines_append, plainLines_blockThen, plainLines_cons, plainLines_nil, entries, and_true]
  and_intros
  all_goals exact plain_literal (by decide)

theorem plainLines_entry (R : Ruleset) : PlainLines (entry R) := by
  unfold entry
  simp only [plainLines_append, plainLines_block, plainLines_blockThen, plainLines_opened, plainLines_cons,
    plainLines_nil, plain_toList_append, plain_routine, true_and, and_true]
  and_intros
  all_goals exact plain_literal (by decide)

theorem plainLines_program (R : Ruleset) (comments : Bool) : PlainLines (program R comments).lines :=
  plainLines_lines (plainLines_prelude R) (plainLines_matcher R)
    (List.forall_mem_map.2 fun r _ => plainLines_rule comments r) (plainLines_dispatch R) (plainLines_entry R)

end Rust

namespace C

theorem plain_routineHead (s : Symbol) : Plain (routineHead s).toList := by
  unfold routineHead
  simp only [plain_toList_append, plain_routine, and_true]
  and_intros
  all_goals exact plain_literal (by decide)

theorem plainLines_prelude (R : Ruleset) : PlainLines (prelude R) := by
  have marker := plain_cChar R.escape
  have opening := plainLines_opening R
  have semicolon : Plain ";".toList := by decide
  have declarations : PlainLines (R.rules.map fun r => routineHead r.symbol ++ ";") :=
    List.forall_mem_map.2 fun r _ => plain_toList_append.2 ⟨plain_routineHead r.symbol, semicolon⟩
  unfold prelude continuationRemark
  simp only [plainLines_append, plainLines_blockThen, plainLines_cons, plain_toList_append, plain_toList_ofList,
    plainLines_nil, marker, opening, declarations, true_and, and_true]
  and_intros
  all_goals exact plain_literal (by decide)

theorem plainLines_decode (mode : EscapeMode) : PlainLines (decode mode) := by
  unfold decode call
  cases mode
  all_goals
    simp only [plainLines_append, plainLines_opened, plainLines_block, plainLines_cons,
      plainLines_nil, and_true]
    and_intros
    all_goals exact plain_literal (by decide)

theorem plainLines_matcher (R : Ruleset) : PlainLines (matcher R) := by
  have decode := plainLines_decode R.mode
  unfold matcher
  simp only [plainLines_append, plainLines_function, plainLines_block, plainLines_cons, plainLines_nil, decode,
    and_true]
  and_intros
  all_goals exact plain_literal (by decide)

theorem plain_table (r : Rule) : Plain (table r).toList := by
  have items : Plain (r.rights.flatMap fun rhs => cString rhs ++ [',', ' ']) :=
    plain_flatMap fun rhs _ => plain_append.2 ⟨plain_cString rhs, by decide⟩
  unfold table
  simp only [plain_toList_append, plain_toList_ofList, items, and_true]
  and_intros
  all_goals exact plain_literal (by decide)

theorem plainLines_rule (comments : Bool) (r : Rule) : PlainLines (rule comments r) := by
  have remark := plainLines_remark r comments
  unfold rule
  simp only [plainLines_append, plainLines_function, plainLines_block, plainLines_cons, plainLines_nil,
    plain_routineHead, plain_table, remark, true_and, and_true]
  and_intros
  all_goals exact plain_literal (by decide)

theorem plain_tableEntry (r : Rule) : Plain (tableEntry r).toList := by
  unfold tableEntry
  simp only [plain_toList_append, plain_toList_ofList, plain_hexPair, plain_routine, and_true]
  and_intros
  all_goals exact plain_literal (by decide)

theorem plainLines_dispatch (R : Ruleset) : PlainLines (dispatch R) := by
  have entries : PlainLines (R.rules.map tableEntry) :=
    List.forall_mem_map.2 fun r _ => plain_tableEntry r
  unfold dispatch
  simp only [plainLines_blockThen, entries, and_true]
  and_intros
  all_goals exact plain_literal (by decide)

theorem plainLines_entry (R : Ruleset) : PlainLines (entry R) := by
  unfold entry
  simp only [plainLines_append, plainLines_function, plainLines_block, plainLines_cons, plainLines_nil,
    plain_toList_append, plain_routine, and_true]
  and_intros
  all_goals exact plain_literal (by decide)

theorem plainLines_program (R : Ruleset) (comments : Bool) : PlainLines (program R comments).lines :=
  plainLines_lines (plainLines_prelude R) (plainLines_matcher R)
    (List.forall_mem_map.2 fun r _ => plainLines_rule comments r) (plainLines_dispatch R) (plainLines_entry R)

end C

/-- Every line of a program is printable, whatever its ruleset holds. -/
theorem plainLines_program (t : Target) (R : Ruleset) (comments : Bool) :
    PlainLines (t.program R comments).lines := by
  cases t with
  | rust => exact Rust.plainLines_program R comments
  | c => exact C.plainLines_program R comments

end Descent.Emission
