import Descent.Proofs.Emission.Determined

/-!
# Emitted text stays in its place

What a grammar holds reaches an emitted program at many places, but it never adds a line, a character that is not
printable, or an end of a comment by which the next line would become part of it.
-/
namespace Descent

namespace Emission

section Counts

/-- The lines of a program without rules. -/
def frameLines : Target → EscapeMode → Nat
  | .rust, .literal => 86
  | .rust, .skip => 79
  | .c, .literal => 71
  | .c, .skip => 70

/-- The lines that one rule adds to a program. -/
def ruleLines (comments : Bool) : Nat := if comments then 16 else 15

/-- The lines of a program with so many rules. -/
def lineCount (t : Target) (mode : EscapeMode) (comments : Bool) (rules : Nat) : Nat :=
  frameLines t mode + rules * ruleLines comments

/-- The lines of a program from those of its parts, its rules being of one length. -/
theorem length_lines {p : Program} {α : Type} {rules : List α} {rule : α → List String} {n : Nat}
    (split : p.rules = rules.map rule) (h : ∀ a, (rule a).length = n) :
    p.lines.length = p.prelude.length + p.matcher.length + p.dispatch.length + p.entry.length + 3 +
      rules.length * (n + 1) := by
  have parted : (p.rules.flatMap ("" :: ·)).length = rules.length * (n + 1) := by
    rw [split, List.flatMap_map, List.length_flatMap]
    simp only [List.length_cons, h, List.map_const', List.sum_replicate_nat]
  simp only [Program.lines, List.length_append, List.length_cons, parted]
  omega

theorem Rust.length_matcher (R : Ruleset) :
    (Rust.matcher R).length = if R.mode = .literal then 35 else 28 := by
  obtain ⟨_, _, _, mode, _⟩ := R
  cases mode <;> rfl

theorem Rust.length_dispatch (R : Ruleset) : (Rust.dispatch R).length = R.rules.length + 4 := by
  simp [Rust.dispatch]

theorem Rust.length_entry (R : Ruleset) : (Rust.entry R).length = 26 := rfl

theorem C.length_prelude (R : Ruleset) : (C.prelude R).length = R.rules.length + 18 := by
  simp [C.prelude, length_opening]
  omega

theorem C.length_matcher (R : Ruleset) : (C.matcher R).length = if R.mode = .literal then 27 else 26 := by
  obtain ⟨_, _, _, mode, _⟩ := R
  cases mode <;> rfl

theorem C.length_dispatch (R : Ruleset) : (C.dispatch R).length = R.rules.length + 2 := by
  simp [C.dispatch]

theorem C.length_entry (R : Ruleset) : (C.entry R).length = 21 := rfl

/-- How many lines a program has is a matter of its target, its escape mode, its comments and how many rules it
has. -/
theorem length_program (t : Target) (R : Ruleset) (comments : Bool) :
    (t.program R comments).lines.length = lineCount t R.mode comments R.rules.length := by
  cases t with
  | rust =>
    have lines := length_lines (p := Rust.program R comments) rfl (Rust.length_rule comments)
    change (Rust.program R comments).lines.length = _
    rw [lines, Rust.program, Rust.length_prelude, Rust.length_matcher, Rust.length_dispatch, Rust.length_entry]
    cases R.mode <;> cases comments <;> simp [lineCount, frameLines, ruleLines] <;> omega
  | c =>
    have lines := length_lines (p := C.program R comments) rfl (C.length_rule comments)
    change (C.program R comments).lines.length = _
    rw [lines, C.program, C.length_prelude, C.length_matcher, C.length_dispatch, C.length_entry]
    cases R.mode <;> cases comments <;> simp [lineCount, frameLines, ruleLines] <;> omega

end Counts

section Text

variable {lines : List String} {c : Char}

theorem mem_text (plain : PlainLines lines) (h : c ∈ (text lines).toList) : c = '\n' ∨ isPlain c = true := by
  rw [toList_text] at h
  obtain ⟨line, hline, h⟩ := List.mem_flatMap.1 h
  rcases List.mem_append.1 h with inside | newline
  · exact .inr (plain line hline c inside)
  · exact .inl (List.mem_singleton.1 newline)

theorem suffix_text (nonempty : lines ≠ []) : ['\n'] <:+ (text lines).toList := by
  rw [← List.dropLast_concat_getLast nonempty, toList_text_append]
  refine List.IsSuffix.trans ?_ (List.suffix_append _ _)
  rw [toList_text_cons]
  exact List.suffix_append _ _

/-- A text of printable lines has as many newlines as lines. -/
theorem count_text (plain : PlainLines lines) : (text lines).toList.count '\n' = lines.length := by
  induction lines with
  | nil => rfl
  | cons line lines ih =>
    obtain ⟨first, others⟩ := plainLines_cons.1 plain
    have none : line.toList.count '\n' = 0 := List.count_eq_zero.2 fun h => absurd (first _ h) (by decide)
    rw [toList_text_cons, List.count_append, none, List.count_cons_self, ih others, List.length_cons, Nat.zero_add]

end Text

section Comments

/-- A line that is joined with the next one only if it is no comment. -/
def Sealed (line : String) : Prop := ['/', '/'] <+: line.toList → ¬C.Joins line.toList

def SealedLines (lines : List String) : Prop := ∀ line ∈ lines, Sealed line

/-- What starts with something else than a slash is no comment. -/
def Code (line : String) : Prop := line.toList.head?.any (· != '/') = true

variable {line front back head behind : String} {lines body : List String} {c : Char}

theorem code_literal {cs : List Char} (h : c ≠ '/') : Code (String.ofList (c :: cs)) := by
  simpa [Code] using h

theorem Code.append (h : Code front) (back : String) : Code (front ++ back) := by
  unfold Code at h ⊢
  rw [String.toList_append]
  cases text : front.toList with
  | nil => simp [text] at h
  | cons c cs => simpa [text] using h

theorem Code.sealed (h : Code line) : Sealed line := by
  rintro ⟨rest, text⟩
  rw [Code, ← text] at h
  exact absurd h (by simp)

theorem sealed_empty : Sealed "" := fun h => absurd (List.prefix_nil.1 h) (by simp)

theorem not_joins_of_getLast? {cs : List Char} (h : cs.getLast? = some c) (notBackslash : c ≠ '\\')
    (notSlash : c ≠ '/') : ¬C.Joins cs := by
  rintro (⟨before, rfl⟩ | ⟨before, rfl⟩)
  · simp [Ne.symm notBackslash] at h
  · simp [Ne.symm notSlash] at h

theorem sealed_literal {cs : List Char} (h : cs.getLast? = some c) (notBackslash : c ≠ '\\') (notSlash : c ≠ '/') :
    Sealed (String.ofList cs) := by
  refine fun _ => not_joins_of_getLast? (c := c) ?_ notBackslash notSlash
  rw [String.toList_ofList, h]

/-- What a line starts with does not join it with the next one. -/
theorem sealed_append {cs : List Char} (h : cs.getLast? = some c) (notBackslash : c ≠ '\\') (notSlash : c ≠ '/')
    (front : String) : Sealed (front ++ String.ofList cs) := by
  refine fun _ => not_joins_of_getLast? (c := c) ?_ notBackslash notSlash
  rw [String.toList_append, String.toList_ofList, List.getLast?_append, h]
  rfl

theorem sealedLines_nil : SealedLines [] := fun _ h => absurd h List.not_mem_nil

theorem sealedLines_cons : SealedLines (line :: lines) ↔ Sealed line ∧ SealedLines lines := List.forall_mem_cons

theorem sealedLines_append {front back : List String} :
    SealedLines (front ++ back) ↔ SealedLines front ∧ SealedLines back := List.forall_mem_append

/-- An indented line is no comment, whatever it says. -/
theorem sealedLines_indent (lines : List String) : SealedLines (indent lines) := by
  have blanks : Code "    " := code_literal (by decide)
  refine List.forall_mem_map.2 fun line _ => ?_
  by_cases empty : line.isEmpty = true
  · rw [if_pos empty, String.isEmpty_iff.1 empty]
    exact sealed_empty
  · rw [if_neg empty]
    exact (blanks.append line).sealed

theorem sealedLines_blockThen (h : Code head) (body : List String) (behind : String) :
    SealedLines (blockThen head body behind) := by
  have brace : Code "\x7d" := code_literal (by decide)
  simp only [blockThen, opened, sealedLines_append, sealedLines_cons]
  exact ⟨⟨(h.append _).sealed, sealedLines_indent body⟩, (brace.append behind).sealed, sealedLines_nil⟩

theorem sealedLines_block (h : Code head) (body : List String) : SealedLines (block head body) :=
  sealedLines_blockThen h body ""

theorem sealedLines_function (h : Code head) (body : List String) : SealedLines (function head body) := by
  have opening : Code "\x7b" := code_literal (by decide)
  have closing : Code "\x7d" := code_literal (by decide)
  simp only [function, sealedLines_append, sealedLines_cons]
  exact ⟨⟨h.sealed, opening.sealed, sealedLines_indent body⟩, closing.sealed, sealedLines_nil⟩

theorem sealedLines_opening (R : Ruleset) : SealedLines (opening R) := by
  simp only [opening, sealedLines_cons]
  refine ⟨?_, ?_, sealedLines_nil⟩
  · exact sealed_append (c := '.') (by decide) (by decide) (by decide) _
  · exact sealed_literal (c := '.') (by decide) (by decide) (by decide)

theorem sealed_continuationRemark (front : String) : Sealed (front ++ continuationRemark) := by
  unfold continuationRemark
  exact sealed_append (c := '.') (by decide) (by decide) (by decide) front

theorem getLast?_separated (separator : List Char) {texts : List (List Char)} (nonempty : texts ≠ [])
    (h : ∀ text ∈ texts, text.getLast? = some c) : (separated separator texts).getLast? = some c := by
  induction texts with
  | nil => exact absurd rfl nonempty
  | cons text texts ih =>
    cases texts with
    | nil => exact h text List.mem_cons_self
    | cons next texts =>
      have last := ih (List.cons_ne_nil _ _) fun t ht => h t (List.mem_cons_of_mem _ ht)
      have split : separated separator (text :: next :: texts) =
        text ++ separator ++ separated separator (next :: texts) := rfl
      rw [split, List.getLast?_append, last]
      rfl

/-- The comment of a rule ends with the quote of its last alternative, or with a parenthesis. -/
theorem sealedLines_remark (r : Rule) (comments : Bool) : SealedLines (remark r comments) := by
  cases comments with
  | false => exact sealedLines_nil
  | true =>
    refine sealedLines_cons.2 ⟨?_, sealedLines_nil⟩
    by_cases none : r.alternatives.isEmpty = true
    · refine sealed_append (c := ')') ?_ (by decide) (by decide) _
      rw [summary, if_pos none, List.getLast?_append]
      rfl
    · have some : r.rights.map quoted ≠ [] := by simpa [Rule.rights] using none
      have quotes : ∀ text ∈ r.rights.map quoted, text.getLast? = Option.some '"' := by
        refine List.forall_mem_map.2 fun rhs _ => ?_
        rw [quoted, List.getLast?_append]
        rfl
      refine sealed_append (c := '"') ?_ (by decide) (by decide) _
      rw [summary, if_neg none, List.getLast?_append, getLast?_separated _ some quotes]
      rfl

/-- A program's lines are sealed if those of its parts are. -/
theorem sealedLines_lines {p : Program} (prelude : SealedLines p.prelude) (matcher : SealedLines p.matcher)
    (rules : ∀ rule ∈ p.rules, SealedLines rule) (dispatch : SealedLines p.dispatch)
    (entry : SealedLines p.entry) : SealedLines p.lines := by
  have separated : SealedLines (p.rules.flatMap ("" :: ·)) := by
    intro line hline
    obtain ⟨rule, hrule, hline⟩ := List.mem_flatMap.1 hline
    exact sealedLines_cons.2 ⟨sealed_empty, rules rule hrule⟩ line hline
  simp only [Program.lines, sealedLines_append, sealedLines_cons, sealed_empty, prelude, matcher, separated,
    dispatch, entry, and_true]

namespace Rust

theorem sealedLines_prelude (R : Ruleset) : SealedLines (prelude R) := by
  have struct (body : List String) : SealedLines (block "struct Continuation<'a>" body) :=
    sealedLines_block (code_literal (by decide)) body
  have const : Code "const ESCAPE: u8 = " := code_literal (by decide)
  have marker (value : String) : Sealed ("const ESCAPE: u8 = " ++ value ++ ";") :=
    ((const.append value).append ";").sealed
  simp only [prelude, sealedLines_append, sealedLines_cons, sealedLines_opening, sealedLines_nil, sealed_empty,
    sealed_continuationRemark, struct, marker, true_and, and_true]
  and_intros
  all_goals exact (code_literal (by decide)).sealed

theorem sealedLines_rule (comments : Bool) (r : Rule) : SealedLines (rule comments r) := by
  have fn : Code "fn " := code_literal (by decide)
  have head := (fn.append (routine r.symbol)).append "(input: &[u8], continuation: &Continuation<'_>) -> bool"
  exact sealedLines_append.2 ⟨sealedLines_remark r comments, sealedLines_block head _⟩

theorem sealedLines_entry (R : Ruleset) : SealedLines (entry R) := by
  have code : Code "fn recognize(input: &[u8]) -> bool" := code_literal (by decide)
  have main : Code "fn main() -> ExitCode" := code_literal (by decide)
  have empty : SealedLines [""] := sealedLines_cons.2 ⟨sealed_empty, sealedLines_nil⟩
  unfold entry
  exact sealedLines_append.2 ⟨sealedLines_append.2 ⟨sealedLines_block code _, empty⟩, sealedLines_block main _⟩

theorem sealedLines_program (R : Ruleset) (comments : Bool) : SealedLines (program R comments).lines :=
  sealedLines_lines (sealedLines_prelude R) (sealedLines_block (code_literal (by decide)) _)
    (List.forall_mem_map.2 fun r _ => sealedLines_rule comments r) (sealedLines_blockThen (code_literal (by decide)) _ _)
    (sealedLines_entry R)

end Rust

namespace C

theorem code_routineHead (s : Symbol) : Code (routineHead s) := by
  have static : Code "static bool " := code_literal (by decide)
  exact (static.append (routine s)).append _

theorem sealedLines_prelude (R : Ruleset) : SealedLines (prelude R) := by
  have struct (body : List String) : SealedLines (blockThen "struct continuation" body ";") :=
    sealedLines_blockThen (code_literal (by decide)) body ";"
  have define : Code "#define ESCAPE " := code_literal (by decide)
  have marker (value : String) : Sealed ("#define ESCAPE " ++ value) := (define.append value).sealed
  have declarations : SealedLines (R.rules.map fun r => routineHead r.symbol ++ ";") :=
    List.forall_mem_map.2 fun r _ => ((code_routineHead r.symbol).append ";").sealed
  simp only [prelude, sealedLines_append, sealedLines_cons, sealedLines_opening, sealedLines_nil, sealed_empty,
    sealed_continuationRemark, struct, marker, declarations, true_and, and_true]
  and_intros
  all_goals exact (code_literal (by decide)).sealed

theorem sealedLines_rule (comments : Bool) (r : Rule) : SealedLines (rule comments r) :=
  sealedLines_append.2 ⟨sealedLines_remark r comments, sealedLines_function (code_routineHead r.symbol) _⟩

theorem sealedLines_entry (R : Ruleset) : SealedLines (entry R) := by
  have code : Code "bool recognize(const char *input)" := code_literal (by decide)
  have main : Code "int main(int argc, char **argv)" := code_literal (by decide)
  have empty : SealedLines [""] := sealedLines_cons.2 ⟨sealed_empty, sealedLines_nil⟩
  unfold entry
  exact sealedLines_append.2
    ⟨sealedLines_append.2 ⟨sealedLines_function code _, empty⟩, sealedLines_function main _⟩

theorem sealedLines_program (R : Ruleset) (comments : Bool) : SealedLines (program R comments).lines :=
  sealedLines_lines (sealedLines_prelude R) (sealedLines_function (code_literal (by decide)) _)
    (List.forall_mem_map.2 fun r _ => sealedLines_rule comments r) (sealedLines_blockThen (code_literal (by decide)) _ _)
    (sealedLines_entry R)

end C

theorem sealedLines_program (t : Target) (R : Ruleset) (comments : Bool) :
    SealedLines (t.program R comments).lines := by
  cases t with
  | rust => exact Rust.sealedLines_program R comments
  | c => exact C.sealedLines_program R comments

/-- Whether a comment is joined with the next line is seen on the comment alone. -/
theorem joins_of_append {line : List Char} (comment : ['/', '/'] <+: line) (before : List Char)
    (h : C.Joins (before ++ line)) : C.Joins line := by
  have long : 2 ≤ line.length := comment.length_le
  have suffix : line <:+ before ++ line := List.suffix_append before line
  rcases h with backslash | trigraph
  · exact .inl (List.suffix_of_suffix_length_le backslash suffix (by simpa using Nat.le_of_succ_le long))
  · by_cases short : line.length = 2
    · have slashes : ['/', '/'] = line := comment.eq_of_length (by simp [short])
      have both := List.suffix_of_suffix_length_le suffix trigraph (by simp [short])
      rw [← slashes] at both
      exact absurd both (by decide)
    · exact .inr (List.suffix_of_suffix_length_le trigraph suffix (by simp; omega))

end Comments

end Emission

namespace Grammar

open Emission

variable {g : Grammar} {t : Target} {mode : EscapeMode} {comments : Bool} {source : String}

/-- What a grammar holds stays in its place in the source: the source consists of newlines and printable ASCII; how
many lines it has depends on the target, the escape mode, the comments and the number of declared non-terminals
alone; and no comment ends with a backslash or with the trigraph for one, so the newline behind it is kept when C
joins lines, whatever stands around them. -/
theorem source_confined (emitted : g.emit t mode comments = .ok source) :
    (∀ c ∈ source.toList, c = '\n' ∨ 0x20 ≤ c.toNat ∧ c.toNat ≤ 0x7E) ∧
    ['\n'] <:+ source.toList ∧
    source.toList.count '\n' = lineCount t mode comments g.nonTerminals.length ∧
    ∀ line ∈ Text.cut (· == '\n') source.toList, ['/', '/'] <+: line →
      ¬['\\'] <:+ line ∧ ¬['?', '?', '/'] <:+ line ∧
      ∀ before behind, C.translate (before ++ line ++ '\n' :: behind) =
        C.translate (before ++ line) ++ '\n' :: C.translate behind := by
  obtain ⟨R, built, rfl⟩ := exists_ruleset_of_emit emitted
  have plain := plainLines_program t R comments
  have rules : R.rules.length = g.nonTerminals.length := by
    rw [Ruleset.rules_eq built, Ruleset.rulesOf, List.length_map]
  have count := length_program t R comments
  rw [rules, Ruleset.mode_eq built] at count
  refine ⟨?characters, suffix_text (by simp [Program.lines]), ?lines, ?comments⟩
  case characters =>
    intro c hc
    refine (mem_text plain hc).imp_right fun visible => ?_
    simpa [isPlain] using visible
  case lines => exact (count_text plain).trans count
  case comments =>
    intro line hline comment
    rw [Program.source, cut_text plain, List.mem_append, List.mem_singleton] at hline
    rcases hline with inside | rfl
    · obtain ⟨line, hline, rfl⟩ := List.mem_map.1 inside
      have apart : ¬C.Joins line.toList := sealedLines_program t R comments line hline comment
      refine ⟨fun backslash => apart (.inl backslash), fun trigraph => apart (.inr trigraph), ?_⟩
      exact fun before behind => C.translate_append_newline (mt (joins_of_append comment before) apart) behind
    · exact absurd (List.prefix_nil.1 comment) (by simp)

/-- A grammar whose name, symbols, marker and pattern try to leave their places. -/
def hostile : Grammar :=
  ofDraft 'S' [.name "a\n// é\\??/", .escape '\n', .rule 'S' [34, 63, 63, 47, 10, 92], .nonTerminals [47]]

def hostileRules : Ruleset :=
  ⟨some "a\n// é\\??/", 83, 10, .literal,
    [⟨83, [⟨[34, 63, 63, 47, 10, 92], [.literal 34, .literal 63, .literal 63, .literal 47, .literal 92]⟩]⟩,
      ⟨47, []⟩]⟩

theorem hostile_built : Ruleset.ofGrammar hostile .literal = .ok hostileRules := by decide +kernel

theorem source_confined_hostile :
    hostile.emit .c .literal true = .ok (C.program hostileRules true).source ∧
    (∀ c ∈ (C.program hostileRules true).source.toList, c = '\n' ∨ 0x20 ≤ c.toNat ∧ c.toNat ≤ 0x7E) ∧
    ['\n'] <:+ (C.program hostileRules true).source.toList ∧
    (C.program hostileRules true).source.toList.count '\n' = 103 ∧
    ∀ line ∈ Text.cut (· == '\n') (C.program hostileRules true).source.toList, ['/', '/'] <+: line →
      ¬['\\'] <:+ line ∧ ¬['?', '?', '/'] <:+ line ∧
      ∀ before behind, C.translate (before ++ line ++ '\n' :: behind) =
        C.translate (before ++ line) ++ '\n' :: C.translate behind := by
  have emitted : hostile.emit .c .literal true = .ok (C.program hostileRules true).source :=
    emit_of_built hostile_built (by decide) true
  exact ⟨emitted, source_confined emitted⟩

end Grammar

end Descent
