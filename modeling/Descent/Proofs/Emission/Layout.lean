import Descent.Proofs.Emission.Plain
import Descent.Proofs.Text.Trim

/-!
# Layout read back

The text of printable lines shows its lines, an indented block shows its head and its body, and a run of blocks
shows each of them as long as what follows the run cannot be taken for one more.
-/
namespace Descent.Emission

section Text

theorem toList_text (lines : List String) : (text lines).toList = lines.flatMap (·.toList ++ ['\n']) := by
  simp [text, String.toList_join, List.flatMap_map, String.toList_append]

theorem toList_text_append (front back : List String) :
    (text (front ++ back)).toList = (text front).toList ++ (text back).toList := by
  rw [toList_text, toList_text, toList_text, List.flatMap_append]

theorem toList_text_cons (line : String) (lines : List String) :
    (text (line :: lines)).toList = line.toList ++ '\n' :: (text lines).toList := by
  rw [toList_text, toList_text, List.flatMap_cons, List.append_assoc, List.singleton_append]

/-- Cut at its newlines, a text of printable lines falls into these lines. -/
theorem cut_text {lines : List String} (plain : PlainLines lines) :
    Text.cut (· == '\n') (text lines).toList = lines.map String.toList ++ [[]] := by
  have inside : ∀ run ∈ lines.map String.toList, ∀ c ∈ run, (c == '\n') = false := by
    intro run hrun c hc
    obtain ⟨line, hline, rfl⟩ := List.mem_map.1 hrun
    have visible := plain line hline c hc
    rw [beq_eq_false_iff_ne]
    rintro rfl
    exact absurd visible (by decide)
  have lines_eq : (text lines).toList = (lines.map String.toList).flatMap (· ++ ['\n']) := by
    rw [toList_text, List.flatMap_map]
  rw [lines_eq, Text.cut_flatMap inside (by decide)]

theorem text_inj {lines lines' : List String} (plain : PlainLines lines) (plain' : PlainLines lines')
    (same : text lines = text lines') : lines = lines' := by
  have cuts := cut_text plain
  rw [same, cut_text plain', List.append_left_inj] at cuts
  exact ((List.map_inj_right fun _ _ => String.toList_inj.1).1 cuts).symm

end Text

section Blocks

@[simp]
theorem length_indent (lines : List String) : (indent lines).length = lines.length := List.length_map _

@[simp]
theorem length_opened (head : String) (body : List String) : (opened head body).length = body.length + 1 := by
  rw [opened, List.length_cons, length_indent]

@[simp]
theorem length_blockThen (head : String) (body : List String) (behind : String) :
    (blockThen head body behind).length = body.length + 2 := by
  rw [blockThen, List.length_append, length_opened, List.length_singleton]

@[simp]
theorem length_block (head : String) (body : List String) : (block head body).length = body.length + 2 :=
  length_blockThen head body ""

@[simp]
theorem length_function (head : String) (body : List String) :
    (function head body).length = body.length + 3 := by
  rw [function, List.length_append, List.length_cons, List.length_cons, length_indent, List.length_singleton]

theorem indent_cons {line : String} (h : line.isEmpty = false) (lines : List String) :
    indent (line :: lines) = ("    " ++ line) :: indent lines := by
  rw [indent, List.map_cons, if_neg (by simp [h])]
  rfl

theorem block_cons (head : String) {line : String} (h : line.isEmpty = false) (body : List String) :
    block head (line :: body) = (head ++ " \x7b") :: ("    " ++ line) :: (indent body ++ ["\x7d"]) := by
  rw [block, blockThen, opened, indent_cons h, String.append_empty]
  rfl

theorem function_cons (head : String) {line : String} (h : line.isEmpty = false) (body : List String) :
    function head (line :: body) = head :: "\x7b" :: ("    " ++ line) :: (indent body ++ ["\x7d"]) := by
  rw [function, indent_cons h]
  rfl

theorem length_remark (r : Rule) (comments : Bool) : (remark r comments).length = if comments then 1 else 0 := by
  cases comments
  · rfl
  · rfl

variable {head head' behind : String} {body body' : List String}

theorem indent_inj (same : indent body = indent body') : body = body' := by
  refine (List.map_inj_right fun line line' h => ?_).1 same
  have blank : ∀ line : String, "" ≠ "    " ++ line := by
    intro line h
    simpa using congrArg String.toList h
  by_cases empty : line.isEmpty = true
  · by_cases empty' : line'.isEmpty = true
    · rwa [if_pos empty, if_pos empty'] at h
    · rw [if_pos empty, if_neg empty', String.isEmpty_iff.1 empty] at h
      exact absurd h (blank line')
  · by_cases empty' : line'.isEmpty = true
    · rw [if_neg empty, if_pos empty', String.isEmpty_iff.1 empty'] at h
      exact absurd h.symm (blank line)
    · rw [if_neg empty, if_neg empty'] at h
      exact (String.append_right_inj _).1 h

theorem blockThen_inj (same : blockThen head body behind = blockThen head' body' behind) :
    head = head' ∧ body = body' := by
  have lines := List.append_inj_left' same rfl
  obtain ⟨heads, bodies⟩ := List.cons.inj lines
  exact ⟨(String.append_left_inj _).1 heads, indent_inj bodies⟩

theorem block_inj (same : block head body = block head' body') : head = head' ∧ body = body' :=
  blockThen_inj same

theorem function_inj (same : function head body = function head' body') : head = head' ∧ body = body' := by
  have lines := List.append_inj_left' same rfl
  obtain ⟨heads, bodies⟩ := List.cons.inj lines
  exact ⟨heads, indent_inj (List.cons.inj bodies).2⟩

end Blocks

section Runs

variable {α β γ : Type} {f : α → List β} {view : α → γ}

/-- Blocks that show something of what they are made from, and where they end, show it of a whole run of them. -/
theorem run_inj (block : ∀ {a b s t}, f a ++ s = f b ++ t → view a = view b ∧ s = t) {stop stop' : List β}
    (apart : ∀ a s, f a ++ s ≠ stop) (apart' : ∀ a s, f a ++ s ≠ stop') {as bs : List α}
    (same : as.flatMap f ++ stop = bs.flatMap f ++ stop') : as.map view = bs.map view ∧ stop = stop' := by
  -- A run that ended first would have a block of the other in place of its stop.
  induction as generalizing bs with
  | nil =>
    cases bs with
    | nil => exact ⟨rfl, same⟩
    | cons b bs =>
      rw [List.flatMap_cons, List.append_assoc] at same
      exact absurd same.symm (apart b _)
  | cons a as ih =>
    cases bs with
    | nil =>
      rw [List.flatMap_cons, List.append_assoc] at same
      exact absurd same (apart' a _)
    | cons b bs =>
      rw [List.flatMap_cons, List.flatMap_cons, List.append_assoc, List.append_assoc] at same
      obtain ⟨first, others⟩ := block same
      obtain ⟨views, stops⟩ := ih others
      exact ⟨by rw [List.map_cons, List.map_cons, first, views], stops⟩

end Runs

end Descent.Emission
