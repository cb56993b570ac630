import Descent.Proofs.Emission.CLiteral
import Descent.Proofs.Emission.Layout
import Descent.Proofs.Emission.RustLiteral

/-!
# What the emitted literals denote

Both phases of translation leave the array of a rule and the escape marker where the emitter wrote them, and
the lexical rules of either target read back the right-hand sides, the marker, and any other bytes.
-/
namespace Descent.Emission

/-- A line somewhere in a text. -/
theorem exists_text_split {line : String} {lines : List String} (h : line ∈ lines) :
    ∃ front back, (text lines).toList = front ++ line.toList ++ '\n' :: back := by
  obtain ⟨before, after, rfl⟩ := List.append_of_mem h
  refine ⟨(text before).toList, (text after).toList, ?_⟩
  rw [toList_text_append, toList_text_cons, List.append_assoc]

/-- An opening brace, and the indentation of the line below it. -/
def brace : List Char := ['\x7b', '\n', ' ', ' ', ' ', ' ']

theorem exists_text_brace (before : List String) (head line : String) (after : List String) :
    ∃ front back, (text (before ++ (head ++ "\x7b") :: ("    " ++ line) :: after)).toList =
      front ++ brace ++ line.toList ++ back := by
  refine ⟨(text before).toList ++ head.toList, '\n' :: (text after).toList, ?_⟩
  simp [toList_text_append, toList_text_cons, brace, String.toList_append]

namespace Rust

theorem isEmpty_table (r : Rule) : (table r).isEmpty = false := by
  unfold table
  simp [String.isEmpty]

/-- The array of a rule stands right below the opening brace of its routine. -/
theorem exists_rule_split (r : Rule) (comments : Bool) :
    ∃ front back, (text (rule comments r)).toList = front ++ brace ++ (table r).toList ++ back := by
  have parted : " \x7b" = " " ++ "\x7b" := rfl
  unfold rule
  rw [List.append_assoc [table r], List.singleton_append, block_cons _ (isEmpty_table r), parted,
    ← String.append_assoc]
  exact exists_text_brace _ _ _ _

theorem marker_mem_prelude (R : Ruleset) :
    "const ESCAPE: u8 = " ++ String.ofList (rustByte R.escape) ++ ";" ∈ prelude R := by
  simp [prelude]

theorem exists_prelude_split (R : Ruleset) :
    ∃ front back, (text (prelude R)).toList =
      front ++ "const ESCAPE: u8 = ".toList ++ rustByte R.escape ++ ';' :: back := by
  obtain ⟨front, back, split⟩ := exists_text_split (marker_mem_prelude R)
  refine ⟨front, '\n' :: back, ?_⟩
  rw [split]
  simp [String.toList_append, String.toList_ofList]

end Rust

namespace C

theorem isEmpty_table (r : Rule) : (table r).isEmpty = false := by
  unfold table
  simp [String.isEmpty]

theorem exists_rule_split (r : Rule) (comments : Bool) :
    ∃ front back, (text (rule comments r)).toList = front ++ brace ++ (table r).toList ++ back := by
  have parted : "\x7b" = "" ++ "\x7b" := rfl
  unfold rule
  rw [List.append_assoc [table r, ""], List.cons_append, function_cons _ (isEmpty_table r),
    ← List.singleton_append, ← List.append_assoc, parted]
  exact exists_text_brace _ _ _ _

theorem marker_mem_prelude (R : Ruleset) :
    "#define ESCAPE " ++ String.ofList (cChar R.escape) ∈ prelude R := by
  simp [prelude]

theorem exists_prelude_split (R : Ruleset) :
    ∃ front back, (text (prelude R)).toList =
      front ++ "#define ESCAPE ".toList ++ cChar R.escape ++ '\n' :: back := by
  obtain ⟨front, back, split⟩ := exists_text_split (marker_mem_prelude R)
  refine ⟨front, back, ?_⟩
  rw [split]
  simp [String.toList_append, String.toList_ofList]

/-- Translation leaves the array of a rule as it is, whatever stands around the rule. -/
theorem exists_translate_rule (r : Rule) (comments : Bool) (before after : List Char) :
    ∃ front back, translate (before ++ (text (rule comments r)).toList ++ after) =
      front ++ brace ++ (table r).toList ++ back := by
  obtain ⟨front, back, split⟩ := exists_rule_split r comments
  have ordinary : Ordinary '\x7b' := ⟨rfl, by decide, by decide, by decide⟩
  have indented : translate (brace.tail ++ ((table r).toList ++ (back ++ after))) =
      brace.tail ++ ((table r).toList ++ translate (back ++ after)) := by
    rw [translate_of_ordinary (by simp [brace]), translate_table]
  have shape : before ++ (front ++ brace ++ (table r).toList ++ back) ++ after =
      (before ++ front) ++ '\x7b' :: (brace.tail ++ ((table r).toList ++ (back ++ after))) := by
    simp [brace]
  refine ⟨translate (before ++ front), translate (back ++ after), ?_⟩
  rw [split, shape, translate_append ordinary, indented]
  simp [brace]

/-- Translation leaves the definition of the escape marker as it is. -/
theorem exists_translate_prelude (R : Ruleset) (before after : List Char) :
    ∃ front back, translate (before ++ (text (prelude R)).toList ++ after) =
      front ++ "#define ESCAPE ".toList ++ cChar R.escape ++ '\n' :: back := by
  obtain ⟨front, back, split⟩ := exists_prelude_split R
  have ordinary : Ordinary '#' := ⟨rfl, by decide, by decide, by decide⟩
  have word : "#define ESCAPE ".toList = '#' :: "define ESCAPE ".toList := by simp
  have defined : translate ("define ESCAPE ".toList ++ (cChar R.escape ++ '\n' :: (back ++ after))) =
      "define ESCAPE ".toList ++ (cChar R.escape ++ '\n' :: translate (back ++ after)) := by
    rw [translate_of_ordinary (by simp), translate_cChar, translate_cons (by decide) (by decide)]
  have shape : before ++ (front ++ '#' :: "define ESCAPE ".toList ++ cChar R.escape ++ '\n' :: back) ++ after =
      (before ++ front) ++
        '#' :: ("define ESCAPE ".toList ++ (cChar R.escape ++ '\n' :: (back ++ after))) := by
    simp
  refine ⟨translate (before ++ front), translate (back ++ after), ?_⟩
  rw [split, word, shape, translate_append ordinary, defined]
  simp

end C

/-- In place, the array of a rule is read as its right-hand sides and the marker as the escape marker, and every
string is read back up to the quote that closes it, whatever bytes it holds and whatever follows. In C this
is what remains of the text after trigraphs and spliced lines. -/
theorem literals_denote (R : Ruleset) (r : Rule) (comments : Bool) (before after : List Char) :
    ((∃ front back,
        before ++ (text (Rust.rule comments r)).toList ++ after =
          front ++ brace ++ (Rust.table r).toList ++ back ∧
        Rust.alternatives.scan ((Rust.table r).toList ++ back) =
          some ((r.rights.length, r.rights), ';' :: back)) ∧
      (∃ front back,
        before ++ (text (Rust.prelude R)).toList ++ after =
          front ++ "const ESCAPE: u8 = ".toList ++ rustByte R.escape ++ ';' :: back ∧
        Rust.byteLiteral.scan (rustByte R.escape ++ ';' :: back) = some (R.escape, ';' :: back)) ∧
      ∀ bytes rest, Rust.byteString.scan (rustBytes bytes ++ rest) = some (bytes, rest)) ∧
    ((∃ front back,
        C.translate (before ++ (text (C.rule comments r)).toList ++ after) =
          front ++ brace ++ (C.table r).toList ++ back ∧
        C.alternatives.scan ((C.table r).toList ++ back) =
          some (r.rights.map some ++ [none], ';' :: back)) ∧
      (∃ front back,
        C.translate (before ++ (text (C.prelude R)).toList ++ after) =
          front ++ "#define ESCAPE ".toList ++ cChar R.escape ++ '\n' :: back ∧
        C.character.scan (cChar R.escape ++ '\n' :: back) = some (R.escape, '\n' :: back)) ∧
      ∀ bytes rest,
        C.string.scan (C.translate (cString bytes ++ rest)) = some (bytes, C.translate rest)) := by
  refine ⟨⟨?_, ?_, fun bytes => Rust.reads_rustBytes bytes⟩, ⟨?_, ?_, fun bytes rest => ?_⟩⟩
  · obtain ⟨front, back, split⟩ := Rust.exists_rule_split r comments
    refine ⟨before ++ front, back ++ after, ?_, Rust.scan_table r _⟩
    simp only [split, List.append_assoc]
  · obtain ⟨front, back, split⟩ := Rust.exists_prelude_split R
    refine ⟨before ++ front, back ++ after, ?_, Rust.reads_rustByte R.escape _⟩
    simp only [split, List.append_assoc, List.cons_append]
  · obtain ⟨front, back, split⟩ := C.exists_translate_rule r comments before after
    exact ⟨front, back, split, C.scan_table r back⟩
  · obtain ⟨front, back, split⟩ := C.exists_translate_prelude R before after
    exact ⟨front, back, split, C.reads_cChar R.escape _⟩
  · rw [C.translate_cString]
    exact C.reads_cString bytes _

end Descent.Emission
