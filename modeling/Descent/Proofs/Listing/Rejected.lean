import Descent.Proofs.Listing.Line
import Descent.Proofs.Text.Decoding

/-!
# Where a listing is rejected

A fault that names a line is found at the first line with which no listing can go on: it depends on that line and those
before it only, and the lines before it are the beginning of some listing. A text that ends too early is the beginning
of one as a whole.
-/
namespace Descent

/-- The number of the line that a fault of reading names. -/
def Fault.lineNumber? : Fault → Option Nat
  | .notUtf8 number => some number
  | .line number _ => some number
  | _ => none

namespace Listing

open Text (cut dropReturn)
open Text.Utf8 (decode? encode)

/-- The lines of a byte string, blank ones and comments included. -/
def byteLines (bytes : List UInt8) : List (List UInt8) := Text.lines 10 13 bytes

/-- The bytes of the first `n` lines of a byte string, with the line feed behind each of them. -/
structure Leads (n : Nat) (front bytes : List UInt8) : Prop where
  starts : front <+: bytes
  whole : front = [] ∨ front.getLast? = some 10
  lines : byteLines front = (byteLines bytes).take n

variable {part next : Part} {g h : Grammar} {number n : Nat} {fault : Fault} {line : List Char} {bytes : List UInt8}
  {lines others : List (Option (List Char))}

section Stuck

/-- What keeps the reader from taking one more line, or from ending with none. -/
inductive Stuck (number : Nat) (part : Part) (g : Grammar) : List (Option (List Char)) → Fault → Prop
  | ended : part ≠ .done → Stuck number part g [] (.endOfListing part)
  | notUtf8 {rest : List (Option (List Char))} : Stuck number part g (none :: rest) (.notUtf8 number)
  | line {line : List Char} {problem : LineProblem} {rest : List (Option (List Char))} :
    isIgnored (Text.trim line) = false → take (Text.trim line) part g = .error problem →
    Stuck number part g (some line :: rest) (.line number problem)

theorem exists_stuck (failed : readLines number part g lines = .error fault) :
    ∃ front behind next h, lines = front ++ behind ∧ Run part g front next h ∧
      Stuck (number + front.length) next h behind fault := by
  induction lines generalizing number part g with
  | nil =>
    rw [readLines] at failed
    split at failed
    · cases failed
    · rename_i unfinished
      cases failed
      exact ⟨[], [], part, g, rfl, .nil, .ended unfinished⟩
  | cons first lines ih =>
    cases first with
    | none =>
      cases failed
      exact ⟨[], none :: lines, part, g, rfl, .nil, .notUtf8⟩
    | some line =>
      rw [readLines] at failed
      split at failed
      · rename_i ignored
        obtain ⟨front, behind, next, h, rfl, run, stuck⟩ := ih failed
        refine ⟨some line :: front, behind, next, h, rfl, .skip ignored run, ?_⟩
        rwa [List.length_cons, Nat.add_comm front.length, ← Nat.add_assoc]
      · rename_i kept
        have counts : isIgnored (Text.trim line) = false := Bool.eq_false_iff.2 kept
        split at failed
        · rename_i problem refused
          cases failed
          exact ⟨[], some line :: lines, part, g, rfl, .nil, .line counts refused⟩
        · rename_i middle f taken
          obtain ⟨front, behind, next, h, rfl, run, stuck⟩ := ih failed
          refine ⟨some line :: front, behind, next, h, rfl, .step ⟨counts, taken_of_take taken⟩ run, ?_⟩
          rwa [List.length_cons, Nat.add_comm front.length, ← Nat.add_assoc]

theorem readLines_of_stuck {front behind : List (Option (List Char))} (run : Run part g front next h)
    (stuck : Stuck (number + front.length) next h behind fault) :
    readLines number part g (front ++ behind) = .error fault := by
  induction run generalizing number with
  | nil =>
    cases stuck with
    | ended unfinished => rw [List.append_nil, readLines, if_neg unfinished]
    | notUtf8 => rfl
    | line kept refused => rw [List.nil_append, readLines, if_neg (Bool.eq_false_iff.1 kept), refused]; rfl
  | skip ignored _ ih =>
    rw [List.length_cons, Nat.add_comm _ 1, ← Nat.add_assoc] at stuck
    rw [List.cons_append, readLines, if_pos ignored]
    exact ih stuck
  | step first _ ih =>
    rw [List.length_cons, Nat.add_comm _ 1, ← Nat.add_assoc] at stuck
    rw [List.cons_append, readLines, if_neg (Bool.eq_false_iff.1 first.kept), take_eq_ok_iff.2 first.taken]
    exact ih stuck

/-- A fault that names a line is that of the next line, whatever stands behind it. -/
theorem Stuck.of_lineNumber? {behind : List (Option (List Char))} (stuck : Stuck number part g behind fault)
    (named : fault.lineNumber? = some n) :
    n = number ∧ ∃ first rest, behind = first :: rest ∧ ∀ more, Stuck number part g (first :: more) fault := by
  cases stuck with
  | ended _ => cases named
  | notUtf8 =>
    cases named
    exact ⟨rfl, none, _, rfl, fun _ => .notUtf8⟩
  | line kept refused =>
    cases named
    exact ⟨rfl, some _, _, rfl, fun _ => .line kept refused⟩

theorem Stuck.of_endOfListing {behind : List (Option (List Char))}
    (stuck : Stuck number part g behind (.endOfListing next)) : behind = [] := by
  cases stuck
  rfl

/-- Lines that agree up to the one that a fault names have the same fault. -/
theorem readLines_of_take_eq (failed : readLines 1 part g lines = .error fault) (named : fault.lineNumber? = some n)
    (same : others.take n = lines.take n) :
    (0 < n ∧ n ≤ lines.length) ∧ readLines 1 part g others = .error fault := by
  obtain ⟨front, behind, next, h, rfl, run, stuck⟩ := exists_stuck failed
  obtain ⟨rfl, first, rest, rfl, always⟩ := stuck.of_lineNumber? named
  have upTo : (front ++ first :: rest).take (1 + front.length) = front ++ [first] := by
    rw [Nat.add_comm, List.take_length_add_append]
    rfl
  have split : others = front ++ first :: others.drop (1 + front.length) := by
    calc others = others.take (1 + front.length) ++ others.drop (1 + front.length) := (List.take_append_drop _ _).symm
      _ = front ++ [first] ++ others.drop (1 + front.length) := by rw [same, upTo]
      _ = front ++ first :: others.drop (1 + front.length) := by rw [List.append_assoc, List.singleton_append]
  constructor
  · rw [List.length_append, List.length_cons]
    omega
  · rw [split]
    exact readLines_of_stuck run (always _)

end Stuck

section Lines

theorem exists_cut (bytes : List UInt8) : ∃ ended last, cut (· == 10) bytes = ended ++ [last] := by
  rcases List.eq_nil_or_concat (cut (· == 10) bytes) with none | ⟨ended, last, pieces⟩
  · exact absurd none (Text.cut_ne_nil _ bytes)
  · exact ⟨ended, last, pieces.trans List.concat_eq_append⟩

theorem byteLines_of_cut {ended : List (List UInt8)} {last : List UInt8}
    (pieces : cut (· == 10) bytes = ended ++ [last]) :
    byteLines bytes = ended.map (dropReturn 13) ++ if last = [] then [] else [last] := by
  simp only [byteLines, Text.lines, pieces, List.dropLast_concat, List.getLast?_concat, Option.toList_some]
  cases last with
  | nil => rfl
  | cons b last => rfl

/-- A carriage return at the end of a line does not count. -/
theorem trim_decode?_dropReturn (line : List UInt8) :
    (decode? (dropReturn 13 line)).map Text.trim = (decode? line).map Text.trim := by
  unfold dropReturn
  split
  · rename_i last
    obtain ⟨front, rfl⟩ := List.getLast?_eq_some_iff.1 last
    rw [List.dropLast_concat, Text.Utf8.decode?_concat_return, Option.map_map]
    congr 1
    funext text
    exact (Text.trim_concat_of_blank (by decide) text).symm
  · rfl

theorem decode?_nil : decode? [] = some [] := Text.Utf8.decode?_encode []

theorem readLines_congr (same : lines.map (Option.map Text.trim) = others.map (Option.map Text.trim)) :
    readLines number part g lines = readLines number part g others := by
  induction lines generalizing number part g others with
  | nil =>
    cases others with
    | nil => rfl
    | cons other others => cases same
  | cons line lines ih =>
    cases others with
    | nil => cases same
    | cons other others =>
      obtain ⟨first, rest⟩ := List.cons.inj same
      cases line with
      | none =>
        cases other with
        | none => rfl
        | some other => cases first
      | some line =>
        cases other with
        | none => cases first
        | some other =>
          have trimmed : Text.trim line = Text.trim other := Option.some.inj first
          rw [readLines, readLines, trimmed, ih rest]
          simp only [ih rest]

/-- A blank line at the end does not count. -/
theorem readLines_concat_blank (lines : List (Option (List Char))) :
    readLines number part g (lines ++ [some []]) = readLines number part g lines := by
  induction lines generalizing number part g with
  | nil => rfl
  | cons line lines ih =>
    cases line with
    | none => rfl
    | some line =>
      rw [List.cons_append, readLines, readLines]
      simp only [ih]

/-- The reader goes by the lines of the byte string. -/
theorem readBytes_eq (bytes : List UInt8) :
    readBytes bytes = readLines 1 .header .empty ((byteLines bytes).map decode?) := by
  obtain ⟨ended, last, pieces⟩ := exists_cut bytes
  have returns : readLines 1 .header .empty (ended.map decode? ++ [decode? last]) =
      readLines 1 .header .empty ((ended.map (dropReturn 13)).map decode? ++ [decode? last]) := by
    apply readLines_congr
    simp [Function.comp_def, trim_decode?_dropReturn]
  rw [readBytes, pieces, byteLines_of_cut pieces, List.map_append, List.map_singleton, returns, List.map_append]
  split
  · rename_i empty
    rw [empty, decode?_nil, readLines_concat_blank, List.map_nil, List.append_nil]
  · rfl

end Lines

section Finish

/-- Some lines of text lead from the part to the end of the listing. -/
def Finishes (part : Part) (g : Grammar) : Prop :=
  ∃ (texts : List (List Char)) (h : Grammar), Run part g (texts.map some) .done h ∧ ∀ text ∈ texts, '\n' ∉ text

theorem Finishes.step {line : List Char} (after : Finishes next h) (taken : Takes line part g next h)
    (oneLine : '\n' ∉ line) : Finishes part g := by
  obtain ⟨texts, final, run, others⟩ := after
  exact ⟨line :: texts, final, .step taken run, List.forall_mem_cons.2 ⟨oneLine, others⟩⟩

/-- From every part on a listing can be finished, whatever stands in front: with nothing more declared and no production
more. -/
theorem finishes (part : Part) (g : Grammar) : Finishes part g := by
  have done (g : Grammar) : Finishes .done g := ⟨[], g, .nil, List.forall_mem_nil _⟩
  have close (g : Grammar) : Finishes .close g := (done g).step takes_close (by decide)
  have productions (g : Grammar) : Finishes .productions g := (close g).step takes_closing (by decide)
  have opening (g : Grammar) : Finishes .opening g := (productions g).step takes_opening (by decide)
  have start (g : Grammar) : Finishes .start g := (opening _).step (takes_start 83) (by decide)
  have terminals (g : Grammar) : Finishes .terminals g := (start g).step (takes_terminals []) (by decide)
  have nonTerminals (g : Grammar) : Finishes .nonTerminals g := (terminals g).step (takes_nonTerminals []) (by decide)
  cases part with
  | header => exact (nonTerminals g).step takes_header_unset (by decide)
  | nonTerminals => exact nonTerminals g
  | terminals => exact terminals g
  | start => exact start g
  | opening => exact opening g
  | productions => exact productions g
  | close => exact close g
  | done => exact done g

theorem cut_encode_lines {texts : List (List Char)} (oneLine : ∀ text ∈ texts, '\n' ∉ text) :
    cut (· == 10) (texts.flatMap fun text => encode text ++ [10]) = texts.map encode ++ [[]] := by
  have whole : ∀ run ∈ texts.map encode, ∀ b ∈ run, (b == 10) = false := by
    intro run hrun b hb
    obtain ⟨text, htext, rfl⟩ := List.mem_map.1 hrun
    rw [beq_eq_false_iff_ne]
    rintro rfl
    exact oneLine text htext ((Text.Utf8.newline_mem_encode_iff text).1 hb)
  rw [← Text.cut_flatMap whole (beq_self_eq_true 10), List.flatMap_map]

/-- Behind pieces that the reader takes, some text finishes the listing. -/
theorem exists_finish {pieces : List (List UInt8)} (run : Run .header .empty (pieces.map decode?) part g) :
    ∃ more h, ∀ bytes, cut (· == 10) bytes = pieces ++ cut (· == 10) more → readBytes bytes = .ok h := by
  obtain ⟨texts, h, remaining, oneLine⟩ := finishes part g
  refine ⟨texts.flatMap fun text => encode text ++ [10], h, fun bytes cuts => ?_⟩
  have decoded : (texts.map encode).map decode? = texts.map some := by
    rw [List.map_map]
    exact List.map_congr_left fun text _ => Text.Utf8.decode?_encode text
  have blank : Run .done h ([[]].map decode?) .done h := by
    rw [List.map_singleton, decode?_nil]
    exact .skip rfl .nil
  rw [readBytes, readLines_eq_ok_iff, cuts, cut_encode_lines oneLine, List.map_append, List.map_append, decoded]
  exact run.append (remaining.append blank)

/-- The first pieces of a byte string with others behind them are its first lines. -/
theorem exists_leads {front behind : List (List UInt8)} (pieces : cut (· == 10) bytes = front ++ behind)
    (more : behind ≠ []) :
    ∃ leading, Leads front.length leading bytes ∧
      ∀ rest, cut (· == 10) (leading ++ rest) = front ++ cut (· == 10) rest := by
  obtain ⟨rest, joined, -⟩ := Text.exists_eq_flatMap_append (fun _ newline => eq_of_beq newline) pieces more
  have whole : ∀ run ∈ front, ∀ b ∈ run, (b == 10) = false := by
    intro run hrun b hb
    have mem : run ∈ cut (· == 10) bytes := pieces ▸ List.mem_append_left _ hrun
    exact (Text.not_mem_of_mem_cut mem b hb).1
  have parted := Text.cut_flatMap_append whole (beq_self_eq_true 10)
  refine ⟨front.flatMap (· ++ [10]), ⟨⟨rest, joined.symm⟩, ?_, ?_⟩, parted⟩
  · obtain rfl | ⟨init, last, rfl⟩ := List.eq_nil_or_concat front
    · exact .inl rfl
    · right
      rw [List.concat_eq_append, List.flatMap_append, List.flatMap_singleton, ← List.append_assoc, List.getLast?_concat]
  · obtain rfl | ⟨init, last, rfl⟩ := List.eq_nil_or_concat behind
    · exact absurd rfl more
    · rw [List.concat_eq_append, ← List.append_assoc] at pieces
      rw [byteLines_of_cut (Text.cut_flatMap whole (beq_self_eq_true 10)), byteLines_of_cut pieces, if_pos rfl,
        List.append_nil, List.map_append, List.append_assoc]
      exact (List.take_left' (List.length_map _)).symm

end Finish

/-- What a fault of reading says about the byte string. One that names a line comes from the first lines up to that one
and from nothing behind them, and the lines in front of it begin some listing; at the end of the text, the whole text
begins one. -/
theorem readBytes_fault_earliest (failed : readBytes bytes = .error fault) :
    (∀ n, fault.lineNumber? = some n →
      (0 < n ∧ n ≤ (byteLines bytes).length) ∧
      (∀ other, (byteLines other).take n = (byteLines bytes).take n → readBytes other = .error fault) ∧
      ∃ leading more g, Leads (n - 1) leading bytes ∧ readBytes (leading ++ more) = .ok g) ∧
    (∀ part, fault = .endOfListing part → ∃ more g, readBytes (bytes ++ 10 :: more) = .ok g) ∧
    ((∃ n, fault.lineNumber? = some n) ∨ ∃ part, fault = .endOfListing part) := by
  obtain ⟨front, behind, part, g, decoded, run, stuck⟩ := exists_stuck failed
  refine ⟨fun n named => ⟨?_, ?_, ?_⟩, ?_, ?_⟩
  · rw [readBytes_eq] at failed
    have bounds := (readLines_of_take_eq failed named rfl).1
    rwa [List.length_map] at bounds
  · intro other same
    rw [readBytes_eq] at failed ⊢
    refine (readLines_of_take_eq failed named ?_).2
    rw [← List.map_take, ← List.map_take, same]
  · obtain ⟨rfl, first, rest, rfl, -⟩ := stuck.of_lineNumber? named
    obtain ⟨taken, remaining, pieces, rfl, there⟩ := List.map_eq_append_iff.1 decoded
    have others : remaining ≠ [] := by
      rintro rfl
      cases there
    obtain ⟨leading, leads, parted⟩ := exists_leads pieces others
    obtain ⟨more, h, finished⟩ := exists_finish run
    refine ⟨leading, more, h, ?_, finished _ (parted more)⟩
    rwa [Nat.add_sub_cancel_left, List.length_map]
  · rintro next rfl
    obtain rfl := stuck.of_endOfListing
    rw [List.append_nil] at decoded
    rw [← decoded] at run
    obtain ⟨more, h, finished⟩ := exists_finish run
    refine ⟨more, h, finished _ ?_⟩
    exact Text.cut_append_separator rfl bytes more
  · cases stuck with
    | ended _ => exact .inr ⟨part, rfl⟩
    | notUtf8 => exact .inl ⟨_, rfl⟩
    | line _ _ => exact .inl ⟨_, rfl⟩

/-- A listing with a comment and a blank line, in which the only production has no arrow. -/
def arrowlessText : String := "# G\nG = (\n\n\x7b S, \x7d\n\x7b a, \x7d\nS,\n\x7b\nS=a\n\x7d\n)\n"

/-- The beginning of a listing, with no line feed at its end. -/
def unfinishedText : String := "G = (\n\x7b S, \x7d"

theorem readBytes_fault_earliest_arrowless :
    (readBytes (encode arrowlessText.toList) = .error (.line 8 (.unexpected .productions)) ∧
      (∀ other, (byteLines other).take 8 = (byteLines (encode arrowlessText.toList)).take 8 →
        readBytes other = .error (.line 8 (.unexpected .productions))) ∧
      ∃ leading more g, Leads 7 leading (encode arrowlessText.toList) ∧ readBytes (leading ++ more) = .ok g) ∧
    readBytes (encode unfinishedText.toList) = .error (.endOfListing .terminals) ∧
      ∃ more g, readBytes (encode unfinishedText.toList ++ 10 :: more) = .ok g := by
  have arrowless : readBytes (encode arrowlessText.toList) = .error (.line 8 (.unexpected .productions)) :=
    (readBytes_encode arrowlessText.toList).trans rfl
  have unfinished : readBytes (encode unfinishedText.toList) = .error (.endOfListing .terminals) :=
    (readBytes_encode unfinishedText.toList).trans rfl
  obtain ⟨-, later, earlier⟩ := (readBytes_fault_earliest arrowless).1 8 rfl
  exact ⟨⟨arrowless, later, earlier⟩, unfinished, (readBytes_fault_earliest unfinished).2.1 _ rfl⟩

end Listing

end Descent
