import Descent.Grammar.Edit
import Descent.Proofs.Listing.RoundTrip
import Descent.Proofs.Text.Decoding

/-!
# Printing what was read

A byte string that is read is the encoding of a text, and whatever was read from it, in whichever spelling,
comes back from its own listing.
-/
namespace Descent.Listing

/-- All lines of a run are text. -/
theorem Run.lines_eq {part next : Part} {g h : Grammar} {lines : List (Option (List Char))}
    (run : Run part g lines next h) : ∃ texts : List (List Char), lines = texts.map some := by
  induction run with
  | nil => exact ⟨[], rfl⟩
  | @skip _ _ _ _ line _ _ _ ih =>
    obtain ⟨texts, rfl⟩ := ih
    exact ⟨line :: texts, rfl⟩
  | @step _ _ _ _ _ _ line _ _ _ ih =>
    obtain ⟨texts, rfl⟩ := ih
    exact ⟨line :: texts, rfl⟩

theorem cut_eq_of_decoded {runs : List (List UInt8)} {texts : List (List Char)}
    (h : runs.map Text.Utf8.decode? = texts.map some) : runs = texts.map Text.Utf8.encode := by
  induction runs generalizing texts with
  | nil =>
    cases texts with
    | nil => rfl
    | cons text texts => cases h
  | cons run runs ih =>
    cases texts with
    | nil => cases h
    | cons text texts =>
      rw [List.map_cons, List.map_cons, List.cons.injEq, Text.Utf8.decode?_eq_some_iff] at h
      rw [h.1, ih h.2, List.map_cons]

/-- What is read from bytes is what is read from the text that they encode. -/
theorem readBytes_eq_ok_iff {bytes : List UInt8} {g : Grammar} :
    readBytes bytes = .ok g ↔ ∃ text, bytes = Text.Utf8.encode text ∧ readText text = .ok g := by
  constructor
  · intro h
    obtain ⟨texts, decoded⟩ := (readLines_eq_ok_iff.1 h).lines_eq
    obtain ⟨text, rfl⟩ := Text.Utf8.exists_encode_of_cut (cut_eq_of_decoded decoded)
    exact ⟨text, rfl, (readBytes_encode text).symm.trans h⟩
  · rintro ⟨text, rfl, h⟩
    exact (readBytes_encode text).trans h

/-- Whatever is read comes back from its own listing: the very same grammar, so that it prints as the same
text again. -/
theorem readBytes_stable {bytes : List UInt8} {g : Grammar} (h : readBytes bytes = .ok g) :
    readText (print g) = .ok g ∧ readBytes (Text.Utf8.encode (print g)) = .ok g := by
  obtain ⟨text, -, read⟩ := readBytes_eq_ok_iff.1 h
  have back := readText_print (writable_of_readText read)
  exact ⟨back, (readBytes_encode _).trans back⟩

/-- A listing in a loose spelling: comments, symbols by their escapes and twice in a set, commas left out,
productions out of order, a carriage return. -/
def looseText : String :=
  "# loose\r\nG=(\n\x7bS,\\x2C A S\x7d ,\n\n\t\x7b\\x61 b,,\x7d\nS\n\x7b\nS -> aA \nA->\u00e9\n  # more\nS->\n\\x2c->b\n\x7d\n)"

/-- The grammar that `looseText` lists. -/
def looseGrammar : Grammar :=
  Grammar.ofEdits [.setName "G", .declareNonTerminal 83, .declareNonTerminal 44, .declareNonTerminal 65,
    .declareTerminal 97, .declareTerminal 98, .setStart 83, .addAlternative 83 [97, 65] [],
    .addAlternative 65 [0xC3, 0xA9] [], .addAlternative 83 [] [], .addAlternative 44 [98] []]

theorem readText_looseText : readText looseText.toList = .ok looseGrammar := by
  rfl

theorem readBytes_stable_loose :
    readBytes (Text.Utf8.encode looseText.toList) = .ok looseGrammar ∧
      readText (print looseGrammar) = .ok looseGrammar ∧
        readBytes (Text.Utf8.encode (print looseGrammar)) = .ok looseGrammar := by
  have read : readBytes (Text.Utf8.encode looseText.toList) = .ok looseGrammar :=
    (readBytes_encode looseText.toList).trans readText_looseText
  exact ⟨read, readBytes_stable read⟩

end Descent.Listing
