import Descent.Proofs.Grammar.Building
import Descent.Proofs.Text.Trim
import Descent.Proofs.Text.Utf8
import Descent.Proofs.Listing.Taken

/-!
# What the reader lets in

A name that was read holds no blank and does not look like a comment, a right-hand side is the encoding of
a trimmed piece of one line, the escape marker is the default, and the start symbol is set once its line
has been read.
-/
namespace Descent.Listing

open Text (isBlank Trimmed)

/-- A name that a header line can carry. -/
structure PlainName (name : String) : Prop where
  nonempty : name.toList ≠ []
  visible : ∀ c ∈ name.toList, isBlank c = false
  noComment : name.toList.head? ≠ some '#'

/-- A right-hand side that a production line can carry: UTF-8 without a newline byte and without blanks
around it. -/
structure PlainRight (rhs : List UInt8) : Prop where
  text : ∃ text, Text.Utf8.encode text = rhs ∧ Trimmed text
  noNewline : 10 ∉ rhs

/-- A grammar whose name, marker and right-hand sides a listing can carry. -/
structure Plain (g : Grammar) : Prop where
  name : ∀ name, g.name = some name → PlainName name
  escape : g.escape = 92
  rights : ∀ s, ∀ rhs ∈ g.alternatives s, PlainRight rhs

/-- A grammar that a listing can carry. -/
structure Writable (g : Grammar) : Prop extends Plain g where
  start : g.start ≠ none

/-- The parts behind the line of the start symbol. -/
def Part.followsStart : Part → Bool
  | .opening | .productions | .close | .done => true
  | _ => false

/-- The invariant of the reader before a part. -/
structure ReadSoFar (part : Part) (g : Grammar) : Prop extends Plain g where
  start : part.followsStart → g.start ≠ none

theorem readSoFar_empty : ReadSoFar .header .empty where
  name := by intro name hname; cases hname
  escape := rfl
  rights := by
    intro s rhs hrhs
    simp [Grammar.alternatives, Grammar.empty] at hrhs
  start := by intro behind; cases behind

theorem headerName?_isPrefix {line name : List Char} (h : headerName? line = some name) :
    name <+: line ∧ ∀ c ∈ name, isBlank c = false := by
  unfold headerName? at h
  split at h
  · rename_i rest reversed
    split at h
    · rename_i rest' equals
      simp only at h
      split at h
      · cases h
      · rename_i visible
        cases h
        constructor
        · have inner : Text.trimStart rest' <:+ Text.trimStart rest := by
            rw [equals]
            exact (Text.trimStart_suffix rest').trans (List.suffix_cons _ _)
          have whole : Text.trimStart rest <:+ line.reverse := by
            rw [reversed]
            exact (Text.trimStart_suffix rest).trans (List.suffix_cons _ _)
          have outer := List.reverse_prefix.2 (inner.trans whole)
          rwa [List.reverse_reverse] at outer
        · intro c hc
          rw [Bool.not_eq_true, List.any_eq_false] at visible
          simpa using visible c hc
    · cases h
  · cases h

theorem leadingToken?_suffix {line token rest : List Char}
    (h : leadingToken? line = some (token, rest)) : rest <:+ line := by
  unfold leadingToken? at h
  split at h
  · cases h
  · split at h
    · split at h
      · cases h
        refine ⟨['\\', 'x', _, _], rfl⟩
      · cases h
        exact List.suffix_cons _ _
    · split at h
      · cases h
      · cases h
        exact List.suffix_cons _ _

theorem production_trimmed {line rhs : List Char} {s : Symbol} (h : production line = .ok (s, rhs)) :
    Trimmed rhs ∧ ∀ c ∈ rhs, c ∈ line := by
  unfold production at h
  split at h
  · rename_i token rest leading
    split at h
    · rename_i behind arrow
      cases spelled : symbol token with
      | error problem =>
        rw [spelled] at h
        cases h
      | ok t =>
        rw [spelled] at h
        cases h
        refine ⟨Text.trimmed_trim behind, fun c hc => ?_⟩
        have inRest : c ∈ Text.trimStart rest := by
          rw [arrow]
          exact List.mem_cons_of_mem _ (List.mem_cons_of_mem _ (Text.mem_of_mem_trim hc))
        exact (leadingToken?_suffix leading).mem ((Text.trimStart_suffix rest).mem inRest)
    · cases h
  · cases h

variable {part next : Part} {g g' : Grammar} {line : List Char}

theorem Plain.declareNonTerminals (h : Plain g) (symbols : List Symbol) :
    Plain (symbols.foldl Grammar.declareNonTerminal g) := by
  rw [Grammar.foldl_declareNonTerminal]
  exact ⟨h.name, h.escape, h.rights⟩

theorem Plain.declareTerminals (h : Plain g) (symbols : List Symbol) :
    Plain (symbols.foldl Grammar.declareTerminal g) := by
  rw [Grammar.foldl_declareTerminal]
  exact ⟨h.name, h.escape, h.rights⟩

theorem Plain.setName (h : Plain g) {name : String} (ok : PlainName name) : Plain (g.setName name) where
  name := by
    intro other hother
    cases hother
    exact ok
  escape := h.escape
  rights := h.rights

theorem Plain.addAlternative (h : Plain g) (s : Symbol) {rhs : List UInt8} (ok : PlainRight rhs) :
    Plain (g.addAlternative s rhs) where
  name := h.name
  escape := h.escape
  rights := by
    intro t other hother
    rw [Grammar.addAlternative, Grammar.alternatives_setAlternatives] at hother
    split at hother
    · rcases List.mem_append.1 hother with hold | hnew
      · exact h.rights s other hold
      · rw [List.mem_singleton.1 hnew]
        exact ok
    · exact h.rights t other hother

theorem plainName_of_header {name : List Char} (h : headerName? line = some name)
    (nonempty : name ≠ []) (kept : isIgnored line = false) : PlainName (String.ofList name) := by
  obtain ⟨⟨rest, joined⟩, visible⟩ := headerName?_isPrefix h
  rw [isIgnored, Bool.or_eq_false_iff, beq_eq_false_iff_ne] at kept
  constructor <;> rw [String.toList_ofList]
  · exact nonempty
  · exact visible
  · intro comment
    apply kept.2
    rw [← joined, List.head?_append, comment]
    rfl

theorem plainRight_of_production {rhs : List Char} {s : Symbol} (h : production line = .ok (s, rhs))
    (oneLine : '\n' ∉ line) : PlainRight (Text.Utf8.encode rhs) := by
  obtain ⟨trimmed, inside⟩ := production_trimmed h
  refine ⟨⟨rhs, rfl, trimmed⟩, ?_⟩
  rw [Text.Utf8.newline_mem_encode_iff]
  intro newline
  exact oneLine (inside _ newline)

/-- One line keeps the invariant. -/
theorem ReadSoFar.taken (sofar : ReadSoFar part g) (oneLine : '\n' ∉ line)
    (kept : isIgnored line = false) (h : Taken line part g next g') : ReadSoFar next g' := by
  have plain := sofar.toPlain
  cases h with
  | unnamed header => exact ⟨plain, fun behind => by cases behind⟩
  | named header nonempty =>
    exact ⟨plain.setName (plainName_of_header header nonempty kept), fun behind => by cases behind⟩
  | nonTerminals read => exact ⟨plain.declareNonTerminals _, fun behind => by cases behind⟩
  | terminals read => exact ⟨plain.declareTerminals _, fun behind => by cases behind⟩
  | start read => exact ⟨⟨plain.name, plain.escape, plain.rights⟩, fun _ => Option.some_ne_none _⟩
  | opening brace => exact ⟨plain, fun _ => sofar.start rfl⟩
  | production more read =>
    exact ⟨plain.addAlternative _ (plainRight_of_production read oneLine), fun _ => sofar.start rfl⟩
  | closing brace => exact ⟨plain, fun _ => sofar.start rfl⟩
  | close parenthesis => exact ⟨plain, fun _ => sofar.start rfl⟩

/-- A run over lines without newlines keeps the invariant. -/
theorem ReadSoFar.run {lines : List (Option (List Char))} (sofar : ReadSoFar part g)
    (oneLine : ∀ line, some line ∈ lines → '\n' ∉ line) (h : Run part g lines next g') :
    ReadSoFar next g' := by
  induction h with
  | nil => exact sofar
  | skip _ _ ih => exact ih sofar fun line hline => oneLine line (List.mem_cons_of_mem _ hline)
  | step first _ ih =>
    have rest := fun line hline => oneLine line (List.mem_cons_of_mem _ hline)
    refine ih (sofar.taken ?_ first.kept first.taken) rest
    intro newline
    exact oneLine _ List.mem_cons_self (Text.mem_of_mem_trim newline)

/-- Every grammar that is read from a text can be written as a listing. -/
theorem writable_of_readText {text : List Char} (h : readText text = .ok g) : Writable g := by
  have sofar : ReadSoFar .done g := by
    refine readSoFar_empty.run ?_ (readLines_eq_ok_iff.1 h)
    intro line hline newline
    obtain ⟨run, hrun, same⟩ := List.mem_map.1 hline
    cases same
    have separated := (Text.not_mem_of_mem_cut hrun '\n' newline).1
    cases separated
  exact ⟨sofar.toPlain, sofar.start rfl⟩

end Descent.Listing
