import Descent.Proofs.Listing.Taken
import Descent.Proofs.Listing.Token
import Descent.Proofs.Text.Utf8

/-!
# Printed lines read back

Each line of a listing that the printer writes is trimmed to its body, is not passed over, and puts into
the grammar what was printed.
-/
namespace Descent.Listing

open Text (isBlank Trimmed)

/-- A line without blanks around it that is no comment. -/
structure Bare (body : List Char) : Prop where
  trimmed : Trimmed body
  kept : isIgnored body = false

theorem bare_append {c : Char} {front back : List Char} (first : isBlank c = false)
    (noComment : c ≠ '#') (nonempty : back ≠ []) (last : ∀ d, back.getLast? = some d → isBlank d = false) :
    Bare (c :: front ++ back) := by
  constructor
  · constructor
    · intro d hd
      cases hd
      exact first
    · intro d hd
      obtain ⟨e, he⟩ := Option.isSome_iff_exists.1 (List.getLast?_isSome.2 nonempty)
      rw [List.getLast?_append, he, Option.some_or] at hd
      cases hd
      exact last d he
  · simp [isIgnored, noComment]

theorem bare_token_append {s : Symbol} {rest : List Char} (nonempty : rest ≠ [])
    (last : ∀ d, rest.getLast? = some d → isBlank d = false) : Bare (s.token ++ rest) := by
  cases spelled : s.token with
  | nil => exact absurd spelled (token_ne_nil s)
  | cons c front =>
    have ok : IsTokenChar c := isTokenChar_of_mem_token (s := s) (spelled ▸ List.mem_cons_self)
    exact bare_append ok.not_isBlank ok.2.2.2 nonempty last

variable {g h : Grammar} {part next : Part}

theorem takes_of_bare {body : List Char} (bare : Bare body) (taken : Taken body part g next h) :
    Takes body part g next h := by
  constructor <;> rw [Text.trim_of_trimmed bare.trimmed]
  · exact bare.kept
  · exact taken

theorem Takes.indent {line : List Char} (h' : Takes line part g next h) :
    Takes ('\t' :: line) part g next h := by
  have same : Text.trim ('\t' :: line) = Text.trim line := Text.trim_cons_of_blank (by decide) line
  constructor <;> rw [same]
  · exact h'.kept
  · exact h'.taken

theorem headerName?_append {name : List Char} (visible : ∀ c ∈ name, isBlank c = false) :
    headerName? (name ++ [' ', '=', ' ', '(']) = some name := by
  have equals : Text.trimStart (' ' :: '=' :: ' ' :: name.reverse) = '=' :: ' ' :: name.reverse := by
    rw [Text.trimStart_cons_of_blank (by decide), Text.trimStart_cons_of_not_blank (by decide)]
  have front : Text.trimStart (' ' :: name.reverse) = name.reverse := by
    rw [Text.trimStart_cons_of_blank (by decide), Text.trimStart_of_first]
    intro c hc
    exact visible c (List.mem_reverse.1 (List.mem_of_mem_head? hc))
  have noBlank : name.any isBlank = false := by
    rw [List.any_eq_false]
    intro c hc
    simp [visible c hc]
  simp only [headerName?, List.reverse_append, List.reverse_cons, List.reverse_nil, List.nil_append,
    List.cons_append, equals, front, List.reverse_reverse, noBlank, Bool.false_eq_true, if_false]

theorem takes_header_unset : Takes (headerLine none) .header g .nonTerminals g := by
  constructor
  · decide
  · have name : headerName? (Text.trim (headerLine none)) = some [] := by decide
    exact .unnamed name

theorem takes_header {name : String} (nonempty : name.toList ≠ [])
    (visible : ∀ c ∈ name.toList, isBlank c = false) (noComment : name.toList.head? ≠ some '#') :
    Takes (headerLine (some name)) .header g .nonTerminals (g.setName name) := by
  have read := headerName?_append visible
  have same : String.ofList name.toList = name := String.ofList_toList
  have line : headerLine (some name) = name.toList ++ [' ', '=', ' ', '('] := rfl
  rw [line]
  generalize name.toList = front at *
  cases front with
  | nil => exact absurd rfl nonempty
  | cons c rest =>
    apply takes_of_bare
    · refine bare_append (visible c List.mem_cons_self) ?_ (by simp) ?_
      · rintro rfl
        exact noComment rfl
      · intro d hd
        cases hd
        decide
    · exact same ▸ .named read nonempty

theorem setBody?_setLine (body : List Char) : setBody? ('\x7b' :: (body ++ ['\x7d'])) = some body := by
  have reversed : dropComma (body ++ ['\x7d']).reverse = '\x7d' :: body.reverse := by
    rw [List.reverse_append]
    rfl
  have kept : Text.trimStart ('\x7d' :: body.reverse) = '\x7d' :: body.reverse :=
    Text.trimStart_cons_of_not_blank (by decide) _
  simp only [setBody?, reversed, kept, List.reverse_reverse]

theorem mapM_symbol_token (symbols : List Symbol) :
    (symbols.map Symbol.token).mapM symbol = .ok symbols := by
  induction symbols with
  | nil => rfl
  | cons s symbols ih =>
    rw [List.map_cons, List.mapM_cons, symbol_token, ih]
    rfl

/-- What stands between the braces of a printed set. -/
def printedBody (symbols : List Symbol) : List Char :=
  symbols.flatMap (fun s => ' ' :: s.token ++ [',']) ++ [' ']

theorem setLine_eq (symbols : List Symbol) :
    setLine symbols = '\t' :: '\x7b' :: (printedBody symbols ++ ['\x7d']) := by
  simp [setLine, printedBody]

theorem set_printed (part : Part) (symbols : List Symbol) :
    set part ('\x7b' :: (printedBody symbols ++ ['\x7d'])) = .ok symbols := by
  rw [set, setBody?_setLine]
  simp only
  rw [printedBody, tokens_setBody, mapM_symbol_token]

theorem bare_printed (symbols : List Symbol) : Bare ('\x7b' :: (printedBody symbols ++ ['\x7d'])) := by
  rw [← List.cons_append]
  apply bare_append (by decide) (by decide) (by simp)
  intro d hd
  cases hd
  decide

theorem takes_nonTerminals (symbols : List Symbol) :
    Takes (setLine symbols) .nonTerminals g .terminals (symbols.foldl Grammar.declareNonTerminal g) := by
  rw [setLine_eq]
  apply Takes.indent
  exact takes_of_bare (bare_printed symbols) (.nonTerminals (set_printed _ symbols))

theorem takes_terminals (symbols : List Symbol) :
    Takes (setLine symbols) .terminals g .start (symbols.foldl Grammar.declareTerminal g) := by
  rw [setLine_eq]
  apply Takes.indent
  exact takes_of_bare (bare_printed symbols) (.terminals (set_printed _ symbols))

theorem takes_start (s : Symbol) : Takes (startLine (some s)) .start g .opening (g.setStart s) := by
  have line : startLine (some s) = '\t' :: (s.token ++ [',']) := rfl
  have read : start (s.token ++ [',']) = .ok s := by
    have tail : isTail [','] = true := by decide
    rw [start, leadingToken?_token_append]
    simp only [tail, if_true, symbol_token]
  rw [line]
  apply Takes.indent
  apply takes_of_bare
  · apply bare_token_append (by simp)
    intro d hd
    cases hd
    decide
  · exact .start read

theorem takes_opening : Takes ['\t', '\x7b'] .opening g .productions g :=
  ⟨by decide, .opening (by decide)⟩

theorem takes_production (s : Symbol) {text : List Char} (trimmed : Trimmed text) :
    Takes (productionLine s (Text.Utf8.encode text)) .productions g .productions
      (g.addAlternative s (Text.Utf8.encode text)) := by
  have line : productionLine s (Text.Utf8.encode text) = '\t' :: '\t' :: (s.token ++ '-' :: '>' :: text) := by
    rw [productionLine, Text.Utf8.decodeLossy_encode]
    rfl
  have arrow : Text.trimStart ('-' :: '>' :: text) = '-' :: '>' :: text :=
    Text.trimStart_cons_of_not_blank (by decide) _
  have read : production (s.token ++ '-' :: '>' :: text) = .ok (s, text) := by
    rw [production, leadingToken?_token_append]
    simp only [arrow, symbol_token, Text.trim_of_trimmed trimmed]
    rfl
  have noBrace : s.token ++ '-' :: '>' :: text ≠ ['\x7d'] := by
    intro same
    have lengths := congrArg List.length same
    rw [List.length_append, List.length_cons, List.length_cons, List.length_singleton] at lengths
    omega
  rw [line]
  apply Takes.indent
  apply Takes.indent
  apply takes_of_bare
  · apply bare_token_append (by simp)
    intro d hd
    cases text with
    | nil =>
      cases hd
      decide
    | cons c text =>
      rw [List.getLast?_cons_cons, List.getLast?_cons_cons] at hd
      exact trimmed.last d hd
  · exact .production noBrace read

theorem takes_closing : Takes ['\t', '\x7d'] .productions g .close g :=
  ⟨by decide, .closing (by decide)⟩

theorem takes_close : Takes [')'] .close g .done g := ⟨by decide, .close (by decide)⟩

end Descent.Listing
