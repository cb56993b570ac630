import Descent.Listing.Reader
import Descent.Proofs.Text.Utf8

/-!
# What the reader does

The ways in which the reader takes a line, one for each kind of line it knows, and the runs of lines that
it accepts.
-/
namespace Descent.Listing

/-- The line leads from a part and a grammar to the next part and grammar. -/
inductive Taken (line : List Char) : Part → Grammar → Part → Grammar → Prop
  | unnamed {g : Grammar} (h : headerName? line = some []) : Taken line .header g .nonTerminals g
  | named {g : Grammar} {name : List Char} (h : headerName? line = some name) (nonempty : name ≠ []) :
      Taken line .header g .nonTerminals (g.setName (String.ofList name))
  | nonTerminals {g : Grammar} {symbols : List Symbol} (h : set .nonTerminals line = .ok symbols) :
      Taken line .nonTerminals g .terminals (symbols.foldl Grammar.declareNonTerminal g)
  | terminals {g : Grammar} {symbols : List Symbol} (h : set .terminals line = .ok symbols) :
      Taken line .terminals g .start (symbols.foldl Grammar.declareTerminal g)
  | start {g : Grammar} {s : Symbol} (h : start line = .ok s) : Taken line .start g .opening (g.setStart s)
  | opening {g : Grammar} (h : line = ['\x7b']) : Taken line .opening g .productions g
  | production {g : Grammar} {s : Symbol} {rhs : List Char} (more : line ≠ ['\x7d'])
      (h : production line = .ok (s, rhs)) :
      Taken line .productions g .productions (g.addAlternative s (Text.Utf8.encode rhs))
  | closing {g : Grammar} (h : line = ['\x7d']) : Taken line .productions g .close g
  | close {g : Grammar} (h : line = [')']) : Taken line .close g .done g

theorem taken_of_take {line : List Char} {part next : Part} {g h : Grammar}
    (ok : take line part g = .ok (next, h)) : Taken line part g next h := by
  cases part with
  | header =>
    simp only [take] at ok
    cases header : headerName? line with
    | none => simp [header] at ok
    | some name =>
      cases name with
      | nil =>
        simp only [header, Except.ok.injEq, Prod.mk.injEq] at ok
        obtain ⟨rfl, rfl⟩ := ok
        exact .unnamed header
      | cons c name =>
        simp only [header, Except.ok.injEq, Prod.mk.injEq] at ok
        obtain ⟨rfl, rfl⟩ := ok
        exact .named header (List.cons_ne_nil _ _)
  | nonTerminals =>
    simp only [take] at ok
    cases read : set .nonTerminals line with
    | error problem =>
      rw [read] at ok
      cases ok
    | ok symbols =>
      rw [read] at ok
      cases ok
      exact .nonTerminals read
  | terminals =>
    simp only [take] at ok
    cases read : set .terminals line with
    | error problem =>
      rw [read] at ok
      cases ok
    | ok symbols =>
      rw [read] at ok
      cases ok
      exact .terminals read
  | start =>
    simp only [take] at ok
    cases read : start line with
    | error problem =>
      rw [read] at ok
      cases ok
    | ok s =>
      rw [read] at ok
      cases ok
      exact .start read
  | opening =>
    simp only [take] at ok
    split at ok
    · rename_i brace
      cases ok
      exact .opening brace
    · cases ok
  | productions =>
    simp only [take] at ok
    split at ok
    · rename_i brace
      cases ok
      exact .closing brace
    · rename_i more
      cases read : production line with
      | error problem =>
        rw [read] at ok
        cases ok
      | ok pair =>
        rw [read] at ok
        cases ok
        exact .production more read
  | close =>
    simp only [take] at ok
    split at ok
    · rename_i parenthesis
      cases ok
      exact .close parenthesis
    · cases ok
  | done => cases ok

/-- The reader takes a line in these ways only, and in each of them. -/
theorem take_eq_ok_iff {line : List Char} {part next : Part} {g h : Grammar} :
    take line part g = .ok (next, h) ↔ Taken line part g next h := by
  constructor
  · exact taken_of_take
  · intro taken
    cases taken with
    | unnamed header => rw [take, header]
    | @named _ name header nonempty =>
      cases name with
      | nil => exact absurd rfl nonempty
      | cons c name => simp only [take, header]
    | nonTerminals read =>
      rw [take, read]
      rfl
    | terminals read =>
      rw [take, read]
      rfl
    | start read =>
      rw [take, read]
      rfl
    | opening brace => rw [take, if_pos brace]
    | production more read =>
      rw [take, if_neg more, read]
      rfl
    | closing brace => rw [take, if_pos brace]
    | close parenthesis => rw [take, if_pos parenthesis]

/-- A line that the reader does not pass over leads from one part and grammar to the next. -/
structure Takes (line : List Char) (part : Part) (g : Grammar) (next : Part) (h : Grammar) : Prop where
  kept : isIgnored (Text.trim line) = false
  taken : Taken (Text.trim line) part g next h

/-- Lines that lead from one part and grammar to another. -/
inductive Run : Part → Grammar → List (Option (List Char)) → Part → Grammar → Prop
  | nil {part : Part} {g : Grammar} : Run part g [] part g
  | skip {part next : Part} {g h : Grammar} {line : List Char} {rest : List (Option (List Char))}
      (ignored : isIgnored (Text.trim line) = true) (run : Run part g rest next h) :
      Run part g (some line :: rest) next h
  | step {part middle next : Part} {g f h : Grammar} {line : List Char} {rest : List (Option (List Char))}
      (first : Takes line part g middle f) (run : Run middle f rest next h) :
      Run part g (some line :: rest) next h

theorem Run.append {part middle next : Part} {g f h : Grammar} {front back : List (Option (List Char))}
    (first : Run part g front middle f) (second : Run middle f back next h) :
    Run part g (front ++ back) next h := by
  induction first with
  | nil => exact second
  | skip ignored _ ih => exact .skip ignored (ih second)
  | step first _ ih => exact .step first (ih second)

theorem run_of_readLines {lines : List (Option (List Char))} {number : Nat} {part : Part} {g h : Grammar}
    (ok : readLines number part g lines = .ok h) : Run part g lines .done h := by
  induction lines generalizing number part g with
  | nil =>
    rw [readLines] at ok
    split at ok
    · rename_i done
      subst done
      cases ok
      exact .nil
    · cases ok
  | cons first lines ih =>
    cases first with
    | none => cases ok
    | some line =>
      rw [readLines] at ok
      split at ok
      · rename_i ignored
        exact .skip ignored (ih ok)
      · rename_i kept
        split at ok
        · cases ok
        · rename_i taken
          exact .step ⟨Bool.eq_false_iff.2 kept, taken_of_take taken⟩ (ih ok)

/-- The reader accepts the runs that end behind the last part. -/
theorem readLines_eq_ok_iff {lines : List (Option (List Char))} {number : Nat} {part : Part} {g h : Grammar} :
    readLines number part g lines = .ok h ↔ Run part g lines .done h := by
  constructor
  · exact run_of_readLines
  · intro run
    generalize last : Part.done = final at run
    induction run generalizing number with
    | nil => rw [readLines, if_pos last.symm]
    | skip ignored _ ih => rw [readLines, if_pos ignored, ih last]
    | step first _ ih =>
      rw [readLines, if_neg (Bool.eq_false_iff.1 first.kept), take_eq_ok_iff.2 first.taken]
      exact ih last

/-- A text is read as the bytes that encode it are. -/
theorem readBytes_encode (text : List Char) : readBytes (Text.Utf8.encode text) = readText text := by
  rw [readBytes, readText, Text.Utf8.cut_encode, List.map_map]
  congr 1
  apply List.map_congr_left
  intro line _
  exact Text.Utf8.decode?_encode line

end Descent.Listing
