import Descent.Listing.Reader
import Descent.Listing.Printer
import Descent.Proofs.Text.Trim

/-!
# Tokens read back

A token is made of visible characters without the punctuation of a listing, so it ends where a comma, a
blank or an arrow follows, and it spells its symbol.
-/
namespace Descent.Listing

open Text (isBlank)

theorem toNat_char (s : Symbol) : s.char.toNat = s.toNat := rfl

/-- A visible ASCII character that neither separates tokens nor starts a comment. -/
def IsTokenChar (c : Char) : Prop := 33 ≤ c.toNat ∧ c.toNat ≤ 126 ∧ c ≠ ',' ∧ c ≠ '#'

theorem IsTokenChar.not_isBlank {c : Char} (h : IsTokenChar c) : isBlank c = false := by
  obtain ⟨low, high, -⟩ := h
  simp only [isBlank, Bool.or_eq_false_iff, Bool.and_eq_false_iff, decide_eq_false_iff_not,
    beq_eq_false_iff_ne]
  omega

theorem isTokenChar_hexDigit : ∀ n, n < 16 → IsTokenChar (Text.hexDigit n) := by
  unfold IsTokenChar
  decide

/-- A token is an escape, or a visible character that is no punctuation. -/
theorem token_cases (s : Symbol) :
    s.token = s.escaped ∨ s.isGraphic = true ∧ s.isPunctuation = false ∧ s.token = [s.char] := by
  unfold Symbol.token Symbol.shown
  cases punctuation : s.isPunctuation with
  | true => exact .inl rfl
  | false =>
    cases graphic : s.isGraphic with
    | true => exact .inr ⟨rfl, rfl, rfl⟩
    | false => exact .inl rfl

theorem isTokenChar_of_mem_token {s : Symbol} {c : Char} (h : c ∈ s.token) : IsTokenChar c := by
  have bound : s.toNat < 256 := s.toNat_lt
  obtain escape | ⟨graphic, punctuation, single⟩ := token_cases s
  · rw [escape] at h
    simp only [Symbol.escaped, Text.hexPair, List.mem_cons, List.not_mem_nil, or_false] at h
    rcases h with rfl | rfl | rfl | rfl
    · unfold IsTokenChar
      decide
    · unfold IsTokenChar
      decide
    · exact isTokenChar_hexDigit _ (by omega)
    · exact isTokenChar_hexDigit _ (by omega)
  · rw [single, List.mem_singleton] at h
    subst h
    simp only [Symbol.isGraphic, Bool.and_eq_true, decide_eq_true_eq, UInt8.le_iff_toNat_le] at graphic
    simp only [Symbol.isPunctuation, decide_eq_false_iff_not, List.mem_cons, not_or] at punctuation
    obtain ⟨comma, -, -, -, -, -, hash, -⟩ := punctuation
    exact ⟨graphic.1, graphic.2, comma, hash⟩

theorem token_ne_nil (s : Symbol) : s.token ≠ [] := by
  obtain escape | ⟨-, -, single⟩ := token_cases s
  · rw [escape]
    exact List.cons_ne_nil _ _
  · rw [single]
    exact List.cons_ne_nil _ _

/-- Every symbol is spelled by its token. -/
theorem ofToken?_token (s : Symbol) : Symbol.ofToken? s.token = some s := by
  obtain escape | ⟨graphic, -, single⟩ := token_cases s
  · rw [escape]
    exact Text.hexByte?_hexPair s
  · simp only [Symbol.isGraphic, Bool.and_eq_true, decide_eq_true_eq, UInt8.le_iff_toNat_le,
      UInt8.reduceToNat] at graphic
    rw [single, Symbol.ofToken?, toNat_char, if_pos (by omega), UInt8.ofNat_toNat]

theorem symbol_token (s : Symbol) : symbol s.token = .ok s := by
  rw [symbol, ofToken?_token]

theorem leadingToken?_escape {high low : Char} (h : (Text.hexByte? high low).isSome)
    (rest : List Char) :
    leadingToken? ('\\' :: 'x' :: high :: low :: rest) = some (['\\', 'x', high, low], rest) := by
  unfold leadingToken?
  simp only [h, if_true]

theorem leadingToken?_cons {c : Char} (visible : isBlank c = false) (plain : c ≠ '\\') (rest : List Char) :
    leadingToken? (c :: rest) = some ([c], rest) := by
  unfold leadingToken?
  split
  · rename_i nil
    cases nil
  · rename_i c' rest' same
    cases same
    split
    · exact absurd rfl plain
    · rw [if_neg (by simp [visible])]

/-- A line that starts with a token is split behind it. -/
theorem leadingToken?_token_append (s : Symbol) (rest : List Char) :
    leadingToken? (s.token ++ rest) = some (s.token, rest) := by
  obtain escape | ⟨-, punctuation, single⟩ := token_cases s
  · rw [escape]
    refine leadingToken?_escape ?_ rest
    rw [Text.hexByte?_hexPair]
    rfl
  · have visible : isBlank s.char = false :=
      (isTokenChar_of_mem_token (s := s) (by rw [single]; exact List.mem_singleton_self _)).not_isBlank
    rw [single]
    refine leadingToken?_cons visible ?_ rest
    intro backslash
    rw [Symbol.isPunctuation, backslash] at punctuation
    exact absurd punctuation (by decide)

/-- The body of a printed set is cut into the tokens of its symbols. -/
theorem tokens_setBody (symbols : List Symbol) :
    tokens (symbols.flatMap (fun s => ' ' :: s.token ++ [',']) ++ [' ']) = symbols.map Symbol.token := by
  induction symbols with
  | nil => decide
  | cons s symbols ih =>
    have inside : ∀ c ∈ s.token, (c == ',' || isBlank c) = false := by
      intro c hc
      have ok := isTokenChar_of_mem_token hc
      simp only [Bool.or_eq_false_iff, beq_eq_false_iff_ne]
      exact ⟨ok.2.2.1, ok.not_isBlank⟩
    have split : (s :: symbols).flatMap (fun s => ' ' :: s.token ++ [',']) ++ [' '] =
        [] ++ ' ' :: (s.token ++ ',' :: (symbols.flatMap (fun s => ' ' :: s.token ++ [',']) ++ [' '])) := by
      simp
    have nonempty : s.token.isEmpty = false := by simp [token_ne_nil]
    rw [tokens, split, Text.cut_append_cons (by simp) (by decide),
      Text.cut_append_cons inside (by decide), List.filter_cons_of_neg (by simp),
      List.filter_cons_of_pos (by simp [nonempty]), List.map_cons, ← ih, tokens]

end Descent.Listing
