import Descent.Json.Scan

/-!
# Skipping JSON values

A value that nobody asks for is passed over without being built, however deep it nests: the open
brackets are kept in a list. Only the grammar is checked; halves of surrogate pairs may stand alone
and numbers may have any size.
-/
namespace Descent.Json

def skipEscape (text : List Char) : Except SettingsFault (List Char) :=
  match text with
  | [] => .error .truncated
  | 'u' :: rest => (hexUnit rest).map (·.2)
  | c :: rest => if (letterEscape? c).isSome then .ok rest else .error .malformed

theorem skipEscape_suffix {text rest : List Char} (h : skipEscape text = .ok rest) :
    rest <:+ text := by
  unfold skipEscape at h
  split at h
  · simp at h
  · rename_i tail
    cases hu : hexUnit tail with
    | error fault => simp [hu, Except.map] at h
    | ok pair =>
      obtain ⟨n, behind⟩ := pair
      simp only [hu, Except.map, Except.ok.injEq] at h
      exact h ▸ (hexUnit_suffix hu).trans (List.suffix_cons _ _)
  · split at h
    · simp only [Except.ok.injEq] at h
      exact h ▸ List.suffix_cons _ _
    · simp at h

/-- Passes a string behind its opening quote. -/
def skipString (text : List Char) : Except SettingsFault (List Char) :=
  match text with
  | [] => .error .truncated
  | c :: rest =>
    if c = '"' then .ok rest
    else if c = '\\' then
      match _h : skipEscape rest with
      | .error fault => .error fault
      | .ok behind => skipString behind
    else if c.toNat < 0x20 then .error .malformed
    else skipString rest
termination_by text.length
decreasing_by
  · have := (skipEscape_suffix _h).length_le
    simp only [List.length_cons]
    omega
  · simp

theorem skipString_suffix {text rest : List Char} (h : skipString text = .ok rest) :
    rest <:+ text := by
  fun_induction skipString text generalizing rest with
  | case1 => simp at h
  | case2 =>
    simp only [Except.ok.injEq] at h
    exact h ▸ List.suffix_cons _ _
  | case3 => simp at h
  | case4 tail behind hesc _ ih =>
    exact ((ih h).trans (skipEscape_suffix hesc)).trans (List.suffix_cons _ _)
  | case5 => simp at h
  | case6 c tail _ _ _ ih => exact (ih h).trans (List.suffix_cons _ _)

inductive Bracket
  | list
  | object
  deriving DecidableEq, Repr

def Bracket.closing : Bracket → Char
  | .list => ']'
  | .object => '\x7d'

/-- Passes a value that starts with `c` and is no number: a scalar, or the opening bracket. -/
def enterAt (c : Char) (rest : List Char) : Except SettingsFault (Option Bracket × List Char) :=
  match c with
  | 'n' => (word ['u', 'l', 'l'] rest).map (none, ·)
  | 't' => (word ['r', 'u', 'e'] rest).map (none, ·)
  | 'f' => (word ['a', 'l', 's', 'e'] rest).map (none, ·)
  | '"' => (skipString rest).map (none, ·)
  | '[' => .ok (some .list, rest)
  | '\x7b' => .ok (some .object, rest)
  | _ => .error .malformed

/-- Passes a scalar, or the opening bracket of another value. -/
def enter (text : List Char) : Except SettingsFault (Option Bracket × List Char) :=
  match skipBlanks text with
  | [] => .error .truncated
  | c :: rest =>
    if startsNumber c then (number .malformed (c :: rest)).map fun (_, rest) => (none, rest)
    else enterAt c rest

theorem length_lt_of_skipBlanks {text tail : List Char} {c : Char}
    (h : skipBlanks text = c :: tail) : tail.length < text.length := by
  have := (skipBlanks_suffix text).length_le
  rw [h, List.length_cons] at this
  omega

theorem suffix_of_map {α : Type} {tail rest : List Char} {a b : α}
    {x : Except SettingsFault (List Char)} (inside : ∀ behind, x = .ok behind → behind <:+ tail)
    (h : x.map (a, ·) = .ok (b, rest)) : rest <:+ tail := by
  cases hx : x with
  | error fault => simp [hx, Except.map] at h
  | ok behind =>
    simp only [hx, Except.map, Except.ok.injEq, Prod.mk.injEq] at h
    exact h.2 ▸ inside behind hx

theorem enterAt_suffix {c : Char} {tail rest : List Char} {b : Option Bracket}
    (h : enterAt c tail = .ok (b, rest)) : rest <:+ tail := by
  unfold enterAt at h
  split at h
  · exact suffix_of_map (fun _ => word_suffix) h
  · exact suffix_of_map (fun _ => word_suffix) h
  · exact suffix_of_map (fun _ => word_suffix) h
  · exact suffix_of_map (fun _ => skipString_suffix) h
  · simp only [Except.ok.injEq, Prod.mk.injEq] at h
    exact h.2 ▸ List.suffix_refl _
  · simp only [Except.ok.injEq, Prod.mk.injEq] at h
    exact h.2 ▸ List.suffix_refl _
  · simp at h

theorem enter_length_lt {text rest : List Char} {b : Option Bracket}
    (h : enter text = .ok (b, rest)) : rest.length < text.length := by
  unfold enter at h
  split at h
  · simp at h
  · rename_i c tail start
    have lt := length_lt_of_skipBlanks start
    split at h
    · cases hn : number .malformed (c :: tail) with
      | error fault => simp [hn, Except.map] at h
      | ok pair =>
        obtain ⟨n, behind⟩ := pair
        simp only [hn, Except.map, Except.ok.injEq, Prod.mk.injEq] at h
        have shorter := number_length_lt hn
        simp only [List.length_cons] at shorter
        rw [← h.2]
        omega
    · have le := (enterAt_suffix h).length_le
      omega

/-- Passes what stands in front of an item: the key and the colon inside an object. -/
def lead (b : Bracket) (text : List Char) : Except SettingsFault (List Char) :=
  match b with
  | .list => .ok text
  | .object =>
    match skipBlanks text with
    | '"' :: rest => skipString rest >>= colon
    | [] => .error .truncated
    | _ :: _ => .error .malformed

theorem lead_suffix {b : Bracket} {text rest : List Char} (h : lead b text = .ok rest) :
    rest <:+ text := by
  unfold lead at h
  split at h
  · simp only [Except.ok.injEq] at h
    exact h ▸ List.suffix_refl _
  · split at h
    · rename_i start
      obtain ⟨behind, hs, hc⟩ := bind_eq_ok.1 h
      exact ((colon_suffix hc).trans (skipString_suffix hs)).trans (suffix_of_skipBlanks_eq start)
    · simp at h
    · simp at h

inductive Place
  | value
  | behind
  | opened
  deriving DecidableEq, Repr

/-- Skips on from a place inside some open brackets, the innermost first. -/
def skipFrom (place : Place) (open_ : List Bracket) (text : List Char) :
    Except SettingsFault (List Char) :=
  match place, open_ with
  | .value, outer =>
    match _h : enter text with
    | .error fault => .error fault
    | .ok (some b, rest) => skipFrom .opened (b :: outer) rest
    | .ok (none, rest) => skipFrom .behind outer rest
  | _, [] => .ok text
  | .behind, b :: outer =>
    match _start : skipBlanks text with
    | [] => .error .truncated
    | c :: rest =>
      if c = ',' then
        match _led : lead b rest with
        | .error fault => .error fault
        | .ok rest => skipFrom .value (b :: outer) rest
      else if c = b.closing then skipFrom .behind outer rest
      else .error .malformed
  | .opened, b :: outer =>
    match _start : skipBlanks text with
    | [] => .error .truncated
    | c :: rest =>
      if c = b.closing then skipFrom .behind outer rest
      else
        match _led : lead b text with
        | .error fault => .error fault
        | .ok rest => skipFrom .value (b :: outer) rest
termination_by (text.length, if place = .opened then 1 else 0)
decreasing_by
  · exact Prod.Lex.left _ _ (enter_length_lt _h)
  · exact Prod.Lex.left _ _ (enter_length_lt _h)
  · have lt := length_lt_of_skipBlanks _start
    have le := (lead_suffix _led).length_le
    exact Prod.Lex.left _ _ (by omega)
  · exact Prod.Lex.left _ _ (length_lt_of_skipBlanks _start)
  · exact Prod.Lex.left _ _ (length_lt_of_skipBlanks _start)
  · have le := (lead_suffix _led).length_le
    rcases Nat.lt_or_eq_of_le le with lt | eq
    · exact Prod.Lex.left _ _ lt
    · rw [eq]
      exact Prod.Lex.right _ (by simp)

def skipValue (text : List Char) : Except SettingsFault (List Char) := skipFrom .value [] text

end Descent.Json
