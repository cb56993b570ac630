import Descent.Proofs.Text.Utf8

/-!
# What strict decoding accepts

The scanner takes a character only where its encoding stands: every other way of writing it, a surrogate
and a value past U+10FFFF are refused by the ranges of the first two bytes. So the strict decoder accepts
encoded texts and nothing else.
-/
namespace Descent.Text.Utf8

theorem toNat_val_ofNat {n : Nat} (h : n.isValidChar) : (Char.ofNat n).val.toNat = n := by
  rw [Char.ofNat, dif_pos h]
  rfl

theorem utf8EncodeChar_one {k : Nat} (hk : k < 0x80) :
    String.utf8EncodeChar (Char.ofNat k) = [UInt8.ofNat k] := by
  have valid : k.isValidChar := .inl (by omega)
  unfold String.utf8EncodeChar
  rw [toNat_val_ofNat valid]
  simp only
  rw [if_pos (by omega)]

theorem utf8EncodeChar_two {k m : Nat} (low : 0xC2 ≤ k) (high : k < 0xE0) (hm : m < 64) :
    String.utf8EncodeChar (Char.ofNat ((k - 0xC0) * 64 + m)) = [UInt8.ofNat k, UInt8.ofNat (m + 0x80)] := by
  have valid : ((k - 0xC0) * 64 + m).isValidChar := .inl (by omega)
  have lead : ((k - 0xC0) * 64 + m) / 64 % 32 + 0xC0 = k := by omega
  have tail : ((k - 0xC0) * 64 + m) % 64 = m := by omega
  unfold String.utf8EncodeChar
  rw [toNat_val_ofNat valid]
  simp only
  rw [if_neg (by omega), if_pos (by omega), lead, tail]

theorem utf8EncodeChar_three {k m₁ m₂ : Nat} (low : 0xE0 ≤ k) (high : k < 0xF0) (h₁ : m₁ < 64)
    (h₂ : m₂ < 64) (long : k = 0xE0 → 0x20 ≤ m₁) (noSurrogate : k = 0xED → m₁ < 0x20) :
    String.utf8EncodeChar (Char.ofNat (((k - 0xE0) * 64 + m₁) * 64 + m₂)) =
      [UInt8.ofNat k, UInt8.ofNat (m₁ + 0x80), UInt8.ofNat (m₂ + 0x80)] := by
  have valid : (((k - 0xE0) * 64 + m₁) * 64 + m₂).isValidChar := by
    unfold Nat.isValidChar
    omega
  have lead : (((k - 0xE0) * 64 + m₁) * 64 + m₂) / 4096 % 16 + 0xE0 = k := by omega
  have middle : (((k - 0xE0) * 64 + m₁) * 64 + m₂) / 64 % 64 = m₁ := by omega
  have tail : (((k - 0xE0) * 64 + m₁) * 64 + m₂) % 64 = m₂ := by omega
  unfold String.utf8EncodeChar
  rw [toNat_val_ofNat valid]
  simp only
  rw [if_neg (by omega), if_neg (by omega), if_pos (by omega), lead, middle, tail]

theorem utf8EncodeChar_four {k m₁ m₂ m₃ : Nat} (low : 0xF0 ≤ k) (high : k ≤ 0xF4) (h₁ : m₁ < 64)
    (h₂ : m₂ < 64) (h₃ : m₃ < 64) (long : k = 0xF0 → 0x10 ≤ m₁) (inRange : k = 0xF4 → m₁ < 0x10) :
    String.utf8EncodeChar (Char.ofNat ((((k - 0xF0) * 64 + m₁) * 64 + m₂) * 64 + m₃)) =
      [UInt8.ofNat k, UInt8.ofNat (m₁ + 0x80), UInt8.ofNat (m₂ + 0x80), UInt8.ofNat (m₃ + 0x80)] := by
  have valid : ((((k - 0xF0) * 64 + m₁) * 64 + m₂) * 64 + m₃).isValidChar := by
    unfold Nat.isValidChar
    omega
  have lead : ((((k - 0xF0) * 64 + m₁) * 64 + m₂) * 64 + m₃) / 262144 % 8 + 0xF0 = k := by omega
  have second : ((((k - 0xF0) * 64 + m₁) * 64 + m₂) * 64 + m₃) / 4096 % 64 = m₁ := by omega
  have third : ((((k - 0xF0) * 64 + m₁) * 64 + m₂) * 64 + m₃) / 64 % 64 = m₂ := by omega
  have tail : ((((k - 0xF0) * 64 + m₁) * 64 + m₂) * 64 + m₃) % 64 = m₃ := by omega
  unfold String.utf8EncodeChar
  rw [toNat_val_ofNat valid]
  simp only
  rw [if_neg (by omega), if_neg (by omega), if_neg (by omega), lead, second, third, tail]

/-- A character that takes a continuation byte has one in range, which adds six bits. -/
theorem continuation_succ_eq_some {tail payload : Nat} {low high : UInt8} {bytes after : List UInt8}
    {c : Char} (hlow : 0x80 ≤ low.toNat) (hhigh : high.toNat ≤ 0xBF)
    (h : continuation (tail + 1) payload low high bytes = (some c, after)) :
    ∃ m rest, m < 64 ∧ low.toNat ≤ m + 0x80 ∧ m + 0x80 ≤ high.toNat ∧
      bytes = UInt8.ofNat (m + 0x80) :: rest ∧
      continuation tail (payload * 64 + m) 0x80 0xBF rest = (some c, after) := by
  cases bytes with
  | nil => cases h
  | cons b rest =>
    rw [continuation] at h
    split at h
    · rename_i inRange
      simp only [UInt8.le_iff_toNat_le] at inRange
      have same : b.toNat - 0x80 + 0x80 = b.toNat := by omega
      refine ⟨b.toNat - 0x80, rest, by omega, by omega, by omega, ?_, h⟩
      rw [same, UInt8.ofNat_toNat]
    · cases h

theorem continuation_zero_eq_some {payload : Nat} {low high : UInt8} {bytes after : List UInt8} {c : Char}
    (h : continuation 0 payload low high bytes = (some c, after)) : c = Char.ofNat payload ∧ after = bytes := by
  rw [continuation_zero] at h
  cases h
  exact ⟨rfl, rfl⟩

theorem lead?_eq_none {k : Nat} (hk : k < 256) (h : 0x80 ≤ k ∧ k < 0xC2 ∨ 0xF5 ≤ k) :
    lead? (UInt8.ofNat k) = none := by
  have value := toNat_ofNat_byte hk
  unfold lead?
  simp only [UInt8.lt_iff_toNat_lt, ← UInt8.toNat_inj, value, UInt8.reduceToNat]
  rcases h with h | h
  · rw [if_neg (by omega), if_pos (by omega)]
  · rw [if_neg (by omega), if_neg (by omega), if_neg (by omega), if_neg (by omega), if_neg (by omega),
      if_neg (by omega), if_neg (by omega), if_neg (by omega), if_neg (by omega)]

theorem eq_append_of_two {k : Nat} (low : 0xC2 ≤ k) (high : k < 0xE0) {rest after : List UInt8} {c : Char}
    (h : continuation 1 (k - 0xC0) 0x80 0xBF rest = (some c, after)) :
    UInt8.ofNat k :: rest = String.utf8EncodeChar c ++ after := by
  obtain ⟨m, rest₁, hm, -, -, rfl, end₁⟩ := continuation_succ_eq_some (by decide) (by decide) h
  obtain ⟨rfl, rfl⟩ := continuation_zero_eq_some end₁
  rw [utf8EncodeChar_two low high hm]
  rfl

theorem eq_append_of_three {k : Nat} (low : 0xE0 ≤ k) (high : k < 0xF0) {rest after : List UInt8} {c : Char}
    (h : continuation 2 (k - 0xE0) (if k = 0xE0 then 0xA0 else 0x80) (if k = 0xED then 0x9F else 0xBF) rest =
      (some c, after)) : UInt8.ofNat k :: rest = String.utf8EncodeChar c ++ after := by
  have first : (if k = 0xE0 then (0xA0 : UInt8) else 0x80).toNat = if k = 0xE0 then 0xA0 else 0x80 := by
    split <;> rfl
  have last : (if k = 0xED then (0x9F : UInt8) else 0xBF).toNat = if k = 0xED then 0x9F else 0xBF := by
    split <;> rfl
  obtain ⟨m₁, rest₁, h₁, from₁, to₁, rfl, more⟩ :=
    continuation_succ_eq_some (by rw [first]; split <;> omega) (by rw [last]; split <;> omega) h
  obtain ⟨m₂, rest₂, h₂, -, -, rfl, end₂⟩ := continuation_succ_eq_some (by decide) (by decide) more
  obtain ⟨rfl, rfl⟩ := continuation_zero_eq_some end₂
  have long : k = 0xE0 → 0x20 ≤ m₁ := by
    intro same
    rw [first, if_pos same] at from₁
    omega
  have noSurrogate : k = 0xED → m₁ < 0x20 := by
    intro same
    rw [last, if_pos same] at to₁
    omega
  rw [utf8EncodeChar_three low high h₁ h₂ long noSurrogate]
  rfl

theorem eq_append_of_four {k : Nat} (low : 0xF0 ≤ k) (high : k ≤ 0xF4) {rest after : List UInt8} {c : Char}
    (h : continuation 3 (k - 0xF0) (if k = 0xF0 then 0x90 else 0x80) (if k = 0xF4 then 0x8F else 0xBF) rest =
      (some c, after)) : UInt8.ofNat k :: rest = String.utf8EncodeChar c ++ after := by
  have first : (if k = 0xF0 then (0x90 : UInt8) else 0x80).toNat = if k = 0xF0 then 0x90 else 0x80 := by
    split <;> rfl
  have last : (if k = 0xF4 then (0x8F : UInt8) else 0xBF).toNat = if k = 0xF4 then 0x8F else 0xBF := by
    split <;> rfl
  obtain ⟨m₁, rest₁, h₁, from₁, to₁, rfl, more₁⟩ :=
    continuation_succ_eq_some (by rw [first]; split <;> omega) (by rw [last]; split <;> omega) h
  obtain ⟨m₂, rest₂, h₂, -, -, rfl, more₂⟩ := continuation_succ_eq_some (by decide) (by decide) more₁
  obtain ⟨m₃, rest₃, h₃, -, -, rfl, end₃⟩ := continuation_succ_eq_some (by decide) (by decide) more₂
  obtain ⟨rfl, rfl⟩ := continuation_zero_eq_some end₃
  have long : k = 0xF0 → 0x10 ≤ m₁ := by
    intro same
    rw [first, if_pos same] at from₁
    omega
  have inRange : k = 0xF4 → m₁ < 0x10 := by
    intro same
    rw [last, if_pos same] at to₁
    omega
  rw [utf8EncodeChar_four low high h₁ h₂ h₃ long inRange]
  rfl

/-- A character that is read stands there in its encoding. -/
theorem eq_append_of_entry {b : UInt8} {rest after : List UInt8} {c : Char}
    (h : entry b rest = (some c, after)) : b :: rest = String.utf8EncodeChar c ++ after := by
  obtain ⟨k, hk, rfl⟩ : ∃ k, k < 256 ∧ b = UInt8.ofNat k :=
    ⟨b.toNat, b.toNat_lt, UInt8.ofNat_toNat.symm⟩
  unfold entry at h
  -- by the length that the first byte announces
  by_cases one : k < 0x80
  · rw [lead?_one one] at h
    obtain ⟨rfl, rfl⟩ := continuation_zero_eq_some h
    rw [utf8EncodeChar_one one]
    rfl
  by_cases ill : k < 0xC2 ∨ 0xF5 ≤ k
  · rw [lead?_eq_none hk (by omega)] at h
    cases h
  by_cases two : k < 0xE0
  · rw [lead?_two (by omega) two] at h
    exact eq_append_of_two (by omega) two h
  by_cases three : k < 0xF0
  · rw [lead?_three (by omega) three] at h
    exact eq_append_of_three (by omega) three h
  · rw [lead?_four (by omega) (by omega)] at h
    exact eq_append_of_four (by omega) (by omega) h

theorem eq_encode_of_scan {bytes : List UInt8} {cs : List Char} (h : scan bytes = cs.map some) :
    bytes = encode cs := by
  induction cs generalizing bytes with
  | nil =>
    cases bytes with
    | nil => rfl
    | cons b rest =>
      rw [scan] at h
      cases h
  | cons c cs ih =>
    cases bytes with
    | nil =>
      rw [scan] at h
      cases h
    | cons b rest =>
      rw [scan, List.map_cons, List.cons.injEq] at h
      obtain ⟨first, others⟩ := h
      have read : entry b rest = (some c, (entry b rest).2) := Prod.ext first rfl
      rw [eq_append_of_entry read, ih others]
      rfl

theorem mapM_id_eq_some {entries : List (Option Char)} {cs : List Char} (h : entries.mapM id = some cs) :
    entries = cs.map some := by
  induction entries generalizing cs with
  | nil =>
    cases h
    rfl
  | cons e entries ih =>
    rw [List.mapM_cons] at h
    obtain ⟨c, hc, h⟩ := Option.bind_eq_some_iff.1 h
    obtain ⟨rest, hrest, h⟩ := Option.bind_eq_some_iff.1 h
    cases h
    change e = some c at hc
    rw [hc, ih hrest]
    rfl

/-- The strict decoder accepts the encodings of texts and nothing else. -/
theorem decode?_eq_some_iff {bytes : List UInt8} {cs : List Char} :
    decode? bytes = some cs ↔ bytes = encode cs := by
  constructor
  · intro h
    exact eq_encode_of_scan (mapM_id_eq_some h)
  · rintro rfl
    exact decode?_encode cs

theorem encode_append (cs ds : List Char) : encode (cs ++ ds) = encode cs ++ encode ds :=
  List.flatMap_append

/-- A carriage return byte at the end of an encoded text comes from a carriage return. -/
theorem eq_encode_of_concat_return {bytes : List UInt8} {text : List Char} (h : bytes ++ [13] = encode text) :
    ∃ front, text = front ++ ['\r'] ∧ bytes = encode front := by
  obtain rfl | ⟨front, last, rfl⟩ := List.eq_nil_or_concat text
  · cases (List.append_eq_nil_iff.1 h).2
  rw [List.concat_eq_append] at h ⊢
  have final : encode (front ++ [last]) = encode front ++ String.utf8EncodeChar last := by
    rw [encode_append, encode, encode, List.flatMap_singleton]
  have inside : (13 : UInt8) ∈ String.utf8EncodeChar last := by
    obtain none | ⟨init, b, spelled⟩ := List.eq_nil_or_concat (String.utf8EncodeChar last)
    · exact absurd none String.utf8EncodeChar_ne_nil
    rw [final, spelled, List.concat_eq_append, ← List.append_assoc] at h
    have same : [13] = [b] := (List.append_inj' h rfl).2
    rw [spelled, List.concat_eq_append, ← same]
    exact List.mem_append_right _ (List.mem_singleton.2 rfl)
  have value : (13 : Nat) = last.val.toNat := by
    simpa using toNat_of_mem_utf8EncodeChar inside
  obtain rfl : last = '\r' := by
    have same : Char.ofNat last.val.toNat = last := Char.ofNat_toNat last
    rw [← same, ← value]
  exact ⟨front, rfl, List.append_cancel_right (h.trans final)⟩

/-- A carriage return at the end of a byte string is one at the end of its text. -/
theorem decode?_concat_return (bytes : List UInt8) : decode? (bytes ++ [13]) = (decode? bytes).map (· ++ ['\r']) := by
  ext text
  rw [decode?_eq_some_iff, Option.map_eq_some_iff]
  constructor
  · intro h
    obtain ⟨front, rfl, rfl⟩ := eq_encode_of_concat_return h
    exact ⟨front, decode?_encode front, rfl⟩
  · rintro ⟨front, decoded, rfl⟩
    rw [decode?_eq_some_iff.1 decoded, encode_append]
    rfl

/-- Bytes whose lines are encoded texts are an encoded text. -/
theorem exists_encode_of_cut {lines : List (List Char)} {bytes : List UInt8}
    (h : cut (· == 10) bytes = lines.map encode) : ∃ text, bytes = encode text := by
  induction lines generalizing bytes with
  | nil => exact absurd h (cut_ne_nil _ bytes)
  | cons line lines ih =>
    rcases eq_append_of_cut h with ⟨-, rfl⟩ | ⟨sep, rest, newline, rfl, hrest⟩
    · exact ⟨line, rfl⟩
    · obtain ⟨text, rfl⟩ := ih hrest
      obtain rfl : sep = 10 := beq_iff_eq.1 newline
      refine ⟨line ++ '\n' :: text, ?_⟩
      rw [encode_append]
      rfl

end Descent.Text.Utf8
