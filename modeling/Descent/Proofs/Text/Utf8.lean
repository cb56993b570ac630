import Descent.Proofs.Text.Trim
import Descent.Text.Utf8

/-!
# Decoding what was encoded

The scanner reads back the characters of every encoded text, whatever bytes follow, so both decoders
invert the encoder. A newline byte comes from a newline only.
-/
namespace Descent.Text.Utf8

theorem toNat_ofNat_byte {k : Nat} (hk : k < 256) : (UInt8.ofNat k).toNat = k := by
  rw [UInt8.toNat_ofNat']
  exact Nat.mod_eq_of_lt hk

theorem lead?_one {k : Nat} (hk : k < 0x80) : lead? (UInt8.ofNat k) = some ⟨0, k, 0x80, 0xBF⟩ := by
  have value := toNat_ofNat_byte (k := k) (by omega)
  unfold lead?
  rw [if_pos (by simp [UInt8.lt_iff_toNat_lt, value]; omega), value]

theorem lead?_two {k : Nat} (low : 0xC2 ≤ k) (high : k < 0xE0) :
    lead? (UInt8.ofNat k) = some ⟨1, k - 0xC0, 0x80, 0xBF⟩ := by
  have value := toNat_ofNat_byte (k := k) (by omega)
  unfold lead?
  simp only [UInt8.lt_iff_toNat_lt, ← UInt8.toNat_inj, value, UInt8.reduceToNat]
  rw [if_neg (by omega), if_neg (by omega), if_pos (by omega)]

theorem lead?_three {k : Nat} (low : 0xE0 ≤ k) (high : k < 0xF0) :
    lead? (UInt8.ofNat k) =
      some ⟨2, k - 0xE0, if k = 0xE0 then 0xA0 else 0x80, if k = 0xED then 0x9F else 0xBF⟩ := by
  have value := toNat_ofNat_byte (k := k) (by omega)
  unfold lead?
  simp only [UInt8.lt_iff_toNat_lt, ← UInt8.toNat_inj, value, UInt8.reduceToNat]
  rw [if_neg (by omega), if_neg (by omega), if_neg (by omega)]
  by_cases first : k = 0xE0
  · simp [first]
  · by_cases surrogate : k = 0xED
    · simp [surrogate]
    · simp [first, surrogate, high]

theorem lead?_four {k : Nat} (low : 0xF0 ≤ k) (high : k ≤ 0xF4) :
    lead? (UInt8.ofNat k) =
      some ⟨3, k - 0xF0, if k = 0xF0 then 0x90 else 0x80, if k = 0xF4 then 0x8F else 0xBF⟩ := by
  have value := toNat_ofNat_byte (k := k) (by omega)
  unfold lead?
  simp only [UInt8.lt_iff_toNat_lt, ← UInt8.toNat_inj, value, UInt8.reduceToNat]
  rw [if_neg (by omega), if_neg (by omega), if_neg (by omega), if_neg (by omega), if_neg (by omega),
    if_neg (by omega)]
  by_cases first : k = 0xF0
  · simp [first]
  · by_cases last : k = 0xF4
    · simp [last]
    · rw [if_neg first, if_pos (by omega), if_neg first, if_neg last]

theorem continuation_zero (payload : Nat) (low high : UInt8) (rest : List UInt8) :
    continuation 0 payload low high rest = (some (Char.ofNat payload), rest) := rfl

/-- A continuation byte in range adds six bits. -/
theorem continuation_succ {tail payload m : Nat} {low high : UInt8} {rest : List UInt8} (hm : m < 64)
    (hlow : low.toNat ≤ m + 0x80) (hhigh : m + 0x80 ≤ high.toNat) :
    continuation (tail + 1) payload low high (UInt8.ofNat (m + 0x80) :: rest) =
      continuation tail (payload * 64 + m) 0x80 0xBF rest := by
  have value := toNat_ofNat_byte (k := m + 0x80) (by omega)
  rw [continuation, if_pos, value, Nat.add_sub_cancel]
  simp only [UInt8.le_iff_toNat_le, value]
  exact ⟨hlow, hhigh⟩

/-- The scanner reads one encoded character and goes on behind it. -/
theorem scan_utf8EncodeChar_append (c : Char) (rest : List UInt8) :
    scan (String.utf8EncodeChar c ++ rest) = some c :: scan rest := by
  have valid : c.val.toNat < 0xD800 ∨ 0xDFFF < c.val.toNat ∧ c.val.toNat < 0x110000 := c.valid
  have same : Char.ofNat c.val.toNat = c := Char.ofNat_toNat c
  unfold String.utf8EncodeChar
  generalize c.val.toNat = n at valid same
  simp only
  split
  · rename_i h
    rw [List.cons_append, List.nil_append, scan, entry, lead?_one (by omega)]
    simp only [continuation_zero, same]
  · split
    · rename_i h
      rw [List.cons_append, List.cons_append, List.nil_append, scan, entry,
        lead?_two (by omega) (by omega)]
      simp only
      rw [continuation_succ (by omega) (by simp) (by simp; omega), continuation_zero]
      have joined : (n / 64 % 32 + 0xC0 - 0xC0) * 64 + n % 64 = n := by omega
      rw [joined, same]
    · split
      · rename_i h
        rw [List.cons_append, List.cons_append, List.cons_append, List.nil_append, scan, entry,
          lead?_three (by omega) (by omega)]
        simp only
        rw [continuation_succ (by omega) (by split <;> simp; omega) (by split <;> simp <;> omega),
          continuation_succ (by omega) (by simp) (by simp; omega), continuation_zero]
        have joined : ((n / 4096 % 16 + 0xE0 - 0xE0) * 64 + n / 64 % 64) * 64 + n % 64 = n := by omega
        rw [joined, same]
      · rename_i h
        rw [List.cons_append, List.cons_append, List.cons_append, List.cons_append, List.nil_append,
          scan, entry, lead?_four (by omega) (by omega)]
        simp only
        rw [continuation_succ (by omega) (by split <;> simp; omega) (by split <;> simp <;> omega),
          continuation_succ (by omega) (by simp) (by simp; omega),
          continuation_succ (by omega) (by simp) (by simp; omega), continuation_zero]
        have joined : (((n / 262144 % 8 + 0xF0 - 0xF0) * 64 + n / 4096 % 64) * 64 + n / 64 % 64) * 64 +
            n % 64 = n := by omega
        rw [joined, same]

theorem scan_encode (cs : List Char) : scan (encode cs) = cs.map some := by
  induction cs with
  | nil => rw [encode, List.flatMap_nil, scan, List.map_nil]
  | cons c cs ih =>
    rw [encode, List.flatMap_cons, scan_utf8EncodeChar_append, List.map_cons]
    exact congrArg _ ih

theorem decodeLossy_encode (cs : List Char) : decodeLossy (encode cs) = cs := by
  rw [decodeLossy, scan_encode, List.map_map]
  exact List.map_id cs

theorem decode?_encode (cs : List Char) : decode? (encode cs) = some cs := by
  rw [decode?, scan_encode]
  induction cs with
  | nil => rfl
  | cons c cs ih =>
    rw [List.map_cons, List.mapM_cons, ih]
    rfl

/-- A byte of an encoded character is its code or lies outside of ASCII. -/
theorem toNat_of_mem_utf8EncodeChar {b : UInt8} {c : Char} (h : b ∈ String.utf8EncodeChar c) :
    b.toNat = c.val.toNat ∨ 0x80 ≤ b.toNat := by
  have valid : c.val.toNat < 0xD800 ∨ 0xDFFF < c.val.toNat ∧ c.val.toNat < 0x110000 := c.valid
  unfold String.utf8EncodeChar at h
  generalize c.val.toNat = n at valid h
  simp only at h
  split at h
  · left
    rw [List.mem_singleton.1 h]
    exact toNat_ofNat_byte (by omega)
  · right
    split at h
    · simp only [List.mem_cons, List.not_mem_nil, or_false] at h
      rcases h with rfl | rfl <;> rw [toNat_ofNat_byte (by omega)] <;> omega
    · split at h
      · simp only [List.mem_cons, List.not_mem_nil, or_false] at h
        rcases h with rfl | rfl | rfl <;> rw [toNat_ofNat_byte (by omega)] <;> omega
      · simp only [List.mem_cons, List.not_mem_nil, or_false] at h
        rcases h with rfl | rfl | rfl | rfl <;> rw [toNat_ofNat_byte (by omega)] <;> omega

theorem newline_mem_utf8EncodeChar_iff (c : Char) :
    (10 : UInt8) ∈ String.utf8EncodeChar c ↔ c = '\n' := by
  constructor
  · intro h
    have value : (10 : Nat) = c.val.toNat := by
      simpa using toNat_of_mem_utf8EncodeChar h
    have same : Char.ofNat c.val.toNat = c := Char.ofNat_toNat c
    rw [← same, ← value]
  · rintro rfl
    decide

/-- Only a newline is encoded with a newline byte. -/
theorem newline_mem_encode_iff (cs : List Char) : (10 : UInt8) ∈ encode cs ↔ '\n' ∈ cs := by
  simp only [encode, List.mem_flatMap, newline_mem_utf8EncodeChar_iff, exists_eq_right]

/-- The lines of an encoded text are the encoded lines of the text. -/
theorem cut_encode (cs : List Char) : cut (· == 10) (encode cs) = (cut (· == '\n') cs).map encode := by
  induction cs with
  | nil => rfl
  | cons c cs ih =>
    have front : encode (c :: cs) = String.utf8EncodeChar c ++ encode cs := List.flatMap_cons
    rw [front, cut]
    split
    · rename_i newline
      rw [eq_of_beq newline, List.map_cons, ← ih]
      rfl
    · rename_i other
      cases runs : cut (· == '\n') cs with
      | nil => exact absurd runs (cut_ne_nil _ cs)
      | cons first runs' =>
        rw [runs, List.map_cons] at ih
        refine cut_append ?_ ih
        intro b hb
        rw [beq_eq_false_iff_ne]
        rintro rfl
        exact other (beq_iff_eq.2 ((newline_mem_utf8EncodeChar_iff c).1 hb))

end Descent.Text.Utf8
