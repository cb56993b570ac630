import Descent.Proofs.Json.Token

/-!
# Numbers in decimal

The digits of a number below 2^64 are a literal of JSON, fit into the significand of the reader, are no more than a
double holds, and have that number as their value.
-/
namespace Descent.Json

variable {n : Nat} {rest : List Char}

theorem digits_toDigits (n : Nat) : Digits (Nat.toDigits 10 n) where
  nonempty := Nat.toDigits_ne_nil
  digits := fun _ hd => Nat.isDigit_of_mem_toDigits (by decide) (by decide) hd

theorem head?_toDigits (positive : 0 < n) : (Nat.toDigits 10 n).head? ≠ some '0' := by
  have digit : ∀ d, d < 10 → 0 < d → d.digitChar ≠ '0' := by decide
  induction n using Nat.strongRecOn with
  | ind n ih =>
    by_cases small : n < 10
    · rw [Nat.toDigits_of_lt_base small, List.head?_cons, ne_eq, Option.some.injEq]
      exact digit n small positive
    · have front := ih (n / 10) (by omega) (by omega)
      obtain ⟨d, others, same⟩ := List.exists_cons_of_ne_nil (Nat.toDigits_ne_nil (b := 10) (n := n / 10))
      rw [Nat.toDigits_of_base_le (by decide) (by omega), same]
      rwa [same] at front

/-- The digits of a number are a literal without sign, point and exponent. -/
theorem writes_toDigits (n : Nat) : Number.Writes ⟨false, Nat.toDigits 10 n, [], none⟩ (Nat.toDigits 10 n) where
  whole := digits_toDigits n
  noZero := by
    intro zero
    cases n with
    | zero => rfl
    | succ n => exact absurd zero (head?_toDigits n.succ_pos)
  parts := ⟨[], [], .none, .none, by simp⟩

theorem natural_toDigits (n : Nat) : natural (Nat.toDigits 10 n) = n := by
  have same : natural (Nat.toDigits 10 n) = Nat.ofDigitChars 10 (Nat.toDigits 10 n) 0 := by
    unfold natural Nat.ofDigitChars digit
    congr 1
    funext m c
    rw [Nat.mul_comm]
    rfl
  rw [same, Nat.ofDigitChars_toDigits (by decide) (by decide)]

theorem le_foldl_digits (digits : List Char) (m : Nat) : m ≤ digits.foldl (fun n c => n * 10 + digit c) m := by
  induction digits generalizing m with
  | nil => exact Nat.le_refl m
  | cons c digits ih =>
    rw [List.foldl_cons]
    have := ih (m * 10 + digit c)
    omega

/-- Digits whose value stays below 2^64 are all taken into the significand. -/
theorem absorb_eq_foldl {digits : List Char} {m : Nat}
    (small : digits.foldl (fun n c => n * 10 + digit c) m < UInt64.size) :
    absorb m digits = (digits.foldl (fun n c => n * 10 + digit c) m, []) := by
  induction digits generalizing m with
  | nil => rfl
  | cons c digits ih =>
    rw [List.foldl_cons] at small ⊢
    have first := le_foldl_digits digits (m * 10 + digit c)
    rw [absorb, if_pos (by omega), ih small]

theorem roundDouble_le (n : Nat) : roundDouble n ≤ 2 * n := by
  unfold roundDouble
  split
  · omega
  · rename_i large
    have power : 1 <<< 53 ≤ n := Nat.le_of_not_lt large
    have unit : 2 ^ (Nat.log2 n - 52) ≤ n := by
      calc 2 ^ (Nat.log2 n - 52) ≤ 2 ^ Nat.log2 n := Nat.pow_le_pow_right (by decide) (Nat.sub_le _ _)
        _ ≤ n := Nat.log2_self_le (by omega)
    have floor : n / 2 ^ (Nat.log2 n - 52) * 2 ^ (Nat.log2 n - 52) ≤ n := Nat.div_mul_le_self _ _
    simp only [Nat.shiftRight_eq_div_pow, Nat.shiftLeft_eq]
    split
    · rw [Nat.add_mul]
      omega
    · omega

theorem overflows_of_lt (small : n < UInt64.size) : overflows n 0 = false := by
  have bound : UInt64.size * 2 ≤ ((1 <<< 54) - 1) <<< 970 := by decide
  have one : roundDouble (Nat.pow 10 (0 : Int).toNat) = 1 := by decide
  have rounded := roundDouble_le n
  have fits : ¬((1 <<< 54) - 1) <<< 970 ≤ roundDouble n * 1 := by
    rw [Nat.mul_one]
    omega
  rw [overflows, one, decide_eq_false fits]
  simp

theorem isTooLarge_toDigits (small : n < UInt64.size) :
    Number.isTooLarge ⟨false, Nat.toDigits 10 n, [], none⟩ = false := by
  have whole : absorb 0 (Nat.toDigits 10 n) = (n, []) := by
    have value := natural_toDigits n
    unfold natural at value
    rw [absorb_eq_foldl (by rw [value]; exact small), value]
  simp only [Number.isTooLarge, whole, absorb]
  exact overflows_of_lt small

/-- A 64-bit number is read back from its digits. -/
theorem finite_toDigits (w : UInt64) (ends : Ends rest) :
    ∃ n : Number, finite (Nat.toDigits 10 w.toNat ++ rest) = .ok (n, rest) ∧ n.word? = some w := by
  have small : w.toNat < UInt64.size := w.toNat_lt
  refine ⟨⟨false, Nat.toDigits 10 w.toNat, [], none⟩, ?_, ?_⟩
  · simp only [finite, bind, Except.bind, number_append (writes_toDigits _) ends, isTooLarge_toDigits small,
      Bool.false_eq_true, if_false]
  · have fits : ¬UInt64.size ≤ w.toNat := Nat.not_le.2 small
    simp only [Number.word?, natural_toDigits, decide_eq_false fits]
    exact congrArg some UInt64.ofNat_toNat

end Descent.Json
