import Descent.Proofs.Sampling.Drawn
import Descent.Sampling.Cycle

/-!
# Words that pick

For every index below a number there is a word that picks it, so a list of choices can be spelt as a list of
words, one for each. A cycle of these words supplies the choices and takes each word once.
-/
namespace Descent.Sampling

/-- The least word that is scaled to this index below n. -/
def wordFor (n i : Nat) : UInt32 := UInt32.ofNat ((i * UInt32.size + (n - 1)) / n)

/-- The words that pick these alternatives among the bodies of their symbols. -/
def wordsFor (E : Replacements) (choices : List (Symbol × Nat)) : List UInt32 :=
  choices.map fun c => wordFor (E.bodies c.1).length c.2

variable {n i : Nat}

/-- Low halves below n are never past the zone. -/
theorem le_zone (positive : 0 < n) (small : n < UInt32.size) : n - 1 ≤ zone n := by
  have bits : Nat.log2 n < 32 := (Nat.log2_lt (Nat.ne_of_gt positive)).2 small
  have shifted : n <<< leadingZeros n < UInt32.size := by
    have below : n < 2 ^ (Nat.log2 n + 1) := Nat.lt_log2_self
    have total : Nat.log2 n + 1 + leadingZeros n = 32 := by
      unfold leadingZeros
      omega
    calc n <<< leadingZeros n = n * 2 ^ leadingZeros n := Nat.shiftLeft_eq _ _
      _ < 2 ^ (Nat.log2 n + 1) * 2 ^ leadingZeros n :=
        Nat.mul_lt_mul_of_pos_right below (Nat.two_pow_pos _)
      _ = UInt32.size := by rw [← Nat.pow_add, total]
  have grows : n ≤ n <<< leadingZeros n := by
    rw [Nat.shiftLeft_eq]
    exact Nat.le_mul_of_pos_right n (Nat.two_pow_pos _)
  unfold zone
  generalize n <<< leadingZeros n = m at shifted grows
  simp only [UInt32.size] at *
  omega

/-- The word for an index, scaled, is the index and a low half below n. -/
theorem exists_wordFor_mul (h : i < n) (small : n < UInt32.size) :
    ∃ low, low < n ∧ (wordFor n i).toNat * n = i * UInt32.size + low := by
  have divided := Nat.div_add_mod (i * UInt32.size + (n - 1)) n
  have rest := Nat.mod_lt (i * UInt32.size + (n - 1)) (Nat.zero_lt_of_lt h)
  -- rounding up overshoots by less than n, and even the last index stays below the size of a word
  have bound : i * UInt32.size + (n - 1) < n * UInt32.size := by
    have last : i * UInt32.size ≤ (n - 1) * UInt32.size := Nat.mul_le_mul_right _ (by omega)
    simp only [UInt32.size] at *
    omega
  have fits : (i * UInt32.size + (n - 1)) / n < UInt32.size := Nat.div_lt_of_lt_mul bound
  rw [wordFor, UInt32.toNat_ofNat_of_lt' fits, Nat.mul_comm]
  exact ⟨n - 1 - (i * UInt32.size + (n - 1)) % n, by omega, by omega⟩

/-- The word for an index picks it. -/
theorem index?_wordFor (h : i < n) (small : n < UInt32.size) : index? n (wordFor n i) = some i := by
  obtain ⟨low, hlow, scaled⟩ := exists_wordFor_mul h small
  have usable := le_zone (Nat.zero_lt_of_lt h) small
  have low_eq : (i * UInt32.size + low) % UInt32.size = low := by
    rw [Nat.mul_add_mod_self_right, Nat.mod_eq_of_lt (Nat.lt_trans hlow small)]
  have high_eq : (i * UInt32.size + low) / UInt32.size = i := by
    have vanishes : low / UInt32.size = 0 := Nat.div_eq_of_lt (Nat.lt_trans hlow small)
    rw [Nat.mul_comm, Nat.mul_add_div (by decide), vanishes, Nat.add_zero]
  rw [index?, scaled, low_eq, high_eq, if_pos (by omega)]

/-- A source picks by its next word if that can be used. -/
theorem pick_of_index? {σ : Type} {source : Source σ} {state next : σ} {word : UInt32}
    (patient : 0 < source.patience state) (hnext : source.next state = (word, next))
    (usable : index? n word = some i) : source.pick n state = (some i, next) := by
  obtain ⟨tries, htries⟩ := Nat.exists_eq_add_one_of_ne_zero (Nat.ne_of_gt patient)
  rw [Source.pick, htries, pickWithin, hnext]
  simp only [usable]

/-- A cycle whose next words are those for some choices supplies them. -/
theorem supplies_wordsFor {E : Replacements} (small : ∀ s, (E.bodies s).length < UInt32.size)
    {choices : List (Symbol × Nat)} (valid : ∀ c ∈ choices, c.2 < (E.bodies c.1).length)
    (words more : List UInt32) (taken : Nat) :
    Supplies E cycles.pick choices ⟨words, wordsFor E choices ++ more, taken⟩
      ⟨words, more, taken + choices.length⟩ := by
  induction choices generalizing taken with
  | nil => exact .nil
  | cons c choices ih =>
    obtain ⟨s, i⟩ := c
    have usable := index?_wordFor (valid (s, i) List.mem_cons_self) (small s)
    have others := ih (fun c hc => valid c (List.mem_cons_of_mem _ hc)) (taken + 1)
    rw [List.length_cons, Nat.add_comm choices.length 1, ← Nat.add_assoc]
    exact .cons (pick_of_index? (Nat.succ_pos _) rfl usable) others

end Descent.Sampling
