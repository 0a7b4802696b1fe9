/-
# Powers of two around a number, by its bits

Nothing here names the library under verification.  A number is smeared when the bits below a set
one, so many places down, are set as well.  Oring with a shift doubles the reach
(`Smeared.step`); once it is as long as the number, all bits from the leading one down are set
(`Smeared.eq`), and half of that taken away leaves the leading one.

The lowest set bit is what a number has in common with its complement to a power of two
(`and_complement`).
-/
import Mathlib.Data.Nat.Factorization.Basic
import Mathlib.Order.Bounds.Basic

namespace PowersOfTwo

/-! ## The leading bit -/

/-- A bit is set if `n` has one there or less than `reach` places above. -/
def Smeared (n reach x : ℕ) : Prop :=
  ∀ j, x.testBit j = true ↔ ∃ s < reach, n.testBit (j + s) = true

theorem Smeared.start (n : ℕ) : Smeared n 1 n := by
  intro j
  constructor
  · intro hbit
    exact ⟨0, Nat.one_pos, hbit⟩
  · rintro ⟨s, hs, hbit⟩
    rw [Nat.lt_one_iff.mp hs] at hbit
    exact hbit

/-- One shift by the reach doubles it. -/
theorem Smeared.step {n reach x : ℕ} (h : Smeared n reach x) :
    Smeared n (reach * 2) (x ||| x >>> reach) := by
  intro j
  rw [Nat.testBit_or, Nat.testBit_shiftRight, Bool.or_eq_true, h j, h (reach + j)]
  constructor
  · rintro (⟨s, hs, hbit⟩ | ⟨s, hs, hbit⟩)
    · exact ⟨s, by omega, hbit⟩
    · refine ⟨reach + s, by omega, ?_⟩
      have hplace : j + (reach + s) = reach + j + s := by omega
      rw [hplace]
      exact hbit
  · rintro ⟨s, hs, hbit⟩
    by_cases hnear : s < reach
    · exact Or.inl ⟨s, hnear, hbit⟩
    · right
      refine ⟨s - reach, by omega, ?_⟩
      have hplace : reach + j + (s - reach) = j + s := by omega
      rw [hplace]
      exact hbit

theorem Smeared.eq_zero {reach x : ℕ} (h : Smeared 0 reach x) : x = 0 := by
  apply Nat.eq_of_testBit_eq
  intro j
  rw [Nat.zero_testBit, Bool.eq_false_iff]
  intro hbit
  obtain ⟨s, -, hset⟩ := (h j).mp hbit
  rw [Nat.zero_testBit] at hset
  cases hset

/-- All ones from the leading bit down. -/
theorem Smeared.eq {n reach x : ℕ} (h : Smeared n reach x) (hn : n ≠ 0) (hreach : n < 2 ^ reach) :
    x = 2 ^ (n.log2 + 1) - 1 := by
  apply Nat.eq_of_testBit_eq
  intro j
  rw [Nat.testBit_two_pow_sub_one, Bool.eq_iff_iff, h j, decide_eq_true_iff]
  constructor
  · rintro ⟨s, -, hbit⟩
    have hle := Nat.ge_two_pow_of_testBit hbit
    have hlt := Nat.lt_of_le_of_lt hle Nat.lt_log2_self
    have hplace := (Nat.pow_lt_pow_iff_right Nat.one_lt_two).mp hlt
    omega
  · intro hj
    have hlog := (Nat.log2_lt hn).mpr hreach
    refine ⟨n.log2 - j, by omega, ?_⟩
    have hplace : j + (n.log2 - j) = n.log2 := by omega
    rw [hplace]
    exact Nat.testBit_log2 hn

theorem ones_sub_half (k : ℕ) : (2 ^ (k + 1) - 1) - (2 ^ (k + 1) - 1) >>> 1 = 2 ^ k := by
  have hpos : 0 < 2 ^ k := Nat.two_pow_pos k
  rw [Nat.shiftRight_eq_div_pow, Nat.pow_one, Nat.pow_succ]
  omega

theorem isGreatest_log2 {n : ℕ} (hn : n ≠ 0) :
    IsGreatest {p | (∃ j, p = 2 ^ j) ∧ p ≤ n} (2 ^ n.log2) := by
  refine ⟨⟨⟨n.log2, rfl⟩, Nat.log2_self_le hn⟩, ?_⟩
  rintro p ⟨⟨j, rfl⟩, hle⟩
  exact Nat.pow_le_pow_right Nat.two_pos ((Nat.le_log2 hn).mpr hle)

/-! ## The lowest bit -/

theorem testBit_odd_mul (a b j : ℕ) :
    (2 ^ a * (2 * b + 1)).testBit j = true ↔ a ≤ j ∧ (2 * b + 1).testBit (j - a) = true := by
  rw [Nat.testBit_two_pow_mul, Bool.and_eq_true, decide_eq_true_iff]

/-- One less: the bit is gone, the ones below it are all set. -/
theorem testBit_odd_mul_pred (a b j : ℕ) :
    (2 ^ a * (2 * b + 1) - 1).testBit j =
      if j < a then true else (2 * b).testBit (j - a) := by
  have hpos : 0 < 2 ^ a := Nat.two_pow_pos a
  have hpred : 2 ^ a * (2 * b + 1) - 1 = 2 ^ a * (2 * b) + (2 ^ a - 1) := by
    rw [Nat.mul_add, Nat.mul_one]
    omega
  rw [hpred, Nat.testBit_two_pow_mul_add _ (by omega), Nat.testBit_two_pow_sub_one]
  split
  · next hlow => exact decide_eq_true hlow
  · rfl

/-- **A number and its complement have the lowest set bit in common.** -/
theorem and_complement {width a b : ℕ} (hlt : 2 ^ a * (2 * b + 1) < 2 ^ width) :
    2 ^ a * (2 * b + 1) &&& (2 ^ width - 2 ^ a * (2 * b + 1)) = 2 ^ a := by
  have hpos : 0 < 2 ^ a * (2 * b + 1) := Nat.mul_pos (Nat.two_pow_pos a) (Nat.succ_pos _)
  have hcomplement : 2 ^ width - 2 ^ a * (2 * b + 1) =
      2 ^ width - ((2 ^ a * (2 * b + 1) - 1) + 1) := by omega
  apply Nat.eq_of_testBit_eq
  intro j
  rw [Nat.testBit_and, hcomplement, Nat.testBit_two_pow_sub_succ (by omega),
    testBit_odd_mul_pred, Nat.testBit_two_pow, Bool.eq_iff_iff, Bool.and_eq_true,
    testBit_odd_mul, decide_eq_true_iff]
  constructor
  · rintro ⟨⟨hle, hbit⟩, hother⟩
    by_contra hne
    -- above the lowest bit the number and one less agree
    obtain ⟨i, hi⟩ : ∃ i, j - a = i + 1 := ⟨j - a - 1, by omega⟩
    have hsame : (2 * b + 1) / 2 = 2 * b / 2 := by omega
    rw [if_neg (by omega), hi, Nat.testBit_add_one, ← hsame, ← Nat.testBit_add_one, ← hi, hbit,
      Bool.and_eq_true] at hother
    cases hother.2
  · rintro rfl
    have hbit : (2 * b + 1).testBit 0 = true := by
      rw [Nat.testBit_zero, decide_eq_true_iff]
      omega
    have hzero : (2 * b).testBit 0 = false := by
      rw [Nat.testBit_zero, decide_eq_false_iff_not]
      omega
    have hwidth : a < width := by
      have hle : 2 ^ a ≤ 2 ^ a * (2 * b + 1) := Nat.le_mul_of_pos_right _ (Nat.succ_pos _)
      exact (Nat.pow_lt_pow_iff_right Nat.one_lt_two).mp (Nat.lt_of_le_of_lt hle hlt)
    rw [Nat.sub_self, if_neg (Nat.lt_irrefl a), hzero, decide_eq_true hwidth]
    exact ⟨⟨Nat.le_refl a, hbit⟩, rfl⟩

theorem isGreatest_dvd (a b : ℕ) :
    IsGreatest {p | (∃ j, p = 2 ^ j) ∧ p ∣ 2 ^ a * (2 * b + 1)} (2 ^ a) := by
  refine ⟨⟨⟨a, rfl⟩, Nat.dvd_mul_right _ _⟩, ?_⟩
  rintro p ⟨⟨j, rfl⟩, hdvd⟩
  apply Nat.pow_le_pow_right Nat.two_pos
  by_contra hlarger
  have hnext : 2 ^ (a + 1) ∣ 2 ^ a * (2 * b + 1) :=
    Nat.dvd_trans (Nat.pow_dvd_pow 2 (by omega)) hdvd
  rw [Nat.pow_succ] at hnext
  have htwo := Nat.dvd_of_mul_dvd_mul_left (Nat.two_pow_pos a) hnext
  omega

theorem exists_odd_mul {n : ℕ} (hn : n ≠ 0) : ∃ a b, n = 2 ^ a * (2 * b + 1) := by
  obtain ⟨a, m, ⟨b, rfl⟩, rfl⟩ := Nat.exists_eq_two_pow_mul_odd hn
  exact ⟨a, b, rfl⟩

end PowersOfTwo
