/-
# Powers of two by bit tricks

`math.h` for unsigned types of any width.  What is narrower than `int` is computed in that and
cut down again, which neither function notices.  `largest_power_of_two()` smears the leading bit
downwards, and `exact_factor_of_two()` keeps the lowest; for a width that is a power of two itself
both are exact (`powers_exact`), and the loop shifts by each power below the width once.
-/
import Libsg.PowersOfTwo

open PowersOfTwo

namespace Math

variable {w : ℕ}

/-! ## The model -/

/-- A number as an operand: types narrower than `int` are promoted to it. -/
def promote (number : BitVec w) : BitVec (max w 32) := number.setWidth (max w 32)

def exactFactorOfTwo (number : BitVec w) : BitVec w :=
  (promote number &&& (~~~ promote number + 1)).setWidth w

/-- The loop from the shift amount on: the number it ends with, and the amounts. -/
def smear : ℕ → ℕ → BitVec w → Option (BitVec w × List ℕ)
  | 0, _, _ => none
  | fuel + 1, i, number =>
    if i ≤ w / 2 then
      match smear fuel (i * 2) ((promote number ||| promote number >>> i).setWidth w) with
      | none => none
      | some (last, shifts) => some (last, i :: shifts)
    else some (number, [])

/-- The result, and the amounts that were shifted by. -/
def largestPowerOfTwo (fuel : ℕ) (number : BitVec w) : Option (BitVec w × List ℕ) :=
  match smear fuel 1 number with
  | none => none
  | some (last, shifts) => some ((promote last - promote last >>> 1).setWidth w, shifts)

/-! ## Operands as numbers -/

theorem toNat_promote (number : BitVec w) : (promote number).toNat = number.toNat := by
  rw [promote, BitVec.toNat_setWidth]
  exact Nat.mod_eq_of_lt
    (Nat.lt_of_lt_of_le number.isLt (Nat.pow_le_pow_right Nat.two_pos (Nat.le_max_left w 32)))

theorem toNat_narrow {x : BitVec (max w 32)} (h : x.toNat < 2 ^ w) :
    (x.setWidth w).toNat = x.toNat := by
  rw [BitVec.toNat_setWidth]
  exact Nat.mod_eq_of_lt h

theorem toNat_or_shift (number : BitVec w) (i : ℕ) :
    ((promote number ||| promote number >>> i).setWidth w).toNat =
      number.toNat ||| number.toNat >>> i := by
  have hvalue : (promote number ||| promote number >>> i).toNat =
      number.toNat ||| number.toNat >>> i := by
    rw [BitVec.toNat_or, BitVec.toNat_ushiftRight, toNat_promote]
  have hshift : number.toNat >>> i < 2 ^ w :=
    Nat.lt_of_le_of_lt (Nat.shiftRight_le _ _) number.isLt
  rw [toNat_narrow, hvalue]
  rw [hvalue]
  exact Nat.or_lt_two_pow number.isLt hshift

theorem toNat_sub_half (number : BitVec w) :
    ((promote number - promote number >>> 1).setWidth w).toNat =
      number.toNat - number.toNat >>> 1 := by
  have hshift : (promote number >>> 1).toNat = number.toNat >>> 1 := by
    rw [BitVec.toNat_ushiftRight, toNat_promote]
  have hle : number.toNat >>> 1 ≤ number.toNat := Nat.shiftRight_le _ _
  have hvalue : (promote number - promote number >>> 1).toNat =
      number.toNat - number.toNat >>> 1 := by
    rw [BitVec.toNat_sub_of_le, hshift, toNat_promote]
    rw [BitVec.le_def, hshift, toNat_promote]
    exact hle
  rw [toNat_narrow, hvalue]
  rw [hvalue]
  exact Nat.lt_of_le_of_lt (Nat.sub_le _ _) number.isLt

/-! ## The lowest bit -/

theorem toNat_exactFactorOfTwo {number : BitVec w} {a b : ℕ}
    (h : number.toNat = 2 ^ a * (2 * b + 1)) : (exactFactorOfTwo number).toNat = 2 ^ a := by
  have hpos : 0 < 2 ^ a * (2 * b + 1) := Nat.mul_pos (Nat.two_pow_pos a) (Nat.succ_pos _)
  have hwide : 2 ^ a * (2 * b + 1) < 2 ^ max w 32 := by
    rw [← h, ← toNat_promote]
    exact (promote number).isLt
  have hvalue : (promote number &&& (~~~ promote number + 1)).toNat = 2 ^ a := by
    have hone : (1 : BitVec (max w 32)).toNat = 1 :=
      Nat.mod_eq_of_lt (Nat.one_lt_two_pow (by omega))
    have hcomplement : (2 ^ max w 32 - 1 - 2 ^ a * (2 * b + 1) + 1) % 2 ^ max w 32 =
        2 ^ max w 32 - 2 ^ a * (2 * b + 1) := by
      rw [Nat.mod_eq_of_lt (by omega)]
      omega
    rw [BitVec.toNat_and, BitVec.toNat_add, BitVec.toNat_not, hone, toNat_promote, h, hcomplement]
    exact and_complement hwide
  rw [exactFactorOfTwo, toNat_narrow, hvalue]
  rw [hvalue]
  have hle : 2 ^ a ≤ number.toNat := by
    rw [h]
    exact Nat.le_mul_of_pos_right _ (Nat.succ_pos _)
  exact Nat.lt_of_le_of_lt hle number.isLt

theorem exactFactorOfTwo_zero : exactFactorOfTwo (0 : BitVec w) = 0 := by
  have hzero : (0 : BitVec w).toNat = 0 := Nat.zero_mod _
  apply BitVec.eq_of_toNat_eq
  rw [exactFactorOfTwo, BitVec.toNat_setWidth, BitVec.toNat_and, toNat_promote, hzero, Nat.zero_and]
  exact Nat.zero_mod _

/-! ## The leading bit -/

/-- From a shift by `2 ^ t` on there is one for each power up to half of the width, and the last
number has every bit set from which one is at most the width away. -/
theorem smear_spec {k n : ℕ} (d t : ℕ) (number : BitVec (2 ^ k)) (htotal : t + d = k)
    (h : Smeared n (2 ^ t) number.toNat) :
    ∃ last : BitVec (2 ^ k), Smeared n (2 ^ k) last.toNat ∧
      ∀ fuel > d, smear fuel (2 ^ t) number = some (last, (List.range' t d).map (2 ^ ·)) := by
  induction d generalizing t number with
  | zero =>
    have hlast : t = k := by omega
    have hpos : 0 < 2 ^ k := Nat.two_pow_pos k
    refine ⟨number, hlast ▸ h, ?_⟩
    intro fuel hfuel
    obtain ⟨fuel, rfl⟩ : ∃ m, fuel = m + 1 := ⟨fuel - 1, by omega⟩
    rw [smear, hlast, if_neg (by omega)]
    rfl
  | succ d ih =>
    have hnext : Smeared n (2 ^ (t + 1))
        ((promote number ||| promote number >>> 2 ^ t).setWidth (2 ^ k)).toNat := by
      rw [toNat_or_shift, Nat.pow_succ]
      exact h.step
    obtain ⟨last, hlast, hrest⟩ := ih (t + 1) _ (by omega) hnext
    refine ⟨last, hlast, ?_⟩
    intro fuel hfuel
    obtain ⟨fuel, rfl⟩ : ∃ m, fuel = m + 1 := ⟨fuel - 1, by omega⟩
    have hhalf : 2 ^ t ≤ 2 ^ k / 2 := by
      have hle : 2 ^ (t + 1) ≤ 2 ^ k := Nat.pow_le_pow_right Nat.two_pos (by omega)
      rw [Nat.pow_succ] at hle
      omega
    have hafter := hrest fuel (by omega)
    rw [Nat.pow_succ] at hafter
    rw [smear, if_pos hhalf, hafter]
    rfl

/-- **Both functions are exact for every width that is a power of two.**  The loop takes one step
for each power of two below the width, and never shifts by the width or more. -/
theorem powers_exact (k : ℕ) (number : BitVec (2 ^ k)) :
    (number = 0 → exactFactorOfTwo number = 0) ∧
      (number ≠ 0 → IsGreatest {p | (∃ j, p = 2 ^ j) ∧ p ∣ number.toNat}
        (exactFactorOfTwo number).toNat) ∧
      ∃ result shifts, (∀ fuel > k, largestPowerOfTwo fuel number = some (result, shifts)) ∧
        shifts.length = k ∧ (∀ i ∈ shifts, i < 2 ^ k) ∧ (number = 0 → result = 0) ∧
        (number ≠ 0 → IsGreatest {p | (∃ j, p = 2 ^ j) ∧ p ≤ number.toNat} result.toNat) := by
  refine ⟨?_, ?_, ?_⟩
  · rintro rfl
    exact exactFactorOfTwo_zero
  · intro hne
    have hpos : number.toNat ≠ 0 := fun h => hne (BitVec.eq_of_toNat_eq h)
    obtain ⟨a, b, hab⟩ := exists_odd_mul hpos
    rw [toNat_exactFactorOfTwo hab, hab]
    exact isGreatest_dvd a b
  · obtain ⟨last, hsmeared, hloop⟩ :=
      smear_spec k 0 number (Nat.zero_add k) (Smeared.start number.toNat)
    refine ⟨(promote last - promote last >>> 1).setWidth (2 ^ k), (List.range' 0 k).map (2 ^ ·),
      ?_, ?_, ?_, ?_, ?_⟩
    · intro fuel hfuel
      have hfinal := hloop fuel hfuel
      rw [Nat.pow_zero] at hfinal
      rw [largestPowerOfTwo, hfinal]
    · rw [List.length_map, List.length_range']
    · intro i hi
      obtain ⟨t, ht, rfl⟩ := List.mem_map.mp hi
      have hlt : t < k := by
        have hbound := (List.mem_range'_1.mp ht).2
        omega
      exact Nat.pow_lt_pow_right Nat.one_lt_two hlt
    · rintro rfl
      have hzero : last.toNat = 0 := hsmeared.eq_zero
      apply BitVec.eq_of_toNat_eq
      rw [toNat_sub_half, hzero]
      rfl
    · intro hne
      have hpos : number.toNat ≠ 0 := fun h => hne (BitVec.eq_of_toNat_eq h)
      rw [toNat_sub_half, hsmeared.eq hpos number.isLt, ones_sub_half]
      exact isGreatest_log2 hpos

example : (largestPowerOfTwo 6 (100 : BitVec 32)) = some (64, [1, 2, 4, 8, 16]) := by decide

end Math
