/-
# The polynomials of a reflected checksum

Nothing here names the library under verification.  A bit string is read as a
polynomial over the field of two elements, its first bit, the lowest, being the
highest coefficient.  Adding strings adds polynomials, a carry-less product is a
product, and a shift of the register multiplies by `x` modulo the generator.  So
what a checksum computes in whatever order can be compared in the ring of
residues, where a register is told by its residue (`residue_injective`).

* `toPoly` : the polynomial of a bit string;
* `clmul` : the carry-less product;
* `residue` : the polynomial modulo the generator;
* `residue_bitStep`, `residue_feed` : what shifting and feeding do to it.
-/
import Libsg.ReflectedCrc
import Mathlib.Algebra.CharP.Two
import Mathlib.Algebra.Field.ZMod
import Mathlib.RingTheory.AdjoinRoot

namespace ReflectedCrc

open Polynomial

/-! ## Bit strings as polynomials -/

/-- The polynomial of a bit string of `n` bits: bit `i` goes with `X ^ (n - 1 - i)`. -/
noncomputable def toPoly {n : ℕ} (v : BitVec n) : (ZMod 2)[X] :=
  ∑ i ∈ Finset.range n, if v.getLsbD i then X ^ (n - 1 - i) else 0

theorem coeff_toPoly {n : ℕ} (v : BitVec n) (k : ℕ) :
    (toPoly v).coeff k = if k < n ∧ v.getLsbD (n - 1 - k) = true then 1 else 0 := by
  have hterm (i : ℕ) (hi : i ∈ Finset.range n) :
      (if v.getLsbD i then X ^ (n - 1 - i) else (0 : (ZMod 2)[X])).coeff k =
        if i = n - 1 - k then (if k < n ∧ v.getLsbD i = true then 1 else 0) else 0 := by
    rw [Finset.mem_range] at hi
    split
    · next hbit =>
      rw [coeff_X_pow, hbit]
      by_cases hk : k = n - 1 - i
      · rw [if_pos hk, if_pos (by omega), if_pos ⟨by omega, rfl⟩]
      · rw [if_neg hk]
        split
        · next heq => rw [if_neg (by omega)]
        · rfl
    · next hbit => simp [hbit]
  rw [toPoly, finsetSum_coeff, Finset.sum_congr rfl hterm, Finset.sum_ite_eq']
  split
  · rfl
  · next hout =>
    rw [Finset.mem_range] at hout
    rw [if_neg]
    rintro ⟨hk, -⟩
    omega

theorem degree_toPoly_lt {n : ℕ} (v : BitVec n) : (toPoly v).degree < n := by
  rw [degree_lt_iff_coeff_zero]
  intro k hk
  rw [coeff_toPoly, if_neg fun h => absurd h.1 (by omega)]

theorem toPoly_injective {n : ℕ} : Function.Injective (toPoly (n := n)) := by
  intro u v huv
  apply BitVec.eq_of_getLsbD_eq
  intro i hi
  have hcoeff := congrArg (fun p => p.coeff (n - 1 - i)) huv
  have hback : n - 1 - (n - 1 - i) = i := by omega
  have hin : n - 1 - i < n := by omega
  simp only [coeff_toPoly, hback, hin, true_and] at hcoeff
  cases hu : u.getLsbD i <;> cases hv : v.getLsbD i <;> simp [hu, hv] at hcoeff ⊢

@[simp] theorem toPoly_zero (n : ℕ) : toPoly (0#n) = 0 := by simp [toPoly]

@[simp] theorem toPoly_xor {n : ℕ} (u v : BitVec n) : toPoly (u ^^^ v) = toPoly u + toPoly v := by
  rw [toPoly, toPoly, toPoly, ← Finset.sum_add_distrib]
  refine Finset.sum_congr rfl fun i _ => ?_
  rw [BitVec.getLsbD_xor]
  cases u.getLsbD i <;> cases v.getLsbD i
  · simp
  · simp
  · simp
  · simpa using (CharTwo.add_self_eq_zero _).symm

/-- A string behind another: what comes first has the higher powers. -/
theorem toPoly_append {m n : ℕ} (v : BitVec m) (u : BitVec n) :
    toPoly (v ++ u) = X ^ m * toPoly u + toPoly v := by
  ext k
  rw [coeff_add, coeff_X_pow_mul', coeff_toPoly, coeff_toPoly, coeff_toPoly, BitVec.getLsbD_append]
  by_cases hk : m ≤ k
  · have hout : ¬ k < m := by omega
    rw [if_pos hk, if_neg (c := k < m ∧ _) (fun h => hout h.1), add_zero]
    by_cases hn : k < m + n
    · rw [if_pos (by omega : m + n - 1 - k < n)]
      congr 1
      rw [show m + n - 1 - k = n - 1 - (k - m) by omega]
      simp only [hn, true_and, show k - m < n by omega]
    · rw [if_neg (fun h => hn h.1), if_neg (fun h => absurd h.1 (by omega))]
  · rw [if_neg hk, zero_add, if_neg (by omega : ¬ m + n - 1 - k < n)]
    congr 1
    rw [show m + n - 1 - k - n = m - 1 - k by omega]
    simp only [show k < m + n by omega, show k < m by omega, true_and]

/-- Zeros above are coefficients below. -/
theorem toPoly_setWidth {m n : ℕ} (hmn : m ≤ n) (v : BitVec m) :
    toPoly (v.setWidth n) = X ^ (n - m) * toPoly v := by
  ext k
  rw [coeff_X_pow_mul', coeff_toPoly, coeff_toPoly, BitVec.getLsbD_setWidth]
  by_cases hk : n - m ≤ k
  · rw [if_pos hk]
    congr 1
    rw [show m - 1 - (k - (n - m)) = n - 1 - k by omega]
    by_cases hn : k < n
    · simp [hn, show n - 1 - k < n by omega, show k - (n - m) < m by omega]
    · simp [hn, show ¬ k - (n - m) < m by omega]
  · rw [if_neg hk, if_neg]
    rintro ⟨hn, hbit⟩
    rw [BitVec.getLsbD_of_ge v _ (by omega)] at hbit
    simp at hbit

/-- A shift to the left that loses nothing takes away powers. -/
theorem toPoly_setWidth_shiftLeft {m n : ℕ} (v : BitVec m) (i : ℕ) (h : m + i ≤ n) :
    toPoly (v.setWidth n <<< i) = X ^ (n - m - i) * toPoly v := by
  ext k
  rw [coeff_X_pow_mul', coeff_toPoly, coeff_toPoly, BitVec.getLsbD_shiftLeft,
    BitVec.getLsbD_setWidth]
  by_cases hk : n - m - i ≤ k
  · rw [if_pos hk]
    congr 1
    by_cases hv : k - (n - m - i) < m
    · rw [show m - 1 - (k - (n - m - i)) = n - 1 - k - i by omega]
      simp [hv, show k < n by omega, show n - 1 - k < n by omega, show ¬ n - 1 - k < i by omega,
        show n - 1 - k - i < n by omega]
    · simp only [hv, false_and, eq_iff_iff, iff_false]
      rintro ⟨hn, hbit⟩
      simp [show n - 1 - k < i by omega] at hbit
  · rw [if_neg hk, if_neg]
    rintro ⟨hn, hbit⟩
    rw [BitVec.getLsbD_of_ge v _ (by omega)] at hbit
    simp at hbit

/-- A shift to the left that loses nothing, seen from the result. -/
theorem X_pow_mul_toPoly_shiftLeft {n : ℕ} (i : ℕ) (v : BitVec n)
    (h : ∀ j, n ≤ j + i → v.getLsbD j = false) : X ^ i * toPoly (v <<< i) = toPoly v := by
  ext k
  rw [coeff_X_pow_mul', coeff_toPoly, coeff_toPoly, BitVec.getLsbD_shiftLeft]
  by_cases hk : i ≤ k
  · rw [if_pos hk]
    congr 1
    rw [eq_iff_iff]
    by_cases hn : k < n
    · rw [show n - 1 - (k - i) - i = n - 1 - k by omega]
      simp [hn, show k - i < n by omega, show n - 1 - (k - i) < n by omega,
        show ¬ n - 1 - (k - i) < i by omega]
    · simp only [hn, false_and, iff_false]
      rintro ⟨hki, hbit⟩
      rw [decide_eq_true (by omega : n - 1 - (k - i) < i)] at hbit
      simp at hbit
  · rw [if_neg hk, if_neg]
    rintro ⟨hn, hbit⟩
    rw [h _ (by omega)] at hbit
    simp at hbit

/-- A one alone is a power. -/
theorem toPoly_twoPow {n : ℕ} (i : ℕ) (hi : i < n) :
    toPoly (BitVec.twoPow n i) = X ^ (n - 1 - i) := by
  ext k
  rw [coeff_toPoly, coeff_X_pow, BitVec.getLsbD_twoPow]
  by_cases hk : k = n - 1 - i
  · rw [if_pos hk, if_pos]
    simp only [hk, decide_eq_true_eq, Bool.and_eq_true]
    omega
  · rw [if_neg hk, if_neg]
    simp only [decide_eq_true_eq, Bool.and_eq_true]
    omega

/-- A shift to the right is a product, but for the bit that falls out. -/
theorem X_mul_toPoly {n : ℕ} (v : BitVec n) :
    X * toPoly v = toPoly (v >>> 1) + if v.getLsbD 0 then X ^ n else 0 := by
  ext k
  rw [coeff_add, coeff_toPoly, BitVec.getLsbD_ushiftRight]
  cases k with
  | zero =>
    rw [coeff_X_mul_zero, BitVec.getLsbD_of_ge v _ (by omega)]
    cases n with
    | zero => simp
    | succ n => cases v.getLsbD 0 <;> simp
  | succ k =>
    rw [coeff_X_mul, coeff_toPoly]
    by_cases hk : k + 1 = n
    · subst hk
      by_cases hbit : v.getLsbD 0 = true
      · simp [hbit]
      · simp only [hbit, Nat.add_sub_cancel, Nat.sub_self]
        simp
    · have hpow : (if v.getLsbD 0 = true then (X : (ZMod 2)[X]) ^ n else 0).coeff (k + 1) = 0 := by
        split
        · rw [coeff_X_pow, if_neg hk]
        · rw [coeff_zero]
      rw [hpow, add_zero]
      congr 1
      rw [eq_iff_iff]
      by_cases hn : k + 1 < n
      · rw [show 1 + (n - 1 - (k + 1)) = n - 1 - k by omega]
        simp only [hn, show k < n by omega]
      · simp only [hn, show ¬ k < n by omega, false_and]

/-! ## Byte strings as polynomials -/

/-- The polynomial of a byte string: what comes first has the higher powers. -/
noncomputable def message : List (BitVec 8) → (ZMod 2)[X]
  | [] => 0
  | b :: bs => X ^ (8 * bs.length) * toPoly b + message bs

theorem message_append (as bs : List (BitVec 8)) :
    message (as ++ bs) = X ^ (8 * bs.length) * message as + message bs := by
  induction as with
  | nil => simp [message]
  | cons a as ih =>
    rw [List.cons_append, message, message, ih, List.length_append, Nat.mul_add, pow_add]
    ring

/-- Bytes read as one number are the number's polynomial. -/
theorem toPoly_word {n : ℕ} (bs : List (BitVec 8)) (h : 8 * bs.length ≤ n) :
    toPoly (word bs : BitVec n) = X ^ (n - 8 * bs.length) * message bs := by
  induction bs with
  | nil => simp [word, message]
  | cons b bs ih =>
    rw [List.length_cons] at h ⊢
    have hshift : X ^ 8 * toPoly ((word bs : BitVec n) <<< 8) = toPoly (word bs : BitVec n) :=
      X_pow_mul_toPoly_shiftLeft 8 _ fun j hj => word_getLsbD_of_ge bs j (by omega)
    have hroom : n - 8 * bs.length = 8 + (n - 8 * (bs.length + 1)) := by omega
    have hrest : toPoly ((word bs : BitVec n) <<< 8) =
        X ^ (n - 8 * (bs.length + 1)) * message bs := by
      apply mul_left_cancel₀ (pow_ne_zero 8 (X_ne_zero (R := ZMod 2)))
      rw [hshift, ih (by omega), hroom, pow_add, mul_assoc]
    rw [word, toPoly_xor, toPoly_setWidth (by omega), hrest, message, mul_add (X ^ _),
      ← mul_assoc, ← pow_add]
    congr 3
    omega

/-! ## The carry-less product -/

/-- What the bit `i` of `u` adds to the product. -/
def clmulStep {a b : ℕ} (n : ℕ) (u : BitVec a) (v : BitVec b) (acc : BitVec n) (i : ℕ) : BitVec n :=
  if u.getLsbD i then acc ^^^ (v.setWidth n <<< i) else acc

/-- The carry-less product of two bit strings, as a string of `n` bits. -/
def clmul {a b : ℕ} (n : ℕ) (u : BitVec a) (v : BitVec b) : BitVec n :=
  (List.range a).foldl (clmulStep n u v) 0#n

/-- **A carry-less product is a product**, if there is room for it. -/
theorem toPoly_clmul {a b n : ℕ} (u : BitVec a) (v : BitVec b) (h : a + b ≤ n) :
    toPoly (clmul n u v) = X ^ (n + 1 - a - b) * toPoly u * toPoly v := by
  have hfold (k : ℕ) (hk : k ≤ a) :
      toPoly ((List.range k).foldl (clmulStep n u v) 0#n) =
        X ^ (n + 1 - a - b) * (∑ i ∈ Finset.range k, if u.getLsbD i then X ^ (a - 1 - i) else 0) *
          toPoly v := by
    induction k with
    | zero => simp
    | succ k ih =>
      rw [List.range_succ, List.foldl_append, List.foldl_cons, List.foldl_nil,
        Finset.sum_range_succ, mul_add, add_mul, ← ih (by omega), clmulStep]
      split
      · rw [toPoly_xor, toPoly_setWidth_shiftLeft v k (by omega), ← pow_add,
          show n + 1 - a - b + (a - 1 - k) = n - b - k by omega]
      · rw [mul_zero, zero_mul, add_zero]
  rw [clmul, hfold a le_rfl]
  rfl

/-- The low bits of a product do not depend on the room above. -/
theorem setWidth_clmul {a b m n : ℕ} (hmn : m ≤ n) (u : BitVec a) (v : BitVec b) :
    (clmul n u v).setWidth m = clmul m u v := by
  have hstep (acc : BitVec n) (i : ℕ) :
      clmulStep m u v (acc.setWidth m) i = (clmulStep n u v acc i).setWidth m := by
    rw [clmulStep, clmulStep]
    split
    · apply BitVec.eq_of_getLsbD_eq
      intro j hj
      simp only [BitVec.getLsbD_setWidth, BitVec.getLsbD_xor, BitVec.getLsbD_shiftLeft, hj,
        decide_eq_true (by omega : j < n), decide_eq_true (by omega : j - i < n),
        decide_eq_true (by omega : j - i < m), decide_true, Bool.true_and]
    · rfl
  have hzero : (0#n).setWidth m = 0#m := BitVec.setWidth_zero _ _
  rw [clmul, clmul, ← hzero, List.foldl_hom (fun acc : BitVec n => acc.setWidth m) hstep]

/-- A product of `a` and `b` bits has one bit less than they have together. -/
theorem clmul_getLsbD_of_ge {a b n : ℕ} (u : BitVec a) (v : BitVec b) (i : ℕ) (h : a + b ≤ i + 1) :
    (clmul n u v).getLsbD i = false := by
  rw [clmul]
  refine List.foldlRecOn (motive := fun acc : BitVec n => acc.getLsbD i = false) _ _ BitVec.getLsbD_zero ?_
  intro acc hacc j hj
  rw [List.mem_range] at hj
  rw [clmulStep]
  split
  · rw [BitVec.getLsbD_xor, hacc, BitVec.getLsbD_shiftLeft, BitVec.getLsbD_setWidth,
      BitVec.getLsbD_of_ge v _ (by omega)]
    simp
  · exact hacc

/-- The room above a product is used up by a shift. -/
theorem toPoly_clmul_shiftLeft {a b n : ℕ} (u : BitVec a) (v : BitVec b) (i : ℕ) (h : a + b ≤ n)
    (hi : a + b + i ≤ n + 1) :
    toPoly (clmul n u v <<< i) = X ^ (n + 1 - a - b - i) * toPoly u * toPoly v := by
  have hshift := X_pow_mul_toPoly_shiftLeft i (clmul n u v)
    fun j hj => clmul_getLsbD_of_ge u v j (by omega)
  have hroom : n + 1 - a - b = i + (n + 1 - a - b - i) := by omega
  apply mul_left_cancel₀ (pow_ne_zero i (X_ne_zero (R := ZMod 2)))
  rw [hshift, toPoly_clmul u v h, hroom, pow_add, Nat.add_sub_cancel_left]
  ring

/-- Zeros above a factor change nothing. -/
theorem clmul_setWidth_left {a b n : ℕ} (k : ℕ) (u : BitVec a) (v : BitVec b) :
    clmul n (u.setWidth (a + k)) v = clmul n u v := by
  have hbits (acc : BitVec n) (i : ℕ) (hi : i ∈ List.range (a + k)) :
      clmulStep n (u.setWidth (a + k)) v acc i = clmulStep n u v acc i := by
    rw [List.mem_range] at hi
    simp only [clmulStep, BitVec.getLsbD_setWidth, hi, decide_true, Bool.true_and]
  have hzeros (j : ℕ) : (List.range (a + j)).foldl (clmulStep n u v) 0#n = clmul n u v := by
    induction j with
    | zero => rfl
    | succ j ih =>
      rw [← Nat.add_assoc, List.range_succ, List.foldl_append, ih, List.foldl_cons, List.foldl_nil,
        clmulStep, BitVec.getLsbD_of_ge u _ (by omega), if_neg Bool.false_ne_true]
  rw [clmul, List.foldl_ext _ _ _ hbits, hzeros]

theorem clmul_setWidth_right {a b n : ℕ} (k : ℕ) (u : BitVec a) (v : BitVec b) :
    clmul n u (v.setWidth (b + k)) = clmul n u v := by
  have hstep : clmulStep n u (v.setWidth (b + k)) = clmulStep n u v := by
    funext acc i
    rw [clmulStep, clmulStep, BitVec.setWidth_setWidth (by omega)]
  rw [clmul, clmul, hstep]

/-! ## Residues -/

variable {w : ℕ} (poly : BitVec w)

/-- The generator: the register shifted out at the top, and the given coefficients. -/
noncomputable def generator : (ZMod 2)[X] := X ^ w + toPoly poly

theorem degree_generator : (generator poly).degree = w := by
  rw [generator, degree_add_eq_left_of_degree_lt] <;> rw [degree_X_pow]
  exact degree_toPoly_lt poly

/-- The ring of polynomials modulo the generator. -/
abbrev Residue : Type := AdjoinRoot (generator poly)

/-- The residue of `X`. -/
noncomputable abbrev x : Residue poly := AdjoinRoot.root (generator poly)

theorem mk_X : AdjoinRoot.mk (generator poly) X = x poly := AdjoinRoot.mk_X

/-- The residue of a bit string. -/
noncomputable def residue {n : ℕ} (v : BitVec n) : Residue poly :=
  AdjoinRoot.mk (generator poly) (toPoly v)

/-- Adding twice is adding nothing. -/
theorem residue_add_self (a : Residue poly) : a + a = 0 := by
  have htwo : (2 : Residue poly) = 0 := by
    rw [← map_ofNat (AdjoinRoot.mk (generator poly)) 2, ← map_zero (AdjoinRoot.mk (generator poly))]
    exact congrArg _ CharTwo.two_eq_zero
  rw [← two_mul, htwo, zero_mul]

@[simp] theorem residue_zero (n : ℕ) : residue poly (0#n) = 0 := by
  rw [residue, toPoly_zero, map_zero]

@[simp] theorem residue_xor {n : ℕ} (u v : BitVec n) :
    residue poly (u ^^^ v) = residue poly u + residue poly v := by
  rw [residue, toPoly_xor, map_add]
  rfl

theorem residue_twoPow {n : ℕ} (i : ℕ) (hi : i < n) :
    residue poly (BitVec.twoPow n i) = x poly ^ (n - 1 - i) := by
  rw [residue, toPoly_twoPow i hi, map_pow, mk_X]

/-- A string behind another: what comes first has the higher powers. -/
theorem residue_append {m n : ℕ} (v : BitVec m) (u : BitVec n) :
    residue poly (v ++ u) = x poly ^ m * residue poly u + residue poly v := by
  rw [residue, toPoly_append, map_add, map_mul, map_pow, mk_X]
  rfl

theorem residue_setWidth {m n : ℕ} (hmn : m ≤ n) (v : BitVec m) :
    residue poly (v.setWidth n) = x poly ^ (n - m) * residue poly v := by
  rw [residue, toPoly_setWidth hmn, map_mul, map_pow, mk_X]
  rfl

theorem residue_clmul {a b n : ℕ} (u : BitVec a) (v : BitVec b) (h : a + b ≤ n) :
    residue poly (clmul n u v) =
      x poly ^ (n + 1 - a - b) * residue poly u * residue poly v := by
  rw [residue, toPoly_clmul u v h, map_mul, map_mul, map_pow, mk_X]
  rfl

theorem residue_clmul_shiftLeft {a b n : ℕ} (u : BitVec a) (v : BitVec b) (i : ℕ) (h : a + b ≤ n)
    (hi : a + b + i ≤ n + 1) :
    residue poly (clmul n u v <<< i) =
      x poly ^ (n + 1 - a - b - i) * residue poly u * residue poly v := by
  rw [residue, toPoly_clmul_shiftLeft u v i h hi, map_mul, map_mul, map_pow, mk_X]
  rfl

/-- Modulo the generator the power beyond the register is the given coefficients. -/
theorem x_pow_width : x poly ^ w = residue poly poly := by
  have hzero : x poly ^ w + residue poly poly = 0 := by
    rw [← mk_X, ← map_pow, residue, ← map_add]
    exact AdjoinRoot.mk_self
  rw [← add_zero (x poly ^ w), ← residue_add_self poly (residue poly poly), ← add_assoc, hzero,
    zero_add]

/-- **A shift of the register multiplies by `x`.** -/
theorem residue_bitStep (r : BitVec w) :
    residue poly (bitStep poly r) = x poly * residue poly r := by
  have hmul := congrArg (AdjoinRoot.mk (generator poly)) (X_mul_toPoly r)
  rw [map_mul, mk_X, map_add] at hmul
  rw [residue, residue, hmul, bitStep]
  split
  · rw [toPoly_xor, map_add, map_pow, mk_X, x_pow_width]
    rfl
  · rw [map_zero, add_zero]

theorem residue_bits (n : ℕ) (r : BitVec w) :
    residue poly (bits poly n r) = x poly ^ n * residue poly r := by
  induction n with
  | zero => rw [bits_zero, pow_zero, one_mul]
  | succ n ih =>
    rw [Nat.add_comm, bits_add, pow_add, pow_one, mul_assoc, ← ih]
    exact residue_bitStep poly _

/-- The residue of a byte string. -/
noncomputable def messageResidue (bs : List (BitVec 8)) : Residue poly :=
  AdjoinRoot.mk (generator poly) (message bs)

theorem messageResidue_append (as bs : List (BitVec 8)) :
    messageResidue poly (as ++ bs) =
      x poly ^ (8 * bs.length) * messageResidue poly as + messageResidue poly bs := by
  rw [messageResidue, message_append, map_add, map_mul, map_pow, mk_X]
  rfl

/-- Bytes read as one number. -/
theorem residue_word {n : ℕ} (bs : List (BitVec 8)) (h : 8 * bs.length = n) :
    residue poly (word bs : BitVec n) = messageResidue poly bs := by
  rw [residue, toPoly_word bs (by omega), h, Nat.sub_self, pow_zero, one_mul]
  rfl

/-- **What feeding does**: the register moves on, the bytes are added beyond it. -/
theorem residue_feed (hw : 8 ≤ w) (r : BitVec w) (bs : List (BitVec 8)) :
    residue poly (feed poly r bs) =
      x poly ^ (8 * bs.length) * residue poly r + x poly ^ w * messageResidue poly bs := by
  induction bs generalizing r with
  | nil => simp [messageResidue, message]
  | cons b bs ih =>
    have hsplit : x poly ^ w = x poly ^ 8 * x poly ^ (w - 8) := by
      rw [← pow_add, Nat.add_sub_cancel' hw]
    have hcons := messageResidue_append poly [b] bs
    have hone : messageResidue poly [b] = residue poly b := by
      simp [messageResidue, message, residue]
    rw [List.singleton_append, hone] at hcons
    rw [feed_cons, ih, byteStep, residue_bits, residue_xor, residue_setWidth poly hw, hcons,
      hsplit, List.length_cons, Nat.mul_add, pow_add]
    ring

theorem residue_eq_iff {n : ℕ} (u v : BitVec n) :
    residue poly u = residue poly v ↔ generator poly ∣ toPoly (u ^^^ v) := by
  rw [residue, residue, AdjoinRoot.mk_eq_mk, toPoly_xor, CharTwo.sub_eq_add]

/-- **A register is told by its residue.** -/
theorem residue_injective : Function.Injective (residue poly (n := w)) := by
  intro u v huv
  rw [residue_eq_iff] at huv
  have hzero := eq_zero_of_dvd_of_degree_lt huv (by
    rw [degree_generator]
    exact degree_toPoly_lt _)
  rw [toPoly_xor, ← CharTwo.sub_eq_add, sub_eq_zero] at hzero
  exact toPoly_injective hzero

end ReflectedCrc
