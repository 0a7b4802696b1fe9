/-
# Which changes a reflected checksum sees

Nothing here names the library under verification.  Two byte strings of one length
leave the same register iff the powers of `x` at the bits in which they differ add up
to nothing (`feed_eq_feed_iff_sum`).  So a burst no wider than the register is always
seen, an odd number of bits is if the generator vanishes at one, and two bits are
unless the order of `x` divides their distance.

* `bitAt`, `flipped` : the bits of a byte string, and those in which two differ;
* `feed_ne_of_burst`, `feed_ne_of_odd`, `feed_eq_feed_iff_two` : what is seen;
* `mulMod`, `xPow` : products and powers modulo the generator, to be evaluated.
-/
import Libsg.ReflectedPolynomial
import Mathlib.GroupTheory.OrderOfElement

namespace ReflectedCrc

open Polynomial

/-! ## The bits of a byte string -/

/-- The bit `p` of a byte string, the lowest bit of a byte first. -/
def bitAt (bs : List (BitVec 8)) (p : ℕ) : Bool := (bs.getD (p / 8) 0#8).getLsbD (p % 8)

/-- The bits in which two byte strings differ. -/
def flipped (as bs : List (BitVec 8)) : Finset ℕ :=
  (Finset.range (8 * as.length)).filter fun p => bitAt as p ≠ bitAt bs p

theorem mem_flipped {as bs : List (BitVec 8)} {p : ℕ} :
    p ∈ flipped as bs ↔ p < 8 * as.length ∧ bitAt as p ≠ bitAt bs p := by
  rw [flipped, Finset.mem_filter, Finset.mem_range]

theorem word_bitAt (bs : List (BitVec 8)) (p : ℕ) (hp : p < 8 * bs.length) :
    (word bs : BitVec (8 * bs.length)).getLsbD p = bitAt bs p := by
  have hsplit : p = 8 * (p / 8) + p % 8 := (Nat.div_add_mod p 8).symm
  have hbyte : p / 8 < bs.length := by omega
  conv_lhs => rw [hsplit, word_getLsbD bs le_rfl (p / 8) hbyte (p % 8) (Nat.mod_lt p (by decide))]
  rw [bitAt, List.getD_eq_getElem?_getD, List.getElem?_eq_getElem hbyte, Option.getD_some]

/-- The polynomial of a byte string, by its bits. -/
theorem message_eq_sum (bs : List (BitVec 8)) :
    message bs = ∑ p ∈ Finset.range (8 * bs.length),
      if bitAt bs p then X ^ (8 * bs.length - 1 - p) else 0 := by
  have hword := toPoly_word bs (le_refl (8 * bs.length))
  rw [Nat.sub_self, pow_zero, one_mul] at hword
  rw [← hword, toPoly]
  refine Finset.sum_congr rfl fun p hp => ?_
  rw [word_bitAt bs p (Finset.mem_range.mp hp)]

/-- What two byte strings of one length differ by. -/
theorem message_add (as bs : List (BitVec 8)) (h : as.length = bs.length) :
    message as + message bs = ∑ p ∈ flipped as bs, X ^ (8 * as.length - 1 - p) := by
  rw [message_eq_sum, message_eq_sum, ← h, ← Finset.sum_add_distrib, flipped, Finset.sum_filter]
  refine Finset.sum_congr rfl fun p _ => ?_
  cases bitAt as p <;> cases bitAt bs p
  · simp
  · simp
  · simp
  · simpa using CharTwo.add_self_eq_zero _

/-! ## What is seen -/

section Detection

variable {w : ℕ} (poly : BitVec w)

theorem eq_iff_add_eq_zero (a b : Residue poly) : a = b ↔ a + b = 0 := by
  constructor
  · rintro rfl
    exact residue_add_self poly a
  · intro h
    rw [← add_zero a, ← residue_add_self poly b, ← add_assoc, h, zero_add]

/-- **Two byte strings of one length leave the same register** iff what they differ by
vanishes. -/
theorem feed_eq_feed_iff_sum (hw : 8 ≤ w) (hunit : IsUnit (x poly)) (r : BitVec w)
    (as bs : List (BitVec 8)) (h : as.length = bs.length) :
    feed poly r as = feed poly r bs ↔
      ∑ p ∈ flipped as bs, x poly ^ (8 * as.length - 1 - p) = 0 := by
  have hsum : messageResidue poly as + messageResidue poly bs =
      ∑ p ∈ flipped as bs, x poly ^ (8 * as.length - 1 - p) := by
    rw [messageResidue, messageResidue, ← map_add, message_add as bs h, map_sum]
    exact Finset.sum_congr rfl fun p _ => by rw [map_pow, mk_X]
  rw [← (residue_injective poly).eq_iff, residue_feed poly hw, residue_feed poly hw, ← h,
    add_right_inj, (hunit.pow w).mul_right_inj, eq_iff_add_eq_zero, hsum]

/-- **A burst no wider than the register is seen.** -/
theorem feed_ne_of_burst (hw : 8 ≤ w) (hunit : IsUnit (x poly)) (r : BitVec w)
    (as bs : List (BitVec 8)) (h : as.length = bs.length) (a : ℕ)
    (hsome : (flipped as bs).Nonempty) (hburst : ∀ p ∈ flipped as bs, a ≤ p ∧ p < a + w) :
    feed poly r as ≠ feed poly r bs := by
  intro heq
  rw [feed_eq_feed_iff_sum poly hw hunit r as bs h] at heq
  obtain ⟨p₀, hp₀⟩ := hsome
  -- moved on by the width of the register, the powers have the burst's place in common
  have hplace : x poly ^ w * ∑ p ∈ flipped as bs, x poly ^ (8 * as.length - 1 - p) =
      x poly ^ (8 * as.length - a) * ∑ p ∈ flipped as bs, x poly ^ (w - 1 - (p - a)) := by
    rw [Finset.mul_sum, Finset.mul_sum]
    refine Finset.sum_congr rfl fun p hp => ?_
    have hin := (mem_flipped.mp hp).1
    have hwin := hburst p hp
    rw [← pow_add, ← pow_add]
    congr 1
    omega
  rw [heq, mul_zero, eq_comm, (hunit.pow _).mul_right_eq_zero] at hplace
  have hdvd : generator poly ∣ ∑ p ∈ flipped as bs, X ^ (w - 1 - (p - a)) := by
    rw [← AdjoinRoot.mk_eq_zero, map_sum, ← hplace]
    exact Finset.sum_congr rfl fun p _ => by rw [map_pow, mk_X]
  have hdegree : (∑ p ∈ flipped as bs, (X : (ZMod 2)[X]) ^ (w - 1 - (p - a))).degree <
      (generator poly).degree := by
    rw [degree_generator, degree_lt_iff_coeff_zero]
    intro k hk
    rw [finsetSum_coeff]
    refine Finset.sum_eq_zero fun p _ => ?_
    rw [coeff_X_pow, if_neg (by omega)]
  have hcoeff := congrArg (fun q => q.coeff (w - 1 - (p₀ - a)))
    (eq_zero_of_dvd_of_degree_lt hdvd hdegree)
  simp only [finsetSum_coeff, coeff_X_pow, coeff_zero] at hcoeff
  rw [Finset.sum_eq_single p₀, if_pos rfl] at hcoeff
  · exact one_ne_zero hcoeff
  · intro p hp hne
    have hwin := hburst p hp
    have hwin₀ := hburst p₀ hp₀
    rw [if_neg (by omega)]
  · exact fun hout => absurd hp₀ hout

/-- **An odd number of bits is seen**, if the generator vanishes at one. -/
theorem feed_ne_of_odd (hw : 8 ≤ w) (hunit : IsUnit (x poly)) (hone : (generator poly).eval 1 = 0)
    (r : BitVec w) (as bs : List (BitVec 8)) (h : as.length = bs.length)
    (hodd : Odd (flipped as bs).card) : feed poly r as ≠ feed poly r bs := by
  intro heq
  rw [feed_eq_feed_iff_sum poly hw hunit r as bs h] at heq
  have heval : (generator poly).eval₂ (RingHom.id (ZMod 2)) 1 = 0 := hone
  have hparity := congrArg (AdjoinRoot.lift (RingHom.id (ZMod 2)) 1 heval) heq
  rw [map_sum, map_zero] at hparity
  simp only [map_pow, AdjoinRoot.lift_root, one_pow, Finset.sum_const, nsmul_eq_mul,
    mul_one] at hparity
  exact ZMod.natCast_ne_zero_iff_odd.mpr hodd hparity

/-- **Two bits are seen unless the order of `x` divides their distance.** -/
theorem feed_eq_feed_iff_two (hw : 8 ≤ w) (hunit : IsUnit (x poly)) (r : BitVec w)
    (as bs : List (BitVec 8)) (h : as.length = bs.length) {p q : ℕ} (hpq : p < q)
    (htwo : flipped as bs = {p, q}) :
    feed poly r as = feed poly r bs ↔ orderOf (x poly) ∣ q - p := by
  have hq : q < 8 * as.length := (mem_flipped.mp (htwo ▸ by simp : q ∈ flipped as bs)).1
  have hsplit : 8 * as.length - 1 - p = 8 * as.length - 1 - q + (q - p) := by omega
  have hfactor : x poly ^ (8 * as.length - 1 - p) + x poly ^ (8 * as.length - 1 - q) =
      x poly ^ (8 * as.length - 1 - q) * (x poly ^ (q - p) + 1) := by
    rw [hsplit, pow_add]
    ring
  rw [feed_eq_feed_iff_sum poly hw hunit r as bs h, htwo, Finset.sum_pair hpq.ne, hfactor,
    (hunit.pow _).mul_right_eq_zero, ← eq_iff_add_eq_zero, orderOf_dvd_iff_pow_eq_one]

end Detection

/-! ## Products and powers -/

section Powers

variable {w : ℕ} (poly : BitVec w)

/-- The product modulo the generator, the highest power of `u` first. -/
def mulMod (u v : BitVec w) : BitVec w :=
  (List.range w).foldl
    (fun acc i => if u.getLsbD i then bitStep poly acc ^^^ v else bitStep poly acc) 0#w

theorem residue_mulMod (u v : BitVec w) :
    residue poly (mulMod poly u v) = residue poly u * residue poly v := by
  have hfold (k : ℕ) :
      residue poly ((List.range k).foldl
        (fun acc i => if u.getLsbD i then bitStep poly acc ^^^ v else bitStep poly acc) 0#w) =
      (∑ i ∈ Finset.range k, if u.getLsbD i then x poly ^ (k - 1 - i) else 0) *
        residue poly v := by
    induction k with
    | zero => simp
    | succ k ih =>
      have hshift : ∑ i ∈ Finset.range k,
            (if u.getLsbD i then x poly ^ (k + 1 - 1 - i) else 0) =
          x poly * ∑ i ∈ Finset.range k, if u.getLsbD i then x poly ^ (k - 1 - i) else 0 := by
        rw [Finset.mul_sum]
        refine Finset.sum_congr rfl fun i hi => ?_
        have hlt := Finset.mem_range.mp hi
        split
        · rw [← pow_succ']
          congr 1
          omega
        · rw [mul_zero]
      rw [List.range_succ, List.foldl_append, List.foldl_cons, List.foldl_nil,
        Finset.sum_range_succ, hshift, add_mul, mul_assoc, ← ih]
      split
      · rw [residue_xor, residue_bitStep, Nat.add_sub_cancel, Nat.sub_self, pow_zero, one_mul]
      · rw [residue_bitStep, zero_mul, add_zero]
  have hu : residue poly u =
      ∑ i ∈ Finset.range w, if u.getLsbD i then x poly ^ (w - 1 - i) else 0 := by
    rw [residue, toPoly, map_sum]
    refine Finset.sum_congr rfl fun i _ => ?_
    split
    · rw [map_pow, mk_X]
    · rw [map_zero]
  rw [mulMod, hfold, hu]

/-- The power of `x` whose exponent has the given bits, the highest first. -/
def xPow (one : BitVec w) (exponent : List Bool) : BitVec w :=
  exponent.foldl
    (fun acc b => if b then bitStep poly (mulMod poly acc acc) else mulMod poly acc acc) one

/-- The number with the given bits, the highest first. -/
def ofBits (exponent : List Bool) : ℕ := exponent.foldl (fun n b => 2 * n + b.toNat) 0

theorem residue_xPow (one : BitVec w) (hone : residue poly one = 1) (exponent : List Bool) :
    residue poly (xPow poly one exponent) = x poly ^ ofBits exponent := by
  have hfold (acc : BitVec w) (n : ℕ) (hacc : residue poly acc = x poly ^ n) :
      residue poly (exponent.foldl
        (fun acc b => if b then bitStep poly (mulMod poly acc acc) else mulMod poly acc acc) acc) =
      x poly ^ exponent.foldl (fun n b => 2 * n + b.toNat) n := by
    induction exponent generalizing acc n with
    | nil => exact hacc
    | cons b exponent ih =>
      rw [List.foldl_cons, List.foldl_cons]
      apply ih
      cases b
      · rw [if_neg Bool.false_ne_true, residue_mulMod, hacc, ← pow_add, Bool.toNat_false, two_mul,
          add_zero]
      · rw [if_pos rfl, residue_bitStep, residue_mulMod, hacc, ← pow_add, ← pow_succ',
          Bool.toNat_true, two_mul]
  exact hfold one 0 (by rw [hone, pow_zero])

end Powers

end ReflectedCrc
