/-
# What the checksums see

`crc32c` and `crc32` of two byte strings of one length: a burst within 32 bits changes
both, an odd number of bits changes `crc32c`, and two bits change either unless they
lie a multiple of the order of `x` apart: `2 ^ 31 - 1` bits for `crc32c`, twice as many
and one for `crc32`.
-/
import Libsg.CrcResidue
import Libsg.ReflectedDetection
import Mathlib.NumberTheory.LucasLehmer
import Mathlib.Tactic.NormNum.Prime

namespace Crc

open ReflectedCrc

/-! ## The orders -/

/-- The 32 bits of an exponent, the highest first. -/
def exponentBits (n : ℕ) : List Bool := (List.range 32).map fun i => n.testBit (31 - i)

/-- A power of `x` that was evaluated. -/
theorem x_pow_eq {polynomial : BitVec 32} (n : ℕ) (k : BitVec 32) (hn : ofBits (exponentBits n) = n)
    (hk : xPow polynomial 0x80000000#32 (exponentBits n) = k) :
    x polynomial ^ n = residue polynomial k := by
  rw [← hk, residue_xPow polynomial _ residue_one, hn]

theorem x_pow_eq_one {polynomial : BitVec 32} (n : ℕ) (hn : ofBits (exponentBits n) = n)
    (hk : xPow polynomial 0x80000000#32 (exponentBits n) = 0x80000000#32) :
    x polynomial ^ n = 1 :=
  (x_pow_eq n _ hn hk).trans residue_one

theorem x_pow_ne_one {polynomial : BitVec 32} (n : ℕ) (k : BitVec 32)
    (hn : ofBits (exponentBits n) = n)
    (hk : xPow polynomial 0x80000000#32 (exponentBits n) = k) (hne : k ≠ 0x80000000#32) :
    x polynomial ^ n ≠ 1 := by
  rw [x_pow_eq n k hn hk, ← residue_one]
  exact fun heq => hne (residue_injective polynomial heq)

set_option maxRecDepth 100000 in
/-- `2 ^ 31 - 1` is a prime. -/
theorem orderOf_crc32c : orderOf (x 0x82f63b78#32) = 2 ^ 31 - 1 := by
  have hprime : Nat.Prime (2 ^ 31 - 1) := lucas_lehmer_sufficiency 31 (by decide) (by norm_num)
  have hpow : x 0x82f63b78#32 ^ (2 ^ 31 - 1) = 1 :=
    x_pow_eq_one _ (by decide +kernel) (by decide +kernel)
  have hne : x 0x82f63b78#32 ^ 1 ≠ 1 :=
    x_pow_ne_one 1 0x40000000#32 (by decide +kernel) (by decide +kernel) (by decide)
  have : Fact (Nat.Prime (2 ^ 31 - 1)) := ⟨hprime⟩
  exact orderOf_eq_prime hpow (by rwa [pow_one] at hne)

set_option maxRecDepth 100000 in
/-- `2 ^ 32 - 1` is a product of Fermat primes. -/
theorem orderOf_crc32 : orderOf (x 0xEDB88320#32) = 2 ^ 32 - 1 := by
  apply orderOf_eq_of_pow_and_pow_div_prime (by decide)
  · exact x_pow_eq_one _ (by decide +kernel) (by decide +kernel)
  · intro p hp hdvd
    have hfactors : 2 ^ 32 - 1 = 3 * (5 * (17 * (257 * 65537))) := by decide
    rw [hfactors, hp.dvd_mul, hp.dvd_mul, hp.dvd_mul, hp.dvd_mul,
      Nat.prime_dvd_prime_iff_eq hp (by norm_num), Nat.prime_dvd_prime_iff_eq hp (by norm_num),
      Nat.prime_dvd_prime_iff_eq hp (by norm_num), Nat.prime_dvd_prime_iff_eq hp (by norm_num),
      Nat.prime_dvd_prime_iff_eq hp (by norm_num)] at hdvd
    obtain rfl | rfl | rfl | rfl | rfl := hdvd
    · exact x_pow_ne_one 0x55555555 _ (by decide +kernel) rfl (by decide +kernel)
    · exact x_pow_ne_one 0x33333333 _ (by decide +kernel) rfl (by decide +kernel)
    · exact x_pow_ne_one 0x0F0F0F0F _ (by decide +kernel) rfl (by decide +kernel)
    · exact x_pow_ne_one 0x00FF00FF _ (by decide +kernel) rfl (by decide +kernel)
    · exact x_pow_ne_one 0x0000FFFF _ (by decide +kernel) rfl (by decide +kernel)

theorem isUnit_crc32c : IsUnit (x 0x82f63b78#32) :=
  .of_pow_eq_one (n := orderOf _) (pow_orderOf_eq_one _) (by rw [orderOf_crc32c]; decide)

theorem isUnit_crc32 : IsUnit (x 0xEDB88320#32) :=
  .of_pow_eq_one (n := orderOf _) (pow_orderOf_eq_one _) (by rw [orderOf_crc32]; decide)

/-- The generator of CRC32-C has an even number of coefficients. -/
theorem generator_crc32c_one : (generator 0x82f63b78#32).eval 1 = 0 := by
  rw [generator, toPoly, Polynomial.eval_add, Polynomial.eval_finsetSum]
  simp only [apply_ite, Polynomial.eval_pow, Polynomial.eval_X, one_pow, Polynomial.eval_zero]
  decide

/-! ## What is seen -/

theorem crc32c_eq_iff (as bs : List (BitVec 8)) (remainder : BitVec 32) :
    crc32c as as.length remainder = crc32c bs bs.length remainder ↔
      feed 0x82f63b78#32 (~~~ remainder) as = feed 0x82f63b78#32 (~~~ remainder) bs := by
  rw [crc32c_eq, crc32c_eq, Option.some_inj, crc, crc, BitVec.not_inj]

theorem crc32_eq_iff (as bs : List (BitVec 8)) (remainder : BitVec 32) :
    crc32 as as.length remainder = crc32 bs bs.length remainder ↔
      feed 0xEDB88320#32 (~~~ remainder) as = feed 0xEDB88320#32 (~~~ remainder) bs := by
  rw [crc32_eq, crc32_eq, Option.some_inj, crc, crc, BitVec.not_inj]

/-- **What the checksums see** of two byte strings of one length: both every burst within
32 bits, `crc32c` every odd number of bits, and both two bits, unless these are a
multiple of `2 ^ 31 - 1` or of `2 ^ 32 - 1` bits apart. -/
theorem checksums_detect (as bs : List (BitVec 8)) (h : as.length = bs.length)
    (remainder : BitVec 32) :
    (∀ a, (flipped as bs).Nonempty → (∀ p ∈ flipped as bs, a ≤ p ∧ p < a + 32) →
      crc32c as as.length remainder ≠ crc32c bs bs.length remainder ∧
      crc32 as as.length remainder ≠ crc32 bs bs.length remainder) ∧
    (Odd (flipped as bs).card →
      crc32c as as.length remainder ≠ crc32c bs bs.length remainder) ∧
    (∀ p q, p < q → flipped as bs = {p, q} →
      (crc32c as as.length remainder = crc32c bs bs.length remainder ↔ 2 ^ 31 - 1 ∣ q - p) ∧
      (crc32 as as.length remainder = crc32 bs bs.length remainder ↔ 2 ^ 32 - 1 ∣ q - p)) := by
  simp only [ne_eq, crc32c_eq_iff, crc32_eq_iff]
  refine ⟨fun a hsome hburst => ⟨?_, ?_⟩, fun hodd => ?_, fun p q hpq htwo => ⟨?_, ?_⟩⟩
  · exact feed_ne_of_burst _ (by decide) isUnit_crc32c _ as bs h a hsome hburst
  · exact feed_ne_of_burst _ (by decide) isUnit_crc32 _ as bs h a hsome hburst
  · exact feed_ne_of_odd _ (by decide) isUnit_crc32c generator_crc32c_one _ as bs h hodd
  · rw [feed_eq_feed_iff_two _ (by decide) isUnit_crc32c _ as bs h hpq htwo, orderOf_crc32c]
  · rw [feed_eq_feed_iff_two _ (by decide) isUnit_crc32 _ as bs h hpq htwo, orderOf_crc32]

/-- The first bit and the last of 16, a burst of three bits within one byte, and three bits that
are no burst. -/
theorem checksums_detect_ends :
    (crc32c [1#8, 0#8] 2 0#32 ≠ crc32c [0#8, 128#8] 2 0#32 ∧
      crc32 [1#8, 0#8] 2 0#32 ≠ crc32 [0#8, 128#8] 2 0#32) ∧
    (crc32c [7#8, 0#8] 2 0#32 ≠ crc32c [0#8, 0#8] 2 0#32 ∧
      crc32 [7#8, 0#8] 2 0#32 ≠ crc32 [0#8, 0#8] 2 0#32) ∧
    crc32c [3#8, 0#8, 0#8, 0#8, 128#8] 5 0#32 ≠ crc32c [0#8, 0#8, 0#8, 0#8, 0#8] 5 0#32 := by
  have htwo := (checksums_detect [1#8, 0#8] [0#8, 128#8] rfl 0#32).2.2 0 15 (by decide)
    (by decide)
  have hburst := (checksums_detect [7#8, 0#8] [0#8, 0#8] rfl 0#32).1 0 (by decide) (by decide)
  have hodd := (checksums_detect [3#8, 0#8, 0#8, 0#8, 128#8] [0#8, 0#8, 0#8, 0#8, 0#8] rfl
    0#32).2.1 (by decide)
  exact ⟨⟨fun heq => absurd (htwo.1.mp heq) (by decide),
    fun heq => absurd (htwo.2.mp heq) (by decide)⟩, hburst, hodd⟩

end Crc
