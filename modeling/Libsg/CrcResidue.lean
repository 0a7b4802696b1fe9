/-
# What the instructions do to a residue

The intrinsics of `crc32c_hardware_intel.h` and `crc32c_hardware_armv8.h` read as
operations on residues modulo the polynomial of CRC32-C.  An instruction that
feeds an operand of `n` bits multiplies the register by `x ^ n` and adds the operand
times `x ^ 32`; the constants of the two files are powers of `x`.
-/
import Libsg.CrcHardware
import Libsg.ReflectedPolynomial

namespace Crc

open ReflectedCrc

/-! ## Operands -/

theorem operandBytes_length {n : ℕ} (v : BitVec n) : (operandBytes v).length = n / 8 := by
  rw [operandBytes, List.length_map, List.length_range]

/-- The bytes of an operand make up the operand. -/
theorem word_operandBytes {n : ℕ} (hn : 8 * (n / 8) = n) (v : BitVec n) :
    (word (operandBytes v) : BitVec n) = v := by
  have hlen := operandBytes_length v
  apply BitVec.eq_of_getLsbD_eq
  intro i hi
  have hsplit : i = 8 * (i / 8) + i % 8 := (Nat.div_add_mod i 8).symm
  have hlow : i % 8 < 8 := Nat.mod_lt i (by decide)
  rw [hsplit, word_getLsbD _ (by omega) (i / 8) (by omega) (i % 8) hlow]
  simp only [operandBytes, List.getElem_map, List.getElem_range, BitVec.getLsbD_setWidth,
    BitVec.getLsbD_ushiftRight, hlow, decide_true, Bool.true_and]

variable {polynomial : BitVec 32}

/-- **An instruction on residues.** -/
theorem Feeds.residue {n : ℕ} {crc : BitVec 32 → BitVec n → BitVec 32}
    (hfeeds : Feeds polynomial crc) (hn : 8 * (n / 8) = n) (R : BitVec 32) (v : BitVec n) :
    residue polynomial (crc R v) =
      x polynomial ^ n * residue polynomial R + x polynomial ^ 32 * residue polynomial v := by
  have hlen := operandBytes_length v
  have hv := residue_word polynomial (operandBytes v) (n := n) (by rw [hlen, hn])
  rw [word_operandBytes hn] at hv
  rw [hfeeds, residue_feed polynomial (by decide), hlen, hn, hv]

/-! ## Loads -/

theorem load_eq {n : ℕ} (M : List (BitVec 8)) (h : n / 8 ≤ M.length) :
    (load M : Option (BitVec n)) = some (word (M.take (n / 8))) :=
  if_pos h

theorem Feeds.load {n : ℕ} {crc : BitVec 32 → BitVec n → BitVec 32} (hfeeds : Feeds polynomial crc)
    (hn : 8 * (n / 8) = n) (R : BitVec 32) (M : List (BitVec 8)) (h : n / 8 ≤ M.length) :
    crc R (word (M.take (n / 8))) = feed polynomial R (M.take (n / 8)) := by
  rw [hfeeds, operandBytes_word _ (by rw [List.length_take_of_le h, hn])]

/-- Feeding on from where the bytes before left the register. -/
theorem feed_next_word (R : BitVec 32) (M : List (BitVec 8)) (k n : ℕ) :
    feed polynomial (feed polynomial R (M.take k)) ((M.drop k).take n) =
      feed polynomial R (M.take (k + n)) := by
  rw [← feed_append, List.take_add]

/-! ## Powers -/

/-- The register that stands for one. -/
theorem residue_one : residue polynomial 0x80000000#32 = 1 := by
  have hone : (0x80000000#32 : BitVec 32) = BitVec.twoPow 32 31 := by decide
  rw [hone, residue_twoPow polynomial 31 (by decide), pow_zero]

/-- A constant that the shifts of one lead to is a power. -/
theorem residue_of_bits {n : ℕ} {k : BitVec 32} (h : bits polynomial n 0x80000000#32 = k) :
    residue polynomial k = x polynomial ^ n := by
  rw [← h, residue_bits, residue_one, mul_one]

/-! ## Products of registers -/

/-- The low word of the product of two registers that were extended to words. -/
theorem clmul_registers (u v : BitVec 32) :
    (clmul 128 (u.setWidth 64) (v.setWidth 64)).setWidth 64 = clmul 64 u v := by
  rw [setWidth_clmul (by decide), clmul_setWidth_left 32 u, clmul_setWidth_right 32 u v]

theorem residue_clmul_registers (u v : BitVec 32) :
    residue polynomial (clmul 64 u v) =
      x polynomial * residue polynomial u * residue polynomial v := by
  rw [residue_clmul polynomial u v (by decide), pow_one]

/-- The product shifted by one, its highest bit being clear. -/
theorem residue_clmul_registers_shiftLeft (u v : BitVec 32) :
    residue polynomial (clmul 64 u v <<< 1) = residue polynomial u * residue polynomial v := by
  rw [residue_clmul_shiftLeft polynomial u v 1 (by decide) (by decide), pow_zero, one_mul]

end Crc
