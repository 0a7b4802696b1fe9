/-
# Integers of a fixed size and their bytes in memory

Nothing here names the library under verification.  A type of integers is a number of bytes
and whether it has a sign; a value of it carries that it is in range.

`store` lays the value's two's complement out in the order of a machine and `load` reads it
back; the two are inverse for either order (`load_store`, `store_load`), and reversing the
bytes is the same as storing in the other order (`store_reverse`).
-/
import Mathlib.Data.Nat.Notation
import Mathlib.Algebra.Order.Ring.Int
import Mathlib.Algebra.Order.Group.Int

namespace MachineInteger

/-! ## Bytes of a number -/

/-- The first `size` bytes of a number, the lowest first. -/
def lowBytes : ℕ → ℕ → List UInt8
  | 0, _ => []
  | size + 1, n => UInt8.ofNat n :: lowBytes size (n / 256)

/-- The number with these bytes, the lowest first. -/
def ofBytes : List UInt8 → ℕ
  | [] => 0
  | b :: bytes => b.toNat + 256 * ofBytes bytes

theorem length_lowBytes (size n : ℕ) : (lowBytes size n).length = size := by
  induction size generalizing n with
  | zero => rfl
  | succ size ih => rw [lowBytes, List.length_cons, ih]

theorem ofBytes_lt (bytes : List UInt8) : ofBytes bytes < 256 ^ bytes.length := by
  induction bytes with
  | nil => exact Nat.one_pos
  | cons b bytes ih =>
    have hb : b.toNat < 256 := b.toNat_lt
    rw [ofBytes, List.length_cons, Nat.pow_succ]
    omega

theorem ofBytes_lowBytes {size n : ℕ} (h : n < 256 ^ size) : ofBytes (lowBytes size n) = n := by
  induction size generalizing n with
  | zero =>
    have hzero := Nat.lt_one_iff.mp h
    rw [hzero]
    rfl
  | succ size ih =>
    have hdiv : n / 256 < 256 ^ size := by
      rw [Nat.pow_succ] at h
      exact Nat.div_lt_of_lt_mul (Nat.mul_comm _ _ ▸ h)
    rw [lowBytes, ofBytes, ih hdiv, UInt8.toNat_ofNat']
    exact Nat.mod_add_div n 256

theorem lowBytes_ofBytes (bytes : List UInt8) : lowBytes bytes.length (ofBytes bytes) = bytes := by
  induction bytes with
  | nil => rfl
  | cons b bytes ih =>
    have hb : b.toNat < 256 := b.toNat_lt
    have hdiv : (b.toNat + 256 * ofBytes bytes) / 256 = ofBytes bytes := by omega
    have hlow : UInt8.ofNat (b.toNat + 256 * ofBytes bytes) = b := by
      apply UInt8.toNat_inj.mp
      rw [UInt8.toNat_ofNat']
      omega
    rw [List.length_cons, ofBytes, lowBytes, hdiv, hlow, ih]

/-! ## Byte orders -/

inductive Endian
  | little
  | big
  deriving DecidableEq, Repr

/-- Bytes with the lowest first, as a machine lays them out; also the way back. -/
def Endian.arrange : Endian → List UInt8 → List UInt8
  | .little, bytes => bytes
  | .big, bytes => bytes.reverse

theorem Endian.arrange_arrange (e : Endian) (bytes : List UInt8) :
    e.arrange (e.arrange bytes) = bytes := by
  cases e with
  | little => rfl
  | big => exact List.reverse_reverse bytes

theorem Endian.length_arrange (e : Endian) (bytes : List UInt8) :
    (e.arrange bytes).length = bytes.length := by
  cases e with
  | little => rfl
  | big => exact List.length_reverse

theorem Endian.reverse_arrange {e d : Endian} (hne : e ≠ d) (bytes : List UInt8) :
    (e.arrange bytes).reverse = d.arrange bytes := by
  cases e <;> cases d
  · exact absurd rfl hne
  · rfl
  · exact List.reverse_reverse bytes
  · exact absurd rfl hne

/-! ## Types and values -/

structure IntType where
  size : ℕ
  signed : Bool
  size_pos : 0 < size
  deriving DecidableEq

namespace IntType

def modulus (t : IntType) : ℕ := 256 ^ t.size

def Holds (t : IntType) (x : ℤ) : Prop :=
  if t.signed then -t.modulus ≤ 2 * x ∧ 2 * x < t.modulus else 0 ≤ x ∧ x < t.modulus

theorem modulus_pos (t : IntType) : 0 < t.modulus := Nat.pow_pos (by decide)

/-- The number that a pattern of bits stands for. -/
def interpret (t : IntType) (n : ℕ) : ℤ :=
  if t.signed = true ∧ t.modulus ≤ 2 * n then n - t.modulus else n

theorem holds_interpret {t : IntType} {n : ℕ} (h : n < t.modulus) : t.Holds (t.interpret n) := by
  unfold Holds interpret
  by_cases hsigned : t.signed = true
  · rw [if_pos hsigned]
    by_cases hhalf : t.modulus ≤ 2 * n
    · rw [if_pos ⟨hsigned, hhalf⟩]
      omega
    · rw [if_neg fun hboth => hhalf hboth.2]
      omega
  · rw [if_neg hsigned, if_neg fun hboth => hsigned hboth.1]
    omega

/-- No value is further than the modulus from zero. -/
theorem Holds.bounds {t : IntType} {x : ℤ} (h : t.Holds x) :
    -(t.modulus : ℤ) ≤ x ∧ x < t.modulus := by
  have hpos := t.modulus_pos
  unfold Holds at h
  split at h
  · omega
  · omega

end IntType

structure Value (t : IntType) where
  val : ℤ
  holds : t.Holds val

/-- The two's complement of a value. -/
def Value.bits {t : IntType} (x : Value t) : ℕ := (x.val % t.modulus).toNat

/-- The value of a pattern of bits. -/
def Value.ofBits (t : IntType) (n : ℕ) : Value t where
  val := t.interpret (n % t.modulus)
  holds := IntType.holds_interpret (Nat.mod_lt n t.modulus_pos)

theorem Value.val_ofBits {t : IntType} {n : ℕ} (h : n < t.modulus) :
    (Value.ofBits t n).val = t.interpret n :=
  congrArg t.interpret (Nat.mod_eq_of_lt h)

theorem Value.ext {t : IntType} {x y : Value t} (h : x.val = y.val) : x = y := by
  cases x
  cases y
  cases h
  rfl

theorem Value.bits_lt {t : IntType} (x : Value t) : x.bits < t.modulus := by
  have hpos := t.modulus_pos
  have hlt := Int.emod_lt_of_pos x.val (Int.natCast_pos.mpr hpos)
  unfold Value.bits
  omega

/-- A negative value is its two's complement less the modulus. -/
theorem Value.bits_cases {t : IntType} (x : Value t) :
    (0 ≤ x.val ∧ (x.bits : ℤ) = x.val) ∨ (x.val < 0 ∧ (x.bits : ℤ) = x.val + t.modulus) := by
  have hpos := t.modulus_pos
  obtain ⟨hlow, hhigh⟩ := x.holds.bounds
  unfold Value.bits
  rcases Int.lt_or_le x.val 0 with hneg | hnonneg
  · right
    have hmod : x.val % t.modulus = x.val + t.modulus := by
      rw [← Int.add_emod_right, Int.emod_eq_of_lt (by omega) (by omega)]
    rw [hmod]
    omega
  · left
    rw [Int.emod_eq_of_lt hnonneg hhigh]
    omega

theorem Value.ofBits_bits {t : IntType} (x : Value t) : Value.ofBits t x.bits = x := by
  apply Value.ext
  have hrange := x.holds
  unfold IntType.Holds at hrange
  rw [Value.val_ofBits x.bits_lt, IntType.interpret]
  rcases x.bits_cases with ⟨hsign, hbits⟩ | ⟨hsign, hbits⟩
  · rw [if_neg, hbits]
    rintro ⟨hsigned, hhalf⟩
    rw [if_pos hsigned] at hrange
    omega
  · have hsigned : t.signed = true := by
      by_contra hunsigned
      rw [if_neg hunsigned] at hrange
      omega
    rw [if_pos hsigned] at hrange
    rw [if_pos ⟨hsigned, by omega⟩]
    omega

theorem Value.bits_ofBits {t : IntType} {n : ℕ} (h : n < t.modulus) :
    (Value.ofBits t n).bits = n := by
  have hval := Value.val_ofBits h
  rw [IntType.interpret] at hval
  rcases (Value.ofBits t n).bits_cases with ⟨hsign, hbits⟩ | ⟨hsign, hbits⟩
  · rw [hval] at hsign hbits
    split at hbits
    · next hnegative =>
      rw [if_pos hnegative] at hsign
      omega
    · exact Int.ofNat_inj.mp hbits
  · rw [hval] at hsign hbits
    split at hbits
    · omega
    · next hnonnegative =>
      rw [if_neg hnonnegative] at hsign
      omega

/-! ## Memory -/

section Memory

variable {t : IntType}

/-- The bytes of a value in the memory of a machine. -/
def store (host : Endian) (x : Value t) : List UInt8 :=
  host.arrange (lowBytes t.size x.bits)

/-- The value whose bytes these are. -/
def load (host : Endian) (t : IntType) (bytes : List UInt8) : Value t :=
  Value.ofBits t (ofBytes (host.arrange bytes))

theorem length_store (host : Endian) (x : Value t) : (store host x).length = t.size := by
  rw [store, Endian.length_arrange, length_lowBytes]

theorem load_store (host : Endian) (x : Value t) : load host t (store host x) = x := by
  rw [load, store, Endian.arrange_arrange, ofBytes_lowBytes x.bits_lt, Value.ofBits_bits]

theorem store_load (host : Endian) {bytes : List UInt8} (hlen : bytes.length = t.size) :
    store host (load host t bytes) = bytes := by
  have hlt : ofBytes (host.arrange bytes) < t.modulus := by
    have h := ofBytes_lt (host.arrange bytes)
    rw [Endian.length_arrange, hlen] at h
    exact h
  have hsize : t.size = (host.arrange bytes).length := by
    rw [Endian.length_arrange, hlen]
  rw [store, load, Value.bits_ofBits hlt, hsize, lowBytes_ofBytes, Endian.arrange_arrange]

/-- Reversed, the bytes are those of the other order. -/
theorem store_reverse {e d : Endian} (hne : e ≠ d) (x : Value t) :
    (store e x).reverse = store d x :=
  Endian.reverse_arrange hne _

end Memory

end MachineInteger
