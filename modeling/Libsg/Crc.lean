/-
# The table-driven checksums

`crc32c_tabular.h` and the tabular branch of `crc.cpp` on a little-endian host.
The data are the bytes from a pointer on; reading a byte past the end or a table
word past the end yields `none`, and so does a loop that never ends (its counter
is 32 bits wide).  That the functions return a value at all therefore says that
they stay within the data and the tables.

The checksum is the bitwise one of `ReflectedCrc`: every table word is a slice of
the register, and every loop feeds a block of bytes.
-/
import Libsg.ReflectedCrc

namespace Crc

/-! ## The functions -/

/-- `crcTable[k * 256 + uint8_t(r >> s)]`. -/
def lookup (crcTable : Array (BitVec 32)) (k : ℕ) (r : BitVec 32) (s : ℕ) :
    Option (BitVec 32) :=
  crcTable[k * 256 + ((r >>> s).setWidth 8).toNat]?

/-- `M16[i]` on a little-endian host. -/
def load16 (M : List (BitVec 8)) (i : ℕ) : Option (BitVec 32) :=
  if 2 * (i + 1) ≤ M.length then some (ReflectedCrc.word ((M.drop (2 * i)).take 2)) else none

/-- `M32[i]` on a little-endian host. -/
def load32 (M : List (BitVec 8)) (i : ℕ) : Option (BitVec 32) :=
  if 4 * (i + 1) ≤ M.length then some (ReflectedCrc.word ((M.drop (4 * i)).take 4)) else none

/-- The loop of `crc32_tabular_1_byte`, `fuel` rounds of it at most. -/
def loop1 (M : List (BitVec 8)) (bytes : ℕ) (crcTable : Array (BitVec 32)) :
    ℕ → BitVec 32 → BitVec 32 → Option (BitVec 32)
  | 0, _, _ => none
  | fuel + 1, i, R =>
    if i.toNat < bytes then do
      let m ← M[i.toNat]?
      let t ← lookup crcTable 0 (R ^^^ m.setWidth 32) 0
      loop1 M bytes crcTable fuel (i + 1) ((R >>> 8) ^^^ t)
    else
      some R

/-- A counter that passes `bytes` does so within `bytes + 1` rounds. -/
def crc32Tabular1Byte (M : List (BitVec 8)) (bytes : ℕ) (prev : BitVec 32)
    (crcTable : Array (BitVec 32)) : Option (BitVec 32) :=
  loop1 M bytes crcTable (bytes + 1) 0 prev

/-- The loop of `crc32_tabular_2_bytes`: the counter and the register it ends with. -/
def loop2 (M : List (BitVec 8)) (bytes : ℕ) (crcTable : Array (BitVec 32)) :
    ℕ → BitVec 32 → BitVec 32 → Option (BitVec 32 × BitVec 32)
  | 0, _, _ => none
  | fuel + 1, i, R =>
    if i.toNat < bytes >>> 1 then do
      let R := R ^^^ (← load16 M i.toNat)
      let t0 ← lookup crcTable 0 R 8
      let t1 ← lookup crcTable 1 R 0
      loop2 M bytes crcTable fuel (i + 1) ((R >>> 16) ^^^ t0 ^^^ t1)
    else
      some (i, R)

def crc32Tabular2Bytes (M : List (BitVec 8)) (bytes : ℕ) (prev : BitVec 32)
    (crcTable : Array (BitVec 32)) : Option (BitVec 32) := do
  let (i, R) ← loop2 M bytes crcTable (bytes + 1) 0 prev
  crc32Tabular1Byte (M.drop (2 * i).toNat) (bytes - (2 * i).toNat) R crcTable

/-- The loop of `crc32_tabular_4_bytes`. -/
def loop4 (M : List (BitVec 8)) (bytes : ℕ) (crcTable : Array (BitVec 32)) :
    ℕ → BitVec 32 → BitVec 32 → Option (BitVec 32 × BitVec 32)
  | 0, _, _ => none
  | fuel + 1, i, R =>
    if i.toNat < bytes >>> 2 then do
      let R := R ^^^ (← load32 M i.toNat)
      let t0 ← lookup crcTable 0 R 24
      let t1 ← lookup crcTable 1 R 16
      let t2 ← lookup crcTable 2 R 8
      let t3 ← lookup crcTable 3 R 0
      loop4 M bytes crcTable fuel (i + 1) (t0 ^^^ t1 ^^^ t2 ^^^ t3)
    else
      some (i, R)

def crc32Tabular4Bytes (M : List (BitVec 8)) (bytes : ℕ) (prev : BitVec 32)
    (crcTable : Array (BitVec 32)) : Option (BitVec 32) := do
  let (i, R) ← loop4 M bytes crcTable (bytes + 1) 0 prev
  crc32Tabular2Bytes (M.drop (4 * i).toNat) (bytes - (4 * i).toNat) R crcTable

/-- The pointer of `crc32_tabular_8_bytes` and the next one advance: `M` is what lies ahead. -/
def crc32Tabular8Bytes (M : List (BitVec 8)) (bytes : ℕ) (R : BitVec 32)
    (crcTable : Array (BitVec 32)) : Option (BitVec 32) :=
  if 8 ≤ bytes then do
    let R := R ^^^ (← load32 M 0)
    let R2 ← load32 M 1
    let t0 ← lookup crcTable 0 R2 24
    let t1 ← lookup crcTable 1 R2 16
    let t2 ← lookup crcTable 2 R2 8
    let t3 ← lookup crcTable 3 R2 0
    let t4 ← lookup crcTable 4 R 24
    let t5 ← lookup crcTable 5 R 16
    let t6 ← lookup crcTable 6 R 8
    let t7 ← lookup crcTable 7 R 0
    crc32Tabular8Bytes (M.drop 8) (bytes - 8)
      (t0 ^^^ t1 ^^^ t2 ^^^ t3 ^^^ t4 ^^^ t5 ^^^ t6 ^^^ t7) crcTable
  else
    crc32Tabular4Bytes M bytes R crcTable
termination_by bytes

def crc32Tabular16Bytes (M : List (BitVec 8)) (bytes : ℕ) (R : BitVec 32)
    (crcTable : Array (BitVec 32)) : Option (BitVec 32) :=
  if 16 ≤ bytes then do
    let R := R ^^^ (← load32 M 0)
    let R2 ← load32 M 1
    let R3 ← load32 M 2
    let R4 ← load32 M 3
    let t0 ← lookup crcTable 0 R4 24
    let t1 ← lookup crcTable 1 R4 16
    let t2 ← lookup crcTable 2 R4 8
    let t3 ← lookup crcTable 3 R4 0
    let t4 ← lookup crcTable 4 R3 24
    let t5 ← lookup crcTable 5 R3 16
    let t6 ← lookup crcTable 6 R3 8
    let t7 ← lookup crcTable 7 R3 0
    let t8 ← lookup crcTable 8 R2 24
    let t9 ← lookup crcTable 9 R2 16
    let t10 ← lookup crcTable 10 R2 8
    let t11 ← lookup crcTable 11 R2 0
    let t12 ← lookup crcTable 12 R 24
    let t13 ← lookup crcTable 13 R 16
    let t14 ← lookup crcTable 14 R 8
    let t15 ← lookup crcTable 15 R 0
    crc32Tabular16Bytes (M.drop 16) (bytes - 16)
      (t0 ^^^ t1 ^^^ t2 ^^^ t3 ^^^ t4 ^^^ t5 ^^^ t6 ^^^ t7 ^^^ t8 ^^^ t9 ^^^ t10 ^^^ t11 ^^^
        t12 ^^^ t13 ^^^ t14 ^^^ t15) crcTable
  else
    crc32Tabular8Bytes M bytes R crcTable
termination_by bytes

def crc32cTabular (data : List (BitVec 8)) (no_of_bytes : ℕ) (initial_remainder : BitVec 32)
    (crcTable : Array (BitVec 32)) : Option (BitVec 32) :=
  if 16 ≤ no_of_bytes then crc32Tabular16Bytes data no_of_bytes initial_remainder crcTable
  else if 8 ≤ no_of_bytes then crc32Tabular8Bytes data no_of_bytes initial_remainder crcTable
  else if 4 ≤ no_of_bytes then crc32Tabular4Bytes data no_of_bytes initial_remainder crcTable
  else if 2 ≤ no_of_bytes then crc32Tabular2Bytes data no_of_bytes initial_remainder crcTable
  else crc32Tabular1Byte data no_of_bytes initial_remainder crcTable

/-- `R & 1 ? (R >> 1) ^ polynomial : R >> 1`, `n` times. -/
def naive (polynomial : BitVec 32) : ℕ → BitVec 32 → BitVec 32
  | 0, R => R
  | n + 1, R =>
    naive polynomial n (if R &&& 1 ≠ 0 then (R >>> 1) ^^^ polynomial else R >>> 1)

/-- The first loop of `compute_tabular_method_tables`, up to `i = n`. -/
def fillFirst (polynomial : BitVec 32) : ℕ → Array (BitVec 32)
  | 0 => Array.replicate (256 * 16) 0
  | i + 1 => (fillFirst polynomial i).setIfInBounds i (naive polynomial 8 (BitVec.ofNat 32 i))

/-- The second loop, from `i = 256` up to `i = n + 256`. -/
def fillRest (polynomial : BitVec 32) : ℕ → Array (BitVec 32)
  | 0 => fillFirst polynomial 256
  | n + 1 =>
    let pTbl := fillRest polynomial n
    let R := pTbl.getD n 0
    pTbl.setIfInBounds (n + 256) ((R >>> 8) ^^^ pTbl.getD (R.setWidth 8).toNat 0)

def computeTabularMethodTables (polynomial : BitVec 32) : Array (BitVec 32) :=
  fillRest polynomial (16 * 256 - 256)

/-- `crc32c`, where the host has no instruction for it. -/
def crc32c (data : List (BitVec 8)) (length : ℕ) (remainder : BitVec 32) : Option (BitVec 32) :=
  (crc32cTabular data length (~~~ remainder) (computeTabularMethodTables 0x82f63b78#32)).map
    fun R => ~~~ R

/-- `crc32`: another polynomial, otherwise the same. -/
def crc32 (data : List (BitVec 8)) (length : ℕ) (remainder : BitVec 32) : Option (BitVec 32) :=
  (crc32cTabular data length (~~~ remainder) (computeTabularMethodTables 0xEDB88320#32)).map
    fun R => ~~~ R

/-! ## The tables -/

theorem naive_eq_bits (polynomial : BitVec 32) (n : ℕ) (R : BitVec 32) :
    naive polynomial n R = ReflectedCrc.bits polynomial n R := by
  induction n generalizing R with
  | zero => rfl
  | succ n ih =>
    have hlow : R &&& 1 ≠ 0 ↔ R.getLsbD 0 = true := by
      rw [show (1 : BitVec 32) = 1#32 from rfl, BitVec.and_one_eq_setWidth_ofBool_getLsbD]
      cases R.getLsbD 0 <;> decide
    rw [naive, ih, ReflectedCrc.bits_add]
    show _ = ReflectedCrc.bits polynomial n (ReflectedCrc.bitStep polynomial R)
    simp only [ReflectedCrc.bitStep, hlow]

theorem fillFirst_size (polynomial : BitVec 32) (n : ℕ) :
    (fillFirst polynomial n).size = 256 * 16 := by
  induction n with
  | zero => simp [fillFirst]
  | succ n ih => simp [fillFirst, ih]

theorem fillRest_size (polynomial : BitVec 32) (n : ℕ) :
    (fillRest polynomial n).size = 256 * 16 := by
  induction n with
  | zero => exact fillFirst_size polynomial 256
  | succ n ih => simp [fillRest, ih]

/-- The first table holds what each byte becomes after itself. -/
theorem fillFirst_get (polynomial : BitVec 32) (n : ℕ) (hn : n ≤ 256) (j : ℕ) (hj : j < n) :
    (fillFirst polynomial n)[j]? =
      some (ReflectedCrc.slice polynomial 0 (BitVec.ofNat 8 j)) := by
  induction n with
  | zero => omega
  | succ n ih =>
    rw [fillFirst, Array.getElem?_setIfInBounds, fillFirst_size]
    by_cases hjn : n = j
    · subst hjn
      have hbyte : (BitVec.ofNat 8 n).setWidth 32 = BitVec.ofNat 32 n := by
        apply BitVec.eq_of_toNat_eq
        simp only [BitVec.toNat_setWidth, BitVec.toNat_ofNat]
        omega
      rw [if_pos rfl, if_pos (by omega), naive_eq_bits, ReflectedCrc.slice, hbyte]
    · rw [if_neg hjn]
      exact ih (by omega) (by omega)

/-- Each further table holds what the bytes of the one before become one byte later. -/
theorem fillRest_get (polynomial : BitVec 32) (n : ℕ) (hn : n ≤ 16 * 256 - 256) (j : ℕ)
    (hj : j < n + 256) :
    (fillRest polynomial n)[j]? =
      some (ReflectedCrc.slice polynomial (j / 256) (BitVec.ofNat 8 j)) := by
  induction n generalizing j with
  | zero =>
    rw [Nat.div_eq_of_lt (by omega)]
    exact fillFirst_get polynomial 256 le_rfl j (by omega)
  | succ n ih =>
    rw [fillRest]
    simp only [Array.getElem?_setIfInBounds, fillRest_size]
    by_cases hjn : n + 256 = j
    · subst hjn
      have hR := ih (by omega) n (by omega)
      have hbyte : BitVec.ofNat 8 (n + 256) = BitVec.ofNat 8 n := by
        apply BitVec.eq_of_toNat_eq
        simp only [BitVec.toNat_ofNat]
        omega
      have hdiv : (n + 256) / 256 = n / 256 + 1 := by omega
      rw [if_pos rfl, if_pos (by omega), hbyte, hdiv, ReflectedCrc.slice_succ,
        Array.getD_eq_getD_getElem?, Array.getD_eq_getD_getElem?, hR, Option.getD_some]
      set low := (ReflectedCrc.slice polynomial (n / 256) (BitVec.ofNat 8 n) : BitVec 32).setWidth 8
      have hlow := ih (by omega) low.toNat (by have := low.isLt; omega)
      rw [hlow, Option.getD_some, Nat.div_eq_of_lt low.isLt, BitVec.ofNat_toNat,
        BitVec.setWidth_eq, BitVec.xor_comm]
    · rw [if_neg hjn]
      exact ih (by omega) j (by omega)

/-- Table `k` holds the slices of `k` bytes later. -/
theorem lookup_tables (polynomial : BitVec 32) (k : ℕ) (hk : k < 16) (r : BitVec 32) (s : ℕ) :
    lookup (computeTabularMethodTables polynomial) k r s =
      some (ReflectedCrc.slice polynomial k ((r >>> s).setWidth 8)) := by
  set b := (r >>> s).setWidth 8
  have hb : b.toNat < 256 := b.isLt
  have hdiv : (k * 256 + b.toNat) / 256 = k := by omega
  have hbyte : BitVec.ofNat 8 (k * 256 + b.toNat) = b := by
    apply BitVec.eq_of_toNat_eq
    simp only [BitVec.toNat_ofNat]
    omega
  rw [lookup, computeTabularMethodTables, fillRest_get polynomial _ le_rfl _ (by omega), hdiv,
    hbyte]

/-! ## The loops -/

section Loops

variable (polynomial : BitVec 32)

open ReflectedCrc in
/-- One byte by one table. -/
theorem byteStep_eq (R : BitVec 32) (m : BitVec 8) :
    byteStep polynomial R m =
      (R >>> 8) ^^^ slice polynomial 0 ((R ^^^ m.setWidth 32).setWidth 8) := by
  have hm : m.setWidth 32 >>> 8 = 0#32 := by
    apply BitVec.eq_of_toNat_eq
    simp only [BitVec.toNat_ushiftRight, BitVec.toNat_setWidth, BitVec.toNat_ofNat]
    omega
  have h := bits_bytes polynomial 0 (R ^^^ m.setWidth 32)
  rw [BitVec.ushiftRight_xor_distrib, hm, BitVec.xor_zero] at h
  rw [byteStep, BitVec.xor_comm (R >>> 8)]
  exact h

open ReflectedCrc in
/-- Two bytes by two tables. -/
theorem bits_two (x : BitVec 32) :
    bits polynomial (8 * 2) x =
      (x >>> 16) ^^^ slice polynomial 0 ((x >>> 8).setWidth 8) ^^^
        slice polynomial 1 ((x >>> 0).setWidth 8) := by
  have hshift : x >>> 8 >>> 8 = x >>> 16 := (BitVec.shiftRight_add x 8 8).symm
  rw [bits_bytes polynomial 1, bits_bytes polynomial 0, Nat.mul_zero, bits_zero, hshift,
    BitVec.ushiftRight_zero, BitVec.xor_comm, BitVec.xor_comm (x >>> 16)]

open ReflectedCrc in
/-- The four bytes of a register, each by its table. -/
theorem bits_four (n : ℕ) (x : BitVec 32) :
    bits polynomial (8 * (n + 4)) x =
      slice polynomial n ((x >>> 24).setWidth 8) ^^^
        slice polynomial (n + 1) ((x >>> 16).setWidth 8) ^^^
        slice polynomial (n + 2) ((x >>> 8).setWidth 8) ^^^
        slice polynomial (n + 3) ((x >>> 0).setWidth 8) := by
  have h16 : x >>> 8 >>> 8 = x >>> 16 := (BitVec.shiftRight_add x 8 8).symm
  have h24 : x >>> 16 >>> 8 = x >>> 24 := (BitVec.shiftRight_add x 16 8).symm
  have h32 : x >>> 24 >>> 8 = 0#32 := by
    rw [← BitVec.shiftRight_add]
    exact BitVec.ushiftRight_eq_zero (by omega)
  have hzero : bits polynomial (8 * n) 0#32 = 0#32 := by
    rw [bits_of_low_clear _ _ _ (by simp), BitVec.zero_ushiftRight]
  rw [bits_bytes polynomial (n + 3), bits_bytes polynomial (n + 2), bits_bytes polynomial (n + 1),
    bits_bytes polynomial n, h16, h24, h32, hzero, BitVec.xor_zero, BitVec.ushiftRight_zero]
  ac_rfl

open ReflectedCrc in
/-- The four bytes of a register added to what other registers gave. -/
theorem xor_bits_four (a : BitVec 32) (n : ℕ) (x : BitVec 32) :
    a ^^^ slice polynomial n ((x >>> 24).setWidth 8) ^^^
        slice polynomial (n + 1) ((x >>> 16).setWidth 8) ^^^
        slice polynomial (n + 2) ((x >>> 8).setWidth 8) ^^^
        slice polynomial (n + 3) ((x >>> 0).setWidth 8) =
      a ^^^ bits polynomial (8 * (n + 4)) x := by
  rw [bits_four, BitVec.xor_assoc a, BitVec.xor_assoc a, BitVec.xor_assoc a]

theorem xor_reverse (a b c d : BitVec 32) : a ^^^ b ^^^ c ^^^ d = d ^^^ c ^^^ b ^^^ a := by
  ac_rfl

/-- The bytes ahead are the next block and what follows it. -/
theorem feed_block (R : BitVec 32) (M : List (BitVec 8)) (n : ℕ) :
    ReflectedCrc.feed polynomial R M =
      ReflectedCrc.feed polynomial (ReflectedCrc.feed polynomial R (M.take n)) (M.drop n) := by
  rw [← ReflectedCrc.feed_append, List.take_append_drop]

/-- A block of a register's width is fed at once. -/
theorem feed_take (R : BitVec 32) (M : List (BitVec 8)) (n : ℕ) (hn : n ≤ M.length)
    (h4 : n ≤ 4) :
    ReflectedCrc.feed polynomial R (M.take n) =
      ReflectedCrc.bits polynomial (8 * n) (R ^^^ ReflectedCrc.word (M.take n)) := by
  have hlen : (M.take n).length = n := List.length_take_of_le hn
  have h := ReflectedCrc.feed_word polynomial R (M.take n) (by omega)
  rwa [hlen] at h

theorem toNat_add_one (i : BitVec 32) (h : i.toNat + 1 < 2 ^ 32) :
    (i + 1).toNat = i.toNat + 1 := by
  rw [BitVec.toNat_add]
  exact Nat.mod_eq_of_lt h

theorem loop1_eq (M : List (BitVec 8)) (hM : M.length < 2 ^ 32) (fuel : ℕ) (i R : BitVec 32)
    (hi : i.toNat ≤ M.length) (hfuel : M.length - i.toNat < fuel) :
    loop1 M M.length (computeTabularMethodTables polynomial) fuel i R =
      some (ReflectedCrc.feed polynomial R (M.drop i.toNat)) := by
  induction fuel generalizing i R with
  | zero => omega
  | succ fuel ih =>
    rw [loop1]
    by_cases hlt : i.toNat < M.length
    · have hnext := toNat_add_one i (by omega)
      rw [if_pos hlt, List.getElem?_eq_getElem hlt]
      simp only [Option.bind_eq_bind, Option.bind_some, lookup_tables polynomial 0 (by omega)]
      rw [ih _ _ (by omega) (by omega), List.drop_eq_getElem_cons hlt, ReflectedCrc.feed_cons,
        byteStep_eq, hnext, BitVec.ushiftRight_zero]
    · rw [if_neg hlt, List.drop_eq_nil_of_le (by omega)]
      rfl

theorem crc32Tabular1Byte_eq (M : List (BitVec 8)) (hM : M.length < 2 ^ 32) (R : BitVec 32) :
    crc32Tabular1Byte M M.length R (computeTabularMethodTables polynomial) =
      some (ReflectedCrc.feed polynomial R M) := by
  rw [crc32Tabular1Byte, loop1_eq polynomial M hM _ _ _ (by simp) (by simp)]
  rfl

/-- What `n + 1` blocks of `k` feed: the first block, then the rest. -/
theorem feed_blocks (R : BitVec 32) (M : List (BitVec 8)) (k n : ℕ) :
    ReflectedCrc.feed polynomial R (M.take (k * (n + 1))) =
      ReflectedCrc.feed polynomial (ReflectedCrc.feed polynomial R (M.take k))
        ((M.drop k).take (k * n)) := by
  rw [← ReflectedCrc.feed_append, ← List.take_add, Nat.mul_add, Nat.mul_one, Nat.add_comm]

/-- The loop ends at the last pair, with all the pairs fed. -/
theorem loop2_eq (M : List (BitVec 8)) (hM : M.length < 2 ^ 32) (fuel : ℕ) (i R : BitVec 32)
    (hi : i.toNat ≤ M.length / 2) (hfuel : M.length / 2 - i.toNat < fuel) :
    loop2 M M.length (computeTabularMethodTables polynomial) fuel i R =
      some (BitVec.ofNat 32 (M.length / 2), ReflectedCrc.feed polynomial R
        ((M.drop (2 * i.toNat)).take (2 * (M.length / 2 - i.toNat)))) := by
  have hhalf : M.length >>> 1 = M.length / 2 := Nat.shiftRight_eq_div_pow _ 1
  induction fuel generalizing i R with
  | zero => omega
  | succ fuel ih =>
    rw [loop2, hhalf]
    by_cases hlt : i.toNat < M.length / 2
    · have hnext := toNat_add_one i (by omega)
      have hload : 2 * (i.toNat + 1) ≤ M.length := by omega
      have hrest : M.length / 2 - i.toNat = M.length / 2 - (i.toNat + 1) + 1 := by omega
      simp only [if_pos hlt, load16, if_pos hload, Option.bind_eq_bind, Option.bind_some,
        lookup_tables polynomial 0 (by omega), lookup_tables polynomial 1 (by omega)]
      rw [← bits_two, ← feed_take polynomial R _ 2 (by rw [List.length_drop]; omega) (by omega),
        ih _ _ (by omega) (by omega), hnext, hrest, feed_blocks, List.drop_drop, Nat.mul_add]
    · have hend : M.length / 2 = i.toNat := by omega
      rw [if_neg hlt, hend, BitVec.ofNat_toNat, BitVec.setWidth_eq, Nat.sub_self, Nat.mul_zero]
      rfl

theorem crc32Tabular2Bytes_eq (M : List (BitVec 8)) (hM : M.length < 2 ^ 32) (R : BitVec 32) :
    crc32Tabular2Bytes M M.length R (computeTabularMethodTables polynomial) =
      some (ReflectedCrc.feed polynomial R M) := by
  have hpos : (2 * BitVec.ofNat 32 (M.length / 2)).toNat = 2 * (M.length / 2) := by
    rw [BitVec.toNat_mul, BitVec.toNat_ofNat]
    simp
    omega
  have hlen : M.length - 2 * (M.length / 2) = (M.drop (2 * (M.length / 2))).length := by simp
  rw [crc32Tabular2Bytes, loop2_eq polynomial M hM (M.length + 1) 0 R (by simp) (by simp; omega)]
  simp only [Option.bind_eq_bind, Option.bind_some, hpos]
  rw [hlen, crc32Tabular1Byte_eq polynomial _ (by rw [List.length_drop]; omega),
    feed_block polynomial R M (2 * (M.length / 2))]
  rfl

/-- The loop ends at the last block of four, with all the blocks fed. -/
theorem loop4_eq (M : List (BitVec 8)) (hM : M.length < 2 ^ 32) (fuel : ℕ) (i R : BitVec 32)
    (hi : i.toNat ≤ M.length / 4) (hfuel : M.length / 4 - i.toNat < fuel) :
    loop4 M M.length (computeTabularMethodTables polynomial) fuel i R =
      some (BitVec.ofNat 32 (M.length / 4), ReflectedCrc.feed polynomial R
        ((M.drop (4 * i.toNat)).take (4 * (M.length / 4 - i.toNat)))) := by
  have hquarter : M.length >>> 2 = M.length / 4 := Nat.shiftRight_eq_div_pow _ 2
  induction fuel generalizing i R with
  | zero => omega
  | succ fuel ih =>
    rw [loop4, hquarter]
    by_cases hlt : i.toNat < M.length / 4
    · have hnext := toNat_add_one i (by omega)
      have hload : 4 * (i.toNat + 1) ≤ M.length := by omega
      have hrest : M.length / 4 - i.toNat = M.length / 4 - (i.toNat + 1) + 1 := by omega
      simp only [if_pos hlt, load32, if_pos hload, Option.bind_eq_bind, Option.bind_some,
        lookup_tables polynomial 0 (by omega), lookup_tables polynomial 1 (by omega),
        lookup_tables polynomial 2 (by omega), lookup_tables polynomial 3 (by omega)]
      rw [← bits_four polynomial 0,
        ← feed_take polynomial R _ 4 (by rw [List.length_drop]; omega) (by omega),
        ih _ _ (by omega) (by omega), hnext, hrest, feed_blocks, List.drop_drop, Nat.mul_add]
    · have hend : M.length / 4 = i.toNat := by omega
      rw [if_neg hlt, hend, BitVec.ofNat_toNat, BitVec.setWidth_eq, Nat.sub_self, Nat.mul_zero]
      rfl

theorem crc32Tabular4Bytes_eq (M : List (BitVec 8)) (hM : M.length < 2 ^ 32) (R : BitVec 32) :
    crc32Tabular4Bytes M M.length R (computeTabularMethodTables polynomial) =
      some (ReflectedCrc.feed polynomial R M) := by
  have hpos : (4 * BitVec.ofNat 32 (M.length / 4)).toNat = 4 * (M.length / 4) := by
    rw [BitVec.toNat_mul, BitVec.toNat_ofNat]
    simp
    omega
  have hlen : M.length - 4 * (M.length / 4) = (M.drop (4 * (M.length / 4))).length := by simp
  rw [crc32Tabular4Bytes, loop4_eq polynomial M hM (M.length + 1) 0 R (by simp) (by simp; omega)]
  simp only [Option.bind_eq_bind, Option.bind_some, hpos]
  rw [hlen, crc32Tabular2Bytes_eq polynomial _ (by rw [List.length_drop]; omega),
    feed_block polynomial R M (4 * (M.length / 4))]
  rfl

/-- One more word: what the register held moves on four bytes beside it. -/
theorem feed_next (R : BitVec 32) (M : List (BitVec 8)) (n : ℕ) (hn : n + 4 ≤ M.length) :
    ReflectedCrc.feed polynomial R (M.take (n + 4)) =
      ReflectedCrc.bits polynomial (8 * 4) (ReflectedCrc.feed polynomial R (M.take n)) ^^^
        ReflectedCrc.bits polynomial (8 * 4) (ReflectedCrc.word ((M.drop n).take 4)) := by
  have hlen : ((M.drop n).take 4).length = 4 :=
    List.length_take_of_le (by rw [List.length_drop]; omega)
  have h := ReflectedCrc.feed_append_word polynomial R (M.take n) ((M.drop n).take 4) (by omega)
  rwa [hlen, ← List.take_add] at h

theorem feed_eight (R : BitVec 32) (M : List (BitVec 8)) (h8 : 8 ≤ M.length) :
    ReflectedCrc.feed polynomial R (M.take 8) =
      ReflectedCrc.bits polynomial (8 * (4 + 4)) (R ^^^ ReflectedCrc.word (M.take 4)) ^^^
        ReflectedCrc.bits polynomial (8 * (0 + 4)) (ReflectedCrc.word ((M.drop 4).take 4)) := by
  rw [feed_next polynomial R M 4 (by omega), feed_take polynomial R M 4 (by omega) le_rfl,
    ← ReflectedCrc.bits_add]

theorem feed_sixteen (R : BitVec 32) (M : List (BitVec 8)) (h16 : 16 ≤ M.length) :
    ReflectedCrc.feed polynomial R (M.take 16) =
      ReflectedCrc.bits polynomial (8 * (12 + 4)) (R ^^^ ReflectedCrc.word (M.take 4)) ^^^
        ReflectedCrc.bits polynomial (8 * (8 + 4)) (ReflectedCrc.word ((M.drop 4).take 4)) ^^^
        ReflectedCrc.bits polynomial (8 * (4 + 4)) (ReflectedCrc.word ((M.drop 8).take 4)) ^^^
        ReflectedCrc.bits polynomial (8 * (0 + 4)) (ReflectedCrc.word ((M.drop 12).take 4)) := by
  rw [feed_next polynomial R M 12 (by omega), feed_next polynomial R M 8 (by omega),
    feed_eight polynomial R M (by omega)]
  generalize R ^^^ ReflectedCrc.word (M.take 4) = x
  simp only [ReflectedCrc.bits_xor, ← ReflectedCrc.bits_add]

theorem load32_eq (M : List (BitVec 8)) (i : ℕ) (h : 4 * (i + 1) ≤ M.length) :
    load32 M i = some (ReflectedCrc.word ((M.drop (4 * i)).take 4)) :=
  if_pos h

theorem crc32Tabular8Bytes_eq (bytes : ℕ) (M : List (BitVec 8)) (hM : M.length = bytes)
    (R : BitVec 32) :
    crc32Tabular8Bytes M bytes R (computeTabularMethodTables polynomial) =
      some (ReflectedCrc.feed polynomial R M) := by
  induction bytes using Nat.strong_induction_on generalizing M R with
  | h bytes ih =>
    rw [crc32Tabular8Bytes]
    by_cases h8 : 8 ≤ bytes
    · have hdrop : (M.drop 8).length = bytes - 8 := by rw [List.length_drop, hM]
      simp (disch := omega) only [if_pos h8, load32_eq M, Option.bind_eq_bind, Option.bind_some,
        lookup_tables polynomial]
      rw [ih (bytes - 8) (by omega) (M.drop 8) hdrop _, feed_block polynomial R M 8,
        feed_eight polynomial R M (by omega), ← bits_four polynomial 0,
        xor_bits_four polynomial _ 4, BitVec.xor_comm]
      rfl
    · rw [if_neg h8, ← hM, crc32Tabular4Bytes_eq polynomial M (by omega)]

theorem crc32Tabular16Bytes_eq (bytes : ℕ) (M : List (BitVec 8)) (hM : M.length = bytes)
    (R : BitVec 32) :
    crc32Tabular16Bytes M bytes R (computeTabularMethodTables polynomial) =
      some (ReflectedCrc.feed polynomial R M) := by
  induction bytes using Nat.strong_induction_on generalizing M R with
  | h bytes ih =>
    rw [crc32Tabular16Bytes]
    by_cases h16 : 16 ≤ bytes
    · have hdrop : (M.drop 16).length = bytes - 16 := by rw [List.length_drop, hM]
      simp (disch := omega) only [if_pos h16, load32_eq M, Option.bind_eq_bind, Option.bind_some,
        lookup_tables polynomial]
      rw [ih (bytes - 16) (by omega) (M.drop 16) hdrop _, feed_block polynomial R M 16,
        feed_sixteen polynomial R M (by omega), ← bits_four polynomial 0,
        xor_bits_four polynomial _ 4, xor_bits_four polynomial _ 8,
        xor_bits_four polynomial _ 12, xor_reverse]
      rfl
    · rw [if_neg h16, crc32Tabular8Bytes_eq polynomial bytes M hM R]

/-- **Every entry point feeds the bytes**, in whatever blocks it takes them. -/
theorem crc32cTabular_eq (data : List (BitVec 8)) (initial_remainder : BitVec 32) :
    crc32cTabular data data.length initial_remainder (computeTabularMethodTables polynomial) =
      some (ReflectedCrc.feed polynomial initial_remainder data) := by
  rw [crc32cTabular]
  split
  · exact crc32Tabular16Bytes_eq polynomial _ data rfl _
  · split
    · exact crc32Tabular8Bytes_eq polynomial _ data rfl _
    · split
      · exact crc32Tabular4Bytes_eq polynomial data (by omega) _
      · split
        · exact crc32Tabular2Bytes_eq polynomial data (by omega) _
        · exact crc32Tabular1Byte_eq polynomial data (by omega) _

end Loops

theorem crc32_eq (data : List (BitVec 8)) (remainder : BitVec 32) :
    crc32 data data.length remainder =
      some (ReflectedCrc.crc 0xEDB88320#32 data remainder) := by
  rw [crc32, crc32cTabular_eq]
  rfl

theorem crc32c_eq (data : List (BitVec 8)) (remainder : BitVec 32) :
    crc32c data data.length remainder =
      some (ReflectedCrc.crc 0x82f63b78#32 data remainder) := by
  rw [crc32c, crc32cTabular_eq]
  rfl

/-- **The sliced table checksum is the bitwise one**, for every polynomial, every
byte string and every remainder; and a checksum taken in two parts is that of the
whole. -/
theorem tabular_is_bitwise :
    (∀ (polynomial : BitVec 32) (data : List (BitVec 8)) (rem : BitVec 32),
      (crc32cTabular data data.length (~~~ rem) (computeTabularMethodTables polynomial)).map
        (fun R => ~~~ R) = some (ReflectedCrc.crc polynomial data rem)) ∧
    (∀ (a b : List (BitVec 8)) (rem : BitVec 32),
      crc32 (a ++ b) (a ++ b).length rem = (crc32 a a.length rem).bind (crc32 b b.length) ∧
      crc32c (a ++ b) (a ++ b).length rem = (crc32c a a.length rem).bind (crc32c b b.length)) := by
  refine ⟨fun polynomial data rem => ?_, fun a b rem => ⟨?_, ?_⟩⟩
  · rw [crc32cTabular_eq]
    rfl
  · rw [crc32_eq, crc32_eq, ReflectedCrc.crc_append, Option.bind_some, crc32_eq]
  · rw [crc32c_eq, crc32c_eq, ReflectedCrc.crc_append, Option.bind_some, crc32c_eq]

/-- The check value of CRC-32: the digits 1 to 9. -/
example : ReflectedCrc.crc 0xEDB88320#32
    [0x31, 0x32, 0x33, 0x34, 0x35, 0x36, 0x37, 0x38, 0x39] 0 = 0xCBF43926#32 := by
  decide +kernel

end Crc
