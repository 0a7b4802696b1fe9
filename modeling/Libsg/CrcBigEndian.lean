/-
# The table-driven checksums on a big-endian host

The `std::endian::big` branches of `crc32c_tabular.h`, next to the little-endian
ones of `Libsg.Crc` and over the same tables: a load gives the bytes the other way
round, and so the register is swapped before it is added to one.

The loops of four bytes and more do what the little-endian ones do.  The loop of
two bytes does not: it swaps the whole register where a load is half as wide, so
that it adds the upper half of the register to the bytes, and drops the lower.
The tails of all the others run through it.

* `misfeed` : what the loop of two bytes computes;
* `TailAgrees`, `PairsAgree` : when that makes no difference;
* `big_endian_agrees_iff` : the comparison, function by function.
-/
import Libsg.Crc

namespace Crc

/-! ## The functions -/

/-- The bytes of a register, the lowest first. -/
def registerBytes (R : BitVec 32) : List (BitVec 8) :=
  [R.setWidth 8, (R >>> 8).setWidth 8, (R >>> 16).setWidth 8, (R >>> 24).setWidth 8]

/-- `sg::bytes::byteswap`. -/
def byteswap (value : BitVec 32) : BitVec 32 := ReflectedCrc.word (registerBytes value).reverse

/-- `M16[i]` on a big-endian host. -/
def load16Big (M : List (BitVec 8)) (i : ℕ) : Option (BitVec 32) :=
  if 2 * (i + 1) ≤ M.length then some (ReflectedCrc.word ((M.drop (2 * i)).take 2).reverse)
  else none

/-- `M32[i]` on a big-endian host. -/
def load32Big (M : List (BitVec 8)) (i : ℕ) : Option (BitVec 32) :=
  if 4 * (i + 1) ≤ M.length then some (ReflectedCrc.word ((M.drop (4 * i)).take 4).reverse)
  else none

/-- The loop of `crc32_tabular_2_bytes`. -/
def loop2Big (M : List (BitVec 8)) (bytes : ℕ) (crcTable : Array (BitVec 32)) :
    ℕ → BitVec 32 → BitVec 32 → Option (BitVec 32 × BitVec 32)
  | 0, _, _ => none
  | fuel + 1, i, R =>
    if i.toNat < bytes >>> 1 then do
      let R := (← load16Big M i.toNat) ^^^ byteswap R
      let t0 ← lookup crcTable 0 R 0
      let t1 ← lookup crcTable 1 R 8
      loop2Big M bytes crcTable fuel (i + 1) (t0 ^^^ t1)
    else
      some (i, R)

def crc32Tabular2BytesBig (M : List (BitVec 8)) (bytes : ℕ) (prev : BitVec 32)
    (crcTable : Array (BitVec 32)) : Option (BitVec 32) := do
  let (i, R) ← loop2Big M bytes crcTable (bytes + 1) 0 prev
  crc32Tabular1Byte (M.drop (2 * i).toNat) (bytes - (2 * i).toNat) R crcTable

/-- The loop of `crc32_tabular_4_bytes`. -/
def loop4Big (M : List (BitVec 8)) (bytes : ℕ) (crcTable : Array (BitVec 32)) :
    ℕ → BitVec 32 → BitVec 32 → Option (BitVec 32 × BitVec 32)
  | 0, _, _ => none
  | fuel + 1, i, R =>
    if i.toNat < bytes >>> 2 then do
      let R := (← load32Big M i.toNat) ^^^ byteswap R
      let t0 ← lookup crcTable 0 R 0
      let t1 ← lookup crcTable 1 R 8
      let t2 ← lookup crcTable 2 R 16
      let t3 ← lookup crcTable 3 R 24
      loop4Big M bytes crcTable fuel (i + 1) (t0 ^^^ t1 ^^^ t2 ^^^ t3)
    else
      some (i, R)

def crc32Tabular4BytesBig (M : List (BitVec 8)) (bytes : ℕ) (prev : BitVec 32)
    (crcTable : Array (BitVec 32)) : Option (BitVec 32) := do
  let (i, R) ← loop4Big M bytes crcTable (bytes + 1) 0 prev
  crc32Tabular2BytesBig (M.drop (4 * i).toNat) (bytes - (4 * i).toNat) R crcTable

def crc32Tabular8BytesBig (M : List (BitVec 8)) (bytes : ℕ) (R : BitVec 32)
    (crcTable : Array (BitVec 32)) : Option (BitVec 32) :=
  if 8 ≤ bytes then do
    let R := (← load32Big M 0) ^^^ byteswap R
    let R2 ← load32Big M 1
    let t0 ← lookup crcTable 0 R2 0
    let t1 ← lookup crcTable 1 R2 8
    let t2 ← lookup crcTable 2 R2 16
    let t3 ← lookup crcTable 3 R2 24
    let t4 ← lookup crcTable 4 R 0
    let t5 ← lookup crcTable 5 R 8
    let t6 ← lookup crcTable 6 R 16
    let t7 ← lookup crcTable 7 R 24
    crc32Tabular8BytesBig (M.drop 8) (bytes - 8)
      (t0 ^^^ t1 ^^^ t2 ^^^ t3 ^^^ t4 ^^^ t5 ^^^ t6 ^^^ t7) crcTable
  else
    crc32Tabular4BytesBig M bytes R crcTable
termination_by bytes

def crc32Tabular16BytesBig (M : List (BitVec 8)) (bytes : ℕ) (R : BitVec 32)
    (crcTable : Array (BitVec 32)) : Option (BitVec 32) :=
  if 16 ≤ bytes then do
    let R := (← load32Big M 0) ^^^ byteswap R
    let R2 ← load32Big M 1
    let R3 ← load32Big M 2
    let R4 ← load32Big M 3
    let t0 ← lookup crcTable 0 R4 0
    let t1 ← lookup crcTable 1 R4 8
    let t2 ← lookup crcTable 2 R4 16
    let t3 ← lookup crcTable 3 R4 24
    let t4 ← lookup crcTable 4 R3 0
    let t5 ← lookup crcTable 5 R3 8
    let t6 ← lookup crcTable 6 R3 16
    let t7 ← lookup crcTable 7 R3 24
    let t8 ← lookup crcTable 8 R2 0
    let t9 ← lookup crcTable 9 R2 8
    let t10 ← lookup crcTable 10 R2 16
    let t11 ← lookup crcTable 11 R2 24
    let t12 ← lookup crcTable 12 R 0
    let t13 ← lookup crcTable 13 R 8
    let t14 ← lookup crcTable 14 R 16
    let t15 ← lookup crcTable 15 R 24
    crc32Tabular16BytesBig (M.drop 16) (bytes - 16)
      (t0 ^^^ t1 ^^^ t2 ^^^ t3 ^^^ t4 ^^^ t5 ^^^ t6 ^^^ t7 ^^^ t8 ^^^ t9 ^^^ t10 ^^^ t11 ^^^
        t12 ^^^ t13 ^^^ t14 ^^^ t15) crcTable
  else
    crc32Tabular8BytesBig M bytes R crcTable
termination_by bytes

/-! ## What a swap does -/

theorem registerBytes_word (a b c d : BitVec 8) :
    registerBytes (ReflectedCrc.word [a, b, c, d]) = [a, b, c, d] := by
  have hbyte := ReflectedCrc.word_byte (w := 32) [a, b, c, d] (by simp)
  have h0 := hbyte 0 (by simp)
  have h1 := hbyte 1 (by simp)
  have h2 := hbyte 2 (by simp)
  have h3 := hbyte 3 (by simp)
  rw [Nat.mul_zero, BitVec.ushiftRight_zero] at h0
  rw [registerBytes, h0]
  exact congrArg _ (congrArg₂ _ h1 (congrArg₂ _ h2 (congrArg₂ _ h3 rfl)))

/-- Four bytes read from the other end are the swapped number. -/
theorem word_reverse (bs : List (BitVec 8)) (hbs : bs.length = 4) :
    ReflectedCrc.word bs.reverse = byteswap (ReflectedCrc.word bs) := by
  rw [List.eq_getElem_of_length_eq_four bs hbs, byteswap, registerBytes_word]

/-- Byte `k` of a swapped register is byte `3 - k` of the register. -/
theorem byteswap_byte (R : BitVec 32) (k : ℕ) (hk : k < 4) :
    (byteswap R >>> (8 * k)).setWidth 8 = (R >>> (8 * (3 - k))).setWidth 8 := by
  rw [byteswap, ReflectedCrc.word_byte _ (by simp [registerBytes]) k (by simpa [registerBytes])]
  match k, hk with
  | 0, _ => rfl
  | 1, _ => rfl
  | 2, _ => rfl
  | 3, _ => simp [registerBytes]

theorem byteswap_xor (x y : BitVec 32) : byteswap (x ^^^ y) = byteswap x ^^^ byteswap y := by
  have hbytes : (registerBytes (x ^^^ y)).reverse =
      List.zipWith (· ^^^ ·) (registerBytes x).reverse (registerBytes y).reverse := by
    simp only [registerBytes, BitVec.ushiftRight_xor_distrib, BitVec.setWidth_xor]
    rfl
  rw [byteswap, hbytes, ReflectedCrc.word_xor _ _ (by simp [registerBytes])]
  rfl

/-- The bytes that the tables are asked for: those of the register, from the other end. -/
theorem byteswap_bytes (R : BitVec 32) :
    (byteswap R >>> 0).setWidth 8 = (R >>> 24).setWidth 8 ∧
      (byteswap R >>> 8).setWidth 8 = (R >>> 16).setWidth 8 ∧
      (byteswap R >>> 16).setWidth 8 = (R >>> 8).setWidth 8 ∧
      (byteswap R >>> 24).setWidth 8 = (R >>> 0).setWidth 8 :=
  ⟨byteswap_byte R 0 (by omega), byteswap_byte R 1 (by omega), byteswap_byte R 2 (by omega),
    byteswap_byte R 3 (by omega)⟩

/-! ## The loops of four bytes and more -/

section Loops

variable (crcTable : Array (BitVec 32))

@[simp] theorem load32Big_eq (M : List (BitVec 8)) (i : ℕ) :
    load32Big M i = (load32 M i).map byteswap := by
  rw [load32Big, load32]
  split
  · rw [word_reverse _ (by simp; omega), Option.map_some]
  · rfl

theorem lookup_byteswap (t : ℕ) (R : BitVec 32) :
    lookup crcTable t (byteswap R) 0 = lookup crcTable t R 24 ∧
      lookup crcTable t (byteswap R) 8 = lookup crcTable t R 16 ∧
      lookup crcTable t (byteswap R) 16 = lookup crcTable t R 8 ∧
      lookup crcTable t (byteswap R) 24 = lookup crcTable t R 0 := by
  have hbytes := byteswap_bytes R
  refine ⟨?_, ?_, ?_, ?_⟩
  · rw [lookup, lookup, hbytes.1]
  · rw [lookup, lookup, hbytes.2.1]
  · rw [lookup, lookup, hbytes.2.2.1]
  · rw [lookup, lookup, hbytes.2.2.2]

/-- **The loop of four bytes is the little-endian one.** -/
theorem loop4Big_eq (M : List (BitVec 8)) (bytes fuel : ℕ) (i R : BitVec 32) :
    loop4Big M bytes crcTable fuel i R = loop4 M bytes crcTable fuel i R := by
  induction fuel generalizing i R with
  | zero => rfl
  | succ fuel ih =>
    rw [loop4Big, loop4]
    split
    · rw [load32Big_eq]
      cases load32 M i.toNat with
      | none => simp only [Option.map_none, Option.bind_eq_bind, Option.bind_none]
      | some m =>
        simp only [Option.map_some, Option.bind_eq_bind, Option.bind_some, ← byteswap_xor,
          lookup_byteswap, BitVec.xor_comm m, ih]
    · rfl

/-- What the lookups of `Libsg.Crc` give: table `k` holds the slices of `k` bytes later. -/
def HoldsSlices (polynomial : BitVec 32) : Prop :=
  ∀ k < 16, ∀ r s, lookup crcTable k r s =
    some (ReflectedCrc.slice polynomial k ((r >>> s).setWidth 8))

theorem holdsSlices (polynomial : BitVec 32) :
    HoldsSlices (computeTabularMethodTables polynomial) polynomial :=
  lookup_tables polynomial

variable {crcTable} {polynomial : BitVec 32}

/-- A block of eight is the little-endian one, whatever the two tails do. -/
theorem crc32Tabular8BytesBig_step (hslices : HoldsSlices crcTable polynomial)
    (M : List (BitVec 8)) (bytes : ℕ) (h8 : 8 ≤ bytes) (hM : M.length = bytes) (R : BitVec 32) :
    crc32Tabular8BytesBig M bytes R crcTable =
      crc32Tabular8BytesBig (M.drop 8) (bytes - 8) (ReflectedCrc.feed polynomial R (M.take 8))
        crcTable := by
  rw [crc32Tabular8BytesBig, if_pos h8]
  simp (disch := omega) only [load32Big_eq, load32_eq M, Option.map_some, Option.bind_eq_bind,
    Option.bind_some, hslices _ _]
  simp only [← byteswap_xor, byteswap_bytes]
  rw [feed_eight polynomial R M (by omega), ← bits_four polynomial 0,
    xor_bits_four polynomial _ 4, BitVec.xor_comm _ R, BitVec.xor_comm (ReflectedCrc.bits _ _ _)]
  rfl

theorem crc32Tabular8BytesBig_eq (hslices : HoldsSlices crcTable polynomial) (bytes : ℕ)
    (M : List (BitVec 8)) (hM : M.length = bytes) (R : BitVec 32) :
    crc32Tabular8BytesBig M bytes R crcTable =
      crc32Tabular4BytesBig (M.drop (8 * (bytes / 8))) (bytes % 8)
        (ReflectedCrc.feed polynomial R (M.take (8 * (bytes / 8)))) crcTable := by
  induction bytes using Nat.strong_induction_on generalizing M R with
  | h bytes ih =>
    by_cases h8 : 8 ≤ bytes
    · have hdrop : (M.drop 8).length = bytes - 8 := by rw [List.length_drop, hM]
      have hdiv : bytes / 8 = (bytes - 8) / 8 + 1 := by omega
      have hmod : (bytes - 8) % 8 = bytes % 8 := by omega
      rw [crc32Tabular8BytesBig_step hslices M bytes h8 hM, ih _ (by omega) _ hdrop, hdiv,
        feed_blocks, List.drop_drop, Nat.mul_add, hmod, Nat.add_comm]
    · have hdiv : bytes / 8 = 0 := by omega
      have hmod : bytes % 8 = bytes := by omega
      rw [crc32Tabular8BytesBig, if_neg h8, hdiv, hmod]
      rfl

/-- A block of sixteen is the little-endian one. -/
theorem crc32Tabular16BytesBig_step (hslices : HoldsSlices crcTable polynomial)
    (M : List (BitVec 8)) (bytes : ℕ) (h16 : 16 ≤ bytes) (hM : M.length = bytes) (R : BitVec 32) :
    crc32Tabular16BytesBig M bytes R crcTable =
      crc32Tabular16BytesBig (M.drop 16) (bytes - 16) (ReflectedCrc.feed polynomial R (M.take 16))
        crcTable := by
  rw [crc32Tabular16BytesBig, if_pos h16]
  simp (disch := omega) only [load32Big_eq, load32_eq M, Option.map_some, Option.bind_eq_bind,
    Option.bind_some, hslices _ _]
  simp only [← byteswap_xor, byteswap_bytes]
  rw [feed_sixteen polynomial R M (by omega), ← bits_four polynomial 0,
    xor_bits_four polynomial _ 4, xor_bits_four polynomial _ 8, xor_bits_four polynomial _ 12,
    BitVec.xor_comm _ R, xor_reverse]
  rfl

theorem crc32Tabular16BytesBig_eq (hslices : HoldsSlices crcTable polynomial) (bytes : ℕ)
    (M : List (BitVec 8)) (hM : M.length = bytes) (R : BitVec 32) :
    crc32Tabular16BytesBig M bytes R crcTable =
      crc32Tabular4BytesBig (M.drop (8 * (bytes / 8))) (bytes % 8)
        (ReflectedCrc.feed polynomial R (M.take (8 * (bytes / 8)))) crcTable := by
  induction bytes using Nat.strong_induction_on generalizing M R with
  | h bytes ih =>
    by_cases h16 : 16 ≤ bytes
    · have hdrop : (M.drop 16).length = bytes - 16 := by rw [List.length_drop, hM]
      have hblocks : 8 * (bytes / 8) = 16 + 8 * ((bytes - 16) / 8) := by omega
      have hmod : (bytes - 16) % 8 = bytes % 8 := by omega
      rw [crc32Tabular16BytesBig_step hslices M bytes h16 hM, ih _ (by omega) _ hdrop, hblocks,
        List.drop_drop, List.take_add, ReflectedCrc.feed_append, hmod]
    · rw [crc32Tabular16BytesBig, if_neg h16, crc32Tabular8BytesBig_eq hslices bytes M hM]

/-! ## The loop of two bytes -/

/-- Two bytes read from the other end. -/
theorem word_pair_bytes (a b : BitVec 8) :
    ((ReflectedCrc.word [a, b] : BitVec 32) >>> 0).setWidth 8 = a ∧
      ((ReflectedCrc.word [a, b] : BitVec 32) >>> 8).setWidth 8 = b :=
  have hbyte := ReflectedCrc.word_byte (w := 32) [a, b] (by simp)
  ⟨hbyte 0 (by simp), hbyte 1 (by simp)⟩

/-- The pair is fed to the upper half of the register; the lower half is lost. -/
theorem feed_pair (R : BitVec 32) (a b : BitVec 8) :
    ReflectedCrc.feed polynomial (R >>> 16) [a, b] =
      ReflectedCrc.slice polynomial 0 ((R >>> 24).setWidth 8 ^^^ b) ^^^
        ReflectedCrc.slice polynomial 1 ((R >>> 16).setWidth 8 ^^^ a) := by
  have hword : (ReflectedCrc.word [a, b] : BitVec 32) >>> 16 = 0#32 := by
    apply BitVec.eq_of_getLsbD_eq
    intro i hi
    rw [BitVec.getLsbD_ushiftRight, ReflectedCrc.word_getLsbD_of_ge _ _ (by simp),
      BitVec.getLsbD_zero]
  have hclear : (R >>> 16 ^^^ ReflectedCrc.word [a, b]) >>> 16 = 0#32 := by
    rw [BitVec.ushiftRight_xor_distrib, hword, BitVec.xor_zero, ← BitVec.shiftRight_add]
    exact BitVec.ushiftRight_eq_zero (by omega)
  have h24 : R >>> 16 >>> 8 = R >>> 24 := (BitVec.shiftRight_add R 16 8).symm
  have h16 : R >>> 16 >>> 0 = R >>> 16 := BitVec.ushiftRight_zero _
  have hlen : 8 * [a, b].length = 8 * 2 := rfl
  rw [ReflectedCrc.feed_word polynomial _ _ (by simp), hlen, bits_two, hclear, BitVec.zero_xor,
    BitVec.ushiftRight_xor_distrib, BitVec.ushiftRight_xor_distrib, BitVec.setWidth_xor,
    BitVec.setWidth_xor, (word_pair_bytes a b).1, (word_pair_bytes a b).2, h24, h16]

/-- What the loop of two bytes computes. -/
def misfeed (polynomial : BitVec 32) : BitVec 32 → List (BitVec 8) → BitVec 32
  | R, a :: b :: bs => misfeed polynomial (ReflectedCrc.feed polynomial (R >>> 16) [a, b]) bs
  | R, _ => R

theorem loop2Big_eq (hslices : HoldsSlices crcTable polynomial) (M : List (BitVec 8))
    (hM : M.length < 2 ^ 32) (fuel : ℕ) (i R : BitVec 32) (hi : i.toNat ≤ M.length / 2)
    (hfuel : M.length / 2 - i.toNat < fuel) :
    loop2Big M M.length crcTable fuel i R =
      some (BitVec.ofNat 32 (M.length / 2),
        misfeed polynomial R ((M.drop (2 * i.toNat)).take (2 * (M.length / 2 - i.toNat)))) := by
  have hhalf : M.length >>> 1 = M.length / 2 := Nat.shiftRight_eq_div_pow _ 1
  induction fuel generalizing i R with
  | zero => omega
  | succ fuel ih =>
    rw [loop2Big, hhalf]
    by_cases hlt : i.toNat < M.length / 2
    · have hnext := toNat_add_one i (by omega)
      have hload : 2 * (i.toNat + 1) ≤ M.length := by omega
      have hrest : 2 * (M.length / 2 - i.toNat) = 2 * (M.length / 2 - (i.toNat + 1)) + 2 := by
        omega
      have hblock : M.drop (2 * i.toNat) = M[2 * i.toNat] :: M[2 * i.toNat + 1] ::
          M.drop (2 * (i.toNat + 1)) := by
        rw [List.drop_eq_getElem_cons (by omega), List.drop_eq_getElem_cons (by omega), Nat.mul_add]
      generalize M[2 * i.toNat] = a, M[2 * i.toNat + 1] = b at hblock
      have htwo : ((M.drop (2 * i.toNat)).take 2).reverse = [b, a] := by rw [hblock]; rfl
      simp only [if_pos hlt, load16Big, if_pos hload, htwo, Option.bind_eq_bind, Option.bind_some,
        hslices 0 (by omega), hslices 1 (by omega), BitVec.ushiftRight_xor_distrib,
        BitVec.setWidth_xor, word_pair_bytes, byteswap_bytes]
      rw [BitVec.xor_comm b, BitVec.xor_comm a, ← feed_pair, ih _ _ (by omega) (by omega), hnext,
        hrest, hblock]
      rfl
    · have hend : M.length / 2 = i.toNat := by omega
      rw [if_neg hlt, hend, BitVec.ofNat_toNat, BitVec.setWidth_eq, Nat.sub_self, Nat.mul_zero]
      rfl

theorem crc32Tabular2BytesBig_eq (polynomial : BitVec 32) (M : List (BitVec 8))
    (hM : M.length < 2 ^ 32) (R : BitVec 32) :
    crc32Tabular2BytesBig M M.length R (computeTabularMethodTables polynomial) =
      some (ReflectedCrc.feed polynomial (misfeed polynomial R (M.take (2 * (M.length / 2))))
        (M.drop (2 * (M.length / 2)))) := by
  have hpos : (2 * BitVec.ofNat 32 (M.length / 2)).toNat = 2 * (M.length / 2) := by
    rw [BitVec.toNat_mul, BitVec.toNat_ofNat]
    simp
    omega
  have hlen : M.length - 2 * (M.length / 2) = (M.drop (2 * (M.length / 2))).length := by simp
  rw [crc32Tabular2BytesBig, loop2Big_eq (holdsSlices polynomial) M hM (M.length + 1) 0 R (by simp)
    (by simp; omega)]
  simp only [Option.bind_eq_bind, Option.bind_some, hpos]
  rw [hlen, crc32Tabular1Byte_eq polynomial _ (by rw [List.length_drop]; omega)]
  rfl

theorem crc32Tabular4BytesBig_eq (polynomial : BitVec 32) (M : List (BitVec 8))
    (hM : M.length < 2 ^ 32) (R : BitVec 32) :
    crc32Tabular4BytesBig M M.length R (computeTabularMethodTables polynomial) =
      crc32Tabular2BytesBig (M.drop (4 * (M.length / 4))) (M.length % 4)
        (ReflectedCrc.feed polynomial R (M.take (4 * (M.length / 4))))
        (computeTabularMethodTables polynomial) := by
  have hpos : (4 * BitVec.ofNat 32 (M.length / 4)).toNat = 4 * (M.length / 4) := by
    rw [BitVec.toNat_mul, BitVec.toNat_ofNat]
    simp
    omega
  have hrest : M.length - 4 * (M.length / 4) = M.length % 4 := by omega
  rw [crc32Tabular4BytesBig, loop4Big_eq,
    loop4_eq polynomial M hM (M.length + 1) 0 R (by simp) (by simp; omega)]
  simp only [Option.bind_eq_bind, Option.bind_some, hpos, hrest]
  rfl

/-! ## Data the counters cannot hold -/

/-- A loop over a counter that ends does so at its bound. -/
theorem counter_at_end {m : ℕ} (loop : ℕ → BitVec 32 → BitVec 32 → Option (BitVec 32 × BitVec 32))
    (next : BitVec 32 → BitVec 32 → Option (BitVec 32)) (hzero : ∀ i R, loop 0 i R = none)
    (hsucc : ∀ fuel i R, loop (fuel + 1) i R =
      if i.toNat < m then (next i R).bind (loop fuel (i + 1)) else some (i, R))
    {fuel : ℕ} {i R i' R' : BitVec 32} (hi : i.toNat ≤ m) (hend : loop fuel i R = some (i', R')) :
    i'.toNat = m := by
  induction fuel generalizing i R with
  | zero =>
    rw [hzero] at hend
    cases hend
  | succ fuel ih =>
    rw [hsucc] at hend
    split at hend
    · rename_i hlt
      obtain ⟨R₁, -, hrest⟩ := Option.bind_eq_some_iff.mp hend
      apply ih _ hrest
      rw [BitVec.toNat_add]
      exact (Nat.mod_le _ _).trans hlt
    · cases hend
      omega

theorem loop1_none (M : List (BitVec 8)) (bytes : ℕ) (hbytes : 2 ^ 32 ≤ bytes) (fuel : ℕ)
    (i R : BitVec 32) : loop1 M bytes crcTable fuel i R = none := by
  induction fuel generalizing i R with
  | zero => rfl
  | succ fuel ih =>
    rw [loop1, if_pos (by omega)]
    simp only [Option.bind_eq_bind, ih, Option.bind_fun_none]

theorem loop2_end (M : List (BitVec 8)) (bytes fuel : ℕ) (R i' R' : BitVec 32)
    (hend : loop2 M bytes crcTable fuel 0 R = some (i', R')) : i'.toNat = bytes >>> 1 := by
  refine counter_at_end (loop2 M bytes crcTable) (fun i R => do
    let R := R ^^^ (← load16 M i.toNat)
    let t0 ← lookup crcTable 0 R 8
    let t1 ← lookup crcTable 1 R 0
    some ((R >>> 16) ^^^ t0 ^^^ t1)) (fun _ _ => rfl) (fun fuel i R => ?_) (by simp) hend
  rw [loop2]
  simp only [Option.bind_eq_bind, Option.bind_assoc, Option.bind_some]

theorem loop2Big_end (M : List (BitVec 8)) (bytes fuel : ℕ) (R i' R' : BitVec 32)
    (hend : loop2Big M bytes crcTable fuel 0 R = some (i', R')) : i'.toNat = bytes >>> 1 := by
  refine counter_at_end (loop2Big M bytes crcTable) (fun i R => do
    let R := (← load16Big M i.toNat) ^^^ byteswap R
    let t0 ← lookup crcTable 0 R 0
    let t1 ← lookup crcTable 1 R 8
    some (t0 ^^^ t1)) (fun _ _ => rfl) (fun fuel i R => ?_) (by simp) hend
  rw [loop2Big]
  simp only [Option.bind_eq_bind, Option.bind_assoc, Option.bind_some]

theorem loop4_end (M : List (BitVec 8)) (bytes fuel : ℕ) (R i' R' : BitVec 32)
    (hend : loop4 M bytes crcTable fuel 0 R = some (i', R')) : i'.toNat = bytes >>> 2 := by
  refine counter_at_end (loop4 M bytes crcTable) (fun i R => do
    let R := R ^^^ (← load32 M i.toNat)
    let t0 ← lookup crcTable 0 R 24
    let t1 ← lookup crcTable 1 R 16
    let t2 ← lookup crcTable 2 R 8
    let t3 ← lookup crcTable 3 R 0
    some (t0 ^^^ t1 ^^^ t2 ^^^ t3)) (fun _ _ => rfl) (fun fuel i R => ?_) (by simp) hend
  rw [loop4]
  simp only [Option.bind_eq_bind, Option.bind_assoc, Option.bind_some]

/-- The position of the tail wraps, and so the tail is too long again. -/
theorem tail_two (bytes : ℕ) (hbytes : 2 ^ 32 ≤ bytes) (i : BitVec 32)
    (hi : i.toNat = bytes >>> 1) : 2 ^ 32 ≤ bytes - (2 * i).toNat := by
  have hhalf : bytes >>> 1 = bytes / 2 := Nat.shiftRight_eq_div_pow _ 1
  have hpos : (2 * i).toNat = 2 * (bytes / 2) % 2 ^ 32 := by
    rw [BitVec.toNat_mul, hi, hhalf]
    rfl
  omega

theorem tail_four (bytes : ℕ) (hbytes : 2 ^ 32 ≤ bytes) (i : BitVec 32)
    (hi : i.toNat = bytes >>> 2) : 2 ^ 32 ≤ bytes - (4 * i).toNat := by
  have hquarter : bytes >>> 2 = bytes / 4 := Nat.shiftRight_eq_div_pow _ 2
  have hpos : (4 * i).toNat = 4 * (bytes / 4) % 2 ^ 32 := by
    rw [BitVec.toNat_mul, hi, hquarter]
    rfl
  omega

theorem crc32Tabular1Byte_none (M : List (BitVec 8)) (bytes : ℕ) (hbytes : 2 ^ 32 ≤ bytes)
    (R : BitVec 32) : crc32Tabular1Byte M bytes R crcTable = none :=
  loop1_none M bytes hbytes _ _ _

theorem crc32Tabular2Bytes_none (M : List (BitVec 8)) (bytes : ℕ) (hbytes : 2 ^ 32 ≤ bytes)
    (R : BitVec 32) : crc32Tabular2Bytes M bytes R crcTable = none := by
  rw [crc32Tabular2Bytes]
  cases hloop : loop2 M bytes crcTable (bytes + 1) 0 R with
  | none => rfl
  | some iR =>
    obtain ⟨i, R'⟩ := iR
    exact crc32Tabular1Byte_none _ _ (tail_two bytes hbytes i (loop2_end M _ _ _ _ _ hloop)) _

theorem crc32Tabular2BytesBig_none (M : List (BitVec 8)) (bytes : ℕ) (hbytes : 2 ^ 32 ≤ bytes)
    (R : BitVec 32) : crc32Tabular2BytesBig M bytes R crcTable = none := by
  rw [crc32Tabular2BytesBig]
  cases hloop : loop2Big M bytes crcTable (bytes + 1) 0 R with
  | none => rfl
  | some iR =>
    obtain ⟨i, R'⟩ := iR
    exact crc32Tabular1Byte_none _ _ (tail_two bytes hbytes i (loop2Big_end M _ _ _ _ _ hloop)) _

theorem crc32Tabular4Bytes_none (M : List (BitVec 8)) (bytes : ℕ) (hbytes : 2 ^ 32 ≤ bytes)
    (R : BitVec 32) : crc32Tabular4Bytes M bytes R crcTable = none := by
  rw [crc32Tabular4Bytes]
  cases hloop : loop4 M bytes crcTable (bytes + 1) 0 R with
  | none => rfl
  | some iR =>
    obtain ⟨i, R'⟩ := iR
    exact crc32Tabular2Bytes_none _ _ (tail_four bytes hbytes i (loop4_end M _ _ _ _ _ hloop)) _

theorem crc32Tabular4BytesBig_none (M : List (BitVec 8)) (bytes : ℕ) (hbytes : 2 ^ 32 ≤ bytes)
    (R : BitVec 32) : crc32Tabular4BytesBig M bytes R crcTable = none := by
  rw [crc32Tabular4BytesBig, loop4Big_eq]
  cases hloop : loop4 M bytes crcTable (bytes + 1) 0 R with
  | none => rfl
  | some iR =>
    obtain ⟨i, R'⟩ := iR
    exact crc32Tabular2BytesBig_none _ _ (tail_four bytes hbytes i (loop4_end M _ _ _ _ _ hloop)) _

end Loops

/-! ## When the loss makes no difference -/

section Agree

variable (polynomial : BitVec 32)

theorem misfeed_pair (R : BitVec 32) (as : List (BitVec 8)) (k : ℕ) (has : as.length = 2 * k)
    (a b : BitVec 8) :
    misfeed polynomial R (as ++ [a, b]) =
      ReflectedCrc.feed polynomial (misfeed polynomial R as >>> 16) [a, b] := by
  induction k generalizing R as with
  | zero =>
    rw [List.length_eq_zero_iff.mp has]
    rfl
  | succ k ih =>
    match as, has with
    | c :: d :: cs, has => exact ih _ cs (by simp only [List.length_cons] at has; omega)

/-- What the register has lost by the last pair is shifted out behind it. -/
def PairsAgree (R : BitVec 32) (M : List (BitVec 8)) : Prop :=
  M.length < 2 ∨
    ReflectedCrc.bits polynomial (8 * (2 + M.length % 2))
      (ReflectedCrc.feed polynomial R (M.take (2 * (M.length / 2 - 1))) ^^^
        misfeed polynomial R (M.take (2 * (M.length / 2 - 1))) >>> 16) = 0#32

/-- What the register loses in a pair behind the blocks of four is shifted out. -/
def TailAgrees (R : BitVec 32) (M : List (BitVec 8)) : Prop :=
  M.length % 4 < 2 ∨
    ReflectedCrc.bits polynomial (8 * (M.length % 4))
      (ReflectedCrc.feed polynomial R (M.take (4 * (M.length / 4))) ^^^
        ReflectedCrc.feed polynomial R (M.take (4 * (M.length / 4))) >>> 16) = 0#32

theorem feed_misfeed_iff (R : BitVec 32) (M : List (BitVec 8)) :
    ReflectedCrc.feed polynomial (misfeed polynomial R (M.take (2 * (M.length / 2))))
        (M.drop (2 * (M.length / 2))) = ReflectedCrc.feed polynomial R M ↔
      PairsAgree polynomial R M := by
  rw [PairsAgree]
  by_cases hshort : M.length < 2
  · have hzero : M.length / 2 = 0 := by omega
    rw [hzero]
    exact iff_of_true rfl (.inl hshort)
  · obtain ⟨k, hk⟩ : ∃ k, M.length / 2 = k + 1 := ⟨M.length / 2 - 1, by omega⟩
    have hpair : M.drop (2 * k) = M[2 * k] :: M[2 * k + 1] :: M.drop (2 * (k + 1)) := by
      rw [List.drop_eq_getElem_cons (by omega), List.drop_eq_getElem_cons (by omega), Nat.mul_add]
    have hlen : (M.drop (2 * k)).length = 2 + M.length % 2 := by rw [List.length_drop]; omega
    generalize M[2 * k] = a, M[2 * k + 1] = b at hpair
    have htake : M.take (2 * (k + 1)) = M.take (2 * k) ++ [a, b] := by
      rw [Nat.mul_add, List.take_add, hpair]
      rfl
    have hfeed : ReflectedCrc.feed polynomial (misfeed polynomial R (M.take (2 * (k + 1))))
        (M.drop (2 * (k + 1))) =
        ReflectedCrc.feed polynomial (misfeed polynomial R (M.take (2 * k)) >>> 16)
          (M.drop (2 * k)) := by
      rw [htake, misfeed_pair polynomial R _ k (List.length_take_of_le (by omega)),
        ← ReflectedCrc.feed_append, hpair]
      rfl
    rw [hk, hfeed, feed_block polynomial R M (2 * k), ReflectedCrc.feed_eq_feed, hlen,
      BitVec.xor_comm, Nat.add_sub_cancel]
    exact (or_iff_right hshort).symm

/-- Behind blocks of four there is one pair at most. -/
theorem pairsAgree_tail (R : BitVec 32) (M : List (BitVec 8)) :
    PairsAgree polynomial (ReflectedCrc.feed polynomial R (M.take (4 * (M.length / 4))))
      (M.drop (4 * (M.length / 4))) ↔ TailAgrees polynomial R M := by
  have hlen : (M.drop (4 * (M.length / 4))).length = M.length % 4 := by
    rw [List.length_drop]
    omega
  rw [PairsAgree, TailAgrees, hlen]
  by_cases hshort : M.length % 4 < 2
  · exact iff_of_true (.inl hshort) (.inl hshort)
  · have hone : M.length % 4 / 2 - 1 = 0 := by omega
    have htwo : 2 + M.length % 4 % 2 = M.length % 4 := by omega
    rw [hone, htwo]
    rfl

/-- Blocks of four may be taken off the front. -/
theorem tailAgrees_drop (R : BitVec 32) (M : List (BitVec 8)) (k : ℕ) (hk : 4 * k ≤ M.length) :
    TailAgrees polynomial (ReflectedCrc.feed polynomial R (M.take (4 * k))) (M.drop (4 * k)) ↔
      TailAgrees polynomial R M := by
  have hmod : (M.length - 4 * k) % 4 = M.length % 4 := by omega
  have hdiv : 4 * (M.length / 4) = 4 * k + 4 * ((M.length - 4 * k) / 4) := by omega
  rw [TailAgrees, TailAgrees, List.length_drop, hmod, ← ReflectedCrc.feed_append, ← List.take_add,
    ← hdiv]

end Agree

/-- Two versions of a function agree on these data. -/
def Agrees (big little : List (BitVec 8) → ℕ → BitVec 32 → Array (BitVec 32) → Option (BitVec 32))
    (polynomial : BitVec 32) (M : List (BitVec 8)) (R : BitVec 32) : Prop :=
  big M M.length R (computeTabularMethodTables polynomial) =
    little M M.length R (computeTabularMethodTables polynomial)

theorem two_agree_iff (polynomial : BitVec 32) (M : List (BitVec 8)) (R : BitVec 32) :
    Agrees crc32Tabular2BytesBig crc32Tabular2Bytes polynomial M R ↔
      2 ^ 32 ≤ M.length ∨ PairsAgree polynomial R M := by
  rw [Agrees]
  by_cases hlong : 2 ^ 32 ≤ M.length
  · rw [crc32Tabular2BytesBig_none M _ hlong, crc32Tabular2Bytes_none M _ hlong]
    exact iff_of_true rfl (.inl hlong)
  · rw [crc32Tabular2BytesBig_eq polynomial M (by omega),
      crc32Tabular2Bytes_eq polynomial M (by omega), Option.some_inj, feed_misfeed_iff]
    exact (or_iff_right hlong).symm

theorem four_agree_iff (polynomial : BitVec 32) (M : List (BitVec 8)) (R : BitVec 32) :
    Agrees crc32Tabular4BytesBig crc32Tabular4Bytes polynomial M R ↔
      2 ^ 32 ≤ M.length ∨ TailAgrees polynomial R M := by
  rw [Agrees]
  by_cases hlong : 2 ^ 32 ≤ M.length
  · rw [crc32Tabular4BytesBig_none M _ hlong, crc32Tabular4Bytes_none M _ hlong]
    exact iff_of_true rfl (.inl hlong)
  · have hrest : M.length % 4 = (M.drop (4 * (M.length / 4))).length := by
      rw [List.length_drop]
      omega
    rw [crc32Tabular4BytesBig_eq polynomial M (by omega),
      crc32Tabular4Bytes_eq polynomial M (by omega), hrest,
      crc32Tabular2BytesBig_eq polynomial _ (by omega), Option.some_inj,
      feed_block polynomial R M (4 * (M.length / 4)), feed_misfeed_iff, pairsAgree_tail]
    exact (or_iff_right hlong).symm

/-- The functions of eight bytes and more leave less than eight to the one of four. -/
theorem eight_rest_iff (polynomial : BitVec 32) (M : List (BitVec 8)) (R : BitVec 32) :
    crc32Tabular4BytesBig (M.drop (8 * (M.length / 8))) (M.length % 8)
        (ReflectedCrc.feed polynomial R (M.take (8 * (M.length / 8))))
        (computeTabularMethodTables polynomial) = some (ReflectedCrc.feed polynomial R M) ↔
      TailAgrees polynomial R M := by
  have hrest : M.length % 8 = (M.drop (8 * (M.length / 8))).length := by
    rw [List.length_drop]
    omega
  have hfour := four_agree_iff polynomial (M.drop (8 * (M.length / 8)))
    (ReflectedCrc.feed polynomial R (M.take (8 * (M.length / 8))))
  have hblocks : 8 * (M.length / 8) = 4 * (2 * (M.length / 8)) := by omega
  rw [Agrees, crc32Tabular4Bytes_eq polynomial _ (by omega), ← feed_block,
    or_iff_right (by omega), hblocks, tailAgrees_drop polynomial R M _ (by omega)] at hfour
  rw [hrest, hblocks]
  exact hfour

theorem eight_agree_iff (polynomial : BitVec 32) (M : List (BitVec 8)) (R : BitVec 32) :
    Agrees crc32Tabular8BytesBig crc32Tabular8Bytes polynomial M R ↔
      TailAgrees polynomial R M := by
  rw [Agrees, crc32Tabular8BytesBig_eq (holdsSlices polynomial) _ M rfl,
    crc32Tabular8Bytes_eq polynomial _ M rfl, eight_rest_iff]

theorem sixteen_agree_iff (polynomial : BitVec 32) (M : List (BitVec 8)) (R : BitVec 32) :
    Agrees crc32Tabular16BytesBig crc32Tabular16Bytes polynomial M R ↔
      TailAgrees polynomial R M := by
  rw [Agrees, crc32Tabular16BytesBig_eq (holdsSlices polynomial) _ M rfl,
    crc32Tabular16Bytes_eq polynomial _ M rfl, eight_rest_iff]

/-! ## Which lengths are safe -/

/-- Zeros never bring a one back into the upper half of a register. -/
theorem misfeed_zeros (polynomial R : BitVec 32) (hR : R >>> 16 = 0#32) (k : ℕ) :
    misfeed polynomial R (List.replicate (2 * k) 0#8) >>> 16 = 0#32 := by
  induction k generalizing R with
  | zero => exact hR
  | succ k ih =>
    have hpair : ReflectedCrc.feed polynomial (R >>> 16) [0#8, 0#8] = 0#32 := by
      rw [hR]
      exact (ReflectedCrc.feed_zeros polynomial _ 2).trans (ReflectedCrc.bits_of_zero polynomial _)
    show misfeed polynomial (ReflectedCrc.feed polynomial (R >>> 16) [0#8, 0#8])
      (List.replicate (2 * k) 0#8) >>> 16 = 0#32
    rw [hpair]
    exact ih _ (by decide)

theorem xor_upper_eq_zero (r : BitVec 32) : r ^^^ r >>> 16 = 0#32 ↔ r = 0#32 := by
  constructor
  · intro hxor
    have hr : r = r >>> 16 := BitVec.xor_eq_zero_iff.mp hxor
    have hgone : r >>> 16 >>> 16 = 0#32 := by
      rw [← BitVec.shiftRight_add]
      exact BitVec.ushiftRight_eq_zero (by omega)
    rw [hr, hr, hgone]
  · rintro rfl
    decide

section Lengths

variable {polynomial : BitVec 32} (hpoly : polynomial.getLsbD 31 = true)
include hpoly

/-- With the highest coefficient in the polynomial only an empty register loses nothing. -/
theorem tailAgrees_iff (R : BitVec 32) (M : List (BitVec 8)) :
    TailAgrees polynomial R M ↔
      M.length % 4 < 2 ∨ ReflectedCrc.feed polynomial R (M.take (4 * (M.length / 4))) = 0#32 := by
  rw [TailAgrees, ReflectedCrc.bits_eq_zero polynomial hpoly, xor_upper_eq_zero]

/-- Zeros never empty a register with a one in it. -/
theorem tailAgrees_zeros (n : ℕ) (hn : ¬ n % 4 < 2) :
    ¬ TailAgrees polynomial 1#32 (List.replicate n 0#8) := by
  rw [tailAgrees_iff hpoly, List.length_replicate, List.take_replicate, ReflectedCrc.feed_zeros,
    ReflectedCrc.bits_eq_zero polynomial hpoly]
  rintro (hlen | hone)
  · exact hn hlen
  · exact absurd hone (by decide)

theorem pairsAgree_zeros (n : ℕ) (hn : ¬ n < 2) :
    ¬ PairsAgree polynomial 1#32 (List.replicate n 0#8) := by
  have hfront : min (2 * (n / 2 - 1)) n = 2 * (n / 2 - 1) := by omega
  rw [PairsAgree, List.length_replicate, List.take_replicate, hfront, ReflectedCrc.feed_zeros,
    misfeed_zeros polynomial _ (by decide), BitVec.xor_zero,
    ReflectedCrc.bits_eq_zero polynomial hpoly, ReflectedCrc.bits_eq_zero polynomial hpoly]
  rintro (hlen | hone)
  · exact hn hlen
  · exact absurd hone (by decide)

end Lengths

/-- What fails at a register of one and zero bytes fails at that length. -/
theorem forall_length_iff {P : BitVec 32 → List (BitVec 8) → Prop} {safe : Prop} (n : ℕ)
    (hsafe : safe → ∀ M, M.length = n → ∀ R, P R M)
    (hzeros : ¬ safe → ¬ P 1#32 (List.replicate n 0#8)) :
    (∀ M : List (BitVec 8), M.length = n → ∀ R, P R M) ↔ safe := by
  constructor
  · intro hall
    by_contra hn
    exact hzeros hn (hall _ List.length_replicate _)
  · exact hsafe

/-- **When the big-endian functions agree with the little-endian ones.**  For every
polynomial, byte string and register; and, where the polynomial has its highest
coefficient, for every length. -/
theorem big_endian_agrees_iff (polynomial : BitVec 32) :
    (∀ (M : List (BitVec 8)) (R : BitVec 32),
      (Agrees crc32Tabular2BytesBig crc32Tabular2Bytes polynomial M R ↔
        2 ^ 32 ≤ M.length ∨ PairsAgree polynomial R M) ∧
      (Agrees crc32Tabular4BytesBig crc32Tabular4Bytes polynomial M R ↔
        2 ^ 32 ≤ M.length ∨ TailAgrees polynomial R M) ∧
      (Agrees crc32Tabular8BytesBig crc32Tabular8Bytes polynomial M R ↔
        TailAgrees polynomial R M) ∧
      (Agrees crc32Tabular16BytesBig crc32Tabular16Bytes polynomial M R ↔
        TailAgrees polynomial R M)) ∧
    (polynomial.getLsbD 31 = true → ∀ n,
      ((∀ M, M.length = n → ∀ R, Agrees crc32Tabular2BytesBig crc32Tabular2Bytes polynomial M R) ↔
        2 ^ 32 ≤ n ∨ n < 2) ∧
      ((∀ M, M.length = n → ∀ R, Agrees crc32Tabular4BytesBig crc32Tabular4Bytes polynomial M R) ↔
        2 ^ 32 ≤ n ∨ n % 4 < 2) ∧
      ((∀ M, M.length = n → ∀ R, Agrees crc32Tabular8BytesBig crc32Tabular8Bytes polynomial M R) ↔
        n % 4 < 2) ∧
      ((∀ M, M.length = n → ∀ R,
        Agrees crc32Tabular16BytesBig crc32Tabular16Bytes polynomial M R) ↔ n % 4 < 2)) := by
  refine ⟨fun M R => ⟨two_agree_iff polynomial M R, four_agree_iff polynomial M R,
    eight_agree_iff polynomial M R, sixteen_agree_iff polynomial M R⟩, fun hpoly n => ?_⟩
  simp only [two_agree_iff, four_agree_iff, eight_agree_iff, sixteen_agree_iff]
  have hpairs := pairsAgree_zeros hpoly n
  have htails := tailAgrees_zeros hpoly n
  refine ⟨?_, ?_, ?_, ?_⟩
  · refine forall_length_iff n ?_ ?_
    · rintro (hlong | hshort) M rfl R
      · exact .inl hlong
      · exact .inr (.inl hshort)
    · rw [List.length_replicate, not_or, not_or]
      exact And.imp_right hpairs
  · refine forall_length_iff n ?_ ?_
    · rintro (hlong | hshort) M rfl R
      · exact .inl hlong
      · exact .inr (.inl hshort)
    · rw [List.length_replicate, not_or, not_or]
      exact And.imp_right htails
  · refine forall_length_iff n ?_ htails
    rintro hshort M rfl R
    exact .inl hshort
  · refine forall_length_iff n ?_ htails
    rintro hshort M rfl R
    exact .inl hshort

/-- For CRC-32C: at five bytes a big-endian host is right on all data, at six it is not. -/
theorem big_endian_agrees_crc32c :
    (∀ M, M.length = 5 → ∀ R,
      Agrees crc32Tabular4BytesBig crc32Tabular4Bytes 0x82f63b78#32 M R) ∧
    ¬ ∀ M, M.length = 6 → ∀ R,
      Agrees crc32Tabular4BytesBig crc32Tabular4Bytes 0x82f63b78#32 M R := by
  have hlengths := (big_endian_agrees_iff 0x82f63b78#32).2 (by decide)
  refine ⟨(hlengths 5).2.1.mpr (.inr (by decide)), fun hall => ?_⟩
  exact absurd ((hlengths 6).2.1.mp hall) (by decide)

/-- Zero bytes behind a fresh register, two more than whole blocks: every function fails. -/
theorem big_endian_disagrees :
    ¬ Agrees crc32Tabular2BytesBig crc32Tabular2Bytes 0x82f63b78#32
      (List.replicate 2 0#8) 0xFFFFFFFF#32 ∧
    ¬ Agrees crc32Tabular4BytesBig crc32Tabular4Bytes 0x82f63b78#32
      (List.replicate 6 0#8) 0xFFFFFFFF#32 ∧
    ¬ Agrees crc32Tabular8BytesBig crc32Tabular8Bytes 0x82f63b78#32
      (List.replicate 10 0#8) 0xFFFFFFFF#32 ∧
    ¬ Agrees crc32Tabular16BytesBig crc32Tabular16Bytes 0x82f63b78#32
      (List.replicate 18 0#8) 0xFFFFFFFF#32 := by
  rw [two_agree_iff, four_agree_iff, eight_agree_iff, sixteen_agree_iff, PairsAgree, TailAgrees,
    TailAgrees, TailAgrees]
  decide +kernel

end Crc
