/-
# The checksum by vectors

`crc32c_hardware_intel.h`.  Where there are 144 bytes left, the buffer is cut into a
front of 64 bytes a block, which the vector registers fold by carry-less products,
and three streams of 24 bytes a block, which three registers take side by side; all
are then moved on by what lies behind them and meet in the last 8 bytes.

* `xnmodp` : the power of `x` by squaring, the bits of the exponent on a stack;
* `Lanes` : the registers of the vectors and of the streams;
* `Lanes.Inv` : what they hold after a number of blocks, kept by the main loop;
* `crc32cImpl_eq` : the whole is the checksum, wherever the buffer lies.
-/
import Libsg.CrcResidue

namespace Crc

/-! ## The functions -/

/-- The intrinsics, `_mm_crc32_u64` and `_mm_clmulepi64_si128` beside those of 32 bits. -/
structure Sse42Clmul extends Sse42 where
  u64 : BitVec 32 → BitVec 64 → BitVec 32
  clmulepi64 : BitVec 128 → BitVec 128 → BitVec 8 → BitVec 128

/-- `_mm_extract_epi64`. -/
def extractEpi64 (v : BitVec 128) (i : ℕ) : BitVec 64 := v.extractLsb' (64 * i) 64

/-- `_mm_setr_epi32`: the first argument is the lowest. -/
def setrEpi32 (e0 e1 e2 e3 : BitVec 32) : BitVec 128 := e3 ++ e2 ++ e1 ++ e0

def clmulLo (mm : Sse42Clmul) (a b : BitVec 128) : BitVec 128 := mm.clmulepi64 a b 0

def clmulHi (mm : Sse42Clmul) (a b : BitVec 128) : BitVec 128 := mm.clmulepi64 a b 17

def clmulScalar (mm : Sse42Clmul) (a b : BitVec 32) : BitVec 128 :=
  mm.clmulepi64 (a.setWidth 128) (b.setWidth 128) 0

/-- `for (; n > 191; n = (n >> 1) - 16)`: the low bits of `n` go on the stack. -/
def xnmodpPush : ℕ → BitVec 64 → BitVec 64 → Option (BitVec 64 × BitVec 64)
  | 0, _, _ => none
  | fuel + 1, n, stack =>
    if 191 < n then
      xnmodpPush fuel ((n >>> 1) - 16) ((stack <<< 1) + (n &&& 1))
    else
      some (n, stack)

/-- `for (n >>= 5; n; --n)`. -/
def xnmodpWords (mm : Sse42Clmul) : ℕ → BitVec 32 → BitVec 32
  | 0, acc => acc
  | n + 1, acc => xnmodpWords mm n (mm.u32 acc 0#32)

/-- `while ((low = stack & 1), stack >>= 1)`: the accumulator is squared. -/
def xnmodpPop (mm : Sse42Clmul) : ℕ → BitVec 64 → BitVec 32 → Option (BitVec 32)
  | 0, _, _ => none
  | fuel + 1, stack, acc =>
    let low := stack &&& 1
    let stack := stack >>> 1
    if stack ≠ 0 then
      let x := acc.setWidth 128
      let y := extractEpi64 (mm.clmulepi64 x x 0) 0
      xnmodpPop mm fuel stack (mm.u64 0#32 (y <<< low.toNat))
    else
      some acc

/-- `x ^ n` modulo the polynomial. -/
def xnmodp (mm : Sse42Clmul) (n : BitVec 64) : Option (BitVec 32) := do
  let (n, stack) ← xnmodpPush 64 n (~~~ 1)
  let stack := ~~~ stack
  let acc := 0x80000000#32 >>> (n &&& 31).toNat
  let acc := xnmodpWords mm (n >>> 5).toNat acc
  xnmodpPop mm 64 stack acc

def crcShift (mm : Sse42Clmul) (crc : BitVec 32) (nbytes : ℕ) : Option (BitVec 128) := do
  let k ← xnmodp mm (BitVec.ofNat 64 nbytes * 8 - 33)
  some (clmulScalar mm crc k)

/-- The locals of the scalar parts; `address` is `(uintptr_t)buf`. -/
structure Reader where
  crc0 : BitVec 32
  buf : List (BitVec 8)
  len : ℕ
  address : BitVec 64

/-- `crc0 = crc(crc0, *buf), buf += n, len -= n`, for an operand of `n` bytes. -/
def Reader.feed {w : ℕ} (crc : BitVec 32 → BitVec w → BitVec 32) (s : Reader) : Option Reader := do
  let m ← load s.buf
  some ⟨crc s.crc0 m, s.buf.drop (w / 8), s.len - w / 8, s.address + BitVec.ofNat 64 (w / 8)⟩

/-- `for (; len && ((uintptr_t)buf & 7); --len)`. -/
def Reader.align (mm : Sse42Clmul) : ℕ → Reader → Option Reader
  | 0, _ => none
  | fuel + 1, s =>
    if s.len ≠ 0 ∧ s.address &&& 7 ≠ 0 then do
      let s ← s.feed mm.u8
      s.align mm fuel
    else
      some s

/-- `if (((uintptr_t)buf & 8) && len >= 8)`. -/
def Reader.alignWord (mm : Sse42Clmul) (s : Reader) : Option Reader :=
  if s.address &&& 8 ≠ 0 ∧ 8 ≤ s.len then s.feed mm.u64 else some s

/-- `for (; len >= n; buf += n, len -= n)`, for an operand of `n` bytes. -/
def Reader.feedWhile {w : ℕ} (crc : BitVec 32 → BitVec w → BitVec 32) : ℕ → Reader → Option Reader
  | 0, _ => none
  | fuel + 1, s =>
    if w / 8 ≤ s.len then do
      let s ← s.feed crc
      s.feedWhile crc fuel
    else
      some s

/-- The locals of the vector part. -/
structure Lanes where
  x0 : BitVec 128
  x1 : BitVec 128
  x2 : BitVec 128
  x3 : BitVec 128
  crc0 : BitVec 32
  crc1 : BitVec 32
  crc2 : BitVec 32
  buf : List (BitVec 8)
  buf2 : List (BitVec 8)
  len : ℕ

/-- `y = clmul_lo(x, k), x = clmul_hi(x, k)`, then `y = y ^ z, x = x ^ y`. -/
def fold (mm : Sse42Clmul) (k x z : BitVec 128) : BitVec 128 :=
  let y := clmulLo mm x k
  let x := clmulHi mm x k
  x ^^^ (y ^^^ z)

/-- Eight bytes of each stream. -/
def Lanes.row (mm : Sse42Clmul) (klen n : ℕ) (s : Lanes) : Option Lanes := do
  let m0 ← load (s.buf.drop n)
  let m1 ← load (s.buf.drop (klen + n))
  let m2 ← load (s.buf.drop (klen * 2 + n))
  some { s with crc0 := mm.u64 s.crc0 m0, crc1 := mm.u64 s.crc1 m1, crc2 := mm.u64 s.crc2 m2 }

/-- The scalar chunk: 24 bytes of each stream. -/
def Lanes.scalarChunk (mm : Sse42Clmul) (klen : ℕ) (s : Lanes) : Option Lanes := do
  let s ← s.row mm klen 0
  let s ← s.row mm klen 8
  let s ← s.row mm klen 16
  some { s with buf := s.buf.drop 24 }

/-- The vector chunk: 64 bytes of the front. -/
def Lanes.vectorChunk (mm : Sse42Clmul) (s : Lanes) : Option Lanes := do
  let k := setrEpi32 0x740eef02 0 0x9e4addf8 0
  let z0 ← load s.buf2
  let z1 ← load (s.buf2.drop 16)
  let z2 ← load (s.buf2.drop 32)
  let z3 ← load (s.buf2.drop 48)
  some { s with
    x0 := fold mm k s.x0 z0
    x1 := fold mm k s.x1 z1
    x2 := fold mm k s.x2 z2
    x3 := fold mm k s.x3 z3
    buf2 := s.buf2.drop 64 }

/-- The body of the main loop. -/
def Lanes.turn (mm : Sse42Clmul) (klen : ℕ) (s : Lanes) : Option Lanes := do
  let s ← s.vectorChunk mm
  let s ← s.scalarChunk mm klen
  some { s with len := s.len - 136 }

/-- The main loop, `while (len >= 144)`. -/
def Lanes.mainLoop (mm : Sse42Clmul) (klen : ℕ) : ℕ → Lanes → Option Lanes
  | 0, _ => none
  | fuel + 1, s =>
    if 144 ≤ s.len then do
      let s ← s.turn mm klen
      Lanes.mainLoop mm klen fuel s
    else
      some s

/-- Before the main loop: the first vector chunk, with the register in its first bytes. -/
def Lanes.first (s : Reader) : Option Lanes := do
  let x0 ← load s.buf
  let x1 ← load (s.buf.drop 16)
  let x2 ← load (s.buf.drop 32)
  let x3 ← load (s.buf.drop 48)
  some {
    x0 := s.crc0.setWidth 128 ^^^ x0
    x1 := x1
    x2 := x2
    x3 := x3
    crc0 := 0
    crc1 := 0
    crc2 := 0
    buf := s.buf.drop ((s.len - 8) / 136 * 64)
    buf2 := s.buf.drop 64
    len := s.len - 136 }

/-- `x0 ... x3` reduced to just `x0`. -/
def Lanes.reduce (mm : Sse42Clmul) (s : Lanes) : BitVec 128 :=
  let k := setrEpi32 0xf20c0dfe 0 0x493c7d27 0
  let x0 := fold mm k s.x0 s.x1
  let x2 := fold mm k s.x2 s.x3
  fold mm (setrEpi32 0x3da6d0cb 0 0xba4fc28e 0) x0 x2

/-- What meets the last 8 bytes: the two streams and the front, moved on. -/
def Lanes.meet (mm : Sse42Clmul) (klen : ℕ) (x0 : BitVec 128) (s : Lanes) :
    Option (BitVec 64) := do
  let vc0 ← crcShift mm s.crc0 (klen * 2 + 8)
  let vc1 ← crcShift mm s.crc1 (klen + 8)
  let vc := extractEpi64 (vc0 ^^^ vc1) 0
  let front := mm.u64 (mm.u64 0#32 (extractEpi64 x0 0)) (extractEpi64 x0 1)
  let shifted ← crcShift mm front (klen * 3 + 8)
  some (vc ^^^ extractEpi64 shifted 0)

/-- The body of `if (len >= 144)`. -/
def Reader.vectorPart (mm : Sse42Clmul) (s : Reader) : Option Reader := do
  let blk := (s.len - 8) / 136
  let klen := blk * 24
  let l ← Lanes.first s
  let l ← l.mainLoop mm klen s.len
  let x0 := l.reduce mm
  let l ← l.scalarChunk mm klen
  let vc ← l.meet mm klen x0
  let buf := l.buf.drop (klen * 2)
  let m ← load buf
  some ⟨mm.u64 l.crc2 (m ^^^ vc), buf.drop 8, l.len - 8,
    s.address + BitVec.ofNat 64 (blk * 64 + klen * 3 + 8)⟩

/-- `if (len >= 144)`. -/
def Reader.vectorIf (mm : Sse42Clmul) (s : Reader) : Option Reader :=
  if 144 ≤ s.len then s.vectorPart mm else some s

def crc32cImpl (mm : Sse42Clmul) (crc0 : BitVec 32) (buf : List (BitVec 8)) (len : ℕ)
    (address : BitVec 64) : Option (BitVec 32) := do
  let s ← Reader.align mm (len + 1) ⟨~~~ crc0, buf, len, address⟩
  let s ← s.alignWord mm
  let s ← s.vectorIf mm
  let s ← s.feedWhile mm.u64 (len + 1)
  let s ← s.feedWhile mm.u8 (len + 1)
  some (~~~ s.crc0)

/-- `crc32c` with `HAVE_HARDWARE_CRC32C_64`. -/
def crc32cByIntel (mm : Sse42Clmul) (data : List (BitVec 8)) (length : ℕ) (address : BitVec 64)
    (remainder : BitVec 32) : Option (BitVec 32) :=
  crc32cImpl mm remainder data length address

/-! ## The intrinsics -/

open ReflectedCrc

/-- What the instructions compute. -/
structure Sse42Clmul.Computes (mm : Sse42Clmul) : Prop where
  feeds : mm.toSse42.Feeds 0x82f63b78#32
  u64 : Feeds 0x82f63b78#32 mm.u64
  lo (a b : BitVec 128) : mm.clmulepi64 a b 0 = clmul 128 (extractEpi64 a 0) (extractEpi64 b 0)
  hi (a b : BitVec 128) : mm.clmulepi64 a b 17 = clmul 128 (extractEpi64 a 1) (extractEpi64 b 1)

/-- Instructions that do nothing else: the lowest bits of the nibbles choose the halves. -/
def bitwiseSse42Clmul : Sse42Clmul where
  toSse42 := bitwiseSse42 0x82f63b78#32
  u64 R v := ReflectedCrc.feed 0x82f63b78#32 R (operandBytes v)
  clmulepi64 a b i :=
    clmul 128 (extractEpi64 a (i &&& 1).toNat) (extractEpi64 b (i >>> 4 &&& 1).toNat)

theorem bitwiseSse42Clmul_computes : bitwiseSse42Clmul.Computes where
  feeds := bitwiseSse42_feeds _
  u64 _ _ := rfl
  lo _ _ := rfl
  hi _ _ := rfl

section Power

variable {mm : Sse42Clmul}

theorem extractEpi64_zero (v : BitVec 128) : extractEpi64 v 0 = v.setWidth 64 :=
  (BitVec.setWidth_eq_extractLsb' (by decide)).symm

/-- The low word of a product of registers. -/
theorem extractEpi64_clmulScalar (hmm : mm.Computes) (a b : BitVec 32) :
    extractEpi64 (clmulScalar mm a b) 0 = clmul 64 a b := by
  rw [clmulScalar, hmm.lo, extractEpi64_zero, extractEpi64_zero, extractEpi64_zero,
    BitVec.setWidth_setWidth_of_le _ (by decide), BitVec.setWidth_setWidth_of_le _ (by decide),
    clmul_registers]

/-- Popping the stack `S` from the power `e` ends at the power `N`. -/
inductive Pops : ℕ → ℕ → ℕ → Prop
  | done (N : ℕ) : Pops 1 N N
  | next {S l e N : ℕ} (hS : 0 < S) (hl : l ≤ 1) (h : Pops S (2 * e + 33 - l) N) :
    Pops (2 * S + l) e N

/-- Pushing a bit of the exponent keeps what popping ends at. -/
theorem Pops.push {S n N : ℕ} (hS : 0 < S) (hn : 191 < n) (h : Pops S n N) :
    Pops (2 * S + (1 - n % 2)) (n / 2 - 16) N := by
  apply Pops.next hS (Nat.sub_le _ _)
  have hsplit : 2 * (n / 2 - 16) + 33 - (1 - n % 2) = n := by omega
  rwa [hsplit]

/-- The complement of the stack, one bit later. -/
theorem toNat_push (stack n : BitVec 64) (h : (~~~ stack).toNat < 2 ^ 63) :
    (~~~ ((stack <<< 1) + (n &&& 1))).toNat = 2 * (~~~ stack).toNat + (1 - n.toNat % 2) := by
  have hbit : (n &&& 1).toNat = n.toNat % 2 := by
    rw [BitVec.toNat_and]
    exact Nat.and_one_is_mod _
  have hlt := stack.isLt
  rw [BitVec.toNat_not] at h
  rw [BitVec.toNat_not, BitVec.toNat_not, BitVec.toNat_add, BitVec.toNat_shiftLeft, hbit,
    Nat.shiftLeft_eq]
  omega

theorem xnmodpPush_eq (fuel : ℕ) (n stack : BitVec 64) (N : ℕ) (hfuel : 7 ≤ fuel)
    (hle : fuel ≤ 64) (hn : n.toNat < 2 ^ fuel) (hpos : 0 < (~~~ stack).toNat)
    (hstack : (~~~ stack).toNat < 2 ^ (65 - fuel)) (hpops : Pops (~~~ stack).toNat n.toNat N) :
    ∃ n' stack', xnmodpPush fuel n stack = some (n', stack') ∧ n'.toNat ≤ 191 ∧
      Pops (~~~ stack').toNat n'.toNat N := by
  induction fuel generalizing n stack with
  | zero => omega
  | succ fuel ih =>
    have hlt : (191 : BitVec 64) < n ↔ 191 < n.toNat := BitVec.lt_def
    rw [xnmodpPush]
    by_cases hbig : 191 < n.toNat
    · -- the exponent has a bit to give away, so the stack has room for it
      have hroom : 7 ≤ fuel := by
        by_contra hsmall
        have hpow : 2 ^ (fuel + 1) ≤ 2 ^ 7 := Nat.pow_le_pow_right (by decide) (by omega)
        omega
      have hfits : (~~~ stack).toNat < 2 ^ 63 :=
        hstack.trans_le (Nat.pow_le_pow_right (by decide) (by omega))
      have hpush := toNat_push stack n hfits
      have hhalf : ((n >>> 1) - 16).toNat = n.toNat / 2 - 16 := by
        rw [BitVec.toNat_sub_of_le, BitVec.toNat_ushiftRight, Nat.shiftRight_eq_div_pow]
        · rfl
        · rw [BitVec.le_def, BitVec.toNat_ushiftRight, Nat.shiftRight_eq_div_pow]
          show 16 ≤ _
          omega
      rw [if_pos (hlt.mpr hbig)]
      apply ih _ _ hroom (by omega)
      · rw [hhalf]
        rw [pow_succ] at hn
        omega
      · omega
      · have hpow : 2 ^ (65 - fuel) = 2 ^ (65 - (fuel + 1)) * 2 := by
          rw [← pow_succ]
          congr 1
          omega
        rw [hpush, hpow]
        omega
      · rw [hpush, hhalf]
        exact hpops.push hpos hbig
    · rw [if_neg (mt hlt.mp hbig)]
      exact ⟨n, stack, rfl, by omega, hpops⟩

theorem xnmodpPop_eq (hmm : mm.Computes) (S e N : ℕ) (hpops : Pops S e N) (fuel : ℕ)
    (stack : BitVec 64) (acc : BitVec 32) (hS : stack.toNat = S) (hfuel : S < 2 ^ fuel)
    (hacc : residue 0x82f63b78#32 acc = x 0x82f63b78#32 ^ e) :
    ∃ k, xnmodpPop mm fuel stack acc = some k ∧
      residue 0x82f63b78#32 k = x 0x82f63b78#32 ^ N := by
  induction hpops generalizing fuel stack acc with
  | done N =>
    cases fuel with
    | zero => simp at hfuel
    | succ fuel =>
      have hempty : stack >>> 1 = 0 := by
        apply BitVec.eq_of_toNat_eq
        rw [BitVec.toNat_ushiftRight, hS]
        rfl
      refine ⟨acc, ?_, hacc⟩
      rw [xnmodpPop]
      simp only [hempty, ne_eq, not_true, if_false]
  | @next S l e N hpos hl h ih =>
    cases fuel with
    | zero =>
      rw [pow_zero] at hfuel
      omega
    | succ fuel =>
      have hrest : (stack >>> 1).toNat = S := by
        rw [BitVec.toNat_ushiftRight, hS, Nat.shiftRight_eq_div_pow]
        omega
      have hlow : (stack &&& 1).toNat = l := by
        rw [BitVec.toNat_and, hS]
        exact (Nat.and_one_is_mod _).trans (by omega)
      have hmore : stack >>> 1 ≠ 0 := by
        intro hempty
        rw [hempty] at hrest
        exact absurd hrest (by simp; omega)
      rw [xnmodpPop]
      simp only [hmore, ne_eq, not_false_eq_true, if_true, hlow]
      rw [pow_succ] at hfuel
      apply ih fuel _ _ hrest (by omega)
      rw [hmm.u64.residue rfl, residue_zero, mul_zero, zero_add]
      have hsquare := extractEpi64_clmulScalar hmm acc acc
      rw [clmulScalar] at hsquare
      rw [hsquare]
      rcases (by omega : l = 0 ∨ l = 1) with rfl | rfl
      · rw [BitVec.shiftLeft_zero, residue_clmul_registers, hacc, Nat.sub_zero]
        ring
      · rw [residue_clmul_registers_shiftLeft, hacc, Nat.add_sub_assoc (by decide)]
        ring

theorem residue_xnmodpWords (hmm : mm.Computes) (n : ℕ) (acc : BitVec 32) :
    residue 0x82f63b78#32 (xnmodpWords mm n acc) =
      x 0x82f63b78#32 ^ (32 * n) * residue 0x82f63b78#32 acc := by
  induction n generalizing acc with
  | zero => simp [xnmodpWords]
  | succ n ih =>
    rw [xnmodpWords, ih, hmm.feeds.u32.residue rfl, residue_zero, mul_zero, add_zero]
    ring

/-- **The power is the power.** -/
theorem xnmodp_eq (hmm : mm.Computes) (n : BitVec 64) :
    ∃ k, xnmodp mm n = some k ∧ residue 0x82f63b78#32 k = x 0x82f63b78#32 ^ n.toNat := by
  obtain ⟨n', stack', hpush, hsmall, hpops⟩ := xnmodpPush_eq 64 n (~~~ 1) n.toNat (by decide)
    le_rfl n.isLt (by decide) (by decide) (Pops.done _)
  have hlow : (n' &&& 31).toNat = n'.toNat % 32 := by
    rw [BitVec.toNat_and]
    exact Nat.and_two_pow_sub_one_eq_mod _ 5
  have hwords : (n' >>> 5).toNat = n'.toNat / 32 := by
    rw [BitVec.toNat_ushiftRight, Nat.shiftRight_eq_div_pow]
  have hclear : ∀ j < 31, (0x80000000#32).getLsbD j = false := by decide
  have hone : residue 0x82f63b78#32 (0x80000000#32 >>> (n'.toNat % 32)) =
      x 0x82f63b78#32 ^ (n'.toNat % 32) :=
    residue_of_bits (bits_of_low_clear _ _ _ fun j hj => hclear j (by omega))
  have hbase := residue_xnmodpWords hmm (n'.toNat / 32) (0x80000000#32 >>> (n'.toNat % 32))
  rw [hone, ← pow_add, Nat.div_add_mod] at hbase
  obtain ⟨k, hpop, hk⟩ := xnmodpPop_eq hmm _ _ _ hpops 64 _ _ rfl (~~~ stack').isLt hbase
  refine ⟨k, ?_, hk⟩
  rw [xnmodp, hpush]
  simp only [Option.bind_eq_bind, Option.bind_some, hlow, hwords]
  exact hpop

/-- A register moved on by a number of bytes, but for the 32 bits that meeting a word adds. -/
theorem crcShift_eq (hmm : mm.Computes) (crc : BitVec 32) (nbytes e : ℕ)
    (he : 8 * nbytes = e + 1 + 32) (hmax : 8 * nbytes < 2 ^ 64) :
    ∃ v, crcShift mm crc nbytes = some v ∧ residue 0x82f63b78#32 (extractEpi64 v 0) =
      x 0x82f63b78#32 ^ (e + 1) * residue 0x82f63b78#32 crc := by
  obtain ⟨k, hpower, hk⟩ := xnmodp_eq hmm (BitVec.ofNat 64 nbytes * 8 - 33)
  have hbits : (BitVec.ofNat 64 nbytes * 8).toNat = 8 * nbytes := by
    rw [BitVec.toNat_mul, BitVec.toNat_ofNat, Nat.mod_eq_of_lt (by omega : nbytes < 2 ^ 64),
      Nat.mul_comm]
    exact Nat.mod_eq_of_lt hmax
  have hn : (BitVec.ofNat 64 nbytes * 8 - 33).toNat = e := by
    rw [BitVec.toNat_sub_of_le, hbits]
    · show 8 * nbytes - 33 = e
      omega
    · rw [BitVec.le_def, hbits]
      show 33 ≤ _
      omega
  refine ⟨clmulScalar mm crc k, ?_, ?_⟩
  · rw [crcShift, hpower]
    rfl
  · rw [extractEpi64_clmulScalar hmm, residue_clmul_registers, hk, hn, pow_succ]
    ring

end Power

/-! ## The vectors -/

section Vectors

variable {mm : Sse42Clmul}

/-- A vector is its two words, the low one first. -/
theorem residue_vector (v : BitVec 128) :
    residue 0x82f63b78#32 v = x 0x82f63b78#32 ^ 64 * residue 0x82f63b78#32 (extractEpi64 v 0) +
      residue 0x82f63b78#32 (extractEpi64 v 1) := by
  have hv : v = extractEpi64 v 1 ++ extractEpi64 v 0 := by
    apply BitVec.eq_of_getLsbD_eq
    intro i hi
    simp only [extractEpi64, BitVec.getLsbD_append, BitVec.getLsbD_extractLsb']
    by_cases hlow : i < 64
    · simp [hlow]
    · simp [hlow, show i - 64 < 64 by omega, show 64 + (i - 64) = i by omega]
  conv_lhs => rw [hv]
  exact residue_append _ _ _

/-- The words of a constant vector are powers. -/
theorem residue_setrEpi32 {m n : ℕ} {a b : BitVec 32}
    (ha : bits 0x82f63b78#32 m 0x80000000#32 = a) (hb : bits 0x82f63b78#32 n 0x80000000#32 = b) :
    residue 0x82f63b78#32 (extractEpi64 (setrEpi32 a 0 b 0) 0) = x 0x82f63b78#32 ^ (32 + m) ∧
    residue 0x82f63b78#32 (extractEpi64 (setrEpi32 a 0 b 0) 1) = x 0x82f63b78#32 ^ (32 + n) := by
  have hlo : extractEpi64 (setrEpi32 a 0 b 0) 0 = a.setWidth 64 := by
    apply BitVec.eq_of_getLsbD_eq
    intro i hi
    simp only [extractEpi64, setrEpi32, BitVec.getLsbD_append, BitVec.getLsbD_extractLsb',
      BitVec.getLsbD_setWidth]
    by_cases hlow : i < 32
    · simp [hlow]
    · simp [hlow, show i - 32 < 32 by omega, BitVec.getLsbD_of_ge a i (by omega)]
  have hhi : extractEpi64 (setrEpi32 a 0 b 0) 1 = b.setWidth 64 := by
    apply BitVec.eq_of_getLsbD_eq
    intro i hi
    simp only [extractEpi64, setrEpi32, BitVec.getLsbD_append, BitVec.getLsbD_extractLsb',
      BitVec.getLsbD_setWidth]
    have hsub : 64 + i - 32 - 32 = i := by omega
    by_cases hlow : i < 32
    · simp [hlow, hsub, show ¬ 64 + i < 32 by omega, show ¬ 64 + i - 32 < 32 by omega]
    · simp [hlow, hsub, show ¬ 64 + i < 32 by omega, show ¬ 64 + i - 32 < 32 by omega,
        BitVec.getLsbD_of_ge b i (by omega)]
  rw [hlo, hhi, residue_setWidth _ (by decide), residue_setWidth _ (by decide), residue_of_bits ha,
    residue_of_bits hb, ← pow_add, ← pow_add]
  exact ⟨rfl, rfl⟩

/-- **A fold moves the vector on and adds the next.** -/
theorem residue_fold (hmm : mm.Computes) {d : ℕ} {k : BitVec 128}
    (hlo : residue 0x82f63b78#32 (extractEpi64 k 0) = x 0x82f63b78#32 ^ (d + 64))
    (hhi : residue 0x82f63b78#32 (extractEpi64 k 1) = x 0x82f63b78#32 ^ d) (v z : BitVec 128) :
    residue 0x82f63b78#32 (fold mm k v z) =
      x 0x82f63b78#32 ^ (d + 1) * residue 0x82f63b78#32 v + residue 0x82f63b78#32 z := by
  rw [fold, clmulLo, clmulHi, hmm.lo, hmm.hi, residue_xor, residue_xor,
    residue_clmul _ _ _ (by decide), residue_clmul _ _ _ (by decide), hlo, hhi, residue_vector v]
  ring

-- The constants move a vector on by a block of four vectors, by one vector and by two.
set_option maxRecDepth 100000 in
theorem setrEpi32_block :
    residue 0x82f63b78#32 (extractEpi64 (setrEpi32 0x740eef02 0 0x9e4addf8 0) 0) =
      x 0x82f63b78#32 ^ (511 + 64) ∧
    residue 0x82f63b78#32 (extractEpi64 (setrEpi32 0x740eef02 0 0x9e4addf8 0) 1) =
      x 0x82f63b78#32 ^ 511 :=
  residue_setrEpi32 (m := 543) (n := 479) (by decide +kernel) (by decide +kernel)

set_option maxRecDepth 100000 in
theorem setrEpi32_one :
    residue 0x82f63b78#32 (extractEpi64 (setrEpi32 0xf20c0dfe 0 0x493c7d27 0) 0) =
      x 0x82f63b78#32 ^ (127 + 64) ∧
    residue 0x82f63b78#32 (extractEpi64 (setrEpi32 0xf20c0dfe 0 0x493c7d27 0) 1) =
      x 0x82f63b78#32 ^ 127 :=
  residue_setrEpi32 (m := 159) (n := 95) (by decide +kernel) (by decide +kernel)

set_option maxRecDepth 100000 in
theorem setrEpi32_two :
    residue 0x82f63b78#32 (extractEpi64 (setrEpi32 0x3da6d0cb 0 0xba4fc28e 0) 0) =
      x 0x82f63b78#32 ^ (255 + 64) ∧
    residue 0x82f63b78#32 (extractEpi64 (setrEpi32 0x3da6d0cb 0 0xba4fc28e 0) 1) =
      x 0x82f63b78#32 ^ 255 :=
  residue_setrEpi32 (m := 287) (n := 223) (by decide +kernel) (by decide +kernel)

/-- The residue that the four vectors stand for. -/
noncomputable def Lanes.front (s : Lanes) : Residue 0x82f63b78#32 :=
  x 0x82f63b78#32 ^ 384 * residue 0x82f63b78#32 s.x0 +
  x 0x82f63b78#32 ^ 256 * residue 0x82f63b78#32 s.x1 +
  x 0x82f63b78#32 ^ 128 * residue 0x82f63b78#32 s.x2 + residue 0x82f63b78#32 s.x3

theorem Lanes.residue_reduce (hmm : mm.Computes) (s : Lanes) :
    residue 0x82f63b78#32 (s.reduce mm) = s.front := by
  rw [reduce, residue_fold hmm setrEpi32_two.1 setrEpi32_two.2,
    residue_fold hmm setrEpi32_one.1 setrEpi32_one.2,
    residue_fold hmm setrEpi32_one.1 setrEpi32_one.2, front]
  ring

/-- Four vectors of a front. -/
theorem messageResidue_front (M : List (BitVec 8)) (hM : 64 ≤ M.length) :
    messageResidue 0x82f63b78#32 (M.take 64) =
      x 0x82f63b78#32 ^ 384 * messageResidue 0x82f63b78#32 (M.take 16) +
      x 0x82f63b78#32 ^ 256 * messageResidue 0x82f63b78#32 ((M.drop 16).take 16) +
      x 0x82f63b78#32 ^ 128 * messageResidue 0x82f63b78#32 ((M.drop 32).take 16) +
      messageResidue 0x82f63b78#32 ((M.drop 48).take 16) := by
  have hsplit : M.take 64 = M.take 16 ++ ((M.drop 16).take 16 ++
      ((M.drop 32).take 16 ++ (M.drop 48).take 16)) := by
    rw [show 64 = 16 + (16 + (16 + 16)) from rfl]
    simp only [List.take_add, List.drop_drop]
  have hlen (k : ℕ) (hk : k + 16 ≤ 64) : ((M.drop k).take 16).length = 16 := by
    rw [List.length_take, List.length_drop]
    omega
  rw [hsplit]
  simp only [messageResidue_append, List.length_append, hlen 16 (by decide), hlen 32 (by decide),
    hlen 48 (by decide)]
  ring

theorem Lanes.vectorChunk_eq (hmm : mm.Computes) (s : Lanes) (h : 64 ≤ s.buf2.length) :
    ∃ s', s.vectorChunk mm = some s' ∧
      s' = { s with x0 := s'.x0, x1 := s'.x1, x2 := s'.x2, x3 := s'.x3, buf2 := s.buf2.drop 64 } ∧
      s'.front = x 0x82f63b78#32 ^ 512 * s.front +
        messageResidue 0x82f63b78#32 (s.buf2.take 64) := by
  have hload (k : ℕ) (hk : k + 16 ≤ 64) : (load (s.buf2.drop k) : Option (BitVec 128)) =
      some (word ((s.buf2.drop k).take 16)) :=
    load_eq _ (by rw [List.length_drop]; omega)
  have hword (k : ℕ) (hk : k + 16 ≤ 64) :
      residue 0x82f63b78#32 (word ((s.buf2.drop k).take 16) : BitVec 128) =
        messageResidue 0x82f63b78#32 ((s.buf2.drop k).take 16) :=
    residue_word _ _ (by rw [List.length_take, List.length_drop]; omega)
  have hload0 := hload 0 (by decide)
  have hword0 := hword 0 (by decide)
  rw [List.drop_zero] at hload0 hword0
  rw [vectorChunk]
  simp only [hload0, hload 16 (by decide), hload 32 (by decide), hload 48 (by decide),
    Option.bind_eq_bind, Option.bind_some]
  refine ⟨_, rfl, rfl, ?_⟩
  simp only [front, residue_fold hmm setrEpi32_block.1 setrEpi32_block.2, hword0,
    hword 16 (by decide), hword 32 (by decide), hword 48 (by decide), messageResidue_front _ h]
  ring

end Vectors

/-! ## The streams -/

section Streams

variable {mm : Sse42Clmul}

/-- The register of stream `k` once `n` of its bytes have been fed. -/
def stream (data : List (BitVec 8)) (blk k n : ℕ) : BitVec 32 :=
  feed 0x82f63b78#32 0#32 ((data.drop (64 * blk + blk * 24 * k)).take n)

/-- The streams are `n` bytes on, and the pointer `m` of them. -/
structure Lanes.Streams (data : List (BitVec 8)) (blk m n : ℕ) (s : Lanes) : Prop where
  buf : s.buf = data.drop (64 * blk + m)
  crc0 : s.crc0 = stream data blk 0 n
  crc1 : s.crc1 = stream data blk 1 n
  crc2 : s.crc2 = stream data blk 2 n

theorem Lanes.row_eq (hmm : mm.Computes) {data : List (BitVec 8)} {blk m n : ℕ} {s : Lanes}
    (hs : s.Streams data blk m (m + n)) (hn : m + n + 8 ≤ blk * 24)
    (hdata : 64 * blk + blk * 24 * 3 ≤ data.length) :
    ∃ s', s.row mm (blk * 24) n = some s' ∧
      s' = { s with crc0 := s'.crc0, crc1 := s'.crc1, crc2 := s'.crc2 } ∧
      s'.Streams data blk m (m + n + 8) := by
  have hdrop (k : ℕ) : s.buf.drop (blk * 24 * k + n) =
      (data.drop (64 * blk + blk * 24 * k)).drop (m + n) := by
    rw [hs.buf, List.drop_drop, List.drop_drop]
    congr 1
    omega
  have hlen (k : ℕ) (hk : k ≤ 2) : 8 ≤ (s.buf.drop (blk * 24 * k + n)).length := by
    have hle : blk * 24 * k ≤ blk * 24 * 2 := Nat.mul_le_mul_left _ hk
    rw [hdrop, List.length_drop, List.length_drop]
    omega
  have hstep (k : ℕ) (hk : k ≤ 2) : mm.u64 (stream data blk k (m + n))
      (word ((s.buf.drop (blk * 24 * k + n)).take 8)) = stream data blk k (m + n + 8) := by
    rw [hmm.u64.load rfl _ _ (hlen k hk), hdrop, stream, feed_next_word]
    rfl
  have hload (k : ℕ) (hk : k ≤ 2) : (load (s.buf.drop (blk * 24 * k + n)) : Option (BitVec 64)) =
      some (word ((s.buf.drop (blk * 24 * k + n)).take 8)) :=
    load_eq _ (hlen k hk)
  have hload0 := hload 0 (by decide)
  have hload1 := hload 1 (by decide)
  have hstep0 := hstep 0 (by decide)
  have hstep1 := hstep 1 (by decide)
  rw [Nat.mul_zero, Nat.zero_add] at hload0 hstep0
  rw [Nat.mul_one] at hload1 hstep1
  rw [row]
  simp only [hload0, hload1, hload 2 (by decide), Option.bind_eq_bind, Option.bind_some]
  refine ⟨_, rfl, rfl, ⟨hs.buf, ?_, ?_, ?_⟩⟩
  · simp only [hs.crc0, hstep0]
  · simp only [hs.crc1, hstep1]
  · simp only [hs.crc2, hstep 2 (by decide)]

theorem Lanes.scalarChunk_eq (hmm : mm.Computes) {data : List (BitVec 8)} {blk n : ℕ} {s : Lanes}
    (hs : s.Streams data blk n n) (hn : n + 24 ≤ blk * 24)
    (hdata : 64 * blk + blk * 24 * 3 ≤ data.length) :
    ∃ s', s.scalarChunk mm (blk * 24) = some s' ∧
      s' = { s with crc0 := s'.crc0, crc1 := s'.crc1, crc2 := s'.crc2, buf := s'.buf } ∧
      s'.Streams data blk (n + 24) (n + 24) := by
  obtain ⟨s₁, hrow₁, heq₁, hs₁⟩ := row_eq hmm (n := 0) hs (by omega) hdata
  obtain ⟨s₂, hrow₂, heq₂, hs₂⟩ := row_eq hmm (n := 8) hs₁ (by omega) hdata
  obtain ⟨s₃, hrow₃, heq₃, hs₃⟩ := row_eq hmm (n := 16) hs₂ (by omega) hdata
  refine ⟨{ s₃ with buf := s₃.buf.drop 24 }, ?_, ?_, ⟨?_, hs₃.crc0, hs₃.crc1, hs₃.crc2⟩⟩
  · rw [scalarChunk]
    simp only [hrow₁, hrow₂, hrow₃, Option.bind_eq_bind, Option.bind_some]
  · rw [heq₃, heq₂, heq₁]
  · show s₃.buf.drop 24 = _
    rw [hs₃.buf, List.drop_drop]
    rfl

end Streams

/-! ## The blocks -/

section Blocks

variable {mm : Sse42Clmul}

/-- After `i + 1` vector chunks and `i` scalar chunks. -/
structure Lanes.Inv (R : BitVec 32) (data : List (BitVec 8)) (len blk i : ℕ) (s : Lanes) :
    Prop where
  streams : s.Streams data blk (24 * i) (24 * i)
  buf2 : s.buf2 = data.drop (64 * (i + 1))
  len : s.len + 136 * (i + 1) = len
  front : s.front = x 0x82f63b78#32 ^ (512 * i + 480) * residue 0x82f63b78#32 R +
    messageResidue 0x82f63b78#32 (data.take (64 * (i + 1)))

theorem Lanes.first_inv (s : Reader) (hlen : 144 ≤ s.len) (hs : s.len ≤ s.buf.length) :
    ∃ l, Lanes.first s = some l ∧
      l.Inv s.crc0 s.buf s.len ((s.len - 8) / 136) 0 := by
  have hload (k : ℕ) (hk : k + 16 ≤ 64) : (load (s.buf.drop k) : Option (BitVec 128)) =
      some (word ((s.buf.drop k).take 16)) :=
    load_eq _ (by rw [List.length_drop]; omega)
  have hword (k : ℕ) (hk : k + 16 ≤ 64) :
      residue 0x82f63b78#32 (word ((s.buf.drop k).take 16) : BitVec 128) =
        messageResidue 0x82f63b78#32 ((s.buf.drop k).take 16) :=
    residue_word _ _ (by rw [List.length_take, List.length_drop]; omega)
  have hload0 := hload 0 (by decide)
  have hword0 := hword 0 (by decide)
  rw [List.drop_zero] at hload0 hword0
  rw [first]
  simp only [hload0, hload 16 (by decide), hload 32 (by decide), hload 48 (by decide),
    Option.bind_eq_bind, Option.bind_some]
  refine ⟨_, rfl, ⟨⟨?_, rfl, rfl, rfl⟩, rfl, ?_, ?_⟩⟩
  · rw [Nat.mul_comm _ 64]
    rfl
  · exact Nat.sub_add_cancel (by omega)
  · simp only [front, residue_xor, residue_setWidth _ (by decide : 32 ≤ 128), hword0,
      hword 16 (by decide), hword 32 (by decide), hword 48 (by decide),
      messageResidue_front _ (by omega : 64 ≤ s.buf.length)]
    ring

/-- **A turn of the main loop keeps the invariant.** -/
theorem Lanes.turn_inv (hmm : mm.Computes) {R : BitVec 32} {data : List (BitVec 8)}
    {len blk i : ℕ} {s : Lanes} (hs : s.Inv R data len blk i) (hi : i + 2 ≤ blk)
    (hlen : 136 * blk + 8 ≤ len) (hdata : len ≤ data.length) :
    ∃ s', s.turn mm (blk * 24) = some s' ∧ s'.Inv R data len blk (i + 1) := by
  have hbuf2 : 64 ≤ s.buf2.length := by
    rw [hs.buf2, List.length_drop]
    omega
  obtain ⟨s₁, hvector, heq₁, hfront⟩ := vectorChunk_eq hmm s hbuf2
  have hs₁ : s₁.Streams data blk (24 * i) (24 * i) := by
    rw [heq₁]
    exact ⟨hs.streams.buf, hs.streams.crc0, hs.streams.crc1, hs.streams.crc2⟩
  obtain ⟨s₂, hscalar, heq₂, hs₂⟩ := scalarChunk_eq hmm hs₁ (by omega) (by omega)
  refine ⟨{ s₂ with len := s₂.len - 136 }, ?_, ⟨⟨hs₂.buf, hs₂.crc0, hs₂.crc1, hs₂.crc2⟩, ?_, ?_, ?_⟩⟩
  · rw [turn]
    simp only [hvector, hscalar, Option.bind_eq_bind, Option.bind_some]
  · show s₂.buf2 = _
    rw [heq₂, heq₁]
    show s.buf2.drop 64 = _
    rw [hs.buf2, List.drop_drop]
    rfl
  · have hleft := hs.len
    show s₂.len - 136 + _ = _
    rw [heq₂, heq₁]
    show s.len - 136 + _ = _
    omega
  · have hsame : ({ s₂ with len := s₂.len - 136 } : Lanes).front = s₁.front := by
      rw [heq₂]
      rfl
    have hblock : 64 * (i + 1 + 1) = 64 * (i + 1) + 64 := by ring
    have hnext : ((data.drop (64 * (i + 1))).take 64).length = 64 := by
      rw [List.length_take, List.length_drop]
      omega
    rw [hsame, hfront, hs.front, hs.buf2, hblock, List.take_add, messageResidue_append, hnext]
    ring

theorem Lanes.mainLoop_inv (hmm : mm.Computes) {R : BitVec 32} {data : List (BitVec 8)}
    {len i : ℕ} (fuel : ℕ) {s : Lanes} (hs : s.Inv R data len ((len - 8) / 136) i)
    (hi : i + 1 ≤ (len - 8) / 136) (hfuel : s.len < fuel) (hdata : len ≤ data.length) :
    ∃ s', s.mainLoop mm ((len - 8) / 136 * 24) fuel = some s' ∧
      ∃ j, j + 1 = (len - 8) / 136 ∧ s'.Inv R data len ((len - 8) / 136) j := by
  induction fuel generalizing i s with
  | zero => omega
  | succ fuel ih =>
    have hleft := hs.len
    rw [mainLoop]
    by_cases hmore : 144 ≤ s.len
    · obtain ⟨s₁, hturn, hs₁⟩ := turn_inv hmm hs (by omega) (by omega) hdata
      have hleft₁ := hs₁.len
      obtain ⟨s', hloop, hend⟩ := ih hs₁ (by omega) (by omega)
      refine ⟨s', ?_, hend⟩
      rw [if_pos hmore, hturn]
      exact hloop
    · rw [if_neg hmore]
      exact ⟨s, rfl, i, by omega, hs⟩

theorem extractEpi64_xor (u v : BitVec 128) (i : ℕ) :
    extractEpi64 (u ^^^ v) i = extractEpi64 u i ^^^ extractEpi64 v i :=
  BitVec.extractLsb'_xor

/-- What meets the last 8 bytes, but for the 32 bits that meeting them adds. -/
theorem Lanes.meet_eq (hmm : mm.Computes) (klen : ℕ) (x0 : BitVec 128) (s : Lanes)
    (hmax : 8 * (klen * 3 + 8) < 2 ^ 64) :
    ∃ vc, s.meet mm klen x0 = some vc ∧ residue 0x82f63b78#32 vc =
      x 0x82f63b78#32 ^ (16 * klen + 31 + 1) * residue 0x82f63b78#32 s.crc0 +
      x 0x82f63b78#32 ^ (8 * klen + 31 + 1) * residue 0x82f63b78#32 s.crc1 +
      x 0x82f63b78#32 ^ (24 * klen + 31 + 1) *
        (x 0x82f63b78#32 ^ 32 * residue 0x82f63b78#32 x0) := by
  obtain ⟨vc0, hshift0, hvc0⟩ := crcShift_eq hmm s.crc0 (klen * 2 + 8) (16 * klen + 31) (by omega)
    (by omega)
  obtain ⟨vc1, hshift1, hvc1⟩ := crcShift_eq hmm s.crc1 (klen + 8) (8 * klen + 31) (by omega)
    (by omega)
  obtain ⟨vc2, hshift2, hvc2⟩ := crcShift_eq hmm
    (mm.u64 (mm.u64 0#32 (extractEpi64 x0 0)) (extractEpi64 x0 1)) (klen * 3 + 8)
    (24 * klen + 31) (by omega) hmax
  have hfront : residue 0x82f63b78#32
      (mm.u64 (mm.u64 0#32 (extractEpi64 x0 0)) (extractEpi64 x0 1)) =
      x 0x82f63b78#32 ^ 32 * residue 0x82f63b78#32 x0 := by
    rw [hmm.u64.residue rfl, hmm.u64.residue rfl, residue_zero, residue_vector x0]
    ring
  rw [meet]
  simp only [hshift0, hshift1, hshift2, Option.bind_eq_bind, Option.bind_some]
  refine ⟨_, rfl, ?_⟩
  rw [extractEpi64_xor, residue_xor, residue_xor, hvc0, hvc1, hvc2, hfront]

/-- The front, the streams and the last 8 bytes. -/
theorem messageResidue_blocks (data : List (BitVec 8)) (blk : ℕ)
    (h : 136 * blk + 8 ≤ data.length) :
    messageResidue 0x82f63b78#32 (data.take (136 * blk + 8)) =
      x 0x82f63b78#32 ^ (8 * (blk * 24 * 3 + 8)) *
        messageResidue 0x82f63b78#32 (data.take (64 * blk)) +
      x 0x82f63b78#32 ^ (8 * (blk * 24 * 2 + 8)) *
        messageResidue 0x82f63b78#32 ((data.drop (64 * blk + blk * 24 * 0)).take (blk * 24)) +
      x 0x82f63b78#32 ^ (8 * (blk * 24 + 8)) *
        messageResidue 0x82f63b78#32 ((data.drop (64 * blk + blk * 24 * 1)).take (blk * 24)) +
      x 0x82f63b78#32 ^ 64 *
        messageResidue 0x82f63b78#32 ((data.drop (64 * blk + blk * 24 * 2)).take (blk * 24)) +
      messageResidue 0x82f63b78#32 ((data.drop (64 * blk + blk * 24 * 3)).take 8) := by
  have htotal : 136 * blk + 8 = 64 * blk + (blk * 24 + (blk * 24 + (blk * 24 + 8))) := by ring
  have htwo : blk * 24 * 2 = blk * 24 + blk * 24 := by ring
  have hthree : blk * 24 * 3 = blk * 24 + blk * 24 + blk * 24 := by ring
  have hlen (k n : ℕ) (hk : k + n ≤ 136 * blk + 8) : ((data.drop k).take n).length = n := by
    rw [List.length_take, List.length_drop]
    omega
  have hsplit : data.take (136 * blk + 8) = data.take (64 * blk) ++
      ((data.drop (64 * blk + blk * 24 * 0)).take (blk * 24) ++
      ((data.drop (64 * blk + blk * 24 * 1)).take (blk * 24) ++
      ((data.drop (64 * blk + blk * 24 * 2)).take (blk * 24) ++
      (data.drop (64 * blk + blk * 24 * 3)).take 8))) := by
    rw [htotal, htwo, hthree]
    simp only [List.take_add, List.drop_drop, Nat.mul_zero, Nat.mul_one, Nat.add_zero,
      Nat.add_assoc]
  rw [hsplit]
  simp only [messageResidue_append, List.length_append,
    hlen (64 * blk + blk * 24 * 0) (blk * 24) (by omega),
    hlen (64 * blk + blk * 24 * 1) (blk * 24) (by omega),
    hlen (64 * blk + blk * 24 * 2) (blk * 24) (by omega),
    hlen (64 * blk + blk * 24 * 3) 8 (by omega)]
  ring

/-- **The vector part feeds the blocks and the last 8 bytes.** -/
theorem Reader.vectorPart_eq (hmm : mm.Computes) (s : Reader) (hlen : 144 ≤ s.len)
    (hs : s.len ≤ s.buf.length) (hmax : s.len < 2 ^ 61) :
    ∃ s' n, s.vectorPart mm = some s' ∧ n ≤ s.len ∧ s'.len = s.len - n ∧
      s'.buf = s.buf.drop n ∧
      s'.crc0 = ReflectedCrc.feed 0x82f63b78#32 s.crc0 (s.buf.take n) := by
  obtain ⟨blk, hblk⟩ : ∃ blk, blk = (s.len - 8) / 136 := ⟨_, rfl⟩
  obtain ⟨l₀, hfirst, hl₀⟩ := Lanes.first_inv s hlen hs
  have hleft₀ := hl₀.len
  obtain ⟨l₁, hloop, j, hj, hl₁⟩ := Lanes.mainLoop_inv hmm s.len hl₀ (by omega) (by omega) hs
  have hleft₁ := hl₁.len
  rw [← hblk] at hloop hj hl₁
  obtain ⟨l₂, hscalar, heq₂, hl₂⟩ := Lanes.scalarChunk_eq hmm hl₁.streams (by omega) (by omega)
  have hend : 24 * j + 24 = blk * 24 := by omega
  rw [hend] at hl₂
  obtain ⟨vc, hmeet, hvc⟩ := Lanes.meet_eq hmm (blk * 24) (l₁.reduce mm) l₂ (by omega)
  have hbuf : l₂.buf.drop (blk * 24 * 2) = s.buf.drop (64 * blk + blk * 24 * 3) := by
    rw [hl₂.buf, List.drop_drop]
    congr 1
    omega
  have hword : 8 ≤ (s.buf.drop (64 * blk + blk * 24 * 3)).length := by
    rw [List.length_drop]
    omega
  have hload : (load (s.buf.drop (64 * blk + blk * 24 * 3)) : Option (BitVec 64)) =
      some (word ((s.buf.drop (64 * blk + blk * 24 * 3)).take 8)) :=
    load_eq _ hword
  have hlast : residue 0x82f63b78#32
      (word ((s.buf.drop (64 * blk + blk * 24 * 3)).take 8) : BitVec 64) =
      messageResidue 0x82f63b78#32 ((s.buf.drop (64 * blk + blk * 24 * 3)).take 8) :=
    residue_word _ _ (by rw [List.length_take]; omega)
  refine ⟨⟨mm.u64 l₂.crc2 (word ((s.buf.drop (64 * blk + blk * 24 * 3)).take 8) ^^^ vc),
    (s.buf.drop (64 * blk + blk * 24 * 3)).drop 8, l₂.len - 8,
    s.address + BitVec.ofNat 64 (blk * 64 + blk * 24 * 3 + 8)⟩, 136 * blk + 8, ?_, by omega,
    ?_, ?_, ?_⟩
  · rw [vectorPart]
    simp only [← hblk, hfirst, hloop, hscalar, hmeet, hbuf, hload, Option.bind_eq_bind,
      Option.bind_some]
  · show l₂.len - 8 = _
    rw [heq₂]
    show l₁.len - 8 = _
    omega
  · show (s.buf.drop (64 * blk + blk * 24 * 3)).drop 8 = _
    rw [List.drop_drop]
    congr 1
    omega
  · apply residue_injective 0x82f63b78#32
    have hfront : l₁.front = x 0x82f63b78#32 ^ (512 * j + 480) * residue 0x82f63b78#32 s.crc0 +
        messageResidue 0x82f63b78#32 (s.buf.take (64 * blk)) := by
      rw [← hj]
      exact hl₁.front
    have hlen (k n : ℕ) (hk : k + n ≤ s.buf.length) : ((s.buf.drop k).take n).length = n := by
      rw [List.length_take, List.length_drop]
      omega
    have hpower : 8 * (136 * blk + 8) = 512 * j + 480 + 32 + (24 * (blk * 24) + 64) := by omega
    have hstream (k : ℕ) : residue 0x82f63b78#32 (stream s.buf blk k (blk * 24)) =
        x 0x82f63b78#32 ^ 32 * messageResidue 0x82f63b78#32
          ((s.buf.drop (64 * blk + blk * 24 * k)).take (blk * 24)) := by
      rw [stream, residue_feed _ (by decide), residue_zero, mul_zero, zero_add]
    rw [hmm.u64.residue rfl, residue_xor, hlast, hvc, Lanes.residue_reduce hmm, hfront, hl₂.crc0,
      hl₂.crc1, hl₂.crc2, hstream, hstream, hstream, residue_feed _ (by decide),
      messageResidue_blocks s.buf blk (by omega), List.length_take_of_le (by omega), hpower]
    ring

end Blocks

/-! ## Every step feeds what it passes -/

/-- The reader is within the buffer. -/
def Reader.Within (s : Reader) : Prop := s.len ≤ s.buf.length

/-- The register once all the bytes have been fed. -/
def Reader.rest (s : Reader) : BitVec 32 :=
  ReflectedCrc.feed 0x82f63b78#32 s.crc0 (s.buf.take s.len)

/-- What a piece of the function does to the reader. -/
structure Reader.Advances (s s' : Reader) : Prop where
  within : s'.Within
  rest : s'.rest = s.rest
  len : s'.len ≤ s.len

theorem Reader.Advances.refl {s : Reader} (hs : s.Within) : s.Advances s := ⟨hs, rfl, le_rfl⟩

theorem Reader.Advances.trans {s s' s'' : Reader} (h : s.Advances s') (h' : s'.Advances s'') :
    s.Advances s'' :=
  ⟨h'.within, h'.rest.trans h.rest, h'.len.trans h.len⟩

/-- Bytes that were fed and passed. -/
theorem Reader.advances_of_fed {s s' : Reader} (hs : s.Within) {n : ℕ} (hn : n ≤ s.len)
    (hlen : s'.len = s.len - n) (hbuf : s'.buf = s.buf.drop n)
    (hcrc0 : s'.crc0 = ReflectedCrc.feed 0x82f63b78#32 s.crc0 (s.buf.take n)) :
    s.Advances s' := by
  refine ⟨?_, ?_, by omega⟩
  · rw [Within, hlen, hbuf, List.length_drop]
    exact Nat.sub_le_sub_right hs n
  · have hsplit : s.len = n + (s.len - n) := by omega
    rw [rest, rest, hlen, hbuf, hcrc0]
    conv_rhs => rw [hsplit, List.take_add, ReflectedCrc.feed_append]

section Steps

variable {mm : Sse42Clmul} {w : ℕ} {crc : BitVec 32 → BitVec w → BitVec 32}

theorem Reader.feed_eq (hfeeds : Feeds 0x82f63b78#32 crc) (hw : 8 * (w / 8) = w) (s : Reader)
    (hs : s.Within) (hn : w / 8 ≤ s.len) :
    ∃ s', s.feed crc = some s' ∧ s.Advances s' ∧ s'.len = s.len - w / 8 := by
  have hlen : w / 8 ≤ s.buf.length := hn.trans hs
  refine ⟨⟨ReflectedCrc.feed 0x82f63b78#32 s.crc0 (s.buf.take (w / 8)), s.buf.drop (w / 8),
    s.len - w / 8, s.address + BitVec.ofNat 64 (w / 8)⟩, ?_, advances_of_fed hs hn rfl rfl rfl, rfl⟩
  rw [Reader.feed, load_eq s.buf hlen]
  simp only [Option.bind_eq_bind, Option.bind_some, hfeeds.load hw s.crc0 s.buf hlen]

theorem Reader.align_eq (hmm : mm.Computes) (fuel : ℕ) (s : Reader) (hs : s.Within)
    (hfuel : s.len < fuel) : ∃ s', s.align mm fuel = some s' ∧ s.Advances s' := by
  induction fuel generalizing s with
  | zero => omega
  | succ fuel ih =>
    rw [align]
    by_cases hmore : s.len ≠ 0 ∧ s.address &&& 7 ≠ 0
    · have hone : 8 / 8 ≤ s.len := Nat.one_le_iff_ne_zero.mpr hmore.1
      obtain ⟨s₁, hfeed, hadv, hleft⟩ := feed_eq hmm.feeds.u8 rfl s hs hone
      obtain ⟨s', hloop, hadv'⟩ := ih s₁ hadv.within (by omega)
      refine ⟨s', ?_, hadv.trans hadv'⟩
      rw [if_pos hmore, hfeed]
      exact hloop
    · rw [if_neg hmore]
      exact ⟨s, rfl, .refl hs⟩

theorem Reader.alignWord_eq (hmm : mm.Computes) (s : Reader) (hs : s.Within) :
    ∃ s', s.alignWord mm = some s' ∧ s.Advances s' := by
  rw [alignWord]
  by_cases hmore : s.address &&& 8 ≠ 0 ∧ 8 ≤ s.len
  · obtain ⟨s', hfeed, hadv, -⟩ := feed_eq hmm.u64 rfl s hs hmore.2
    rw [if_pos hmore]
    exact ⟨s', hfeed, hadv⟩
  · rw [if_neg hmore]
    exact ⟨s, rfl, .refl hs⟩

theorem Reader.feedWhile_eq (hfeeds : Feeds 0x82f63b78#32 crc) (hw : 8 * (w / 8) = w)
    (hpos : 0 < w) (fuel : ℕ) (s : Reader) (hs : s.Within) (hfuel : s.len < fuel) :
    ∃ s', s.feedWhile crc fuel = some s' ∧ s.Advances s' ∧ s'.len < w / 8 := by
  induction fuel generalizing s with
  | zero => omega
  | succ fuel ih =>
    rw [feedWhile]
    by_cases hmore : w / 8 ≤ s.len
    · obtain ⟨s₁, hfeed, hadv, hleft⟩ := feed_eq hfeeds hw s hs hmore
      obtain ⟨s', hloop, hadv', hend⟩ := ih s₁ hadv.within (by omega)
      refine ⟨s', ?_, hadv.trans hadv', hend⟩
      rw [if_pos hmore, hfeed]
      exact hloop
    · rw [if_neg hmore]
      exact ⟨s, rfl, .refl hs, by omega⟩

theorem Reader.vectorIf_eq (hmm : mm.Computes) (s : Reader) (hs : s.Within)
    (hmax : s.len < 2 ^ 61) :
    ∃ s', s.vectorIf mm = some s' ∧ s.Advances s' := by
  rw [vectorIf]
  by_cases hmore : 144 ≤ s.len
  · obtain ⟨s', n, hvector, hn, hlen, hbuf, hcrc0⟩ := vectorPart_eq hmm s hmore hs hmax
    rw [if_pos hmore]
    exact ⟨s', hvector, advances_of_fed hs hn hlen hbuf hcrc0⟩
  · rw [if_neg hmore]
    exact ⟨s, rfl, .refl hs⟩

/-- With no byte left the register has seen them all. -/
theorem Reader.rest_of_len_zero (s : Reader) (h : s.len = 0) : s.rest = s.crc0 := by
  rw [rest, h]
  rfl

end Steps

/-- **The vectors give the checksum**, wherever the buffer lies, and no load leaves it. -/
theorem crc32cImpl_eq (mm : Sse42Clmul) (hmm : mm.Computes) (remainder : BitVec 32)
    (data : List (BitVec 8)) (hdata : data.length < 2 ^ 61) (address : BitVec 64) :
    crc32cImpl mm remainder data data.length address =
      some (ReflectedCrc.crc 0x82f63b78#32 data remainder) := by
  obtain ⟨s₁, halign, hadv₁⟩ := Reader.align_eq hmm (data.length + 1)
    ⟨~~~ remainder, data, data.length, address⟩ le_rfl (Nat.lt_succ_self _)
  obtain ⟨s₂, hword, hadv₂⟩ := Reader.alignWord_eq hmm s₁ hadv₁.within
  have hlen₂ : s₂.len ≤ data.length := hadv₂.len.trans hadv₁.len
  obtain ⟨s₃, hvector, hadv₃⟩ := Reader.vectorIf_eq hmm s₂ hadv₂.within (by omega)
  have hlen₃ := hadv₃.len
  obtain ⟨s₄, hwords, hadv₄, hn₄⟩ := Reader.feedWhile_eq hmm.u64 rfl (by decide)
    (data.length + 1) s₃ hadv₃.within (by omega)
  have hlen₄ := hadv₄.len
  obtain ⟨s₅, hbytes, hadv₅, hn₅⟩ := Reader.feedWhile_eq hmm.feeds.u8 rfl (by decide)
    (data.length + 1) s₄ hadv₄.within (by omega)
  have hrest : s₅.crc0 = ReflectedCrc.feed 0x82f63b78#32 (~~~ remainder) data := by
    rw [← s₅.rest_of_len_zero (by omega), hadv₅.rest, hadv₄.rest, hadv₃.rest, hadv₂.rest,
      hadv₁.rest, Reader.rest]
    exact congrArg _ (List.take_length)
  rw [crc32cImpl]
  simp only [halign, hword, hvector, hwords, hbytes, Option.bind_eq_bind, Option.bind_some, hrest]
  rfl

/-- **The vectors agree with the tables.** -/
theorem intel_agrees (mm : Sse42Clmul) (hmm : mm.Computes) (data : List (BitVec 8))
    (hdata : data.length < 2 ^ 61) (address : BitVec 64) (remainder : BitVec 32) :
    crc32cByIntel mm data data.length address remainder =
      crc32c data data.length remainder := by
  rw [crc32cByIntel, crc32cImpl_eq mm hmm remainder data hdata, crc32c_eq]

/-- With instructions that do what they are documented to, a kilobyte at an odd address. -/
theorem intel_agrees_bitwise :
    crc32cByIntel bitwiseSse42Clmul (List.replicate 1024 1#8) 1024 1#64 0#32 =
      crc32c (List.replicate 1024 1#8) 1024 0#32 := by
  have hlen : (List.replicate 1024 1#8).length = 1024 := List.length_replicate
  have hagrees := intel_agrees bitwiseSse42Clmul bitwiseSse42Clmul_computes
    (List.replicate 1024 1#8) (by rw [hlen]; decide) 1#64 0#32
  rwa [hlen] at hagrees

end Crc
