/-
# The checksum by four segments

`crc32c_hardware_armv8.h` and the branch of `crc.cpp` that calls it.  While there
are 1032 bytes left, four segments of 256 bytes are fed to four registers side by
side; three carry-less products then move the first three registers on by what lies
behind their segments, and the last 8 bytes take up the sum.

* `crc32c1024Bytes` : the four registers over their segments;
* `merge` : the products, and the last 8 bytes;
* `residue_merge` : they are one register over all the 1032 bytes.
-/
import Libsg.CrcResidue

namespace Crc

/-! ## The function -/

/-- The registers of the four segments. -/
structure Segments where
  crc0 : BitVec 32
  crc1 : BitVec 32
  crc2 : BitVec 32
  crc3 : BitVec 32

/-- `CRC32C32BYTES`: 8 bytes of each segment. -/
def crc32c32Bytes (crc32c : Acle) (P : List (BitVec 8)) (ind : ℕ) (s : Segments) :
    Option Segments := do
  let m1 ← load (P.drop (256 * 1 + ind * 8))
  let m2 ← load (P.drop (256 * 2 + ind * 8))
  let m3 ← load (P.drop (256 * 3 + ind * 8))
  let m0 ← load (P.drop (256 * 0 + ind * 8))
  some ⟨crc32c.d s.crc0 m0, crc32c.d s.crc1 m1, crc32c.d s.crc2 m2, crc32c.d s.crc3 m3⟩

/-- `CRC32C256BYTES`: 64 bytes of each segment. -/
def crc32c256Bytes (crc32c : Acle) (P : List (BitVec 8)) (ind : ℕ) (s : Segments) :
    Option Segments :=
  (List.range 8).foldlM (fun s i => crc32c32Bytes crc32c P (ind * 8 + i) s) s

/-- `CRC32C1024BYTES`, but for the step of the pointer. -/
def crc32c1024Bytes (crc32c : Acle) (P : List (BitVec 8)) (s : Segments) : Option Segments :=
  (List.range 4).foldlM (fun s ind => crc32c256Bytes crc32c P ind s) s

/-- `(uint64_t)vmull_p64(crc, k)`. -/
def vmullLow (vmull_p64 : BitVec 64 → BitVec 64 → BitVec 128) (crc : BitVec 32) (k : BitVec 64) :
    BitVec 64 :=
  (vmull_p64 (crc.setWidth 64) k).setWidth 64

/-- The partial values merged, with the 8 bytes behind the segments. -/
def merge (crc32c : Acle) (vmull_p64 : BitVec 64 → BitVec 64 → BitVec 128) (s : Segments)
    (m : BitVec 64) : BitVec 32 :=
  let t2 := vmullLow vmull_p64 s.crc2 0xdcb17aa4#64
  let t1 := vmullLow vmull_p64 s.crc1 0xbd6f81f8#64
  let t0 := vmullLow vmull_p64 s.crc0 0x8d96551c#64
  crc32c.d s.crc3 m ^^^ crc32c.d 0#32 t2 ^^^ crc32c.d 0#32 t1 ^^^ crc32c.d 0#32 t0

/-- The body of `while (no_of_bytes >= KBYTES)`. -/
def Cursor.feedSegments (crc32c : Acle) (vmull_p64 : BitVec 64 → BitVec 64 → BitVec 128)
    (s : Cursor) : Option Cursor := do
  let segments ← crc32c1024Bytes crc32c s.M ⟨s.R, 0#32, 0#32, 0#32⟩
  let M := s.M.drop 1024
  let m ← load M
  some ⟨M.drop 8, s.no_of_bytes - 1032#32, merge crc32c vmull_p64 segments m⟩

/-- `while (no_of_bytes >= KBYTES)`. -/
def Cursor.feedSegmentsWhile (crc32c : Acle)
    (vmull_p64 : BitVec 64 → BitVec 64 → BitVec 128) : ℕ → Cursor → Option Cursor
  | 0, _ => none
  | fuel + 1, s =>
    if 1032#32 ≤ s.no_of_bytes then do
      let s ← s.feedSegments crc32c vmull_p64
      s.feedSegmentsWhile crc32c vmull_p64 fuel
    else
      some s

/-- `if (no_of_bytes & n)`, which leaves `no_of_bytes` as it is. -/
def Cursor.feedBit {w : ℕ} (crc : BitVec 32 → BitVec w → BitVec 32) (s : Cursor) :
    Option Cursor :=
  if s.no_of_bytes &&& BitVec.ofNat 32 (w / 8) ≠ 0 then do
    let m ← load s.M
    some { s with M := s.M.drop (w / 8), R := crc s.R m }
  else
    some s

def crc32cHardwareArmv8 (crc32c : Acle) (vmull_p64 : BitVec 64 → BitVec 64 → BitVec 128)
    (data : List (BitVec 8)) (no_of_bytes prev : BitVec 32) : Option (BitVec 32) := do
  let s ← Cursor.feedSegmentsWhile crc32c vmull_p64 (no_of_bytes.toNat + 1) ⟨data, no_of_bytes, prev⟩
  let s ← Cursor.feedWhile crc32c.d (no_of_bytes.toNat + 1) s
  let s ← s.feedBit crc32c.w
  let s ← s.feedBit crc32c.h
  let s ← s.feedBit crc32c.b
  some s.R

/-- `crc32c` with `HAVE_HARDWARE_CRC32C_ARMV8`: the length becomes a `uint32_t`. -/
def crc32cByArmv8 (crc32c : Acle) (vmull_p64 : BitVec 64 → BitVec 64 → BitVec 128)
    (data : List (BitVec 8)) (length : ℕ) (remainder : BitVec 32) : Option (BitVec 32) :=
  (crc32cHardwareArmv8 crc32c vmull_p64 data (BitVec.ofNat 32 length) (~~~ remainder)).map
    fun R => ~~~ R

/-! ## The segments -/

open ReflectedCrc

section Rows

variable {polynomial : BitVec 32} {crc32c : Acle}

/-- The registers once `k` rows of 8 bytes each have been fed. -/
def Segments.rows (polynomial R : BitVec 32) (P : List (BitVec 8)) (k : ℕ) : Segments where
  crc0 := feed polynomial R ((P.drop (256 * 0)).take (8 * k))
  crc1 := feed polynomial 0#32 ((P.drop (256 * 1)).take (8 * k))
  crc2 := feed polynomial 0#32 ((P.drop (256 * 2)).take (8 * k))
  crc3 := feed polynomial 0#32 ((P.drop (256 * 3)).take (8 * k))

theorem crc32c32Bytes_rows (hcrc : crc32c.Feeds polynomial) (R : BitVec 32) (P : List (BitVec 8))
    (hP : 1024 ≤ P.length) (ind : ℕ) (hind : ind < 32) :
    crc32c32Bytes crc32c P ind (.rows polynomial R P ind) =
      some (.rows polynomial R P (ind + 1)) := by
  have hload (i : ℕ) (hi : i < 4) : (load (P.drop (256 * i + ind * 8)) : Option (BitVec 64)) =
      some (word ((P.drop (256 * i + ind * 8)).take (64 / 8))) :=
    load_eq _ (by rw [List.length_drop]; omega)
  have hfeed (i : ℕ) (hi : i < 4) (R : BitVec 32) :
      crc32c.d (feed polynomial R ((P.drop (256 * i)).take (8 * ind)))
          (word ((P.drop (256 * i + ind * 8)).take (64 / 8))) =
        feed polynomial R ((P.drop (256 * i)).take (8 * (ind + 1))) := by
    rw [hcrc.d.load rfl _ _ (by rw [List.length_drop]; omega), ← List.drop_drop, Nat.mul_comm ind 8,
      feed_next_word]
    rfl
  rw [crc32c32Bytes]
  simp only [hload 0 (by decide), hload 1 (by decide), hload 2 (by decide), hload 3 (by decide),
    Option.bind_eq_bind, Option.bind_some, Segments.rows, hfeed 0 (by decide),
    hfeed 1 (by decide), hfeed 2 (by decide), hfeed 3 (by decide)]

/-- A loop over an index, each turn of which takes one value to the next. -/
theorem foldlM_range {σ : Type} (f : σ → ℕ → Option σ) (g : ℕ → σ) (n : ℕ)
    (h : ∀ i < n, f (g i) i = some (g (i + 1))) : (List.range n).foldlM f (g 0) = some (g n) := by
  induction n with
  | zero => rfl
  | succ n ih =>
    rw [List.range_succ, List.foldlM_append, ih fun i hi => h i (by omega)]
    simp [h n (by omega)]

theorem crc32c256Bytes_rows (hcrc : crc32c.Feeds polynomial) (R : BitVec 32) (P : List (BitVec 8))
    (hP : 1024 ≤ P.length) (ind : ℕ) (hind : ind < 4) :
    crc32c256Bytes crc32c P ind (.rows polynomial R P (ind * 8)) =
      some (.rows polynomial R P ((ind + 1) * 8)) := by
  rw [crc32c256Bytes, Nat.add_mul]
  exact foldlM_range (fun s i => crc32c32Bytes crc32c P (ind * 8 + i) s)
    (fun i => Segments.rows polynomial R P (ind * 8 + i)) 8
    fun i hi => crc32c32Bytes_rows hcrc R P hP (ind * 8 + i) (by omega)

theorem crc32c1024Bytes_eq (hcrc : crc32c.Feeds polynomial) (R : BitVec 32) (P : List (BitVec 8))
    (hP : 1024 ≤ P.length) :
    crc32c1024Bytes crc32c P ⟨R, 0#32, 0#32, 0#32⟩ = some (.rows polynomial R P 32) :=
  foldlM_range (fun s ind => crc32c256Bytes crc32c P ind s)
    (fun ind => Segments.rows polynomial R P (ind * 8)) 4
    fun ind hind => crc32c256Bytes_rows hcrc R P hP ind hind

end Rows

/-! ## The merge -/

section Merge

variable {vmull_p64 : BitVec 64 → BitVec 64 → BitVec 128} {crc32c : Acle}

-- The constants move a register on by one, two and three segments and the last 8 bytes.
set_option maxRecDepth 100000 in
theorem bits_k2 : bits 0x82f63b78#32 2079 0x80000000#32 = 0xdcb17aa4#32 := by decide +kernel

set_option maxRecDepth 100000 in
theorem bits_k1 : bits 0x82f63b78#32 4127 0x80000000#32 = 0xbd6f81f8#32 := by
  rw [show 4127 = 2048 + 2079 from rfl, bits_add, bits_k2]
  decide +kernel

set_option maxRecDepth 100000 in
theorem bits_k0 : bits 0x82f63b78#32 6175 0x80000000#32 = 0x8d96551c#32 := by
  rw [show 6175 = 2048 + 4127 from rfl, bits_add, bits_k1]
  decide +kernel

theorem residue_vmullLow (hmul : ∀ a b, vmull_p64 a b = clmul 128 a b) (n : ℕ)
    (crc k : BitVec 32) (hk : bits 0x82f63b78#32 n 0x80000000#32 = k) :
    residue 0x82f63b78#32 (vmullLow vmull_p64 crc (k.setWidth 64)) =
      x 0x82f63b78#32 ^ (n + 1) * residue 0x82f63b78#32 crc := by
  rw [vmullLow, hmul, clmul_registers, residue_clmul_registers, residue_of_bits hk, pow_succ]
  ring

/-- The message of the segments and the last 8 bytes. -/
theorem messageResidue_segments (P : List (BitVec 8)) (hP : 1032 ≤ P.length) :
    messageResidue 0x82f63b78#32 (P.take 1032) =
      x 0x82f63b78#32 ^ 6208 * messageResidue 0x82f63b78#32 ((P.drop (256 * 0)).take 256) +
      x 0x82f63b78#32 ^ 4160 * messageResidue 0x82f63b78#32 ((P.drop (256 * 1)).take 256) +
      x 0x82f63b78#32 ^ 2112 * messageResidue 0x82f63b78#32 ((P.drop (256 * 2)).take 256) +
      x 0x82f63b78#32 ^ 64 * messageResidue 0x82f63b78#32 ((P.drop (256 * 3)).take 256) +
      messageResidue 0x82f63b78#32 ((P.drop 1024).take 8) := by
  have hsplit : P.take 1032 = (P.drop (256 * 0)).take 256 ++ ((P.drop (256 * 1)).take 256 ++
      ((P.drop (256 * 2)).take 256 ++ ((P.drop (256 * 3)).take 256 ++ (P.drop 1024).take 8))) := by
    rw [show 1032 = 256 + (256 + (256 + (256 + 8))) from rfl]
    simp only [List.take_add, List.drop_drop, List.drop_zero, Nat.mul_zero]
  rw [hsplit]
  simp only [messageResidue_append, List.length_append, List.length_take, List.length_drop]
  have hlen (k n : ℕ) (h : k + n ≤ 1032) : min n (P.length - k) = n := by omega
  rw [hlen 1024 8 (by decide), hlen (256 * 3) 256 (by decide), hlen (256 * 2) 256 (by decide),
    hlen (256 * 1) 256 (by decide)]
  ring

/-- **The merge is one register over the segments and the last 8 bytes.** -/
theorem merge_rows (hcrc : crc32c.Feeds 0x82f63b78#32) (hmul : ∀ a b, vmull_p64 a b = clmul 128 a b)
    (R : BitVec 32) (P : List (BitVec 8)) (hP : 1032 ≤ P.length) :
    merge crc32c vmull_p64 (.rows 0x82f63b78#32 R P 32) (word ((P.drop 1024).take 8)) =
      feed 0x82f63b78#32 R (P.take 1032) := by
  apply residue_injective 0x82f63b78#32
  have hlen (k n : ℕ) (h : k + n ≤ 1032) : ((P.drop k).take n).length = n := by
    rw [List.length_take, List.length_drop]
    omega
  have hm : residue 0x82f63b78#32 (word ((P.drop 1024).take 8) : BitVec 64) =
      messageResidue 0x82f63b78#32 ((P.drop 1024).take 8) :=
    residue_word _ _ (by rw [hlen 1024 8 (by decide)])
  have ht2 := residue_vmullLow hmul 2079 (.rows 0x82f63b78#32 R P 32 : Segments).crc2 _ bits_k2
  have ht1 := residue_vmullLow hmul 4127 (.rows 0x82f63b78#32 R P 32 : Segments).crc1 _ bits_k1
  have ht0 := residue_vmullLow hmul 6175 (.rows 0x82f63b78#32 R P 32 : Segments).crc0 _ bits_k0
  rw [show (0xdcb17aa4#32).setWidth 64 = 0xdcb17aa4#64 by decide] at ht2
  rw [show (0xbd6f81f8#32).setWidth 64 = 0xbd6f81f8#64 by decide] at ht1
  rw [show (0x8d96551c#32).setWidth 64 = 0x8d96551c#64 by decide] at ht0
  rw [merge]
  simp only [residue_xor, hcrc.d.residue rfl, ht0, ht1, ht2, hm, residue_zero]
  simp only [Segments.rows, residue_feed _ (by decide : 8 ≤ 32), residue_zero,
    messageResidue_segments P hP, hlen (256 * 0) (8 * 32) (by decide), List.length_take_of_le hP]
  ring

end Merge

/-! ## Every step feeds what it passes -/

section Steps

variable {vmull_p64 : BitVec 64 → BitVec 64 → BitVec 128} {crc32c : Acle}

theorem Cursor.feedSegments_eq (hcrc : crc32c.Feeds 0x82f63b78#32)
    (hmul : ∀ a b, vmull_p64 a b = clmul 128 a b) (s : Cursor) (hs : s.Within)
    (hn : 1032 ≤ s.no_of_bytes.toNat) :
    ∃ s', s.feedSegments crc32c vmull_p64 = some s' ∧ s.Advances 0x82f63b78#32 s' ∧
      s'.no_of_bytes.toNat = s.no_of_bytes.toNat - 1032 := by
  have hlen : 1032 ≤ s.M.length := hn.trans hs
  have hrows := crc32c1024Bytes_eq hcrc s.R s.M (by omega)
  have hload : (load (s.M.drop 1024) : Option (BitVec 64)) =
      some (word ((s.M.drop 1024).take 8)) :=
    load_eq _ (by rw [List.length_drop]; omega)
  have hleft : (s.no_of_bytes - 1032#32).toNat = s.no_of_bytes.toNat - 1032 :=
    BitVec.toNat_sub_of_le (by rw [BitVec.le_def]; exact hn)
  refine ⟨⟨(s.M.drop 1024).drop 8, s.no_of_bytes - 1032#32,
    ReflectedCrc.feed 0x82f63b78#32 s.R (s.M.take 1032)⟩, ?_, ⟨?_, ?_⟩, hleft⟩
  · rw [feedSegments, hrows]
    simp only [Option.bind_eq_bind, Option.bind_some, hload, merge_rows hcrc hmul s.R s.M hlen]
  · rw [Within, hleft, List.drop_drop, List.length_drop]
    exact Nat.sub_le_sub_right hs _
  · have hsplit : s.no_of_bytes.toNat = 1032 + (s.no_of_bytes.toNat - 1032) := by omega
    rw [rest, rest, hleft, List.drop_drop]
    conv_rhs => rw [hsplit, List.take_add, ReflectedCrc.feed_append]

theorem Cursor.feedSegmentsWhile_eq (hcrc : crc32c.Feeds 0x82f63b78#32)
    (hmul : ∀ a b, vmull_p64 a b = clmul 128 a b) (fuel : ℕ) (s : Cursor) (hs : s.Within)
    (hfuel : s.no_of_bytes.toNat < fuel) :
    ∃ s', s.feedSegmentsWhile crc32c vmull_p64 fuel = some s' ∧ s.Advances 0x82f63b78#32 s' ∧
      s'.no_of_bytes.toNat ≤ s.no_of_bytes.toNat := by
  induction fuel generalizing s with
  | zero => omega
  | succ fuel ih =>
    have hiff : 1032#32 ≤ s.no_of_bytes ↔ 1032 ≤ s.no_of_bytes.toNat := BitVec.le_def
    rw [feedSegmentsWhile]
    by_cases hn : 1032 ≤ s.no_of_bytes.toNat
    · obtain ⟨s₁, hfeed, hadv, hleft⟩ := feedSegments_eq hcrc hmul s hs hn
      obtain ⟨s', hloop, hadv', hend⟩ := ih s₁ hadv.within (by omega)
      refine ⟨s', ?_, ⟨hadv'.within, hadv'.rest.trans hadv.rest⟩, by omega⟩
      rw [if_pos (hiff.mpr hn), hfeed]
      exact hloop
    · rw [if_neg (mt hiff.mp hn)]
      exact ⟨s, rfl, ⟨hs, rfl⟩, le_rfl⟩

variable {polynomial : BitVec 32}

/-- A bit of the number of bytes: set, its bytes are fed; clear, nothing is. -/
theorem Cursor.feedBit_eq {w k : ℕ} {crc : BitVec 32 → BitVec w → BitVec 32}
    (hfeeds : Feeds polynomial crc) (hw : 8 * (w / 8) = w) (h32 : w < 2 ^ 32) (hk : w / 8 = k)
    (M : List (BitVec 8)) (n R : BitVec 32) (hbit : n.toNat &&& k = 0 ∨ n.toNat &&& k = k)
    (hM : n.toNat &&& k ≤ M.length) :
    Cursor.feedBit crc ⟨M, n, R⟩ = some ⟨M.drop (n.toNat &&& k), n,
      ReflectedCrc.feed polynomial R (M.take (n.toNat &&& k))⟩ := by
  subst hk
  have hiff : n &&& BitVec.ofNat 32 (w / 8) = 0 ↔ n.toNat &&& (w / 8) = 0 := by
    rw [← BitVec.toNat_inj, BitVec.toNat_and, BitVec.toNat_ofNat, Nat.mod_eq_of_lt (by omega)]
    rfl
  rw [feedBit]
  by_cases hzero : n.toNat &&& (w / 8) = 0
  · rw [if_neg (not_not_intro (hiff.mpr hzero)), hzero]
    rfl
  · have hone := hbit.resolve_left hzero
    rw [hone] at hM
    rw [if_pos (mt hiff.mp hzero), hone, load_eq M hM]
    simp only [Option.bind_eq_bind, Option.bind_some, hfeeds.load hw R M hM]

/-- Less than 8 bytes left: their bits feed them all. -/
theorem Cursor.feedBits_eq (hcrc : crc32c.Feeds polynomial) (s : Cursor) (hs : s.Within)
    (hn : s.no_of_bytes.toNat < 8) :
    (do
      let s ← s.feedBit crc32c.w
      let s ← s.feedBit crc32c.h
      let s ← s.feedBit crc32c.b
      some s.R) = some (s.rest polynomial) := by
  have hbits (n : ℕ) (h : n < 8) : (n &&& 4) + ((n &&& 2) + (n &&& 1)) = n ∧
      (n &&& 4 = 0 ∨ n &&& 4 = 4) ∧ (n &&& 2 = 0 ∨ n &&& 2 = 2) ∧ (n &&& 1 = 0 ∨ n &&& 1 = 1) := by
    revert n
    decide
  obtain ⟨hsum, hfour, htwo, hone⟩ := hbits _ hn
  obtain ⟨M, n, R⟩ := s
  replace hs : n.toNat ≤ M.length := hs
  dsimp only at hsum hfour htwo hone
  rw [feedBit_eq hcrc.w rfl (by decide) (by decide : 32 / 8 = 4) M n R hfour (by omega)]
  simp only [Option.bind_eq_bind, Option.bind_some]
  rw [feedBit_eq hcrc.h rfl (by decide) (by decide : 16 / 8 = 2) _ n _ htwo
    (by rw [List.length_drop]; omega)]
  simp only [Option.bind_some]
  rw [feedBit_eq hcrc.b rfl (by decide) (by decide : 8 / 8 = 1) _ n _ hone
    (by simp only [List.length_drop]; omega)]
  simp only [Option.bind_some, rest]
  conv_rhs => rw [← hsum, List.take_add, List.take_add, ReflectedCrc.feed_append,
    ReflectedCrc.feed_append]

end Steps

theorem crc32cHardwareArmv8_eq (crc32c : Acle) (hcrc : crc32c.Feeds 0x82f63b78#32)
    (vmull_p64 : BitVec 64 → BitVec 64 → BitVec 128) (hmul : ∀ a b, vmull_p64 a b = clmul 128 a b)
    (data : List (BitVec 8)) (no_of_bytes prev : BitVec 32)
    (hdata : no_of_bytes.toNat ≤ data.length) :
    crc32cHardwareArmv8 crc32c vmull_p64 data no_of_bytes prev =
      some (feed 0x82f63b78#32 prev (data.take no_of_bytes.toNat)) := by
  obtain ⟨s₁, hsegments, hadv₁, hn₁⟩ := Cursor.feedSegmentsWhile_eq hcrc hmul
    (no_of_bytes.toNat + 1) ⟨data, no_of_bytes, prev⟩ hdata (by simp)
  obtain ⟨s₂, hdoubles, hadv₂, hn₂⟩ := Cursor.feedWhile_eq hcrc.d rfl (by decide) (by decide)
    (no_of_bytes.toNat + 1) s₁ hadv₁.within (Nat.lt_succ_of_le hn₁)
  rw [crc32cHardwareArmv8, hsegments]
  simp only [Option.bind_eq_bind, Option.bind_some, hdoubles]
  exact (Cursor.feedBits_eq hcrc s₂ hadv₂.within hn₂).trans
    (congrArg some (hadv₂.rest.trans hadv₁.rest))

/-- **When the four segments give the checksum of the tables**: for the data, where
the bytes they never see leave the register; for a length, below 4 GiB. -/
theorem armv8_agrees_iff (crc32c : Acle) (hcrc : crc32c.Feeds 0x82f63b78#32)
    (vmull_p64 : BitVec 64 → BitVec 64 → BitVec 128)
    (hmul : ∀ a b, vmull_p64 a b = clmul 128 a b) :
    (∀ (data : List (BitVec 8)) (remainder : BitVec 32),
      crc32cByArmv8 crc32c vmull_p64 data data.length remainder =
          Crc.crc32c data data.length remainder ↔
        data.length < 2 ^ 32 ∨ RestIdle 0x82f63b78#32 data remainder) ∧
    (∀ n, (∀ data, data.length = n → ∀ remainder,
      crc32cByArmv8 crc32c vmull_p64 data data.length remainder =
        Crc.crc32c data data.length remainder) ↔ n < 2 ^ 32) := by
  have hiff (data : List (BitVec 8)) (remainder : BitVec 32) :
      crc32cByArmv8 crc32c vmull_p64 data data.length remainder =
          Crc.crc32c data data.length remainder ↔
        data.length < 2 ^ 32 ∨ RestIdle 0x82f63b78#32 data remainder := by
    have hle : (BitVec.ofNat 32 data.length).toNat ≤ data.length := by
      rw [toNat_length]
      exact Nat.mod_le _ _
    rw [crc32cByArmv8, crc32cHardwareArmv8_eq crc32c hcrc vmull_p64 hmul data _ _ hle, toNat_length,
      crc32c_eq]
    exact crc_take_iff data remainder
  refine ⟨hiff, fun n => ?_⟩
  simp only [hiff]
  exact forall_idle_iff (by decide) n

/-- With instructions that do what they are documented to, two kilobytes. -/
theorem armv8_agrees_bitwise :
    crc32cByArmv8 (bitwiseAcle 0x82f63b78#32) (clmul 128) (List.replicate 2048 1#8) 2048 0#32 =
      Crc.crc32c (List.replicate 2048 1#8) 2048 0#32 := by
  have hlen : (List.replicate 2048 1#8).length = 2048 := List.length_replicate
  have hagrees := ((armv8_agrees_iff (bitwiseAcle 0x82f63b78#32) (bitwiseAcle_feeds _) (clmul 128)
    fun _ _ => rfl).1 (List.replicate 2048 1#8) 0#32).mpr (.inl (by rw [hlen]; decide))
  rwa [hlen] at hagrees

end Crc
