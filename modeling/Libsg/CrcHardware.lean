/-
# The checksums by instruction

`crc32c_hardware_32bit.h`, `crc32c_hardware_armv7.h`, `crc32_hardware_armv7.h` and
the branches of `crc.cpp` that call them, on a little-endian host.  The intrinsics
are a parameter: each feeds the bytes of its operand to the register, the lowest
first.

The functions take the number of bytes as a `uint32_t`, and `crc.cpp` hands them a
`size_t`: what they checksum is the first `length % 2 ^ 32` bytes.

* `Cursor` : the locals `M`, `no_of_bytes` and `R` of the functions;
* `Cursor.rest` : what is still to be fed, kept by every step;
* `hardware_agrees_iff` : the comparison with the tables.
-/
import Libsg.Crc

namespace Crc

/-! ## The functions -/

/-- `*(uint8_t*)M` up to `*(uint64_t*)M`, by the width. -/
def load {w : ℕ} (M : List (BitVec 8)) : Option (BitVec w) :=
  if w / 8 ≤ M.length then some (ReflectedCrc.word (M.take (w / 8))) else none

/-- `_mm_crc32_u8`, `_mm_crc32_u16` and `_mm_crc32_u32`. -/
structure Sse42 where
  u8 : BitVec 32 → BitVec 8 → BitVec 32
  u16 : BitVec 32 → BitVec 16 → BitVec 32
  u32 : BitVec 32 → BitVec 32 → BitVec 32

/-- `__crc32b`, `__crc32h`, `__crc32w` and `__crc32d`, or `__crc32cb` and so on. -/
structure Acle where
  b : BitVec 32 → BitVec 8 → BitVec 32
  h : BitVec 32 → BitVec 16 → BitVec 32
  w : BitVec 32 → BitVec 32 → BitVec 32
  d : BitVec 32 → BitVec 64 → BitVec 32

/-- The locals of the functions. -/
structure Cursor where
  M : List (BitVec 8)
  no_of_bytes : BitVec 32
  R : BitVec 32

/-- `R = crc(R, *M); no_of_bytes -= n; M += n`, for an operand of `n` bytes. -/
def Cursor.feed {w : ℕ} (crc : BitVec 32 → BitVec w → BitVec 32) (s : Cursor) : Option Cursor := do
  let m ← load s.M
  some ⟨s.M.drop (w / 8), s.no_of_bytes - BitVec.ofNat 32 (w / 8), crc s.R m⟩

/-- `while (no_of_bytes >= n)`. -/
def Cursor.feedWhile {w : ℕ} (crc : BitVec 32 → BitVec w → BitVec 32) :
    ℕ → Cursor → Option Cursor
  | 0, _ => none
  | fuel + 1, s =>
    if BitVec.ofNat 32 (w / 8) ≤ s.no_of_bytes then do
      let s ← s.feed crc
      s.feedWhile crc fuel
    else
      some s

/-- `if (no_of_bytes >= n)`. -/
def Cursor.feedIf {w : ℕ} (crc : BitVec 32 → BitVec w → BitVec 32) (s : Cursor) : Option Cursor :=
  if BitVec.ofNat 32 (w / 8) ≤ s.no_of_bytes then s.feed crc else some s

/-- `if (no_of_bytes == 1)`. -/
def Cursor.feedLast (crc : BitVec 32 → BitVec 8 → BitVec 32) (s : Cursor) : Option Cursor :=
  if s.no_of_bytes = 1 then s.feed crc else some s

def crc32cHardware32bit (mm : Sse42) (data : List (BitVec 8)) (no_of_bytes prev : BitVec 32) :
    Option (BitVec 32) := do
  let s ← Cursor.feedWhile mm.u32 (no_of_bytes.toNat + 1) ⟨data, no_of_bytes, prev⟩
  let s ← s.feedIf mm.u16
  let s ← s.feedLast mm.u8
  some s.R

/-- The body that the two functions of the ARM share. -/
def hardwareArmv7 (crc : Acle) (data : List (BitVec 8)) (no_of_bytes prev : BitVec 32) :
    Option (BitVec 32) := do
  let s ← Cursor.feedWhile crc.d (no_of_bytes.toNat + 1) ⟨data, no_of_bytes, prev⟩
  let s ← s.feedIf crc.w
  let s ← s.feedIf crc.h
  let s ← s.feedLast crc.b
  some s.R

def crc32cHardwareArmv7 (crc32c : Acle) (data : List (BitVec 8)) (no_of_bytes prev : BitVec 32) :
    Option (BitVec 32) :=
  hardwareArmv7 crc32c data no_of_bytes prev

def crc32HardwareArmv7 (crc32 : Acle) (data : List (BitVec 8)) (no_of_bytes prev : BitVec 32) :
    Option (BitVec 32) :=
  hardwareArmv7 crc32 data no_of_bytes prev

/-- `crc32c` with `HAVE_HARDWARE_CRC32C_32`: the length becomes a `uint32_t`. -/
def crc32cBy32bit (mm : Sse42) (data : List (BitVec 8)) (length : ℕ) (remainder : BitVec 32) :
    Option (BitVec 32) :=
  (crc32cHardware32bit mm data (BitVec.ofNat 32 length) (~~~ remainder)).map fun R => ~~~ R

/-- `crc32c` with `HAVE_HARDWARE_CRC32C_ARMV7`. -/
def crc32cByArmv7 (crc32c : Acle) (data : List (BitVec 8)) (length : ℕ) (remainder : BitVec 32) :
    Option (BitVec 32) :=
  (crc32cHardwareArmv7 crc32c data (BitVec.ofNat 32 length) (~~~ remainder)).map fun R => ~~~ R

/-- `crc32` with `HAVE_HARDWARE_CRC32_ARMV7`. -/
def crc32ByArmv7 (crc32 : Acle) (data : List (BitVec 8)) (length : ℕ) (remainder : BitVec 32) :
    Option (BitVec 32) :=
  (crc32HardwareArmv7 crc32 data (BitVec.ofNat 32 length) (~~~ remainder)).map fun R => ~~~ R

/-! ## The intrinsics -/

/-- The bytes of an operand, the lowest first. -/
def operandBytes {w : ℕ} (v : BitVec w) : List (BitVec 8) :=
  (List.range (w / 8)).map fun k => (v >>> (8 * k)).setWidth 8

/-- The instruction feeds the bytes of its operand. -/
def Feeds (polynomial : BitVec 32) {w : ℕ} (crc : BitVec 32 → BitVec w → BitVec 32) : Prop :=
  ∀ R v, crc R v = ReflectedCrc.feed polynomial R (operandBytes v)

structure Sse42.Feeds (mm : Sse42) (polynomial : BitVec 32) : Prop where
  u8 : Crc.Feeds polynomial mm.u8
  u16 : Crc.Feeds polynomial mm.u16
  u32 : Crc.Feeds polynomial mm.u32

structure Acle.Feeds (crc : Acle) (polynomial : BitVec 32) : Prop where
  b : Crc.Feeds polynomial crc.b
  h : Crc.Feeds polynomial crc.h
  w : Crc.Feeds polynomial crc.w
  d : Crc.Feeds polynomial crc.d

/-- Instructions that do nothing else. -/
def bitwiseSse42 (polynomial : BitVec 32) : Sse42 where
  u8 R v := ReflectedCrc.feed polynomial R (operandBytes v)
  u16 R v := ReflectedCrc.feed polynomial R (operandBytes v)
  u32 R v := ReflectedCrc.feed polynomial R (operandBytes v)

def bitwiseAcle (polynomial : BitVec 32) : Acle where
  b R v := ReflectedCrc.feed polynomial R (operandBytes v)
  h R v := ReflectedCrc.feed polynomial R (operandBytes v)
  w R v := ReflectedCrc.feed polynomial R (operandBytes v)
  d R v := ReflectedCrc.feed polynomial R (operandBytes v)

theorem bitwiseSse42_feeds (polynomial : BitVec 32) :
    (bitwiseSse42 polynomial).Feeds polynomial :=
  ⟨fun _ _ => rfl, fun _ _ => rfl, fun _ _ => rfl⟩

theorem bitwiseAcle_feeds (polynomial : BitVec 32) : (bitwiseAcle polynomial).Feeds polynomial :=
  ⟨fun _ _ => rfl, fun _ _ => rfl, fun _ _ => rfl, fun _ _ => rfl⟩

theorem operandBytes_word {w : ℕ} (bs : List (BitVec 8)) (hbs : 8 * bs.length = w) :
    operandBytes (ReflectedCrc.word bs : BitVec w) = bs := by
  have hlen : w / 8 = bs.length := by omega
  apply List.ext_getElem
  · simp only [operandBytes, List.length_map, List.length_range, hlen]
  · intro k _ hk
    simp only [operandBytes, List.getElem_map, List.getElem_range]
    exact ReflectedCrc.word_byte bs (by omega) k hk

/-! ## Every step feeds what it passes -/

/-- The cursor is within the data. -/
def Cursor.Within (s : Cursor) : Prop := s.no_of_bytes.toNat ≤ s.M.length

/-- The register once all the bytes have been fed. -/
def Cursor.rest (polynomial : BitVec 32) (s : Cursor) : BitVec 32 :=
  ReflectedCrc.feed polynomial s.R (s.M.take s.no_of_bytes.toNat)

/-- What a piece of the functions does to the cursor. -/
structure Cursor.Advances (polynomial : BitVec 32) (s s' : Cursor) : Prop where
  within : s'.Within
  rest : s'.rest polynomial = s.rest polynomial

section Steps

variable {polynomial : BitVec 32} {w : ℕ} {crc : BitVec 32 → BitVec w → BitVec 32}

theorem Cursor.feed_eq (hfeeds : Feeds polynomial crc) (hw : 8 * (w / 8) = w) (s : Cursor)
    (hs : s.Within) (hn : w / 8 ≤ s.no_of_bytes.toNat) :
    ∃ s', s.feed crc = some s' ∧ s.Advances polynomial s' ∧
      s'.no_of_bytes.toNat = s.no_of_bytes.toNat - w / 8 := by
  have hlen : w / 8 ≤ s.M.length := hn.trans hs
  have hbytes : operandBytes (ReflectedCrc.word (s.M.take (w / 8)) : BitVec w) = s.M.take (w / 8) :=
    operandBytes_word _ (by rw [List.length_take_of_le hlen, hw])
  have hk : (BitVec.ofNat 32 (w / 8)).toNat = w / 8 := by
    rw [BitVec.toNat_ofNat]
    exact Nat.mod_eq_of_lt (by omega)
  have hleft : (s.no_of_bytes - BitVec.ofNat 32 (w / 8)).toNat = s.no_of_bytes.toNat - w / 8 := by
    rw [BitVec.toNat_sub_of_le (by rw [BitVec.le_def, hk]; exact hn), hk]
  refine ⟨⟨s.M.drop (w / 8), s.no_of_bytes - BitVec.ofNat 32 (w / 8),
    ReflectedCrc.feed polynomial s.R (s.M.take (w / 8))⟩, ?_, ⟨?_, ?_⟩, hleft⟩
  · rw [Cursor.feed, load, if_pos hlen]
    simp only [Option.bind_eq_bind, Option.bind_some, hfeeds _ _, hbytes]
  · rw [Within, hleft, List.length_drop]
    exact Nat.sub_le_sub_right hs _
  · have hsplit : s.no_of_bytes.toNat = w / 8 + (s.no_of_bytes.toNat - w / 8) := by omega
    rw [rest, rest, hleft]
    conv_rhs => rw [hsplit, List.take_add, ReflectedCrc.feed_append]

theorem ofNat_le_iff (hw : w < 2 ^ 32) (n : BitVec 32) :
    BitVec.ofNat 32 (w / 8) ≤ n ↔ w / 8 ≤ n.toNat := by
  rw [BitVec.le_def, BitVec.toNat_ofNat, Nat.mod_eq_of_lt (by omega)]

theorem Cursor.feedWhile_eq (hfeeds : Feeds polynomial crc) (hw : 8 * (w / 8) = w)
    (hpos : 0 < w) (h32 : w < 2 ^ 32) (fuel : ℕ) (s : Cursor) (hs : s.Within)
    (hfuel : s.no_of_bytes.toNat < fuel) :
    ∃ s', Cursor.feedWhile crc fuel s = some s' ∧ s.Advances polynomial s' ∧
      s'.no_of_bytes.toNat < w / 8 := by
  induction fuel generalizing s with
  | zero => omega
  | succ fuel ih =>
    have hiff := ofNat_le_iff h32 s.no_of_bytes
    rw [feedWhile]
    by_cases hn : w / 8 ≤ s.no_of_bytes.toNat
    · obtain ⟨s₁, hfeed, hadv, hleft⟩ := feed_eq hfeeds hw s hs hn
      obtain ⟨s', hloop, hadv', hend⟩ := ih s₁ hadv.within (by omega)
      refine ⟨s', ?_, ⟨hadv'.within, hadv'.rest.trans hadv.rest⟩, hend⟩
      rw [if_pos (hiff.mpr hn), hfeed]
      exact hloop
    · rw [if_neg (mt hiff.mp hn)]
      exact ⟨s, rfl, ⟨hs, rfl⟩, by omega⟩

theorem Cursor.feedIf_eq (hfeeds : Feeds polynomial crc) (hw : 8 * (w / 8) = w) (h32 : w < 2 ^ 32)
    (s : Cursor) (hs : s.Within) (hn : s.no_of_bytes.toNat < 2 * (w / 8)) :
    ∃ s', s.feedIf crc = some s' ∧ s.Advances polynomial s' ∧ s'.no_of_bytes.toNat < w / 8 := by
  have hiff := ofNat_le_iff h32 s.no_of_bytes
  rw [feedIf]
  by_cases hle : w / 8 ≤ s.no_of_bytes.toNat
  · obtain ⟨s', hfeed, hadv, hleft⟩ := feed_eq hfeeds hw s hs hle
    rw [if_pos (hiff.mpr hle)]
    exact ⟨s', hfeed, hadv, by omega⟩
  · rw [if_neg (mt hiff.mp hle)]
    exact ⟨s, rfl, ⟨hs, rfl⟩, by omega⟩

end Steps

section Functions

variable {polynomial : BitVec 32}

/-- With one byte left at most, the register has seen all of them behind the last step. -/
theorem Cursor.feedLast_eq {crc : BitVec 32 → BitVec 8 → BitVec 32}
    (hfeeds : Feeds polynomial crc) (s : Cursor) (hs : s.Within) (hn : s.no_of_bytes.toNat < 2) :
    ∃ s', s.feedLast crc = some s' ∧ s'.R = s.rest polynomial := by
  rw [feedLast]
  by_cases hone : s.no_of_bytes = 1
  · have hle : 8 / 8 ≤ s.no_of_bytes.toNat := by rw [hone]; decide
    obtain ⟨s', hfeed, hadv, hleft⟩ := feed_eq hfeeds rfl s hs hle
    have hzero : s'.no_of_bytes.toNat = 0 := by omega
    rw [if_pos hone]
    refine ⟨s', hfeed, ?_⟩
    rw [← hadv.rest, rest, hzero]
    rfl
  · have hzero : s.no_of_bytes.toNat = 0 := by
      have hne : s.no_of_bytes.toNat ≠ 1 := fun h => hone (BitVec.eq_of_toNat_eq h)
      omega
    rw [if_neg hone]
    refine ⟨s, rfl, ?_⟩
    rw [rest, hzero]
    rfl

theorem crc32cHardware32bit_eq (mm : Sse42) (hmm : mm.Feeds polynomial) (data : List (BitVec 8))
    (no_of_bytes prev : BitVec 32) (hdata : no_of_bytes.toNat ≤ data.length) :
    crc32cHardware32bit mm data no_of_bytes prev =
      some (ReflectedCrc.feed polynomial prev (data.take no_of_bytes.toNat)) := by
  obtain ⟨s₁, hwords, hadv₁, hn₁⟩ := Cursor.feedWhile_eq hmm.u32 rfl (by omega) (by omega)
    (no_of_bytes.toNat + 1) ⟨data, no_of_bytes, prev⟩ hdata (by simp)
  obtain ⟨s₂, hpair, hadv₂, hn₂⟩ := Cursor.feedIf_eq hmm.u16 rfl (by omega) s₁ hadv₁.within
    (by omega)
  obtain ⟨s₃, hbyte, hR⟩ := Cursor.feedLast_eq hmm.u8 s₂ hadv₂.within (by omega)
  rw [crc32cHardware32bit, hwords]
  simp only [Option.bind_eq_bind, Option.bind_some, hpair, hbyte]
  rw [hR, hadv₂.rest, hadv₁.rest]
  rfl

theorem hardwareArmv7_eq (crc : Acle) (hcrc : crc.Feeds polynomial) (data : List (BitVec 8))
    (no_of_bytes prev : BitVec 32) (hdata : no_of_bytes.toNat ≤ data.length) :
    hardwareArmv7 crc data no_of_bytes prev =
      some (ReflectedCrc.feed polynomial prev (data.take no_of_bytes.toNat)) := by
  obtain ⟨s₁, hdoubles, hadv₁, hn₁⟩ := Cursor.feedWhile_eq hcrc.d rfl (by omega) (by omega)
    (no_of_bytes.toNat + 1) ⟨data, no_of_bytes, prev⟩ hdata (by simp)
  obtain ⟨s₂, hword, hadv₂, hn₂⟩ := Cursor.feedIf_eq hcrc.w rfl (by omega) s₁ hadv₁.within
    (by omega)
  obtain ⟨s₃, hpair, hadv₃, hn₃⟩ := Cursor.feedIf_eq hcrc.h rfl (by omega) s₂ hadv₂.within
    (by omega)
  obtain ⟨s₄, hbyte, hR⟩ := Cursor.feedLast_eq hcrc.b s₃ hadv₃.within (by omega)
  rw [hardwareArmv7, hdoubles]
  simp only [Option.bind_eq_bind, Option.bind_some, hword, hpair, hbyte]
  rw [hR, hadv₃.rest, hadv₂.rest, hadv₁.rest]
  rfl

/-! ## The length that is handed on -/

/-- The bytes behind the first `length % 2 ^ 32` leave the register as they find it. -/
def RestIdle (polynomial : BitVec 32) (data : List (BitVec 8)) (remainder : BitVec 32) : Prop :=
  ReflectedCrc.feed polynomial
      (ReflectedCrc.feed polynomial (~~~ remainder) (data.take (data.length % 2 ^ 32)))
      (data.drop (data.length % 2 ^ 32)) =
    ReflectedCrc.feed polynomial (~~~ remainder) (data.take (data.length % 2 ^ 32))

theorem crc_take_iff (data : List (BitVec 8)) (remainder : BitVec 32) :
    some (ReflectedCrc.crc polynomial (data.take (data.length % 2 ^ 32)) remainder) =
        some (ReflectedCrc.crc polynomial data remainder) ↔
      data.length < 2 ^ 32 ∨ RestIdle polynomial data remainder := by
  have hwhole : ReflectedCrc.crc polynomial data remainder = ~~~ ReflectedCrc.feed polynomial
      (ReflectedCrc.feed polynomial (~~~ remainder) (data.take (data.length % 2 ^ 32)))
      (data.drop (data.length % 2 ^ 32)) := by
    rw [← feed_block]
    rfl
  rw [Option.some_inj, hwhole, ReflectedCrc.crc, BitVec.not_inj, eq_comm]
  refine ⟨.inr, ?_⟩
  rintro (hshort | hidle)
  · rw [Nat.mod_eq_of_lt hshort, List.drop_length, List.take_length]
    rfl
  · exact hidle

/-- A one behind zeros is seen by an empty register. -/
theorem not_restIdle (hpoly : polynomial.getLsbD 31 = true) (n : ℕ) (hn : 2 ^ 32 ≤ n) :
    ¬ RestIdle polynomial (List.replicate (n - 1) 0#8 ++ [1#8]) 0xFFFFFFFF#32 := by
  have hlen : (List.replicate (n - 1) 0#8 ++ [1#8]).length = n := by simp; omega
  have hk : n % 2 ^ 32 ≤ n - 1 := by omega
  have hfront : (List.replicate (n - 1) 0#8 ++ [1#8]).take (n % 2 ^ 32) =
      List.replicate (n % 2 ^ 32) 0#8 := by
    rw [List.take_append_of_le_length (by simpa using hk), List.take_replicate, Nat.min_eq_left hk]
  have hone : ReflectedCrc.feed polynomial 0#32 [1#8] ≠ 0#32 := by
    intro hzero
    exact absurd ((ReflectedCrc.bits_eq_zero polynomial hpoly 8 _).mp hzero) (by decide)
  have hnot : ~~~ 0xFFFFFFFF#32 = 0#32 := by decide
  rw [RestIdle, hlen, ← feed_block, hfront, hnot, ReflectedCrc.feed_append, ReflectedCrc.feed_zeros,
    ReflectedCrc.feed_zeros, ReflectedCrc.bits_of_zero, ReflectedCrc.bits_of_zero]
  exact hone

theorem forall_idle_iff (hpoly : polynomial.getLsbD 31 = true) (n : ℕ) :
    (∀ data : List (BitVec 8), data.length = n → ∀ remainder,
      data.length < 2 ^ 32 ∨ RestIdle polynomial data remainder) ↔ n < 2 ^ 32 := by
  constructor
  · intro hall
    by_contra hlong
    have hlen : (List.replicate (n - 1) 0#8 ++ [1#8]).length = n := by simp; omega
    rcases hall _ hlen 0xFFFFFFFF#32 with hshort | hidle
    · exact hlong (hlen ▸ hshort)
    · exact not_restIdle hpoly n (by omega) hidle
  · rintro hshort data rfl remainder
    exact .inl hshort

theorem toNat_length (data : List (BitVec 8)) :
    (BitVec.ofNat 32 data.length).toNat = data.length % 2 ^ 32 :=
  BitVec.toNat_ofNat _ _

theorem crc32cBy32bit_eq (mm : Sse42) (hmm : mm.Feeds 0x82f63b78#32) (data : List (BitVec 8))
    (remainder : BitVec 32) :
    crc32cBy32bit mm data data.length remainder =
      some (ReflectedCrc.crc 0x82f63b78#32 (data.take (data.length % 2 ^ 32)) remainder) := by
  have hle : (BitVec.ofNat 32 data.length).toNat ≤ data.length := by
    rw [toNat_length]
    exact Nat.mod_le _ _
  rw [crc32cBy32bit, crc32cHardware32bit_eq mm hmm data _ _ hle, toNat_length]
  rfl

theorem hardwareArmv7_length (crc : Acle) (hcrc : crc.Feeds polynomial) (data : List (BitVec 8))
    (remainder : BitVec 32) :
    (hardwareArmv7 crc data (BitVec.ofNat 32 data.length) (~~~ remainder)).map (fun R => ~~~ R) =
      some (ReflectedCrc.crc polynomial (data.take (data.length % 2 ^ 32)) remainder) := by
  have hle : (BitVec.ofNat 32 data.length).toNat ≤ data.length := by
    rw [toNat_length]
    exact Nat.mod_le _ _
  rw [hardwareArmv7_eq crc hcrc data _ _ hle, toNat_length]
  rfl

end Functions

section Dispatch

variable {data : List (BitVec 8)} {remainder : BitVec 32}

theorem crc32cBy32bit_agrees (mm : Sse42) (hmm : mm.Feeds 0x82f63b78#32) :
    crc32cBy32bit mm data data.length remainder = crc32c data data.length remainder ↔
      data.length < 2 ^ 32 ∨ RestIdle 0x82f63b78#32 data remainder := by
  rw [crc32cBy32bit_eq mm hmm, crc32c_eq, crc_take_iff]

theorem crc32cByArmv7_agrees (crc : Acle) (hcrc : crc.Feeds 0x82f63b78#32) :
    crc32cByArmv7 crc data data.length remainder = crc32c data data.length remainder ↔
      data.length < 2 ^ 32 ∨ RestIdle 0x82f63b78#32 data remainder := by
  rw [crc32cByArmv7, crc32cHardwareArmv7, hardwareArmv7_length crc hcrc, crc32c_eq, crc_take_iff]

theorem crc32ByArmv7_agrees (crc : Acle) (hcrc : crc.Feeds 0xEDB88320#32) :
    crc32ByArmv7 crc data data.length remainder = crc32 data data.length remainder ↔
      data.length < 2 ^ 32 ∨ RestIdle 0xEDB88320#32 data remainder := by
  rw [crc32ByArmv7, crc32HardwareArmv7, hardwareArmv7_length crc hcrc, crc32_eq, crc_take_iff]

end Dispatch

/-- **When the instructions give the checksum of the tables**: for the data, where
the bytes they never see leave the register; for a length, below 4 GiB. -/
theorem hardware_agrees_iff (mm : Sse42) (armC arm : Acle) (hmm : mm.Feeds 0x82f63b78#32)
    (harmC : armC.Feeds 0x82f63b78#32) (harm : arm.Feeds 0xEDB88320#32) :
    (∀ (data : List (BitVec 8)) (remainder : BitVec 32),
      (crc32cBy32bit mm data data.length remainder = crc32c data data.length remainder ↔
        data.length < 2 ^ 32 ∨ RestIdle 0x82f63b78#32 data remainder) ∧
      (crc32cByArmv7 armC data data.length remainder = crc32c data data.length remainder ↔
        data.length < 2 ^ 32 ∨ RestIdle 0x82f63b78#32 data remainder) ∧
      (crc32ByArmv7 arm data data.length remainder = crc32 data data.length remainder ↔
        data.length < 2 ^ 32 ∨ RestIdle 0xEDB88320#32 data remainder)) ∧
    (∀ n,
      ((∀ data, data.length = n → ∀ remainder,
        crc32cBy32bit mm data data.length remainder = crc32c data data.length remainder) ↔
          n < 2 ^ 32) ∧
      ((∀ data, data.length = n → ∀ remainder,
        crc32cByArmv7 armC data data.length remainder = crc32c data data.length remainder) ↔
          n < 2 ^ 32) ∧
      ((∀ data, data.length = n → ∀ remainder,
        crc32ByArmv7 arm data data.length remainder = crc32 data data.length remainder) ↔
          n < 2 ^ 32)) := by
  refine ⟨fun data remainder => ⟨crc32cBy32bit_agrees mm hmm, crc32cByArmv7_agrees armC harmC,
    crc32ByArmv7_agrees arm harm⟩, fun n => ?_⟩
  simp only [crc32cBy32bit_agrees mm hmm, crc32cByArmv7_agrees armC harmC,
    crc32ByArmv7_agrees arm harm]
  exact ⟨forall_idle_iff (by decide) n, forall_idle_iff (by decide) n,
    forall_idle_iff (by decide) n⟩

/-- With instructions that do what they are documented to: right below 4 GiB, not from there on. -/
theorem hardware_agrees_bitwise :
    (∀ data, data.length = 2 ^ 32 - 1 → ∀ remainder,
      crc32cBy32bit (bitwiseSse42 0x82f63b78#32) data data.length remainder =
        crc32c data data.length remainder) ∧
    ¬ ∀ data, data.length = 2 ^ 32 → ∀ remainder,
      crc32ByArmv7 (bitwiseAcle 0xEDB88320#32) data data.length remainder =
        crc32 data data.length remainder := by
  have hlengths := (hardware_agrees_iff (bitwiseSse42 0x82f63b78#32) (bitwiseAcle 0x82f63b78#32)
    (bitwiseAcle 0xEDB88320#32) (bitwiseSse42_feeds _) (bitwiseAcle_feeds _)
    (bitwiseAcle_feeds _)).2
  refine ⟨(hlengths (2 ^ 32 - 1)).1.mpr (by omega), fun hall => ?_⟩
  exact absurd ((hlengths (2 ^ 32)).2.2.mp hall) (by omega)

/-- 4 GiB, zeros but for the last byte: no instruction sees it. -/
theorem hardware_disagrees :
    crc32cBy32bit (bitwiseSse42 0x82f63b78#32) (List.replicate (2 ^ 32 - 1) 0#8 ++ [1#8])
        (2 ^ 32) 0xFFFFFFFF#32 ≠
      crc32c (List.replicate (2 ^ 32 - 1) 0#8 ++ [1#8]) (2 ^ 32) 0xFFFFFFFF#32 ∧
    crc32cByArmv7 (bitwiseAcle 0x82f63b78#32) (List.replicate (2 ^ 32 - 1) 0#8 ++ [1#8])
        (2 ^ 32) 0xFFFFFFFF#32 ≠
      crc32c (List.replicate (2 ^ 32 - 1) 0#8 ++ [1#8]) (2 ^ 32) 0xFFFFFFFF#32 ∧
    crc32ByArmv7 (bitwiseAcle 0xEDB88320#32) (List.replicate (2 ^ 32 - 1) 0#8 ++ [1#8])
        (2 ^ 32) 0xFFFFFFFF#32 ≠
      crc32 (List.replicate (2 ^ 32 - 1) 0#8 ++ [1#8]) (2 ^ 32) 0xFFFFFFFF#32 := by
  obtain ⟨data, hdata⟩ : ∃ data, data = List.replicate (2 ^ 32 - 1) 0#8 ++ [1#8] := ⟨_, rfl⟩
  have hlen : data.length = 2 ^ 32 := by
    rw [hdata, List.length_append, List.length_replicate]
    rfl
  have hnot {polynomial : BitVec 32} (hpoly : polynomial.getLsbD 31 = true) :
      ¬ (data.length < 2 ^ 32 ∨ RestIdle polynomial data 0xFFFFFFFF#32) := by
    rw [hlen, not_or, hdata]
    exact ⟨by omega, not_restIdle hpoly (2 ^ 32) le_rfl⟩
  rw [← hdata, ← hlen]
  exact ⟨mt (crc32cBy32bit_agrees _ (bitwiseSse42_feeds _)).mp (hnot (by decide)),
    mt (crc32cByArmv7_agrees _ (bitwiseAcle_feeds _)).mp (hnot (by decide)),
    mt (crc32ByArmv7_agrees _ (bitwiseAcle_feeds _)).mp (hnot (by decide))⟩

end Crc
