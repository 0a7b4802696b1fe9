/-
# Reflected cyclic redundancy checks, bit by bit and byte by byte

Nothing here names the library under verification.  A reflected CRC register of
any width is shifted right, the polynomial being added when a one falls out; a
byte is fed by adding it to the low end and shifting eight times.  Shifting is
linear, so what a word does to the register splits into what each of its bytes
does, which is the ground of every table-driven CRC.

* `bits` : the register after a number of shifts;
* `feed` : the register after a byte string;
* `slice` : what one byte has become after a number of bytes;
* `feed_word` : a byte string as wide as the register at most is fed at once;
* `crc_append` : a checksum can be continued.
-/
import Mathlib.Logic.Function.Iterate
import Mathlib.Tactic.Ring

namespace ReflectedCrc

variable {w : ℕ} (poly : BitVec w)

/-- One shift of the register. -/
def bitStep (r : BitVec w) : BitVec w :=
  if r.getLsbD 0 then (r >>> 1) ^^^ poly else r >>> 1

/-- `n` shifts of the register. -/
def bits (n : ℕ) (r : BitVec w) : BitVec w := (bitStep poly)^[n] r

/-- One byte fed to the register. -/
def byteStep (r : BitVec w) (b : BitVec 8) : BitVec w := bits poly 8 (r ^^^ b.setWidth w)

/-- A byte string fed to the register. -/
def feed (r : BitVec w) (bs : List (BitVec 8)) : BitVec w := bs.foldl (byteStep poly) r

/-- The checksum: the register is inverted before and after. -/
def crc (bs : List (BitVec 8)) (rem : BitVec w) : BitVec w := ~~~ feed poly (~~~ rem) bs

/-! ## Shifting is linear -/

theorem bitStep_xor (x y : BitVec w) :
    bitStep poly (x ^^^ y) = bitStep poly x ^^^ bitStep poly y := by
  simp only [bitStep, BitVec.getLsbD_xor, BitVec.ushiftRight_xor_distrib]
  cases x.getLsbD 0 <;> cases y.getLsbD 0
  · rfl
  · simp [BitVec.xor_assoc]
  · simp only [Bool.true_bne, Bool.not_false, if_true, Bool.false_eq_true, if_false]
    rw [BitVec.xor_assoc, BitVec.xor_comm (y >>> 1), ← BitVec.xor_assoc]
  · simp only [bne_self_eq_false, Bool.false_eq_true, if_false, if_true]
    rw [BitVec.xor_assoc, BitVec.xor_comm poly, BitVec.xor_assoc, BitVec.xor_self,
      BitVec.xor_zero]

theorem bits_add (m n : ℕ) (r : BitVec w) : bits poly (m + n) r = bits poly m (bits poly n r) :=
  Function.iterate_add_apply _ m n r

@[simp] theorem bits_zero (r : BitVec w) : bits poly 0 r = r := rfl

theorem bits_xor (n : ℕ) (x y : BitVec w) :
    bits poly n (x ^^^ y) = bits poly n x ^^^ bits poly n y := by
  induction n generalizing x y with
  | zero => rfl
  | succ n ih =>
    rw [bits_add, bits_add, bits_add]
    show bits poly n (bitStep poly (x ^^^ y)) = _
    rw [bitStep_xor, ih]
    rfl

@[simp] theorem bitStep_zero : bitStep poly 0#w = 0#w := by simp [bitStep]

@[simp] theorem bits_of_zero (n : ℕ) : bits poly n 0#w = 0#w :=
  Function.iterate_fixed (bitStep_zero poly) n

/-- With its highest coefficient in the polynomial, a one that falls out is seen. -/
theorem bitStep_eq_zero (hpoly : poly.getLsbD (w - 1) = true) (r : BitVec w) :
    bitStep poly r = 0#w ↔ r = 0#w := by
  constructor
  · intro hstep
    have hlow : r.getLsbD 0 = false := by
      by_contra hone
      rw [bitStep, if_pos (by simpa using hone)] at hstep
      have htop := congrArg (fun x => x.getLsbD (w - 1)) hstep
      rw [BitVec.getLsbD_xor, hpoly, BitVec.getLsbD_ushiftRight,
        BitVec.getLsbD_of_ge r _ (by omega)] at htop
      simp at htop
    rw [bitStep, if_neg (by simp [hlow])] at hstep
    apply BitVec.eq_of_getLsbD_eq
    intro i hi
    cases i with
    | zero => simp [hlow]
    | succ i =>
      have hbit := congrArg (fun x => x.getLsbD i) hstep
      rw [BitVec.getLsbD_ushiftRight, Nat.add_comm] at hbit
      simpa using hbit
  · rintro rfl
    exact bitStep_zero poly

theorem bits_eq_zero (hpoly : poly.getLsbD (w - 1) = true) (n : ℕ) (r : BitVec w) :
    bits poly n r = 0#w ↔ r = 0#w := by
  induction n with
  | zero => rfl
  | succ n ih =>
    rw [Nat.add_comm, bits_add]
    show bitStep poly (bits poly n r) = 0#w ↔ _
    rw [bitStep_eq_zero poly hpoly, ih]

/-- Zeros that fall out leave no trace. -/
theorem bits_of_low_clear (r : BitVec w) (n : ℕ) (h : ∀ i < n, r.getLsbD i = false) :
    bits poly n r = r >>> n := by
  induction n with
  | zero => simp
  | succ n ih =>
    have hlow : (r >>> n).getLsbD 0 = false := by simpa using h n (by omega)
    rw [Nat.add_comm, bits_add, ih fun i hi => h i (by omega)]
    show bitStep poly (r >>> n) = _
    rw [bitStep, hlow, Nat.add_comm, BitVec.shiftRight_add]
    rfl

/-- A byte fed to the left of a register that has room for it. -/
theorem bits_shiftLeft (x : BitVec w) (h : ∀ i, w ≤ i + 8 → x.getLsbD i = false) :
    bits poly 8 (x <<< 8) = x := by
  rw [bits_of_low_clear]
  · apply BitVec.eq_of_getLsbD_eq
    intro i hi
    rw [BitVec.getLsbD_ushiftRight, BitVec.getLsbD_shiftLeft]
    by_cases hw : 8 + i < w
    · simp [hw]
    · simp [hw, h i (by omega)]
  · intro i hi
    simp [hi]

/-- A register is its low byte and what lies above. -/
theorem low_xor_high (x : BitVec w) :
    x = (x.setWidth 8).setWidth w ^^^ (x &&& ~~~ (BitVec.allOnes 8).setWidth w) := by
  apply BitVec.eq_of_getLsbD_eq
  intro i hi
  simp only [BitVec.getLsbD_xor, BitVec.getLsbD_and, BitVec.getLsbD_not, BitVec.getLsbD_setWidth,
    BitVec.getLsbD_allOnes]
  by_cases h8 : i < 8
  · simp [hi, h8]
  · simp [hi, h8]

/-- Eight shifts: the low byte is shifted out, the rest moves down. -/
theorem bits_eight (x : BitVec w) :
    bits poly 8 x = bits poly 8 ((x.setWidth 8).setWidth w) ^^^ x >>> 8 := by
  have hhigh : bits poly 8 (x &&& ~~~ (BitVec.allOnes 8).setWidth w) = x >>> 8 := by
    rw [bits_of_low_clear]
    · apply BitVec.eq_of_getLsbD_eq
      intro i hi
      simp only [BitVec.getLsbD_ushiftRight, BitVec.getLsbD_and, BitVec.getLsbD_not,
        BitVec.getLsbD_setWidth, BitVec.getLsbD_allOnes]
      by_cases hw : 8 + i < w
      · simp [hw]
      · simp [hw, BitVec.getLsbD_of_ge x (8 + i) (by omega)]
    · intro i hi
      by_cases hw : i < w
      · simp only [BitVec.getLsbD_and, BitVec.getLsbD_not, BitVec.getLsbD_setWidth,
          BitVec.getLsbD_allOnes]
        simp [hi, hw]
      · simp [BitVec.getLsbD_of_ge x i (by omega)]
  conv_lhs => rw [low_xor_high x]
  rw [bits_xor, hhigh]

/-! ## Slices -/

/-- What the byte `b` has become `n + 1` bytes later. -/
def slice (n : ℕ) (b : BitVec 8) : BitVec w := bits poly (8 * (n + 1)) (b.setWidth w)

theorem slice_succ (n : ℕ) (b : BitVec 8) :
    slice poly (n + 1) b = slice poly 0 ((slice poly n b).setWidth 8) ^^^ slice poly n b >>> 8 := by
  have hsplit : 8 * (n + 1 + 1) = 8 + 8 * (n + 1) := by ring
  rw [slice, hsplit, bits_add, bits_eight]
  rfl

/-- `n + 1` bytes later the low byte has become its slice, and the rest has moved on. -/
theorem bits_bytes (n : ℕ) (x : BitVec w) :
    bits poly (8 * (n + 1)) x =
      slice poly n (x.setWidth 8) ^^^ bits poly (8 * n) (x >>> 8) := by
  have hsplit : 8 * (n + 1) = 8 * n + 8 := by ring
  rw [slice, hsplit, bits_add, bits_eight, bits_xor, bits_add]

/-! ## Byte strings -/

@[simp] theorem feed_nil (r : BitVec w) : feed poly r [] = r := rfl

@[simp] theorem feed_cons (r : BitVec w) (b : BitVec 8) (bs : List (BitVec 8)) :
    feed poly r (b :: bs) = feed poly (byteStep poly r b) bs := rfl

theorem feed_append (r : BitVec w) (as bs : List (BitVec 8)) :
    feed poly r (as ++ bs) = feed poly (feed poly r as) bs :=
  List.foldl_append

/-- The same bytes fed to two registers: their difference is shifted. -/
theorem feed_xor_feed (r s : BitVec w) (bs : List (BitVec 8)) :
    feed poly r bs ^^^ feed poly s bs = bits poly (8 * bs.length) (r ^^^ s) := by
  induction bs generalizing r s with
  | nil => rfl
  | cons b bs ih =>
    have hbyte : byteStep poly r b ^^^ byteStep poly s b = bits poly 8 (r ^^^ s) := by
      rw [byteStep, byteStep, ← bits_xor, BitVec.xor_comm s, ← BitVec.xor_assoc,
        BitVec.xor_assoc r, BitVec.xor_self, BitVec.xor_zero]
    have hsplit : 8 * (bs.length + 1) = 8 * bs.length + 8 := by ring
    rw [feed_cons, feed_cons, ih, hbyte, List.length_cons, hsplit, bits_add]

/-- Two registers agree after the same bytes iff their difference has been shifted out. -/
theorem feed_eq_feed (r s : BitVec w) (bs : List (BitVec 8)) :
    feed poly r bs = feed poly s bs ↔ bits poly (8 * bs.length) (r ^^^ s) = 0#w := by
  rw [← feed_xor_feed, BitVec.xor_eq_zero_iff]

/-- Zero bytes only shift. -/
theorem feed_zeros (r : BitVec w) (n : ℕ) :
    feed poly r (List.replicate n 0#8) = bits poly (8 * n) r := by
  induction n generalizing r with
  | zero => rfl
  | succ n ih =>
    have hsplit : 8 * (n + 1) = 8 * n + 8 := by ring
    rw [List.replicate_succ, feed_cons, ih, byteStep, BitVec.setWidth_zero, BitVec.xor_zero, hsplit,
      bits_add]

/-- A checksum can be continued from the checksum of what went before. -/
theorem crc_append (as bs : List (BitVec 8)) (rem : BitVec w) :
    crc poly (as ++ bs) rem = crc poly bs (crc poly as rem) := by
  rw [crc, feed_append, crc, crc, BitVec.not_not]

/-- The bytes read as one number, the first the lowest. -/
def word : List (BitVec 8) → BitVec w
  | [] => 0#w
  | b :: bs => b.setWidth w ^^^ (word bs) <<< 8

theorem word_getLsbD_of_ge (bs : List (BitVec 8)) (i : ℕ) (h : 8 * bs.length ≤ i) :
    (word bs : BitVec w).getLsbD i = false := by
  induction bs generalizing i with
  | nil => simp [word]
  | cons b bs ih =>
    rw [List.length_cons] at h
    have hb : b.getLsbD i = false := BitVec.getLsbD_of_ge b i (by omega)
    rw [word, BitVec.getLsbD_xor, BitVec.getLsbD_setWidth, BitVec.getLsbD_shiftLeft, hb,
      ih (i - 8) (by omega)]
    simp

/-- Adding byte by byte adds the numbers. -/
theorem word_xor (as bs : List (BitVec 8)) (h : as.length = bs.length) :
    (word (List.zipWith (· ^^^ ·) as bs) : BitVec w) = word as ^^^ word bs := by
  induction as generalizing bs with
  | nil =>
    rw [List.length_eq_zero_iff.mp h.symm]
    exact BitVec.xor_self.symm
  | cons a as ih =>
    cases bs with
    | nil => simp at h
    | cons b bs =>
      rw [List.zipWith_cons_cons, word, word, word, ih bs (by simpa using h), BitVec.setWidth_xor,
        BitVec.shiftLeft_xor_distrib]
      ac_rfl

theorem word_getLsbD (bs : List (BitVec 8)) (h : 8 * bs.length ≤ w) (k : ℕ) (hk : k < bs.length)
    (j : ℕ) (hj : j < 8) : (word bs : BitVec w).getLsbD (8 * k + j) = bs[k].getLsbD j := by
  induction bs generalizing k with
  | nil => simp at hk
  | cons b bs ih =>
    rw [List.length_cons] at h hk
    rw [word, BitVec.getLsbD_xor, BitVec.getLsbD_setWidth, BitVec.getLsbD_shiftLeft,
      decide_eq_true (by omega : 8 * k + j < w), Bool.true_and, Bool.true_and]
    cases k with
    | zero => simp [hj]
    | succ k =>
      have hrest : 8 * (k + 1) + j - 8 = 8 * k + j := by omega
      have hpast : b.getLsbD (8 * (k + 1) + j) = false := BitVec.getLsbD_of_ge b _ (by omega)
      rw [hpast, Bool.false_xor, decide_eq_false (by omega : ¬ 8 * (k + 1) + j < 8), Bool.not_false,
        Bool.true_and, hrest, ih (by omega) k (by omega), List.getElem_cons_succ]

/-- A byte of the number, read back. -/
theorem word_byte (bs : List (BitVec 8)) (h : 8 * bs.length ≤ w) (k : ℕ) (hk : k < bs.length) :
    ((word bs : BitVec w) >>> (8 * k)).setWidth 8 = bs[k] := by
  apply BitVec.eq_of_getLsbD_eq
  intro j hj
  rw [BitVec.getLsbD_setWidth, BitVec.getLsbD_ushiftRight, word_getLsbD bs h k hk j hj,
    decide_eq_true hj, Bool.true_and]

/-- **Bytes that fit the register are fed at once**: add them, then shift. -/
theorem feed_word (r : BitVec w) (bs : List (BitVec 8)) (h : 8 * bs.length ≤ w) :
    feed poly r bs = bits poly (8 * bs.length) (r ^^^ word bs) := by
  induction bs generalizing r with
  | nil => simp [word]
  | cons b bs ih =>
    rw [List.length_cons] at h
    have hroom : bits poly 8 (word bs <<< 8 : BitVec w) = word bs :=
      bits_shiftLeft poly _ fun i hi => word_getLsbD_of_ge bs i (by omega)
    have hsplit : 8 * (bs.length + 1) = 8 * bs.length + 8 := by ring
    rw [feed_cons, ih _ (by omega), List.length_cons, hsplit, bits_add, word, ← BitVec.xor_assoc,
      bits_xor poly 8, hroom]
    rfl

/-- Feeding more bytes than the register holds: what it held moves on beside them. -/
theorem feed_append_word (r : BitVec w) (as bs : List (BitVec 8)) (h : 8 * bs.length ≤ w) :
    feed poly r (as ++ bs) =
      bits poly (8 * bs.length) (feed poly r as) ^^^ bits poly (8 * bs.length) (word bs) := by
  rw [feed_append, feed_word poly _ bs h, bits_xor]

end ReflectedCrc
