/-
# Integers written to and read from streams of bytes

`bytes.h` for integral types of every size.  A byte swap goes through the memory of the host,
but what `to_bytes()` writes and what `to_numeric()` reads depends on the order that is asked
for only (`toBytes_eq`, `toNumeric_eq`).  So a stream that is written on one host is read back
on any (`decodeAll_encodeAll`).

`to_numeric_and_advance_iterator()` moves the iterator after it has read, and the check
against the end throws before: a read that does not fit leaves the iterator where it was.  But
the check forms the iterator at which the read would end.  Where the storage ends before, there
is no such iterator, and the read is undefined (`reads_back_iff`).
-/
import Libsg.MachineInteger

open MachineInteger

namespace Bytes

/-! ## The model -/

inductive Fault
  | runtimeError (message : String)
  /-- memory is read that does not belong to the stream -/
  | badRead
  /-- an iterator is moved past the end of the storage, which is undefined -/
  | pastEnd
  deriving DecidableEq, Repr

def notEnough : Fault := .runtimeError "not enough bytes to convert the required item"

section Host

variable {t : IntType}

def byteswap (host : Endian) (value : Value t) : Value t :=
  load host t (store host value).reverse

/-- `to_bytes(input, dstEndian)` -/
def toBytes (host : Endian) (input : Value t) (dstEndian : Endian) : List UInt8 :=
  store host (if dstEndian ≠ host then byteswap host input else input)

/-- `to_numeric(buff, src_endian)`, where `buff` is the memory from the pointer on. -/
def toNumericAt (host : Endian) (t : IntType) (buff : List UInt8) (srcEndian : Endian) :
    Except Fault (Value t) :=
  if buff.length < t.size then .error .badRead
  else
    let val := load host t (buff.take t.size)
    .ok (if host ≠ srcEndian then byteswap host val else val)

/-- `it + n`, where iterators are the positions of the storage the stream lies in. -/
def moved (storage : List UInt8) (it n : ℕ) : Except Fault ℕ :=
  if it + n ≤ storage.length then .ok (it + n) else .error .pastEnd

/-- `to_numeric(it, end, src_endian)` -/
def toNumeric (host : Endian) (t : IntType) (storage : List UInt8) (it last : ℕ)
    (srcEndian : Endian) : Except Fault (Value t) := do
  let next ← moved storage it t.size
  if next > last then .error notEnough
  else toNumericAt host t (storage.drop it) srcEndian

/-- What is returned or thrown, and the iterator afterwards. -/
def toNumericAndAdvanceIterator (host : Endian) (t : IntType) (storage : List UInt8) (it last : ℕ)
    (srcEndian : Endian) : Except Fault (Value t) × ℕ :=
  match toNumeric host t storage it last srcEndian with
  | .error fault => (.error fault, it)
  | .ok val =>
    match moved storage it t.size with
    | .error fault => (.error fault, it)
    | .ok it' => (.ok val, it')

end Host

/-! ## Lists of integers -/

/-- The type and the order of an integer in a stream. -/
structure Request where
  type : IntType
  order : Endian

structure Item where
  type : IntType
  value : Value type
  order : Endian

def Item.request (item : Item) : Request := ⟨item.type, item.order⟩

def encodeAll (host : Endian) (items : List Item) : List UInt8 :=
  items.flatMap fun item => toBytes host item.value item.order

structure Decoded where
  values : List Item
  fault : Option Fault
  it : ℕ

/-- The calls in turn, up to the first that throws. -/
def decodeAll (host : Endian) (storage : List UInt8) (last : ℕ) : ℕ → List Request → Decoded
  | it, [] => ⟨[], none, it⟩
  | it, r :: requests =>
    match toNumericAndAdvanceIterator host r.type storage it last r.order with
    | (.error fault, it') => ⟨[], some fault, it'⟩
    | (.ok val, it') =>
      let rest := decodeAll host storage last it' requests
      { rest with values := ⟨r.type, val, r.order⟩ :: rest.values }

/-! ## What is claimed of them -/

/-- Of the items and one more, the storage holds the first `n` bytes, and `back` behind their end.
The items that fit are read, and the next read throws and leaves the iterator where it was. -/
def ThrowsAtCut (encoder decoder : Endian) (items : List Item) (further : Request) (n : ℕ)
    (back : List UInt8) : Prop :=
  ∃ front cut rest, items.map Item.request ++ [further] = front.map Item.request ++ cut :: rest ∧
    front <+: items ∧ (encodeAll encoder front).length ≤ n ∧
    n < (encodeAll encoder front).length + cut.type.size ∧
    decodeAll decoder ((encodeAll encoder items).take n ++ back) n 0
      (items.map Item.request ++ [further]) =
        ⟨front, some notEnough, (encodeAll encoder front).length⟩

/-- What the first of the reads that does not fit into `n` bytes lacks. -/
def overrun : List Request → ℕ → ℕ
  | [], _ => 0
  | r :: requests, n =>
    if r.type.size ≤ n then overrun requests (n - r.type.size) else r.type.size - n

/-! ## What a single call does -/

section Call

variable {t : IntType}

/-- A swap stores what the other order would. -/
theorem store_byteswap (host : Endian) (value : Value t) :
    store host (byteswap host value) = (store host value).reverse := by
  apply store_load
  rw [List.length_reverse, length_store]

theorem toBytes_eq (host : Endian) (input : Value t) (dstEndian : Endian) :
    toBytes host input dstEndian = store dstEndian input := by
  unfold toBytes
  by_cases hsame : dstEndian = host
  · rw [if_neg fun hne => hne hsame, hsame]
  · rw [if_pos hsame, store_byteswap, store_reverse (Ne.symm hsame)]

example : toBytes .little (Value.ofBits ⟨2, false, by decide⟩ 0xAABB) .big = [0xAA, 0xBB] := by
  decide

theorem length_toBytes (host : Endian) (input : Value t) (dstEndian : Endian) :
    (toBytes host input dstEndian).length = t.size := by
  rw [toBytes_eq, length_store]

theorem toNumericAt_eq (host : Endian) {buff : List UInt8} (hlen : t.size ≤ buff.length)
    (srcEndian : Endian) :
    toNumericAt host t buff srcEndian = .ok (load srcEndian t (buff.take t.size)) := by
  have htake : (buff.take t.size).length = t.size := List.length_take_of_le hlen
  unfold toNumericAt
  rw [if_neg (Nat.not_lt.mpr hlen)]
  apply congrArg Except.ok
  by_cases hsame : host = srcEndian
  · rw [if_neg fun hne => hne hsame, hsame]
  · -- both have the same bytes in the order of the source
    rw [if_pos hsame, ← load_store srcEndian (byteswap host _), ← store_reverse hsame,
      store_byteswap, List.reverse_reverse, store_load host htake]

theorem moved_eq {storage : List UInt8} {it n : ℕ} (h : it + n ≤ storage.length) :
    moved storage it n = .ok (it + n) :=
  if_pos h

theorem toNumeric_eq (host : Endian) {storage : List UInt8} {it last : ℕ}
    (hfits : it + t.size ≤ last) (hlast : last ≤ storage.length) (srcEndian : Endian) :
    toNumericAndAdvanceIterator host t storage it last srcEndian =
      (.ok (load srcEndian t ((storage.drop it).take t.size)), it + t.size) := by
  have hlen : t.size ≤ (storage.drop it).length := by
    rw [List.length_drop]
    omega
  have hval : toNumeric host t storage it last srcEndian =
      .ok (load srcEndian t ((storage.drop it).take t.size)) := by
    rw [toNumeric, moved_eq (Nat.le_trans hfits hlast), ← toNumericAt_eq host hlen]
    exact if_neg (Nat.not_lt.mpr hfits)
  rw [toNumericAndAdvanceIterator, hval, moved_eq (Nat.le_trans hfits hlast)]

/-- A read that does not fit throws when the storage holds what it lacks; else it is undefined. -/
theorem toNumeric_short (host : Endian) {it last : ℕ} (hshort : last < it + t.size)
    (storage : List UInt8) (srcEndian : Endian) :
    toNumericAndAdvanceIterator host t storage it last srcEndian =
      (.error (if it + t.size ≤ storage.length then notEnough else .pastEnd), it) := by
  rw [toNumericAndAdvanceIterator]
  by_cases hinside : it + t.size ≤ storage.length
  · have hthrows : toNumeric host t storage it last srcEndian = .error notEnough := by
      rw [toNumeric, moved_eq hinside]
      exact if_pos hshort
    rw [hthrows, if_pos hinside]
  · have hundefined : toNumeric host t storage it last srcEndian = .error .pastEnd := by
      rw [toNumeric, moved, if_neg hinside]
      rfl
    rw [hundefined, if_neg hinside]

theorem notEnough_or_pastEnd {P : Prop} [Decidable P] :
    (if P then notEnough else .pastEnd) = notEnough ↔ P := by
  split
  · next hP => exact iff_of_true rfl hP
  · next hP => exact iff_of_false (by decide) hP

theorem toNumeric_throws_iff (host : Endian) {it last : ℕ} (hshort : last < it + t.size)
    (storage : List UInt8) (srcEndian : Endian) :
    toNumericAndAdvanceIterator host t storage it last srcEndian = (.error notEnough, it) ↔
      it + t.size ≤ storage.length := by
  rw [toNumeric_short host hshort, Prod.mk.injEq, Except.error.injEq, notEnough_or_pastEnd]
  exact and_iff_left rfl

end Call

/-! ## Reading back what was written -/

theorem encodeAll_append (host : Endian) (items others : List Item) :
    encodeAll host (items ++ others) = encodeAll host items ++ encodeAll host others :=
  List.flatMap_append

theorem encodeAll_cons (host : Endian) (item : Item) (items : List Item) :
    encodeAll host (item :: items) = toBytes host item.value item.order ++ encodeAll host items :=
  List.flatMap_cons

/-- An item that was written is read back where it stands. -/
theorem read_written (encoder decoder : Endian) (item : Item) (front back : List UInt8) {last : ℕ}
    (hfits : front.length + item.type.size ≤ last)
    (hlast : last ≤ (front ++ (toBytes encoder item.value item.order ++ back)).length) :
    toNumericAndAdvanceIterator decoder item.type
        (front ++ (toBytes encoder item.value item.order ++ back)) front.length last item.order =
      (.ok item.value, front.length + item.type.size) := by
  have hsize := length_toBytes encoder item.value item.order
  rw [toNumeric_eq decoder hfits hlast, List.drop_left, ← hsize, List.take_left, toBytes_eq,
    load_store]

theorem decodeAll_encodeAll (encoder decoder : Endian) (items : List Item)
    (front back : List UInt8) {last : ℕ}
    (hfits : front.length + (encodeAll encoder items).length ≤ last)
    (hlast : last ≤ (front ++ (encodeAll encoder items ++ back)).length) :
    decodeAll decoder (front ++ (encodeAll encoder items ++ back)) last front.length
        (items.map Item.request) =
      ⟨items, none, front.length + (encodeAll encoder items).length⟩ := by
  induction items generalizing front with
  | nil => rfl
  | cons item items ih =>
    rw [encodeAll_cons, List.append_assoc] at hlast ⊢
    rw [encodeAll_cons, List.length_append, length_toBytes] at hfits
    have hread := read_written encoder decoder item front (encodeAll encoder items ++ back)
      (by omega) hlast
    have hrest := ih (front ++ toBytes encoder item.value item.order)
    rw [List.length_append, length_toBytes, List.append_assoc] at hrest
    rw [List.map_cons, decodeAll, Item.request, hread]
    dsimp only
    rw [hrest (by omega) hlast, List.length_append, length_toBytes, Nat.add_assoc]

theorem decodeAll_append {host : Endian} {storage : List UInt8} {last : ℕ} {first : List Request}
    {it it' : ℕ} {values : List Item}
    (h : decodeAll host storage last it first = ⟨values, none, it'⟩) (second : List Request) :
    decodeAll host storage last it (first ++ second) =
      ⟨values ++ (decodeAll host storage last it' second).values,
        (decodeAll host storage last it' second).fault,
        (decodeAll host storage last it' second).it⟩ := by
  induction first generalizing it values with
  | nil =>
    cases h
    rfl
  | cons r first ih =>
    rw [decodeAll] at h
    rw [List.cons_append, decodeAll]
    split at h
    · cases h
    · next val it₁ hread =>
      dsimp only at h ⊢
      cases hrest : decodeAll host storage last it₁ first with
      | mk vs fault it₂ =>
        rw [hrest] at h
        cases h
        rw [ih hrest]
        rfl

/-- The read that `n` bytes of the items break off in, or the one behind them all. -/
theorem exists_cut (host : Endian) {items : List Item} (further : Request) {n : ℕ}
    (hn : n ≤ (encodeAll host items).length) :
    ∃ front cut rest, items.map Item.request ++ [further] = front.map Item.request ++ cut :: rest ∧
      front <+: items ∧ (encodeAll host front).length ≤ n ∧
      n + overrun (items.map Item.request ++ [further]) n =
        (encodeAll host front).length + cut.type.size ∧
      0 < overrun (items.map Item.request ++ [further]) n := by
  induction items generalizing n with
  | nil =>
    obtain rfl : n = 0 := Nat.le_zero.mp hn
    have hsize := further.type.size_pos
    have hover : overrun [further] 0 = further.type.size := if_neg (Nat.not_le.mpr hsize)
    refine ⟨[], further, [], rfl, List.nil_prefix, Nat.le_refl 0, ?_, ?_⟩
    · exact congrArg (0 + ·) hover
    · exact Nat.lt_of_lt_of_eq hsize hover.symm
  | cons item items ih =>
    rw [encodeAll_cons, List.length_append, length_toBytes] at hn
    have hover : overrun (item.request :: (items.map Item.request ++ [further])) n =
        if item.type.size ≤ n
        then overrun (items.map Item.request ++ [further]) (n - item.type.size)
        else item.type.size - n := rfl
    rw [List.map_cons, List.cons_append, hover]
    by_cases hfirst : item.type.size ≤ n
    -- the first item is whole: the cut is that of the others
    · obtain ⟨front, cut, rest, hsplit, hstart, hle, hreach, hpos⟩ :=
        @ih (n - item.type.size) (by omega)
      refine ⟨item :: front, cut, rest, ?_, ?_, ?_, ?_, ?_⟩
      · rw [hsplit]
        rfl
      · exact List.cons_prefix_cons.mpr ⟨rfl, hstart⟩
      · rw [encodeAll_cons, List.length_append, length_toBytes]
        omega
      · rw [encodeAll_cons, List.length_append, length_toBytes, if_pos hfirst]
        omega
      · rw [if_pos hfirst]
        exact hpos
    · refine ⟨[], item.request, _, rfl, List.nil_prefix, Nat.zero_le n, ?_, ?_⟩
      · rw [if_neg hfirst]
        show n + (item.type.size - n) = 0 + item.type.size
        omega
      · rw [if_neg hfirst]
        omega

/-- In front of the cut the items are read, and the iterator stays behind the last of them; the
next read throws or is undefined. -/
theorem decodeAll_cut (encoder decoder : Endian) {items : List Item} (further : Request) {n : ℕ}
    (hn : n ≤ (encodeAll encoder items).length) (back : List UInt8) :
    ∃ front cut rest, items.map Item.request ++ [further] = front.map Item.request ++ cut :: rest ∧
      front <+: items ∧ (encodeAll encoder front).length ≤ n ∧
      n < (encodeAll encoder front).length + cut.type.size ∧
      decodeAll decoder ((encodeAll encoder items).take n ++ back) n 0
        (items.map Item.request ++ [further]) =
        ⟨front, some (if overrun (items.map Item.request ++ [further]) n ≤ back.length
          then notEnough else .pastEnd), (encodeAll encoder front).length⟩ := by
  obtain ⟨front, cut, rest, hsplit, hstart, hle, hover, hpos⟩ := exists_cut encoder further hn
  refine ⟨front, cut, rest, hsplit, hstart, hle, by omega, ?_⟩
  obtain ⟨others, rfl⟩ := hstart
  have hlength : ((encodeAll encoder (front ++ others)).take n ++ back).length =
      n + back.length := by
    rw [List.length_append, List.length_take_of_le hn]
  have hstorage : (encodeAll encoder (front ++ others)).take n ++ back =
      [] ++ (encodeAll encoder front ++
        ((encodeAll encoder others).take (n - (encodeAll encoder front).length) ++ back)) := by
    rw [encodeAll_append, List.take_append, List.take_of_length_le hle, List.append_assoc,
      List.nil_append]
  have hfront : decodeAll decoder ((encodeAll encoder (front ++ others)).take n ++ back) n 0
      (front.map Item.request) = ⟨front, none, (encodeAll encoder front).length⟩ := by
    have hread := @decodeAll_encodeAll encoder decoder front []
      ((encodeAll encoder others).take (n - (encodeAll encoder front).length) ++ back) n
    rw [← hstorage, List.length_nil, Nat.zero_add] at hread
    exact hread hle (by omega)
  -- whether the read at the cut throws is decided by the storage behind the range
  have hcut : n < (encodeAll encoder front).length + cut.type.size := by omega
  have hshort := toNumeric_short decoder hcut
    ((encodeAll encoder (front ++ others)).take n ++ back) cut.order
  have hinside : (encodeAll encoder front).length + cut.type.size ≤ n + back.length ↔
      overrun ((front ++ others).map Item.request ++ [further]) n ≤ back.length := by
    omega
  simp only [hlength, hinside] at hshort
  generalize (if overrun ((front ++ others).map Item.request ++ [further]) n ≤ back.length
    then notEnough else Fault.pastEnd) = fault at hshort ⊢
  rw [hsplit, decodeAll_append hfront, decodeAll, hshort]
  dsimp only
  rw [List.append_nil]

theorem throwsAtCut_iff (encoder decoder : Endian) {items : List Item} (further : Request) {n : ℕ}
    (hn : n ≤ (encodeAll encoder items).length) (back : List UInt8) :
    ThrowsAtCut encoder decoder items further n back ↔
      overrun (items.map Item.request ++ [further]) n ≤ back.length := by
  obtain ⟨front, cut, rest, hsplit, hstart, hle, hlt, hread⟩ :=
    decodeAll_cut encoder decoder further hn back
  constructor
  · rintro ⟨front', -, -, -, -, -, -, hthrows⟩
    rw [hread] at hthrows
    have hfault := congrArg Decoded.fault hthrows
    exact notEnough_or_pastEnd.mp (Option.some.inj hfault)
  · intro hback
    rw [if_pos hback] at hread
    exact ⟨front, cut, rest, hsplit, hstart, hle, hlt, hread⟩

/-! ## Writing back what was read -/

theorem encodeAll_decodeAll (encoder decoder : Endian) {storage : List UInt8} {last : ℕ}
    {requests : List Request} {it it' : ℕ} {values : List Item} (hlast : last ≤ storage.length)
    (h : decodeAll decoder storage last it requests = ⟨values, none, it'⟩) :
    encodeAll encoder values = (storage.drop it).take (it' - it) ∧ it ≤ it' ∧
      values.map Item.request = requests := by
  induction requests generalizing it values with
  | nil =>
    cases h
    refine ⟨?_, Nat.le_refl _, rfl⟩
    rw [Nat.sub_self, List.take_zero]
    rfl
  | cons r requests ih =>
    rw [decodeAll] at h
    by_cases hfits : it + r.type.size ≤ last
    · rw [toNumeric_eq decoder hfits hlast] at h
      dsimp only at h
      cases hrest : decodeAll decoder storage last (it + r.type.size) requests with
      | mk vs fault it₂ =>
        rw [hrest] at h
        dsimp only at h
        obtain ⟨rfl, rfl, rfl⟩ := Decoded.mk.inj h
        obtain ⟨hbytes, hle, hrequests⟩ := ih hrest
        refine ⟨?_, by omega, ?_⟩
        · have htake : ((storage.drop it).take r.type.size).length = r.type.size := by
            rw [List.length_take, List.length_drop]
            omega
          have hsplit : it₂ - it = r.type.size + (it₂ - (it + r.type.size)) := by omega
          rw [encodeAll_cons, hbytes, toBytes_eq, store_load _ htake, hsplit, List.take_add,
            List.drop_drop]
        · rw [List.map_cons, hrequests]
          rfl
    · rw [toNumeric_short decoder (Nat.not_le.mp hfits)] at h
      cases h

/-- **What is written is read back**, on hosts of either order: the same values, up to the very
end; and what was read is written as it was.  A read that does not fit before the end, be it of a
further item or of a stream that breaks off, throws and leaves the iterator where it was if and
only if the storage goes on behind the end by as many bytes as the read lacks. -/
theorem reads_back_iff (encoder decoder : Endian) (items : List Item) :
    (∀ back, decodeAll decoder (encodeAll encoder items ++ back) (encodeAll encoder items).length 0
      (items.map Item.request) = ⟨items, none, (encodeAll encoder items).length⟩) ∧
      (∀ t storage it last order, last < it + t.size →
        (toNumericAndAdvanceIterator decoder t storage it last order = (.error notEnough, it) ↔
          it + t.size ≤ storage.length)) ∧
      (∀ further, ∀ n ≤ (encodeAll encoder items).length, ∀ back,
        (ThrowsAtCut encoder decoder items further n back ↔
          overrun (items.map Item.request ++ [further]) n ≤ back.length)) ∧
      ∀ storage last requests values it, last ≤ storage.length →
        decodeAll decoder storage last 0 requests = ⟨values, none, it⟩ →
        encodeAll encoder values = storage.take it ∧ values.map Item.request = requests := by
  refine ⟨?_, ?_, ?_, ?_⟩
  · intro back
    have h := @decodeAll_encodeAll encoder decoder items [] back (encodeAll encoder items).length
    rw [List.nil_append, List.length_nil, Nat.zero_add] at h
    refine h (Nat.le_refl _) ?_
    rw [List.length_append]
    exact Nat.le_add_right _ _
  · intro t storage it last order hshort
    exact toNumeric_throws_iff decoder hshort storage order
  · intro further n hn back
    exact throwsAtCut_iff encoder decoder further hn back
  · intro storage last requests values it hlast h
    obtain ⟨hbytes, -, hrequests⟩ := encodeAll_decodeAll encoder decoder hlast h
    exact ⟨hbytes, hrequests⟩

def uint64 : IntType := ⟨8, false, by decide⟩

def twoWords : List Item :=
  [⟨uint64, Value.ofBits uint64 1, .little⟩, ⟨uint64, Value.ofBits uint64 2, .little⟩]

/-- A third `uint64_t` cannot be read from a storage of two, nor does the read throw. -/
theorem third_read_undefined :
    decodeAll .little (encodeAll .little twoWords) 16 0
        (twoWords.map Item.request ++ [⟨uint64, .little⟩]) = ⟨twoWords, some .pastEnd, 16⟩ ∧
      ¬ThrowsAtCut .little .little twoWords ⟨uint64, .little⟩ 16 [] := by
  refine ⟨?_, ?_⟩
  · have hread : decodeAll .little (encodeAll .little twoWords) 16 0
        (twoWords.map Item.request) = ⟨twoWords, none, 16⟩ := by
      exact @decodeAll_encodeAll .little .little twoWords [] [] 16 (by decide) (by decide)
    rw [decodeAll_append hread]
    rfl
  · rw [throwsAtCut_iff .little .little ⟨uint64, .little⟩ (by decide) []]
    decide

end Bytes
