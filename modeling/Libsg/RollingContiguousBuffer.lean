/-
# The rolling contiguous buffer

`rolling_contiguous_buffer.h`.  The elements lie in a `std::vector`; the buffer is
the window between two positions at its end.  Sizes are 64 bits wide, and what
the standard leaves undefined (a range outside the vector, an overlapping
`memcpy`) is a fault, as is the exception of a vector that grows too long.

The buffer is a bounded suffix: `ensure_space` may shift the elements in several
ways or drop them all, but what it changes is out of the window once the new
elements have been stored.
-/
import Libsg.BoundedSuffix
import Mathlib.Algebra.GroupWithZero.Nat

namespace RollingContiguousBuffer

/-! ## The vector -/

/-- What stops an operation: `std::length_error`, or undefined behaviour. -/
inductive Fault
  | lengthError
  | undefined
  deriving DecidableEq, Repr

/-- What `std::vector` leaves to the implementation: `max_size()`, which a
difference of iterators can express, and the capacity chosen when it grows, from
the old one, the size required and the number of elements inserted. -/
structure Allocation where
  maxSize : ℕ
  grow : ℕ → ℕ → ℕ → ℕ
  maxSize_lt : maxSize < 2 ^ 63

/-- The `block` is the memory the elements lie in; every allocation has a new one. -/
structure StdVector (α : Type*) where
  elems : List α
  capacity : ℕ
  block : ℕ
  deriving DecidableEq

namespace StdVector

variable {α : Type*} (A : Allocation)

def empty : StdVector α := ⟨[], 0, 0⟩

/-- A new vector, which shares no memory with `v`. -/
def other (v : StdVector α) : StdVector α := ⟨[], 0, v.block + 1⟩

/-- `push_back`, `emplace_back`, or `insert` at the end. -/
def insertEnd (v : StdVector α) (xs : List α) : Except Fault (StdVector α) :=
  if v.elems.length + xs.length ≤ A.maxSize then
    if v.elems.length + xs.length ≤ v.capacity then .ok ⟨v.elems ++ xs, v.capacity, v.block⟩
    else
      .ok ⟨v.elems ++ xs, A.grow v.capacity (v.elems.length + xs.length) xs.length, v.block + 1⟩
  else
    .error .lengthError

def reserve (v : StdVector α) (n : ℕ) : Except Fault (StdVector α) :=
  if n ≤ A.maxSize then
    if n ≤ v.capacity then .ok v else .ok ⟨v.elems, n, v.block + 1⟩
  else .error .lengthError

/-- What lies between two iterators. -/
def range (v : StdVector α) (first last : ℕ) : Except Fault (List α) :=
  if first ≤ last ∧ last ≤ v.elems.length then .ok ((v.elems.take last).drop first)
  else .error .undefined

/-- `memcpy` of `count` elements from `src` to the front: the regions must not overlap. -/
def memcpyFront (v : StdVector α) (src count : ℕ) : Except Fault (StdVector α) :=
  if count ≤ src ∧ src + count ≤ v.elems.length then
    .ok ⟨(v.elems.drop src).take count ++ v.elems.drop count, v.capacity, v.block⟩
  else
    .error .undefined

/-- `erase` from `first` to the end. -/
def eraseFrom (v : StdVector α) (first : ℕ) : Except Fault (StdVector α) :=
  if first ≤ v.elems.length then .ok ⟨v.elems.take first, v.capacity, v.block⟩
  else .error .undefined

end StdVector

/-! ## The buffer -/

/-- `size_t` arithmetic. -/
def addSize (a b : ℕ) : ℕ := (a + b) % 2 ^ 64

def subSize (a b : ℕ) : ℕ := (a + 2 ^ 64 - b) % 2 ^ 64

structure Buffer (α : Type*) where
  data : StdVector α
  cbSize : ℕ
  maxSize : ℕ
  posBegin : ℕ
  posEnd : ℕ
  deriving DecidableEq

variable {α : Type*}

/-- The constructor. -/
def Buffer.new (α : Type*) (size reserveSize : ℕ) : Buffer α :=
  ⟨.empty, size, addSize size reserveSize, 0, 0⟩

namespace Buffer

variable (A : Allocation) (trivial : Bool)

def advancePos (count : ℕ) (b : Buffer α) : Buffer α :=
  let b := { b with posEnd := addSize b.posEnd count }
  if b.cbSize < subSize b.posEnd b.posBegin then
    { b with posBegin := subSize b.posEnd b.cbSize }
  else
    b

def ensureSpaceMove (noNewPoints : ℕ) (b : Buffer α) : Except Fault (Buffer α) := do
  let noToKeep := subSize b.cbSize noNewPoints
  let newVec ← b.data.other.reserve A b.cbSize
  let kept ← b.data.range (subSize b.posEnd noToKeep) b.posEnd
  let newVec ← newVec.insertEnd A kept
  pure { b with data := newVec, posBegin := 0, posEnd := newVec.elems.length }

/-- `trivial` says whether the element type is trivially copyable. -/
def ensureSpace (noNewPoints : ℕ) (b : Buffer α) : Except Fault (Buffer α) :=
  if b.maxSize < addSize b.posEnd noNewPoints then
    if b.cbSize ≤ noNewPoints then
      pure { b with posBegin := 0, posEnd := 0, data := ⟨[], b.data.capacity, b.data.block⟩ }
    else if trivial = true ∧ b.cbSize ≤ subSize b.maxSize b.cbSize then do
      let noToKeep := subSize b.cbSize noNewPoints
      let data ← b.data.memcpyFront (subSize b.posEnd noToKeep) noToKeep
      let data ← data.eraseFrom noToKeep
      pure { b with posBegin := 0, posEnd := noToKeep, data := data }
    else
      ensureSpaceMove A noNewPoints b
  else if b.data.capacity < addSize b.data.elems.length noNewPoints ∧
      b.maxSize < b.data.capacity * 2 % 2 ^ 64 then do
    let data ← b.data.reserve A b.maxSize
    pure { b with data := data }
  else
    pure b

/-- What `push_back`, `emplace_back` and `append` have in common. -/
def store (xs : List α) (b : Buffer α) : Except Fault (Buffer α) := do
  let b ← b.ensureSpace A trivial xs.length
  let data ← b.data.insertEnd A xs
  pure ({ b with data := data }.advancePos xs.length)

def pushBack (val : α) (b : Buffer α) : Except Fault (Buffer α) := b.store A trivial [val]

def emplaceBack (val : α) (b : Buffer α) : Except Fault (Buffer α) := b.store A trivial [val]

/-- A range longer than the window is trimmed at its start. -/
def append (xs : List α) (b : Buffer α) : Except Fault (Buffer α) :=
  if b.cbSize < xs.length then b.store A trivial (xs.drop (xs.length - b.cbSize))
  else b.store A trivial xs

/-- The number of elements, `pos_end - pos_begin`. -/
def size (b : Buffer α) : ℕ := subSize b.posEnd b.posBegin

def resize (size reserveSize : ℕ) (b : Buffer α) : Except Fault (Buffer α) := do
  let toCopy := min b.size size
  let kept ← b.data.range (subSize b.data.elems.length toCopy) b.data.elems.length
  let newVec ← b.data.other.insertEnd A kept
  pure { data := newVec, cbSize := size, maxSize := addSize size reserveSize, posBegin := 0,
         posEnd := toCopy }

def clear (b : Buffer α) : Buffer α := { b with data := b.data.other, posBegin := 0, posEnd := 0 }

/-- `operator[]`; `none` outside the vector. -/
def get (b : Buffer α) (i : ℕ) : Option α := b.data.elems[addSize b.posBegin i]?

end Buffer

/-! ## Histories -/

/-- The operations that change the buffer. -/
inductive Op (α : Type*)
  | pushBack (val : α)
  | emplaceBack (val : α)
  | append (xs : List α)
  | resize (size reserveSize : ℕ)
  | clear

/-- The sizes handed to `resize` do not overflow their sum. -/
def Op.Sized : Op α → Prop
  | .resize size reserveSize => size + reserveSize < 2 ^ 64
  | _ => True

/-- The allocation after `resize` is no longer than `n`. -/
def Op.Within (n : ℕ) : Op α → Prop
  | .resize size reserveSize => size + reserveSize ≤ n
  | _ => True

def Op.apply (A : Allocation) (trivial : Bool) : Op α → Buffer α → Except Fault (Buffer α)
  | .pushBack val, b => b.pushBack A trivial val
  | .emplaceBack val, b => b.emplaceBack A trivial val
  | .append xs, b => b.append A trivial xs
  | .resize size reserveSize, b => b.resize A size reserveSize
  | .clear, b => .ok b.clear

def runOps (A : Allocation) (trivial : Bool) : List (Op α) → Buffer α → Except Fault (Buffer α)
  | [], b => .ok b
  | op :: ops, b => do runOps A trivial ops (← op.apply A trivial b)

/-- What `size()` and `operator[]` say of the buffer is the list `l`. -/
def Buffer.Shows (b : Buffer α) (l : List α) : Prop :=
  b.size = l.length ∧ ∀ i < l.length, b.get i = l[i]?

/-- What an operation does to the list it is about. -/
def Op.spec : Op α → BoundedSuffix α → BoundedSuffix α
  | .pushBack val, l => l.push val
  | .emplaceBack val, l => l.push val
  | .append xs, l => l.append xs
  | .resize size _, l => l.resize size
  | .clear, l => l.clear

/-! ## Outcomes -/

/-- The result meets `P`, or the vector had to grow too long, which it has not
when all sizes `fit`.  Undefined behaviour is no outcome. -/
def Yields {β : Type*} (fit : Prop) (r : Except Fault β) (P : β → Prop) : Prop :=
  match r with
  | .ok b => P b
  | .error e => e = .lengthError ∧ ¬ fit

theorem Yields.bind {β γ : Type _} {fit : Prop} {r : Except Fault β} {P : β → Prop}
    {f : β → Except Fault γ} {Q : γ → Prop} (h : Yields fit r P)
    (hf : ∀ b, P b → Yields fit (f b) Q) : Yields fit (r >>= f) Q := by
  cases r with
  | ok b => exact hf b h
  | error e => exact h

theorem Yields.mono {β : Type*} {fit fit' : Prop} {r : Except Fault β} {P Q : β → Prop}
    (h : Yields fit r P) (hfit : fit' → fit) (hPQ : ∀ b, P b → Q b) : Yields fit' r Q := by
  cases r with
  | ok b => exact hPQ b h
  | error e => exact ⟨h.1, fun hf => h.2 (hfit hf)⟩

section Outcomes

variable {A : Allocation} {fit : Prop}

theorem insertEnd_yields {v : StdVector α} {xs : List α}
    (hroom : fit → v.elems.length + xs.length ≤ A.maxSize) :
    Yields fit (v.insertEnd A xs) fun v' =>
      v'.elems = v.elems ++ xs ∧ v.elems.length + xs.length ≤ A.maxSize := by
  rw [StdVector.insertEnd]
  split
  · next h => split <;> exact ⟨rfl, h⟩
  · next h => exact ⟨rfl, fun hf => h (hroom hf)⟩

theorem reserve_yields {v : StdVector α} {n : ℕ} (hroom : fit → n ≤ A.maxSize) :
    Yields fit (v.reserve A n) fun v' => v'.elems = v.elems := by
  rw [StdVector.reserve]
  split
  · split <;> exact rfl
  · next h => exact ⟨rfl, fun hf => h (hroom hf)⟩

/-- The last elements, read between two iterators. -/
theorem range_yields {v : StdVector α} {n : ℕ} (hn : n ≤ v.elems.length) :
    Yields fit (v.range (v.elems.length - n) v.elems.length) fun xs =>
      xs = v.elems.lastN n := by
  rw [StdVector.range, if_pos ⟨by omega, Nat.le_refl _⟩, List.take_length]
  exact rfl

/-- The last elements, copied to the front; they must fill no more than half. -/
theorem memcpyFront_yields {v : StdVector α} {n : ℕ} (hn : 2 * n ≤ v.elems.length) :
    Yields fit (v.memcpyFront (v.elems.length - n) n) fun v' =>
      v'.elems = v.elems.lastN n ++ v.elems.drop n := by
  have htake : (v.elems.drop (v.elems.length - n)).take n = v.elems.lastN n := by
    rw [List.take_of_length_le (by rw [List.length_drop]; omega), List.lastN]
  rw [StdVector.memcpyFront, if_pos ⟨by omega, by omega⟩, htake]
  exact rfl

theorem eraseFrom_yields {v : StdVector α} {n : ℕ} (hn : n ≤ v.elems.length) :
    Yields fit (v.eraseFrom n) fun v' => v'.elems = v.elems.take n := by
  rw [StdVector.eraseFrom, if_pos hn]
  exact rfl

end Outcomes

theorem subSize_eq {a b : ℕ} (hle : b ≤ a) (ha : a < 2 ^ 64) : subSize a b = a - b := by
  rw [subSize]
  omega

theorem addSize_eq {a b : ℕ} (h : a + b < 2 ^ 64) : addSize a b = a + b :=
  Nat.mod_eq_of_lt h

/-! ## The buffer represents a bounded suffix -/

/-- The buffer holds the list `l`: the window ends where the vector ends, and it is
full unless it starts where the vector starts. -/
structure Rep (A : Allocation) (b : Buffer α) (l : BoundedSuffix α) : Prop where
  cbSize : b.cbSize = l.capacity
  posEnd : b.posEnd = b.data.elems.length
  posBegin_le : b.posBegin ≤ b.posEnd
  items : l.items = b.data.elems.drop b.posBegin
  full : b.posBegin = 0 ∨ l.items.length = l.capacity
  room : b.posEnd ≤ max b.maxSize 1
  fits : b.posEnd ≤ A.maxSize
  cb_le : b.cbSize ≤ b.maxSize
  max_lt : b.maxSize < 2 ^ 64

namespace Rep

variable {A : Allocation} {b : Buffer α} {l : BoundedSuffix α}

theorem length (h : Rep A b l) : l.items.length = b.posEnd - b.posBegin := by
  rw [h.items, List.length_drop, h.posEnd]

theorem posEnd_lt (h : Rep A b l) : b.posEnd < 2 ^ 63 := by
  have := h.fits
  have := A.maxSize_lt
  omega

theorem new (A : Allocation) (α : Type*) {size reserveSize : ℕ}
    (h : size + reserveSize < 2 ^ 64) :
    Rep A (Buffer.new α size reserveSize) (BoundedSuffix.empty α size) where
  cbSize := rfl
  posEnd := rfl
  posBegin_le := Nat.le_refl 0
  items := rfl
  full := .inl rfl
  room := Nat.zero_le _
  fits := Nat.zero_le _
  cb_le := by
    show size ≤ addSize size reserveSize
    rw [addSize_eq h]
    omega
  max_lt := by
    show addSize size reserveSize < 2 ^ 64
    rwa [addSize_eq h]

/-- What has left the window does not matter. -/
theorem append_items (h : Rep A b l) (xs : List α) :
    (l.append xs).items = (b.data.elems ++ xs).lastN l.capacity := by
  show (l.items ++ xs).lastN l.capacity = _
  rcases h.full with hbegin | hfull
  · rw [h.items, hbegin, List.drop_zero]
  · have hlast : l.items = b.data.elems.lastN l.capacity := by
      have hlen := h.length
      have hle := h.posBegin_le
      rw [h.items, List.lastN, ← hfull, hlen, h.posEnd]
      congr 1
      rw [h.posEnd] at hle
      omega
    rw [hlast, List.lastN_append_lastN (by omega)]

end Rep

/-! ## Making room -/

/-- After making room for `n` elements the buffer holds a list that cannot be told
from the old one once they are stored. -/
structure RoomFor (A : Allocation) (n : ℕ) (b b' : Buffer α) (l : BoundedSuffix α) : Prop where
  maxSize : b'.maxSize = b.maxSize
  rep : ∃ l', Rep A b' l' ∧ l'.capacity = l.capacity ∧
    ∀ xs : List α, xs.length = n → l'.append xs = l.append xs
  room : b'.posEnd + n ≤ max b'.maxSize 1 ∨ 2 ^ 64 ≤ b'.posEnd + n

/-- All sizes in play can be allocated. -/
def Buffer.Fit (A : Allocation) (b : Buffer α) : Prop := b.maxSize ≤ A.maxSize ∧ 1 ≤ A.maxSize

section Room

variable {A : Allocation} {b b' : Buffer α} {l : BoundedSuffix α} {n : ℕ}

/-- A shift keeps as many elements as will stay in the window. -/
theorem RoomFor.shift (h : Rep A b l) (hn : n < l.capacity)
    (hover : b.maxSize < b.posEnd + n) (helems : b'.data.elems = b.data.elems.lastN (l.capacity - n))
    (hbegin : b'.posBegin = 0) (hend : b'.posEnd = l.capacity - n) (hcb : b'.cbSize = b.cbSize)
    (hmax : b'.maxSize = b.maxSize) : RoomFor A n b b' l := by
  have hcap := h.cbSize
  have hle := h.cb_le
  have hfits := h.fits
  have hlen : (b.data.elems.lastN (l.capacity - n)).length = l.capacity - n := by
    rw [List.length_lastN, ← h.posEnd]
    omega
  refine ⟨hmax, ⟨⟨l.capacity, b.data.elems.lastN (l.capacity - n), by omega⟩, ?_, rfl, ?_⟩,
    .inl (by omega)⟩
  · constructor
    · exact hcb.trans hcap
    · rw [helems, hlen, hend]
    · omega
    · rw [helems, hbegin, List.drop_zero]
    · exact .inl hbegin
    · omega
    · omega
    · omega
    · exact hmax ▸ h.max_lt
  · intro xs hxs
    refine BoundedSuffix.ext rfl ?_
    rw [h.append_items]
    exact List.lastN_append_lastN (by show l.capacity ≤ _; omega)

/-- Nothing is shifted. -/
theorem RoomFor.same (h : Rep A b l) (helems : b'.data.elems = b.data.elems)
    (hbegin : b'.posBegin = b.posBegin) (hend : b'.posEnd = b.posEnd)
    (hcb : b'.cbSize = b.cbSize) (hmax : b'.maxSize = b.maxSize)
    (hroom : ¬ b.maxSize < addSize b.posEnd n) : RoomFor A n b b' l := by
  refine ⟨hmax, ⟨l, ?_, rfl, fun _ _ => rfl⟩, ?_⟩
  · constructor
    · exact hcb.trans h.cbSize
    · rw [hend, helems, h.posEnd]
    · rw [hbegin, hend]
      exact h.posBegin_le
    · rw [helems, hbegin, h.items]
    · rw [hbegin]
      exact h.full
    · rw [hend, hmax]
      exact h.room
    · rw [hend]
      exact h.fits
    · rw [hcb, hmax]
      exact h.cb_le
    · rw [hmax]
      exact h.max_lt
  · rw [hend, hmax]
    by_cases hwrap : b.posEnd + n < 2 ^ 64
    · rw [addSize_eq hwrap] at hroom
      omega
    · omega

theorem ensureSpaceMove_yields (h : Rep A b l) (hn : n < l.capacity)
    (hover : b.maxSize < b.posEnd + n) :
    Yields (b.Fit A) (b.ensureSpaceMove A n) fun b' => RoomFor A n b b' l := by
  have hcap := h.cbSize
  have hle := h.cb_le
  have hlt := h.max_lt
  have hfits := h.fits
  have hend := h.posEnd
  have hend_lt := h.posEnd_lt
  have hkeep : subSize b.cbSize n = l.capacity - n := by
    rw [subSize_eq (by omega) (by omega), hcap]
  rw [Buffer.ensureSpaceMove, hkeep, subSize_eq (by omega) (by omega), hend]
  refine Yields.bind (reserve_yields fun hfit => Nat.le_trans hle hfit.1) fun newVec hnew => ?_
  refine Yields.bind (range_yields (by omega)) fun kept hkept => ?_
  have hlen : kept.length = l.capacity - n := by
    rw [hkept, List.length_lastN]
    omega
  have hempty : newVec.elems = [] := hnew
  refine Yields.bind (insertEnd_yields fun _ => by
    rw [hempty, List.length_nil]
    omega) fun newVec' hnew' => ?_
  have helems : newVec'.elems = b.data.elems.lastN (l.capacity - n) := by
    rw [hnew'.1, hempty, List.nil_append, hkept]
  exact RoomFor.shift h hn hover helems rfl (by rw [helems, ← hkept, hlen]) rfl rfl

theorem ensureSpace_yields (trivial : Bool) (h : Rep A b l) (hn : n ≤ max l.capacity 1) :
    Yields (b.Fit A) (b.ensureSpace A trivial n) fun b' => RoomFor A n b b' l := by
  have hcap := h.cbSize
  have hle := h.cb_le
  have hlt := h.max_lt
  have hfits := h.fits
  have hend := h.posEnd
  have hend_lt := h.posEnd_lt
  rw [Buffer.ensureSpace]
  by_cases hover : b.maxSize < addSize b.posEnd n
  · rw [if_pos hover]
    have hover' : b.maxSize < b.posEnd + n := Nat.lt_of_lt_of_le hover (Nat.mod_le _ _)
    by_cases hclear : b.cbSize ≤ n
    · rw [if_pos hclear]
      refine ⟨rfl, ⟨BoundedSuffix.empty α l.capacity, ?_, rfl, fun xs hxs => ?_⟩, .inl ?_⟩
      · exact ⟨hcap, rfl, Nat.le_refl 0, rfl, .inl rfl, Nat.zero_le _, Nat.zero_le _, hle, hlt⟩
      · refine BoundedSuffix.ext rfl ?_
        show ([] ++ xs).lastN l.capacity = (l.items ++ xs).lastN l.capacity
        rw [List.lastN_append_of_le (by omega), List.lastN_append_of_le (by omega)]
      · show 0 + n ≤ max b.maxSize 1
        omega
    · rw [if_neg hclear]
      by_cases hmem : trivial = true ∧ b.cbSize ≤ subSize b.maxSize b.cbSize
      · -- the reserve is long enough for the regions not to overlap
        have hreserve : 2 * b.cbSize ≤ b.maxSize := by
          have := hmem.2
          rw [subSize_eq hle hlt] at this
          omega
        have hkeep : subSize b.cbSize n = l.capacity - n := by
          rw [subSize_eq (by omega) (by omega), hcap]
        rw [if_pos hmem, hkeep]
        dsimp only
        rw [subSize_eq (by omega) (by omega), hend]
        refine Yields.bind (memcpyFront_yields (by omega)) fun data hdata => ?_
        have hlen : (b.data.elems.lastN (l.capacity - n)).length = l.capacity - n := by
          rw [List.length_lastN]
          omega
        refine Yields.bind (eraseFrom_yields (by
          rw [hdata, List.length_append, hlen]
          omega)) fun data' hdata' => ?_
        have helems : data'.elems = b.data.elems.lastN (l.capacity - n) := by
          rw [hdata', hdata, List.take_left' hlen]
        exact RoomFor.shift h (by omega) hover' helems rfl rfl rfl rfl
      · rw [if_neg hmem]
        exact ensureSpaceMove_yields h (by omega) hover'
  · rw [if_neg hover]
    split
    · refine Yields.bind (reserve_yields fun hfit => hfit.1) fun data hdata => ?_
      exact RoomFor.same h hdata rfl rfl rfl rfl hover
    · exact RoomFor.same h rfl rfl rfl rfl rfl hover

end Room

/-! ## The operations -/

section Operations

variable {A : Allocation} {b : Buffer α} {l : BoundedSuffix α}

/-- New elements in the room made for them. -/
theorem Rep.advance {data : StdVector α} {xs : List α} (h : Rep A b l)
    (hdata : data.elems = b.data.elems ++ xs)
    (hfits : b.data.elems.length + xs.length ≤ A.maxSize)
    (hroom : b.posEnd + xs.length ≤ max b.maxSize 1) :
    Rep A ({ b with data := data }.advancePos xs.length) (l.append xs) := by
  have hmax := A.maxSize_lt
  have hcap := h.cbSize
  have hend := h.posEnd
  have hle := h.posBegin_le
  have hcb : l.capacity ≤ b.maxSize := hcap ▸ h.cb_le
  have hlen : data.elems.length = b.posEnd + xs.length := by
    rw [hdata, List.length_append, hend]
  have hitems := h.append_items xs
  rw [← hdata, List.lastN, hlen] at hitems
  have hadd : addSize b.posEnd xs.length = b.posEnd + xs.length := addSize_eq (by omega)
  rw [Buffer.advancePos]
  dsimp only
  rw [hadd, subSize_eq (by omega) (by omega), hcap]
  by_cases hfull : l.capacity < b.posEnd + xs.length - b.posBegin
  · rw [if_pos hfull, subSize_eq (by omega) (by omega)]
    refine ⟨rfl, hlen.symm, Nat.sub_le _ _, hitems, .inr ?_, hroom, ?_, hcb, h.max_lt⟩
    · rw [hitems, List.length_drop, hlen]
      show _ = l.capacity
      omega
    · show b.posEnd + xs.length ≤ A.maxSize
      omega
  · rw [if_neg hfull]
    -- the window only grows, or it was full and nothing was added
    have hfirst : b.posEnd + xs.length - l.capacity = b.posBegin := by
      have hlength := h.length
      rcases h.full with hbegin | hcapacity
      · omega
      · omega
    rw [hfirst] at hitems
    refine ⟨rfl, hlen.symm, ?_, hitems, ?_, hroom, ?_, hcb, h.max_lt⟩
    · show b.posBegin ≤ b.posEnd + xs.length
      omega
    · show b.posBegin = 0 ∨ (l.append xs).items.length = l.capacity
      rw [hitems, List.length_drop, hlen]
      omega
    · show b.posEnd + xs.length ≤ A.maxSize
      omega

theorem store_yields (trivial : Bool) (h : Rep A b l) {xs : List α}
    (hxs : xs.length ≤ max l.capacity 1) :
    Yields (b.Fit A) (b.store A trivial xs) fun b' =>
      Rep A b' (l.append xs) ∧ b'.maxSize = b.maxSize := by
  have hmax := A.maxSize_lt
  have hcap := h.cbSize
  have hle := h.cb_le
  have hlt := h.max_lt
  refine Yields.bind (ensureSpace_yields trivial h hxs) fun b₁ hroom => ?_
  obtain ⟨l', hrep, hcapacity, happend⟩ := hroom.rep
  have hmaxSize := hroom.maxSize
  have hend := hrep.posEnd
  refine Yields.bind (insertEnd_yields fun hfit => ?_) fun data hdata => ?_
  · obtain ⟨hfit, hone⟩ := hfit
    have := hroom.room
    have := hrep.fits
    omega
  · rw [← happend xs rfl]
    have := hroom.room
    have := hrep.fits
    refine ⟨hrep.advance hdata.1 hdata.2 (by omega), ?_⟩
    show (Buffer.advancePos xs.length { b₁ with data := data }).maxSize = b.maxSize
    rw [Buffer.advancePos]
    dsimp only
    split <;> exact hmaxSize

theorem append_yields (trivial : Bool) (h : Rep A b l) (xs : List α) :
    Yields (b.Fit A) (b.append A trivial xs) fun b' =>
      Rep A b' (l.append xs) ∧ b'.maxSize = b.maxSize := by
  rw [Buffer.append, h.cbSize]
  by_cases hlong : l.capacity < xs.length
  · rw [if_pos hlong, ← BoundedSuffix.append_lastN]
    refine store_yields trivial h ?_
    rw [List.length_drop]
    omega
  · rw [if_neg hlong]
    exact store_yields trivial h (by omega)

theorem resize_yields {fit : Prop} (h : Rep A b l) {size reserveSize : ℕ}
    (hsized : size + reserveSize < 2 ^ 64) :
    Yields fit (b.resize A size reserveSize) fun b' =>
      Rep A b' (l.resize size) ∧ b'.maxSize = size + reserveSize := by
  have hmax := A.maxSize_lt
  have hend := h.posEnd
  have hfits := h.fits
  have hle := h.posBegin_le
  have hsize : b.size = l.items.length := by
    rw [Buffer.size, subSize_eq hle (by omega), h.length]
  have hcopy : min b.size size ≤ b.data.elems.length := by
    rw [hsize, h.length]
    omega
  rw [Buffer.resize, subSize_eq hcopy (by omega)]
  refine Yields.bind (range_yields hcopy) fun kept hkept => ?_
  have hlength : kept.length = min b.size size := by
    rw [hkept, List.length_lastN]
    omega
  refine Yields.bind (insertEnd_yields fun _ => ?_) fun newVec hnew => ?_
  · show 0 + kept.length ≤ A.maxSize
    omega
  · -- the elements copied are the end of the window
    have hwindow : l.items.lastN size = kept := by
      rw [hkept, hsize, List.lastN, List.lastN, h.length, h.items, List.drop_drop,
        ← hend]
      congr 1
      omega
    have helems : newVec.elems = kept := by
      rw [hnew.1]
      rfl
    have hsum : addSize size reserveSize = size + reserveSize := addSize_eq hsized
    refine ⟨⟨rfl, ?_, Nat.zero_le _, ?_, .inl rfl, ?_, ?_, ?_, ?_⟩, hsum⟩
    · show min b.size size = newVec.elems.length
      rw [helems, hlength]
    · show l.items.lastN size = newVec.elems.drop 0
      rw [helems, hwindow, List.drop_zero]
    · show min b.size size ≤ max (addSize size reserveSize) 1
      omega
    · show min b.size size ≤ A.maxSize
      omega
    · show size ≤ addSize size reserveSize
      omega
    · show addSize size reserveSize < 2 ^ 64
      omega

theorem Rep.clear (h : Rep A b l) : Rep A b.clear l.clear :=
  ⟨h.cbSize, rfl, Nat.le_refl 0, rfl, .inl rfl, Nat.zero_le _, Nat.zero_le _, h.cb_le, h.max_lt⟩

/-- Every operation does to the buffer what it does to the list. -/
theorem apply_yields (trivial : Bool) (h : Rep A b l) (op : Op α) (hop : op.Sized) :
    Yields (b.Fit A ∧ op.Within A.maxSize) (op.apply A trivial b) fun b' =>
      Rep A b' (op.spec l) ∧ (b.Fit A ∧ op.Within A.maxSize → b'.Fit A) := by
  have hkeep (b' : Buffer α) (hmax : b'.maxSize = b.maxSize) (hfit : b.Fit A) : b'.Fit A :=
    ⟨hmax ▸ hfit.1, hfit.2⟩
  cases op with
  | pushBack val =>
    exact (store_yields trivial h (Nat.le_max_right _ _)).mono And.left
      fun b' hb' => ⟨hb'.1, fun hfit => hkeep b' hb'.2 hfit.1⟩
  | emplaceBack val =>
    exact (store_yields trivial h (Nat.le_max_right _ _)).mono And.left
      fun b' hb' => ⟨hb'.1, fun hfit => hkeep b' hb'.2 hfit.1⟩
  | append xs =>
    exact (append_yields trivial h xs).mono And.left
      fun b' hb' => ⟨hb'.1, fun hfit => hkeep b' hb'.2 hfit.1⟩
  | resize size reserveSize =>
    refine (resize_yields h hop).mono id fun b' hb' => ⟨hb'.1, fun hfit => ⟨?_, hfit.1.2⟩⟩
    rw [hb'.2]
    exact hfit.2
  | clear => exact ⟨h.clear, fun hfit => hkeep b.clear rfl hfit.1⟩

theorem runOps_yields (trivial : Bool) (ops : List (Op α)) (h : Rep A b l)
    (hops : ∀ op ∈ ops, op.Sized) :
    Yields (b.Fit A ∧ ∀ op ∈ ops, op.Within A.maxSize) (runOps A trivial ops b) fun b' =>
      Rep A b' (ops.foldl (fun l op => op.spec l) l) := by
  induction ops generalizing b l with
  | nil => exact h
  | cons op ops ih =>
    have hhead := (apply_yields trivial h op (hops op List.mem_cons_self)).mono
      (fun hfit : b.Fit A ∧ ∀ op' ∈ op :: ops, op'.Within A.maxSize =>
        ⟨hfit.1, hfit.2 op List.mem_cons_self⟩) (fun _ hb' => hb')
    refine Yields.bind hhead fun b' hb' => ?_
    refine (ih hb'.1 fun op' hop' => hops op' (List.mem_cons_of_mem op hop')).mono ?_
      fun _ hrep => hrep
    rintro ⟨hfit, hwithin⟩
    exact ⟨hb'.2 ⟨hfit, hwithin op List.mem_cons_self⟩,
      fun op' hop' => hwithin op' (List.mem_cons_of_mem op hop')⟩

end Operations

/-! ## What is observed -/

theorem Rep.shows {A : Allocation} {b : Buffer α} {l : BoundedSuffix α} (h : Rep A b l) :
    b.Shows l.items := by
  have hend := h.posEnd
  have hle := h.posBegin_le
  have hlt := h.posEnd_lt
  have hlen := h.length
  have hsize : b.size = l.items.length := by
    rw [Buffer.size, subSize_eq hle (by omega), hlen]
  refine ⟨hsize, fun i hi => ?_⟩
  rw [Buffer.get, addSize_eq (by omega), h.items, List.getElem?_drop]

/-- An allocation that grows to what is needed. -/
def exactAllocation : Allocation := ⟨2 ^ 62, fun _ n _ => n, by decide⟩

end RollingContiguousBuffer
