/-
# The rolling contiguous buffer is a bounded suffix

What `rolling_contiguous_buffer.h` shows after any history is the list that the operations make of
the empty one.  Two kinds of argument are not the values they stand for:

* `push_back` takes a reference, and makes room before it reads it.  An element of the buffer itself
  is gone by then if it has been shifted for, or if the vector has been given more memory
  (`KeepsPlace`);
* `append` measures its range by `std::distance`.  A range that can be passed through only once is
  used up by that.  (The elements of the buffer itself may not be inserted into its vector.)

Apart from these the list is what `size()` and `operator[]` show, and what a loop from `begin()` to
`end()` reads, unless it is empty (`refines_bounded_suffix_iff`).
-/
import Libsg.RollingContiguousBufferIteration

namespace RollingContiguousBuffer

variable {α : Type*}

/-! ## References to elements -/

/-- An element of a vector, by where it lies in memory. -/
structure ElemRef where
  block : ℕ
  index : ℕ

/-- What is read through a reference, after what has happened to the vector since. -/
def StdVector.deref (v : StdVector α) (r : ElemRef) : Except Fault α :=
  if r.block = v.block then
    match v.elems[r.index]? with
    | some x => .ok x
    | none => .error .undefined
  else .error .undefined

namespace Buffer

/-- `push_back(val)`; `std::vector::push_back` copes with a reference to an element of its own. -/
def pushBackRef (A : Allocation) (trivial : Bool) (val : ElemRef) (b : Buffer α) :
    Except Fault (Buffer α) := do
  let b ← b.ensureSpace A trivial 1
  let x ← b.data.deref val
  let data ← b.data.insertEnd A [x]
  pure ({ b with data := data }.advancePos 1)

/-- `push_back(b[i])`, of an element that is there -/
def pushBackOwn (A : Allocation) (trivial : Bool) (i : ℕ) (b : Buffer α) :
    Except Fault (Buffer α) :=
  if i < b.size then b.pushBackRef A trivial ⟨b.data.block, addSize b.posBegin i⟩
  else .error .undefined

/-- `append` of a range that can be passed through once: `std::distance` passes through it, and its
start is of no use any more. -/
def appendSinglePass (A : Allocation) (trivial : Bool) (xs : List α) (b : Buffer α) :
    Except Fault (Buffer α) :=
  match xs with
  | [] => b.append A trivial []
  | _ :: _ => .error .undefined

/-- `ensure_space(1)` leaves the elements where they are, or throws: nothing has to be shifted, and
there is capacity or no need for `reserve`, or more is asked of it than the vector can have. -/
def KeepsPlace (A : Allocation) (b : Buffer α) : Prop :=
  b.posEnd < b.maxSize ∧ (b.posEnd < b.data.capacity ∨ b.data.capacity * 2 % 2 ^ 64 ≤ b.maxSize ∨
    A.maxSize < b.maxSize)

instance (A : Allocation) (b : Buffer α) : Decidable (b.KeepsPlace A) :=
  inferInstanceAs (Decidable (_ ∧ _))

end Buffer

/-! ## Calls -/

/-- The calls that change the buffer, by what they are given. -/
inductive Call (α : Type*)
  /-- values from elsewhere, and ranges that can be passed through twice -/
  | op (op : Op α)
  | pushBackOwn (i : ℕ)
  | appendSinglePass (xs : List α)
  /-- `append` of elements of the buffer; `std::vector::insert` excludes its own elements -/
  | appendOwn (first last : ℕ)

namespace Call

def apply (A : Allocation) (trivial : Bool) : Call α → Buffer α → Except Fault (Buffer α)
  | .op o, b => o.apply A trivial b
  | .pushBackOwn i, b => b.pushBackOwn A trivial i
  | .appendSinglePass xs, b => b.appendSinglePass A trivial xs
  | .appendOwn _ _, _ => .error .undefined

def Sized : Call α → Prop
  | .op o => o.Sized
  | _ => True

def Within (n : ℕ) : Call α → Prop
  | .op o => o.Within n
  | _ => True

/-- What a call does to the list the buffer is about. -/
def spec : Call α → BoundedSuffix α → BoundedSuffix α
  | .op o, l => o.spec l
  | .pushBackOwn i, l =>
    match l.items[i]? with
    | some x => l.push x
    | none => l
  | .appendSinglePass xs, l => l.append xs
  | .appendOwn first last, l => l.append ((l.items.take last).drop first)

/-- What the call is given is still there when it is read. -/
def Defined (A : Allocation) (b : Buffer α) : Call α → Prop
  | .op _ => True
  | .pushBackOwn i => i < b.size ∧ b.KeepsPlace A
  | .appendSinglePass xs => xs = []
  | .appendOwn _ _ => False

end Call

def runCalls (A : Allocation) (trivial : Bool) : List (Call α) → Buffer α → Except Fault (Buffer α)
  | [], b => .ok b
  | c :: calls, b => do runCalls A trivial calls (← c.apply A trivial b)

/-- In every state of the history the buffer shows the list, and no call is undefined. -/
def Refines (A : Allocation) (trivial : Bool) :
    List (Call α) → Buffer α → BoundedSuffix α → Prop
  | [], b, l => b.Shows l.items
  | c :: calls, b, l => b.Shows l.items ∧
    match c.apply A trivial b with
    | .ok b' => Refines A trivial calls b' (c.spec l)
    | .error fault => fault = .lengthError

/-- What the calls are given is there when they read it, in the states they are made in. -/
def AllDefined (A : Allocation) (trivial : Bool) : List (Call α) → Buffer α → Prop
  | [], _ => True
  | c :: calls, b => c.Defined A b ∧
    match c.apply A trivial b with
    | .ok b' => AllDefined A trivial calls b'
    | .error _ => True

theorem AllDefined.cons {A : Allocation} {trivial : Bool} {c : Call α} {calls : List (Call α)}
    {b b' : Buffer α} (hdef : c.Defined A b) (hc : c.apply A trivial b = .ok b')
    (h : AllDefined A trivial calls b') : AllDefined A trivial (c :: calls) b := by
  rw [AllDefined, hc]
  exact ⟨hdef, h⟩

/-! ## What becomes of an element while room is made -/

section Place

variable {A : Allocation} {trivial : Bool} {b b' : Buffer α} {l : BoundedSuffix α}

theorem reserve_block {v v' : StdVector α} {n : ℕ} (h : v.reserve A n = .ok v') :
    v'.block = if n ≤ v.capacity then v.block else v.block + 1 := by
  rw [StdVector.reserve] at h
  split at h
  · split at h
    · next hroom =>
      cases h
      exact (if_pos hroom).symm
    · next hroom =>
      cases h
      exact (if_neg hroom).symm
  · cases h

theorem insertEnd_block {v v' : StdVector α} {xs : List α} (h : v.insertEnd A xs = .ok v') :
    v.block ≤ v'.block := by
  rw [StdVector.insertEnd] at h
  split at h
  · split at h
    · cases h
      exact Nat.le_refl _
    · cases h
      exact Nat.le_succ _
  · cases h

/-- Where nothing is shifted nor reserved, making room does nothing. -/
theorem ensureSpace_keeps (trivial : Bool) (h : Rep A b l) (hplace : b.KeepsPlace A) :
    b.ensureSpace A trivial 1 = .ok b ∨ b.ensureSpace A trivial 1 = .error .lengthError := by
  obtain ⟨hroom, hcapacity⟩ := hplace
  have hend := h.posEnd
  have hend_lt := h.posEnd_lt
  have hsum : addSize b.posEnd 1 = b.posEnd + 1 := addSize_eq (by omega)
  rw [Buffer.ensureSpace, if_neg (by omega), ← hend, hsum]
  split
  · next hguard =>
    -- the reservation is refused
    right
    rw [StdVector.reserve, if_neg (by omega)]
    rfl
  · exact .inl rfl

/-- Else the element is in other memory, or beyond what is left in the vector. -/
theorem ensureSpace_loses (h : Rep A b l) (hnot : ¬b.KeepsPlace A)
    (hres : b.ensureSpace A trivial 1 = .ok b') (i : ℕ) :
    b'.data.block ≠ b.data.block ∨ b'.data.elems.length ≤ b.posBegin + i := by
  have hle := h.cb_le
  have hlt := h.max_lt
  have hend := h.posEnd
  have hend_lt := h.posEnd_lt
  have hbegin := h.posBegin_le
  have hsum : addSize b.posEnd 1 = b.posEnd + 1 := addSize_eq (by omega)
  rw [Buffer.ensureSpace, hsum, ← hend, hsum] at hres
  split at hres
  · next hover =>
    split at hres
    · cases hres
      exact .inr (Nat.zero_le _)
    · next hclear =>
      have hkeep : subSize b.cbSize 1 = b.cbSize - 1 := subSize_eq (by omega) (by omega)
      split at hres
      · next hmem =>
        -- the window is full and does not reach back to what is written
        obtain ⟨data, -, hrest⟩ := bind_ok.mp hres
        obtain ⟨data', herase, hrest⟩ := bind_ok.mp hrest
        cases hrest
        have hlength := (eraseFrom_ok herase).2.1
        have hreserve := hmem.2
        rw [subSize_eq hle hlt] at hreserve
        have hfull : b.posBegin = 0 ∨ b.posEnd - b.posBegin = b.cbSize := by
          rw [← h.length, h.cbSize]
          exact h.full
        have hbound : b.posEnd - b.posBegin ≤ b.cbSize := by
          rw [← h.length, h.cbSize]
          exact l.bound
        right
        show data'.elems.length ≤ _
        rw [hlength, hkeep]
        omega
      · obtain ⟨newVec, hreserve, hrest⟩ := bind_ok.mp hres
        obtain ⟨kept, -, hrest⟩ := bind_ok.mp hrest
        obtain ⟨newVec', hinsert, hrest⟩ := bind_ok.mp hrest
        cases hrest
        have hnew : b.data.block + 1 ≤ newVec.block := by
          rw [reserve_block hreserve]
          split
          · exact Nat.le_refl _
          · exact Nat.le_succ _
        left
        show newVec'.block ≠ b.data.block
        have := insertEnd_block hinsert
        omega
  · next hover =>
    split at hres
    · next hguard =>
      obtain ⟨data, hreserve, hrest⟩ := bind_ok.mp hres
      cases hrest
      left
      show data.block ≠ b.data.block
      rw [reserve_block hreserve, if_neg (by omega)]
      exact Nat.succ_ne_self _
    · next hguard =>
      -- there is room after all
      refine absurd ⟨by omega, ?_⟩ hnot
      by_cases hroom : b.posEnd < b.data.capacity
      · exact .inl hroom
      · exact .inr (.inl (Nat.not_lt.mp fun hmore => hguard ⟨by omega, hmore⟩))

theorem Rep.size (h : Rep A b l) : b.size = l.items.length := h.shows.1

end Place

/-! ## The calls -/

section Calls

variable {A : Allocation} {trivial : Bool} {b b' : Buffer α} {l : BoundedSuffix α}

theorem pushBackOwn_eq_ref (h : Rep A b l) {i : ℕ} (hi : i < b.size) :
    b.pushBackOwn A trivial i =
      b.pushBackRef A trivial ⟨b.data.block, b.posBegin + i⟩ := by
  have hend_lt := h.posEnd_lt
  have hlen := h.length
  have hsize := h.size
  have hsum : addSize b.posBegin i = b.posBegin + i := addSize_eq (by omega)
  rw [Buffer.pushBackOwn, if_pos hi, hsum]

/-- An element that keeps its place is pushed as its value would be. -/
theorem pushBackOwn_eq_store (h : Rep A b l) {i : ℕ} (hi : i < l.items.length)
    (hplace : b.KeepsPlace A) :
    b.pushBackOwn A trivial i = b.store A trivial [l.items[i]] := by
  have hsize : i < b.size := Nat.lt_of_lt_of_eq hi h.size.symm
  have hread : b.data.deref ⟨b.data.block, b.posBegin + i⟩ = .ok l.items[i] := by
    have hget : b.data.elems[b.posBegin + i]? = some l.items[i] := by
      rw [← List.getElem?_drop, ← h.items, List.getElem?_eq_getElem hi]
    rw [StdVector.deref, if_pos rfl]
    simp only [hget]
  rw [pushBackOwn_eq_ref h hsize, Buffer.pushBackRef, Buffer.store, List.length_singleton]
  rcases ensureSpace_keeps trivial h hplace with hspace | hspace
  · rw [hspace]
    show (b.data.deref _ >>= _) = _
    rw [hread]
    rfl
  · rw [hspace]
    rfl

/-- An element that does not keep its place is not there to be pushed. -/
theorem pushBackOwn_undefined (h : Rep A b l) {i : ℕ} (hnot : ¬(i < b.size ∧ b.KeepsPlace A)) :
    b.pushBackOwn A trivial i = .error .undefined := by
  by_cases hi : i < b.size
  · have hplace : ¬b.KeepsPlace A := fun hplace => hnot ⟨hi, hplace⟩
    have hlen := h.length
    have hsize := h.size
    have hfits := h.fits
    have hcb := h.cb_le
    rw [pushBackOwn_eq_ref h hi, Buffer.pushBackRef]
    have hyields := ensureSpace_yields trivial h (Nat.le_max_right l.capacity 1)
    cases hspace : b.ensureSpace A trivial 1 with
    | ok b₁ =>
      have hlost := ensureSpace_loses h hplace hspace i
      have hread : b₁.data.deref ⟨b.data.block, b.posBegin + i⟩ = .error .undefined := by
        rw [StdVector.deref]
        by_cases hblock : b.data.block = b₁.data.block
        · have hgone : b₁.data.elems[b.posBegin + i]? = none :=
            List.getElem?_eq_none (hlost.resolve_left fun hne => hne hblock.symm)
          rw [if_pos hblock]
          simp only [hgone]
        · rw [if_neg hblock]
      show (b₁.data.deref _ >>= _) = _
      rw [hread]
      rfl
    | error fault =>
      -- what the vector can have has not been asked for, or it would be in place
      rw [hspace] at hyields
      refine absurd ⟨?_, by omega⟩ hyields.2
      by_contra hmore
      exact hplace ⟨by omega, .inr (.inr (by omega))⟩
  · rw [Buffer.pushBackOwn, if_neg hi]

theorem call_yields (trivial : Bool) (h : Rep A b l) (c : Call α) (hc : c.Sized)
    (hdef : c.Defined A b) :
    Yields (b.Fit A ∧ c.Within A.maxSize) (c.apply A trivial b) fun b' =>
      Rep A b' (c.spec l) ∧ (b.Fit A ∧ c.Within A.maxSize → b'.Fit A) := by
  have hkeep {xs : List α} (b' : Buffer α) (hb' : Rep A b' (l.append xs) ∧ b'.maxSize = b.maxSize) :
      Rep A b' (l.append xs) ∧ (b.Fit A ∧ True → b'.Fit A) :=
    ⟨hb'.1, fun hfit => ⟨hb'.2 ▸ hfit.1.1, hfit.1.2⟩⟩
  cases c with
  | op op => exact apply_yields trivial h op hc
  | pushBackOwn i =>
    obtain ⟨hi, hplace⟩ := hdef
    have hitem : i < l.items.length := h.size ▸ hi
    show Yields _ (b.pushBackOwn A trivial i) fun b' => Rep A b' (match l.items[i]? with
      | some x => l.push x
      | none => l) ∧ _
    rw [pushBackOwn_eq_store h hitem hplace, List.getElem?_eq_getElem hitem]
    exact (store_yields trivial h (Nat.le_max_right _ _)).mono And.left hkeep
  | appendSinglePass xs =>
    obtain rfl : xs = [] := hdef
    exact (append_yields trivial h []).mono And.left hkeep
  | appendOwn first last => cases hdef

theorem call_undefined (h : Rep A b l) {c : Call α} (hnot : ¬c.Defined A b) :
    c.apply A trivial b = .error .undefined := by
  cases c with
  | op op => exact absurd True.intro hnot
  | pushBackOwn i => exact pushBackOwn_undefined h hnot
  | appendSinglePass xs =>
    cases xs with
    | nil => exact absurd rfl hnot
    | cons x xs => rfl
  | appendOwn first last => rfl

/-- **The buffer shows the list in every state if and only if what the calls are given is there when
they read it.** -/
theorem refines_iff (h : Rep A b l) {calls : List (Call α)} (hcalls : ∀ c ∈ calls, c.Sized) :
    Refines A trivial calls b l ↔ AllDefined A trivial calls b := by
  induction calls generalizing b l with
  | nil => exact iff_of_true h.shows True.intro
  | cons c calls ih =>
    rw [Refines, AllDefined]
    by_cases hdef : c.Defined A b
    · have hyields := call_yields trivial h c (hcalls c List.mem_cons_self) hdef
      cases hc : c.apply A trivial b with
      | ok b' =>
        rw [hc] at hyields
        have hrest := ih hyields.1 fun c' hc' => hcalls c' (List.mem_cons_of_mem c hc')
        exact ⟨fun hrefines => ⟨hdef, hrest.mp hrefines.2⟩,
          fun hall => ⟨h.shows, hrest.mpr hall.2⟩⟩
      | error fault =>
        rw [hc] at hyields
        exact iff_of_true ⟨h.shows, hyields.1⟩ ⟨hdef, True.intro⟩
    · rw [call_undefined h hdef]
      refine iff_of_false (fun hrefines => ?_) fun hall => hdef hall.1
      cases hrefines.2

theorem runCalls_yields (h : Rep A b l) {calls : List (Call α)} (hcalls : ∀ c ∈ calls, c.Sized)
    (hall : AllDefined A trivial calls b) :
    Yields (b.Fit A ∧ ∀ c ∈ calls, c.Within A.maxSize) (runCalls A trivial calls b) fun b' =>
      Rep A b' (calls.foldl (fun l c => c.spec l) l) := by
  induction calls generalizing b l with
  | nil => exact h
  | cons c calls ih =>
    obtain ⟨hdef, hrest⟩ := hall
    have hhead := call_yields trivial h c (hcalls c List.mem_cons_self) hdef
    rw [runCalls]
    cases hc : c.apply A trivial b with
    | ok b' =>
      rw [hc] at hhead hrest
      refine (ih hhead.1 (fun c' hc' => hcalls c' (List.mem_cons_of_mem c hc')) hrest).mono ?_
        fun _ hrep => hrep
      rintro ⟨hfit, hwithin⟩
      exact ⟨hhead.2 ⟨hfit, hwithin c List.mem_cons_self⟩,
        fun c' hc' => hwithin c' (List.mem_cons_of_mem c hc')⟩
    | error fault =>
      rw [hc] at hhead
      refine ⟨hhead.1, fun hfit => hhead.2 ⟨hfit.1, hfit.2 c List.mem_cons_self⟩⟩

/-- Values from elsewhere are there. -/
theorem allDefined_append_ops {calls : List (Call α)} (hall : AllDefined A trivial calls b)
    (ops : List (Op α)) : AllDefined A trivial (calls ++ ops.map .op) b := by
  induction calls generalizing b with
  | nil =>
    induction ops generalizing b with
    | nil => exact True.intro
    | cons op ops ih =>
      refine ⟨True.intro, ?_⟩
      split
      · exact ih hall
      · exact True.intro
  | cons c calls ih =>
    obtain ⟨hdef, hrest⟩ := hall
    refine ⟨hdef, ?_⟩
    cases hc : c.apply A trivial b with
    | ok b' =>
      rw [hc] at hrest
      exact ih hrest
    | error fault => exact True.intro

end Calls

/-- **When the buffer is a bounded suffix.**  For both kinds of element it shows the list that the
calls make of the empty one, in every state of a history, if and only if what the calls are given is
there when they read it.  Then a loop reads that list if and only if the buffer is not empty, no
call throws while the sizes can be allocated, and to append is to push one by one. -/
theorem refines_bounded_suffix_iff (A : Allocation) (trivial : Bool) (size reserveSize : ℕ)
    (hnew : size + reserveSize < 2 ^ 64) (calls : List (Call α)) (hcalls : ∀ c ∈ calls, c.Sized) :
    (Refines A trivial calls (Buffer.new α size reserveSize) (BoundedSuffix.empty α size) ↔
      AllDefined A trivial calls (Buffer.new α size reserveSize)) ∧
    (AllDefined A trivial calls (Buffer.new α size reserveSize) →
      (∀ b, runCalls A trivial calls (Buffer.new α size reserveSize) = .ok b →
        (b.iterate = .ok (calls.foldl (fun l c => c.spec l) (BoundedSuffix.empty α size)).items ↔
          b.size ≠ 0)) ∧
      (∀ fault, runCalls A trivial calls (Buffer.new α size reserveSize) = .error fault →
        fault = .lengthError ∧ ¬(size + reserveSize ≤ A.maxSize ∧ 1 ≤ A.maxSize ∧
          ∀ c ∈ calls, c.Within A.maxSize)) ∧
      ∀ (xs : List α) b b',
        runCalls A trivial (calls ++ [.op (.append xs)]) (Buffer.new α size reserveSize) = .ok b →
        runCalls A trivial (calls ++ (xs.map .pushBack).map .op) (Buffer.new α size reserveSize) =
          .ok b' →
        ∃ l, b.Shows l ∧ b'.Shows l) := by
  have hrep := Rep.new A α hnew
  refine ⟨refines_iff hrep hcalls, fun hall => ⟨fun b hb => ?_, fun fault hfault => ?_,
    fun xs b b' hb hb' => ?_⟩⟩
  -- the loop: an empty buffer has no first element to begin at
  · have hyields := runCalls_yields hrep hcalls hall
    rw [hb] at hyields
    have hread : Inside A b := ⟨hyields.posEnd, hyields.posBegin_le, hyields.fits⟩
    rw [hread.iterate, ← hyields.items]
    by_cases hsize : b.size = 0
    · rw [if_pos hsize]
      exact iff_of_false (fun h => by cases h) fun hne => hne hsize
    · rw [if_neg hsize]
      exact iff_of_true rfl hsize
  -- a fault is the vector's, and it is too long for one only where the sizes do not fit
  · have hyields := runCalls_yields hrep hcalls hall
    rw [hfault] at hyields
    refine ⟨hyields.1, fun hfit => hyields.2 ⟨⟨?_, hfit.2.1⟩, hfit.2.2⟩⟩
    show addSize size reserveSize ≤ A.maxSize
    rw [addSize_eq hnew]
    exact hfit.1
  -- what is appended is no element of the buffer, so both histories keep to the list
  · have hrun (ops : List (Op α)) (hops : ∀ op ∈ ops, op.Sized) {b : Buffer α}
        (hb : runCalls A trivial (calls ++ ops.map .op) (Buffer.new α size reserveSize) = .ok b) :
        b.Shows ((calls ++ ops.map Call.op).foldl (fun l c => Call.spec c l)
          (BoundedSuffix.empty α size)).items := by
      have hsized : ∀ c ∈ calls ++ ops.map Call.op, c.Sized := by
        intro c hc
        rcases List.mem_append.mp hc with hc | hc
        · exact hcalls c hc
        · obtain ⟨op, hop, rfl⟩ := List.mem_map.mp hc
          exact hops op hop
      have hyields := runCalls_yields hrep hsized (allDefined_append_ops hall ops)
      rw [hb] at hyields
      exact hyields.shows
    have hone := hrun [.append xs] (fun op hop => by
      rw [List.mem_singleton.mp hop]
      trivial) hb
    have hmany := hrun (xs.map .pushBack) (fun op hop => by
      obtain ⟨x, -, rfl⟩ := List.mem_map.mp hop
      trivial) hb'
    refine ⟨_, hone, ?_⟩
    rw [List.foldl_append, List.foldl_map, List.foldl_map] at hmany
    rw [List.foldl_append]
    show b'.Shows (BoundedSuffix.append _ xs).items
    rw [BoundedSuffix.append_eq_foldl_push]
    exact hmany

/-- A window of five elements, shifted by `memcpy` when a batch jumps past the allocation; then its
first element is pushed again. -/
def jumpCalls : List (Call ℕ) :=
  [.op (.append [0, 1, 2, 3]), .op (.append [4, 5, 6, 7, 8]), .op (.append [9, 10, 11]),
    .pushBackOwn 0]

theorem refines_bounded_suffix_iff_jump :
    Refines exactAllocation true jumpCalls (Buffer.new ℕ 5 5) (BoundedSuffix.empty ℕ 5) ∧
    ∃ b, runCalls exactAllocation true jumpCalls (Buffer.new ℕ 5 5) = .ok b ∧
      b.iterate = .ok [8, 9, 10, 11, 7] := by
  have hsized : ∀ c ∈ jumpCalls, c.Sized := by simp [jumpCalls, Call.Sized, Op.Sized]
  have hall : AllDefined exactAllocation true jumpCalls (Buffer.new ℕ 5 5) := by
    have hgrow : (Call.op (.append [0, 1, 2, 3])).apply exactAllocation true (Buffer.new ℕ 5 5) =
        .ok ⟨⟨[0, 1, 2, 3], 4, 1⟩, 5, 10, 0, 4⟩ := by decide +kernel
    have hfill : (Call.op (.append [4, 5, 6, 7, 8])).apply exactAllocation true
        ⟨⟨[0, 1, 2, 3], 4, 1⟩, 5, 10, 0, 4⟩ =
        .ok ⟨⟨[0, 1, 2, 3, 4, 5, 6, 7, 8], 9, 2⟩, 5, 10, 4, 9⟩ := by decide +kernel
    have hshift : (Call.op (.append [9, 10, 11])).apply exactAllocation true
        ⟨⟨[0, 1, 2, 3, 4, 5, 6, 7, 8], 9, 2⟩, 5, 10, 4, 9⟩ =
        .ok ⟨⟨[7, 8, 9, 10, 11], 9, 2⟩, 5, 10, 0, 5⟩ := by decide +kernel
    refine .cons True.intro hgrow (.cons True.intro hfill (.cons True.intro hshift ⟨?_, ?_⟩))
    · exact ⟨by decide, by decide⟩
    · split <;> exact True.intro
  have hrun : runCalls exactAllocation true jumpCalls (Buffer.new ℕ 5 5) =
      .ok ⟨⟨[7, 8, 9, 10, 11, 7], 9, 2⟩, 5, 10, 1, 6⟩ := by decide +kernel
  obtain ⟨hrefines, hrest⟩ :=
    refines_bounded_suffix_iff exactAllocation true 5 5 (by decide) jumpCalls hsized
  exact ⟨hrefines.mpr hall, _, hrun, ((hrest hall).1 _ hrun).mpr (by decide)⟩

/-- A new buffer cannot be iterated.  In a full one without reserve, the first element is gone
before it is pushed again. -/
theorem empty_not_iterated :
    (Buffer.new ℕ 5 5).iterate ≠ .ok (BoundedSuffix.empty ℕ 5).items ∧
    runCalls exactAllocation true [.op (.pushBack 1), .op (.pushBack 2), .pushBackOwn 0]
      (Buffer.new ℕ 2 0) = .error .undefined := by
  refine ⟨by decide, ?_⟩
  decide +kernel

end RollingContiguousBuffer
