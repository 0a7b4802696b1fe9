/-
# Iterating a rolling contiguous buffer

`data()` of `rolling_contiguous_buffer.h` takes the address of `m_data[pos_begin]`, and `begin()`
and `end()` go through it.  Indexing a vector at or past its size is undefined behaviour, also
where only the address is wanted.

After any history, for any sizes, the window lies in the vector and ends where the vector ends
(`Inside`), so the index is good as long as the window is not empty.  It never is when the window
is empty: after construction, after `clear`, after a `resize` to zero, and in a buffer of capacity
zero.
-/
import Libsg.RollingContiguousBuffer

namespace RollingContiguousBuffer

variable {α : Type*}

/-! ## Iterators -/

namespace Buffer

/-- `data()`; an iterator of the vector is a position. -/
def dataPtr (b : Buffer α) : Except Fault ℕ :=
  if b.posBegin < b.data.elems.length then .ok b.posBegin else .error .undefined

def beginIter (b : Buffer α) : Except Fault ℕ := b.dataPtr

def endIter (b : Buffer α) : Except Fault ℕ := do
  let first ← b.beginIter
  pure (addSize first (subSize b.posEnd b.posBegin))

/-- What a loop from `begin()` to `end()` reads. -/
def iterate (b : Buffer α) : Except Fault (List α) :=
  match b.beginIter with
  | .error fault => .error fault
  | .ok first =>
    match b.endIter with
    | .error fault => .error fault
    | .ok last => b.data.range first last

end Buffer

/-! ## Operations that return -/

section Returns

variable {A : Allocation} {v v' : StdVector α}

theorem bind_ok {β γ : Type _} {r : Except Fault β} {f : β → Except Fault γ} {c : γ} :
    r >>= f = .ok c ↔ ∃ b, r = .ok b ∧ f b = .ok c := by
  cases r with
  | ok b =>
    constructor
    · exact fun h => ⟨b, rfl, h⟩
    · rintro ⟨b', hb', h⟩
      cases hb'
      exact h
  | error e =>
    constructor
    · intro h
      cases h
    · rintro ⟨b', hb', -⟩
      cases hb'

theorem insertEnd_ok {xs : List α} (h : v.insertEnd A xs = .ok v') :
    v.elems.length + xs.length ≤ A.maxSize ∧ v'.elems = v.elems ++ xs ∧
      v'.capacity = if v.elems.length + xs.length ≤ v.capacity then v.capacity
        else A.grow v.capacity (v.elems.length + xs.length) xs.length := by
  rw [StdVector.insertEnd] at h
  split at h
  · next hfits =>
    split at h
    · next hroom =>
      cases h
      exact ⟨hfits, rfl, (if_pos hroom).symm⟩
    · next hroom =>
      cases h
      exact ⟨hfits, rfl, (if_neg hroom).symm⟩
  · cases h

theorem reserve_ok {n : ℕ} (h : v.reserve A n = .ok v') :
    n ≤ A.maxSize ∧ v'.elems = v.elems ∧ v'.capacity = max v.capacity n := by
  rw [StdVector.reserve] at h
  split at h
  · next hfits =>
    split at h
    · next hroom =>
      cases h
      exact ⟨hfits, rfl, (Nat.max_eq_left hroom).symm⟩
    · next hroom =>
      cases h
      exact ⟨hfits, rfl, (Nat.max_eq_right (Nat.le_of_not_le hroom)).symm⟩
  · cases h

theorem range_ok {first last : ℕ} {xs : List α} (h : v.range first last = .ok xs) :
    first ≤ last ∧ last ≤ v.elems.length ∧ xs.length = last - first := by
  rw [StdVector.range] at h
  split at h
  · next hinside =>
    cases h
    refine ⟨hinside.1, hinside.2, ?_⟩
    rw [List.length_drop, List.length_take, Nat.min_eq_left hinside.2]
  · cases h

theorem memcpyFront_ok {src count : ℕ} (h : v.memcpyFront src count = .ok v') :
    count ≤ src ∧ src + count ≤ v.elems.length ∧ v'.elems.length = v.elems.length ∧
      v'.capacity = v.capacity := by
  rw [StdVector.memcpyFront] at h
  split at h
  · next hinside =>
    cases h
    refine ⟨hinside.1, hinside.2, ?_, rfl⟩
    rw [List.length_append, List.length_take, List.length_drop, List.length_drop]
    omega
  · cases h

theorem eraseFrom_ok {first : ℕ} (h : v.eraseFrom first = .ok v') :
    first ≤ v.elems.length ∧ v'.elems.length = first ∧ v'.capacity = v.capacity := by
  rw [StdVector.eraseFrom] at h
  split at h
  · next hinside =>
    cases h
    exact ⟨hinside, by rw [List.length_take, Nat.min_eq_left hinside], rfl⟩
  · cases h

/-- What every operation that returns preserves holds after a history that returns. -/
theorem runOps_induction {trivial : Bool} {P : Buffer α → Prop} {ops : List (Op α)}
    {b b' : Buffer α} (hstep : ∀ op ∈ ops, ∀ b b', P b → op.apply A trivial b = .ok b' → P b')
    (hb : P b) (h : runOps A trivial ops b = .ok b') : P b' := by
  induction ops generalizing b with
  | nil =>
    cases h
    exact hb
  | cons op ops ih =>
    obtain ⟨b₁, hop, hrest⟩ := bind_ok.mp h
    exact ih (fun op' hop' => hstep op' (List.mem_cons_of_mem op hop'))
      (hstep op List.mem_cons_self b b₁ hb hop) hrest

end Returns

/-! ## The window lies in the vector -/

/-- The window ends where the vector ends. -/
structure Inside (A : Allocation) (b : Buffer α) : Prop where
  posEnd : b.posEnd = b.data.elems.length
  posBegin_le : b.posBegin ≤ b.posEnd
  fits : b.posEnd ≤ A.maxSize

namespace Inside

variable {A : Allocation} {trivial : Bool} {b b' : Buffer α}

theorem posEnd_lt (h : Inside A b) : b.posEnd < 2 ^ 63 :=
  Nat.lt_of_le_of_lt h.fits A.maxSize_lt

theorem size (h : Inside A b) : b.size = b.posEnd - b.posBegin := by
  have hlt := h.posEnd_lt
  rw [Buffer.size, subSize_eq h.posBegin_le (by omega)]

/-- Elements that start where their vector starts. -/
theorem of_front (hbegin : b.posBegin = 0) (hend : b.posEnd = b.data.elems.length)
    (hfits : b.posEnd ≤ A.maxSize) : Inside A b where
  posEnd := hend
  posBegin_le := by
    rw [hbegin]
    exact Nat.zero_le _
  fits := hfits

theorem new (A : Allocation) (α : Type*) (size reserveSize : ℕ) :
    Inside A (Buffer.new α size reserveSize) :=
  .of_front rfl rfl (Nat.zero_le _)

theorem of_ensureSpaceMove {n : ℕ} (hres : b.ensureSpaceMove A n = .ok b') :
    Inside A b' := by
  obtain ⟨newVec, -, hrest⟩ := bind_ok.mp hres
  obtain ⟨kept, -, hrest⟩ := bind_ok.mp hrest
  obtain ⟨newVec', hinsert, hrest⟩ := bind_ok.mp hrest
  cases hrest
  obtain ⟨hfits, helems, -⟩ := insertEnd_ok hinsert
  refine .of_front rfl rfl ?_
  show newVec'.elems.length ≤ A.maxSize
  rw [helems, List.length_append]
  exact hfits

theorem ensureSpace (h : Inside A b) {n : ℕ} (hres : b.ensureSpace A trivial n = .ok b') :
    Inside A b' := by
  rw [Buffer.ensureSpace] at hres
  split at hres
  · split at hres
    · cases hres
      exact .of_front rfl rfl (Nat.zero_le _)
    · split at hres
      · obtain ⟨data, hmemcpy, hrest⟩ := bind_ok.mp hres
        obtain ⟨data', herase, hrest⟩ := bind_ok.mp hrest
        cases hrest
        obtain ⟨-, -, hlength, -⟩ := memcpyFront_ok hmemcpy
        obtain ⟨hinside, hlength', -⟩ := eraseFrom_ok herase
        refine .of_front rfl hlength'.symm ?_
        show subSize b.cbSize n ≤ A.maxSize
        rw [hlength, ← h.posEnd] at hinside
        exact Nat.le_trans hinside h.fits
      · exact of_ensureSpaceMove hres
  · split at hres
    · obtain ⟨data, hreserve, hrest⟩ := bind_ok.mp hres
      cases hrest
      obtain ⟨-, helems, -⟩ := reserve_ok hreserve
      refine ⟨?_, h.posBegin_le, h.fits⟩
      show b.posEnd = data.elems.length
      rw [helems, h.posEnd]
    · cases hres
      exact h

/-- The window of a buffer whose vector has grown by as many elements as it is moved. -/
theorem advancePos (h : Inside A b) {data : StdVector α} {n : ℕ}
    (hlength : data.elems.length = b.posEnd + n) (hfits : b.posEnd + n ≤ A.maxSize) :
    Inside A ({ b with data := data }.advancePos n) := by
  have hmax := A.maxSize_lt
  have hle := h.posBegin_le
  rw [Buffer.advancePos]
  dsimp only
  rw [addSize_eq (by omega), subSize_eq (by omega) (by omega)]
  split
  · next hfull =>
    refine ⟨hlength.symm, ?_, hfits⟩
    show subSize (b.posEnd + n) b.cbSize ≤ b.posEnd + n
    rw [subSize_eq (by omega) (by omega)]
    exact Nat.sub_le _ _
  · refine ⟨hlength.symm, ?_, hfits⟩
    show b.posBegin ≤ b.posEnd + n
    omega

theorem store (h : Inside A b) {xs : List α} (hres : b.store A trivial xs = .ok b') :
    Inside A b' := by
  obtain ⟨b₁, hspace, hrest⟩ := bind_ok.mp hres
  obtain ⟨data, hinsert, hrest⟩ := bind_ok.mp hrest
  cases hrest
  have h₁ := h.ensureSpace hspace
  obtain ⟨hfits, helems, -⟩ := insertEnd_ok hinsert
  refine h₁.advancePos ?_ ?_
  · rw [helems, List.length_append, h₁.posEnd]
  · rw [h₁.posEnd]
    exact hfits

theorem resize (h : Inside A b) {size reserveSize : ℕ}
    (hres : b.resize A size reserveSize = .ok b') : Inside A b' := by
  obtain ⟨kept, hrange, hrest⟩ := bind_ok.mp hres
  obtain ⟨newVec, hinsert, hrest⟩ := bind_ok.mp hrest
  cases hrest
  have hlt := h.posEnd_lt
  have hend := h.posEnd
  have hcopy : min b.size size ≤ b.data.elems.length := by
    rw [h.size]
    omega
  obtain ⟨hfits, helems, -⟩ := insertEnd_ok hinsert
  obtain ⟨-, -, hlength⟩ := range_ok hrange
  rw [subSize_eq hcopy (by omega)] at hlength
  have hkept : newVec.elems.length = min b.size size := by
    rw [helems, List.length_append, hlength]
    show 0 + _ = _
    omega
  refine .of_front rfl hkept.symm ?_
  show min b.size size ≤ A.maxSize
  rw [← hkept, helems, List.length_append]
  exact hfits

/-- **Every operation keeps the window in the vector.** -/
theorem apply (h : Inside A b) {op : Op α} (hres : op.apply A trivial b = .ok b') :
    Inside A b' := by
  cases op with
  | pushBack val => exact h.store hres
  | emplaceBack val => exact h.store hres
  | append xs =>
    have hstore : ∃ ys, b.store A trivial ys = .ok b' := by
      change b.append A trivial xs = .ok b' at hres
      rw [Buffer.append] at hres
      split at hres
      · exact ⟨_, hres⟩
      · exact ⟨_, hres⟩
    obtain ⟨ys, hys⟩ := hstore
    exact h.store hys
  | resize size reserveSize => exact h.resize hres
  | clear =>
    cases hres
    exact .of_front rfl rfl (Nat.zero_le _)

theorem runOps {ops : List (Op α)} (h : Inside A b)
    (hres : runOps A trivial ops b = .ok b') : Inside A b' :=
  runOps_induction (fun _ _ _ _ hb hop => hb.apply hop) h hres

/-- `data()` indexes inside the vector exactly when the window is not empty. -/
theorem dataPtr (h : Inside A b) :
    b.dataPtr = if b.size = 0 then .error .undefined else .ok b.posBegin := by
  have hle := h.posBegin_le
  rw [Buffer.dataPtr, h.size, ← h.posEnd]
  by_cases hsize : b.posEnd - b.posBegin = 0
  · rw [if_pos hsize, if_neg (by omega)]
  · rw [if_neg hsize, if_pos (by omega)]

theorem endIter (h : Inside A b) :
    b.endIter = if b.size = 0 then .error .undefined else .ok b.posEnd := by
  have hle := h.posBegin_le
  have hlt := h.posEnd_lt
  rw [Buffer.endIter, Buffer.beginIter, h.dataPtr]
  by_cases hsize : b.size = 0
  · rw [if_pos hsize, if_pos hsize]
    rfl
  · rw [if_neg hsize, if_neg hsize]
    show Except.ok (addSize b.posBegin (subSize b.posEnd b.posBegin)) = _
    rw [subSize_eq hle (by omega), addSize_eq (by omega), Nat.add_sub_cancel' hle]

/-- A loop reads the window, unless it is empty. -/
theorem iterate (h : Inside A b) :
    b.iterate = if b.size = 0 then .error .undefined
      else .ok (b.data.elems.drop b.posBegin) := by
  have hend := h.endIter
  rw [Buffer.iterate, Buffer.beginIter, h.dataPtr]
  by_cases hsize : b.size = 0
  · rw [if_pos hsize, if_pos hsize]
  · rw [if_neg hsize] at hend ⊢
    rw [if_neg hsize, hend]
    show b.data.range b.posBegin b.posEnd = _
    rw [StdVector.range, if_pos ⟨h.posBegin_le, Nat.le_of_eq h.posEnd⟩, h.posEnd,
      List.take_length]

end Inside

/-- **Iteration is in bounds unless the buffer is empty**, after any history that returns.
`data()`, `begin()` and `end()` all index inside the vector if there is an element, and none of
them does if there is none; then the list that the history makes is empty. -/
theorem iteration_in_bounds_iff (A : Allocation) (trivial : Bool) (size reserveSize : ℕ)
    (ops : List (Op α)) {b : Buffer α}
    (h : runOps A trivial ops (Buffer.new α size reserveSize) = .ok b) :
    ((∃ p < b.data.elems.length, b.dataPtr = .ok p) ↔ b.size ≠ 0) ∧
    ((∃ p < b.data.elems.length, b.beginIter = .ok p) ↔ b.size ≠ 0) ∧
    ((∃ p ≤ b.data.elems.length, b.endIter = .ok p) ↔ b.size ≠ 0) ∧
    (size + reserveSize < 2 ^ 64 → (∀ op ∈ ops, op.Sized) →
      b.size = (ops.foldl (fun l op => op.spec l) (BoundedSuffix.empty α size)).items.length) := by
  have hinside := (Inside.new A α size reserveSize).runOps h
  have hdata : (∃ p < b.data.elems.length, b.dataPtr = .ok p) ↔ b.size ≠ 0 := by
    rw [hinside.dataPtr]
    constructor
    · rintro ⟨p, -, hp⟩ hsize
      rw [if_pos hsize] at hp
      cases hp
    · intro hsize
      refine ⟨b.posBegin, ?_, if_neg hsize⟩
      rw [hinside.size] at hsize
      rw [← hinside.posEnd]
      omega
  refine ⟨hdata, hdata, ?_, fun hnew hops => ?_⟩
  · rw [hinside.endIter]
    constructor
    · rintro ⟨p, -, hp⟩ hsize
      rw [if_pos hsize] at hp
      cases hp
    · exact fun hsize => ⟨b.posEnd, Nat.le_of_eq hinside.posEnd, if_neg hsize⟩
  · have hyields := runOps_yields trivial ops (Rep.new A α hnew) hops
    rw [h] at hyields
    exact hyields.shows.1

/-- An element that is there after `clear`. -/
theorem iteration_in_bounds_iff_push :
    ∃ b, runOps exactAllocation true [Op.append [1, 2], .clear, .pushBack 3]
        (Buffer.new ℕ 5 5) = .ok b ∧
      (∃ p < b.data.elems.length, b.dataPtr = .ok p) ∧
      ∃ p ≤ b.data.elems.length, b.endIter = .ok p := by
  have hrun : runOps exactAllocation true [Op.append [1, 2], .clear, .pushBack 3]
      (Buffer.new ℕ 5 5) = .ok ⟨⟨[3], 1, 3⟩, 5, 10, 0, 1⟩ := by decide +kernel
  obtain ⟨hdata, -, hend, -⟩ := iteration_in_bounds_iff exactAllocation true 5 5 _ hrun
  exact ⟨_, hrun, hdata.mpr (by decide), hend.mpr (by decide)⟩

/-- A new buffer, and one that has been cleared, cannot be iterated. -/
theorem empty_buffer_indexes_outside :
    runOps exactAllocation true [] (Buffer.new ℕ 5 5) = .ok (Buffer.new ℕ 5 5) ∧
    (Buffer.new ℕ 5 5).dataPtr = .error .undefined ∧
    (Buffer.new ℕ 5 5).beginIter = .error .undefined ∧
    (Buffer.new ℕ 5 5).endIter = .error .undefined ∧
    ∃ b, runOps exactAllocation true [.pushBack 3, .clear] (Buffer.new ℕ 5 5) = .ok b ∧
      b.dataPtr = .error .undefined := by
  refine ⟨rfl, rfl, rfl, rfl, ⟨⟨[], 0, 2⟩, 5, 10, 0, 0⟩, ?_, rfl⟩
  decide +kernel

end RollingContiguousBuffer
