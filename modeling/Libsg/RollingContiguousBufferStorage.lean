/-
# The storage of a rolling contiguous buffer

How long the vector of `rolling_contiguous_buffer.h` gets, from where a shift takes what it keeps,
and how far the capacity grows.  `S` and `R` are the size and the reserve last asked for.

A shift keeps `S - n` elements that end at `pos_end`, wherever the window starts; that they lie in
the window comes from the condition that leads to the shift.  `ensure_space` takes care that the
vector does not grow too much, but not where it clears everything and returns: `n` elements then go
into what capacity there is, and a vector that doubles may get longer than `S + R` (`Overgrows`).
-/
import Libsg.RollingContiguousBufferIteration

namespace RollingContiguousBuffer

variable {α : Type*}

/-! ## Sizes asked for -/

/-- The sizes that an operation leaves, those last handed to `resize`. -/
def Op.sizes : Op α → ℕ × ℕ → ℕ × ℕ
  | .resize size reserveSize, _ => (size, reserveSize)
  | _, sizes => sizes

/-- How many elements an operation asks room for; `append` has trimmed its range. -/
def Op.count (b : Buffer α) : Op α → ℕ
  | .pushBack _ | .emplaceBack _ => 1
  | .append xs => min xs.length b.cbSize
  | .resize _ _ | .clear => 0

/-- Everything is cleared for elements that do not fit in the capacity there is, and twice that
capacity, or the number of elements, is more than the total allocation. -/
def Buffer.Overgrows (b : Buffer α) (op : Op α) : Prop :=
  b.maxSize < addSize b.posEnd (op.count b) ∧ b.cbSize ≤ op.count b ∧
    b.data.capacity < op.count b ∧ b.maxSize < max (2 * b.data.capacity) (op.count b)

instance (b : Buffer α) (op : Op α) : Decidable (b.Overgrows op) :=
  inferInstanceAs (Decidable (_ ∧ _))

/-- The history makes `op` in the state `b`, and `b'` is what `op` leaves. -/
def Step (A : Allocation) (trivial : Bool) (start : Buffer α) (ops : List (Op α)) (b : Buffer α)
    (op : Op α) (b' : Buffer α) : Prop :=
  ∃ ops₁ ops₂, ops = ops₁ ++ op :: ops₂ ∧ runOps A trivial ops₁ start = .ok b ∧
    op.apply A trivial b = .ok b'

/-- A vector that grows to what is required at least, and to twice its capacity or to what is
required at most. -/
structure Allocation.Doubling (A : Allocation) : Prop where
  enough : ∀ c n k, c < n → n ≤ A.grow c n k
  most : ∀ c n k, c < n → A.grow c n k ≤ max (2 * c) n

/-! ## Where a shift reads -/

/-- A shift of the buffer `b` for `n` elements reads inside the window, and what `memcpy` reads is
behind what it writes. -/
structure ShiftsInside (b : Buffer α) (n : ℕ) : Prop where
  source : subSize b.posEnd (subSize b.cbSize n) + (b.cbSize - n) = b.posEnd
  inside : b.posBegin ≤ subSize b.posEnd (subSize b.cbSize n)
  apart : b.cbSize ≤ subSize b.maxSize b.cbSize →
    subSize b.cbSize n ≤ subSize b.posEnd (subSize b.cbSize n)

section Shift

variable {A : Allocation} {b : Buffer α} {l : BoundedSuffix α}

/-- The window is all there is, up to its capacity. -/
theorem Rep.window (h : Rep A b l) : b.posEnd - b.posBegin = min b.posEnd b.cbSize := by
  have hlength := h.length
  have hbound : l.items.length ≤ l.capacity := l.bound
  have hcap := h.cbSize
  rcases h.full with hbegin | hfull
  · omega
  · omega

theorem Rep.shiftsInside (h : Rep A b l) {n : ℕ} (hn : n < b.cbSize)
    (hover : b.maxSize < addSize b.posEnd n) : ShiftsInside b n := by
  have hover' : b.maxSize < b.posEnd + n := Nat.lt_of_lt_of_le hover (Nat.mod_le _ _)
  have hwindow := h.window
  have hle := h.cb_le
  have hlt := h.max_lt
  have hend := h.posEnd_lt
  have hkeep : subSize b.cbSize n = b.cbSize - n := subSize_eq (by omega) (by omega)
  have hsource : subSize b.posEnd (b.cbSize - n) = b.posEnd - (b.cbSize - n) :=
    subSize_eq (by omega) (by omega)
  constructor
  · rw [hkeep, hsource]
    omega
  · rw [hkeep, hsource]
    omega
  · -- the reserve is as long as the window, so more than two windows have been filled
    rw [hkeep, hsource, subSize_eq hle hlt]
    omega

end Shift

/-! ## Operations -/

section Operations

variable {A : Allocation} {trivial : Bool} {b b' : Buffer α}

@[simp] theorem advancePos_data (b : Buffer α) (n : ℕ) : (b.advancePos n).data = b.data := by
  rw [Buffer.advancePos]
  dsimp only
  split <;> rfl

@[simp] theorem advancePos_cbSize (b : Buffer α) (n : ℕ) :
    (b.advancePos n).cbSize = b.cbSize := by
  rw [Buffer.advancePos]
  dsimp only
  split <;> rfl

@[simp] theorem advancePos_maxSize (b : Buffer α) (n : ℕ) :
    (b.advancePos n).maxSize = b.maxSize := by
  rw [Buffer.advancePos]
  dsimp only
  split <;> rfl

theorem ensureSpace_sizes {n : ℕ} (hres : b.ensureSpace A trivial n = .ok b') :
    b'.cbSize = b.cbSize ∧ b'.maxSize = b.maxSize := by
  rw [Buffer.ensureSpace] at hres
  split at hres
  · split at hres
    · cases hres
      exact ⟨rfl, rfl⟩
    · split at hres
      · obtain ⟨data, -, hrest⟩ := bind_ok.mp hres
        obtain ⟨data', -, hrest⟩ := bind_ok.mp hrest
        cases hrest
        exact ⟨rfl, rfl⟩
      · obtain ⟨newVec, -, hrest⟩ := bind_ok.mp hres
        obtain ⟨kept, -, hrest⟩ := bind_ok.mp hrest
        obtain ⟨newVec', -, hrest⟩ := bind_ok.mp hrest
        cases hrest
        exact ⟨rfl, rfl⟩
  · split at hres
    · obtain ⟨data, -, hrest⟩ := bind_ok.mp hres
      cases hrest
      exact ⟨rfl, rfl⟩
    · cases hres
      exact ⟨rfl, rfl⟩

theorem store_sizes {xs : List α} (hres : b.store A trivial xs = .ok b') :
    b'.cbSize = b.cbSize ∧ b'.maxSize = b.maxSize := by
  obtain ⟨b₁, hspace, hrest⟩ := bind_ok.mp hres
  obtain ⟨data, -, hrest⟩ := bind_ok.mp hrest
  cases hrest
  obtain ⟨hcb, hmax⟩ := ensureSpace_sizes hspace
  rw [advancePos_cbSize, advancePos_maxSize]
  exact ⟨hcb, hmax⟩

/-- **What an operation does**: it stores the elements it asks room for, or it resizes, or it
clears. -/
theorem apply_cases {op : Op α} (hres : op.apply A trivial b = .ok b') :
    (∃ xs : List α, op.count b = xs.length ∧ (∀ sizes, op.sizes sizes = sizes) ∧
      b.store A trivial xs = .ok b') ∨
    (∃ size reserveSize, op = .resize size reserveSize ∧
      b.resize A size reserveSize = .ok b') ∨
    (op = .clear ∧ b' = b.clear) := by
  cases op with
  | pushBack val => exact .inl ⟨[val], rfl, fun _ => rfl, hres⟩
  | emplaceBack val => exact .inl ⟨[val], rfl, fun _ => rfl, hres⟩
  | append xs =>
    left
    change b.append A trivial xs = .ok b' at hres
    rw [Buffer.append] at hres
    split at hres
    · next hlong =>
      refine ⟨_, ?_, fun _ => rfl, hres⟩
      rw [List.length_drop]
      show min xs.length b.cbSize = _
      omega
    · next hlong =>
      refine ⟨_, ?_, fun _ => rfl, hres⟩
      show min xs.length b.cbSize = _
      omega
  | resize size reserveSize => exact .inr (.inl ⟨size, reserveSize, rfl, hres⟩)
  | clear =>
    cases hres
    exact .inr (.inr ⟨rfl, rfl⟩)

/-- `b` has been asked for these sizes. -/
def Buffer.Asked (b : Buffer α) (sizes : ℕ × ℕ) : Prop :=
  b.cbSize = sizes.1 ∧ b.maxSize = sizes.1 + sizes.2

theorem apply_asked {sizes : ℕ × ℕ} (h : b.Asked sizes) {op : Op α} (hop : op.Sized)
    (hres : op.apply A trivial b = .ok b') : b'.Asked (op.sizes sizes) := by
  rcases apply_cases hres with ⟨xs, -, hsizes, hstore⟩ | ⟨size, reserveSize, rfl, hresize⟩ |
    ⟨rfl, rfl⟩
  · obtain ⟨hcb, hmax⟩ := store_sizes hstore
    rw [hsizes]
    exact ⟨hcb.trans h.1, hmax.trans h.2⟩
  · obtain ⟨kept, -, hrest⟩ := bind_ok.mp hresize
    obtain ⟨newVec, -, hrest⟩ := bind_ok.mp hrest
    cases hrest
    exact ⟨rfl, addSize_eq hop⟩
  · exact h

theorem runOps_asked {sizes : ℕ × ℕ} {ops : List (Op α)} (h : b.Asked sizes)
    (hops : ∀ op ∈ ops, op.Sized) (hres : runOps A trivial ops b = .ok b') :
    b'.Asked (ops.foldl (fun sizes op => op.sizes sizes) sizes) := by
  induction ops generalizing b sizes with
  | nil =>
    cases hres
    exact h
  | cons op ops ih =>
    obtain ⟨b₁, hop, hrest⟩ := bind_ok.mp hres
    exact ih (apply_asked h (hops op List.mem_cons_self) hop)
      (fun op' hop' => hops op' (List.mem_cons_of_mem op hop')) hrest

end Operations

/-! ## How far the capacity grows -/

section Capacity

variable {A : Allocation} {trivial : Bool} {b b' : Buffer α} {l : BoundedSuffix α}

/-- What `ensure_space` leaves: an empty vector of the same capacity, a shifted one with room for
the window, or the same elements in a capacity that fits or may be doubled. -/
theorem ensureSpace_cases (h : Rep A b l) (hheld : b.data.elems.length ≤ b.data.capacity) {n : ℕ}
    (hres : b.ensureSpace A trivial n = .ok b') :
    (b.maxSize < addSize b.posEnd n ∧ b.cbSize ≤ n ∧ b'.data.elems = [] ∧
      b'.data.capacity = b.data.capacity) ∨
    (n < b.cbSize ∧ b'.data.elems.length = b.cbSize - n ∧ b.cbSize ≤ b'.data.capacity ∧
      b'.data.capacity ≤ max b.data.capacity b.maxSize) ∨
    (¬ b.maxSize < addSize b.posEnd n ∧ b'.data.elems.length = b.data.elems.length ∧
      (b'.data.capacity = max b.data.capacity b.maxSize ∨
        b'.data.capacity = b.data.capacity ∧
          (addSize b.data.elems.length n ≤ b.data.capacity ∨
            b.data.capacity * 2 % 2 ^ 64 ≤ b.maxSize))) := by
  have hle := h.cb_le
  have hlt := h.max_lt
  have hend := h.posEnd
  rw [Buffer.ensureSpace] at hres
  split at hres
  · next hover =>
    split at hres
    · next hclear =>
      cases hres
      exact .inl ⟨hover, hclear, rfl, rfl⟩
    · next hclear =>
      have hn : n < b.cbSize := Nat.lt_of_not_le hclear
      have hkeep : subSize b.cbSize n = b.cbSize - n := subSize_eq (by omega) (by omega)
      have hinside := h.shiftsInside hn hover
      have hsource := hinside.source
      split at hres
      -- shifted by `memcpy`: the same memory, which is larger than the window
      · next hmem =>
        obtain ⟨data, hmemcpy, hrest⟩ := bind_ok.mp hres
        obtain ⟨data', herase, hrest⟩ := bind_ok.mp hrest
        cases hrest
        obtain ⟨-, -, -, hcapacity⟩ := memcpyFront_ok hmemcpy
        obtain ⟨-, hlength', hcapacity'⟩ := eraseFrom_ok herase
        have happart := hinside.apart hmem.2
        rw [hkeep] at happart hlength'
        rw [hkeep] at hsource
        refine .inr (.inl ⟨hn, hlength', ?_, ?_⟩)
        · have hover' : b.maxSize < b.posEnd + n := Nat.lt_of_lt_of_le hover (Nat.mod_le _ _)
          have hreserve := hmem.2
          rw [subSize_eq hle hlt] at hreserve
          show b.cbSize ≤ data'.capacity
          rw [hcapacity', hcapacity]
          omega
        · show data'.capacity ≤ _
          rw [hcapacity', hcapacity]
          exact Nat.le_max_left _ _
      -- shifted into a new vector, which has room for the window
      · obtain ⟨newVec, hreserve, hrest⟩ := bind_ok.mp hres
        obtain ⟨kept, hrange, hrest⟩ := bind_ok.mp hrest
        obtain ⟨newVec', hinsert, hrest⟩ := bind_ok.mp hrest
        cases hrest
        obtain ⟨-, hempty, hroom⟩ := reserve_ok hreserve
        obtain ⟨-, -, hlength⟩ := range_ok hrange
        obtain ⟨-, helems, hcapacity⟩ := insertEnd_ok hinsert
        have hkept : kept.length = b.cbSize - n := by omega
        have hnone : newVec.elems.length = 0 := by
          rw [hempty]
          rfl
        have hcb : newVec.capacity = b.cbSize := by
          rw [hroom]
          exact Nat.max_eq_right (Nat.zero_le _)
        have hlength' : newVec'.elems.length = b.cbSize - n := by
          rw [helems, List.length_append, hkept, hnone]
          exact Nat.zero_add _
        have hnew : newVec'.capacity = b.cbSize := by
          rw [hcapacity, if_pos (by omega), hcb]
        refine .inr (.inl ⟨hn, hlength', ?_, ?_⟩)
        · exact Nat.le_of_eq hnew.symm
        · show newVec'.capacity ≤ _
          omega
  · next hover =>
    split at hres
    · obtain ⟨data, hreserve, hrest⟩ := bind_ok.mp hres
      cases hrest
      obtain ⟨-, helems, hcapacity⟩ := reserve_ok hreserve
      exact .inr (.inr ⟨hover, congrArg List.length helems, .inl hcapacity⟩)
    · next hguard =>
      cases hres
      refine .inr (.inr ⟨hover, rfl, .inr ⟨rfl, ?_⟩⟩)
      omega

/-- The capacity after an insertion at the end. -/
theorem insertEnd_capacity (hA : A.Doubling) {v v' : StdVector α} {xs : List α}
    (h : v.insertEnd A xs = .ok v') :
    v'.elems.length ≤ v'.capacity ∧
      (v'.capacity = v.capacity ∨ v.capacity < v.elems.length + xs.length ∧
        v'.capacity ≤ max (2 * v.capacity) (v.elems.length + xs.length)) := by
  obtain ⟨-, helems, hcapacity⟩ := insertEnd_ok h
  have hlength : v'.elems.length = v.elems.length + xs.length := by
    rw [helems, List.length_append]
  rw [hcapacity, hlength]
  split
  · next hfits => exact ⟨hfits, .inl rfl⟩
  · next hfits =>
    have hlt : v.capacity < v.elems.length + xs.length := Nat.lt_of_not_le hfits
    exact ⟨hA.enough _ _ _ hlt, .inr ⟨hlt, hA.most _ _ _ hlt⟩⟩

/-- The vector holds what it has room for, and its room is within the total allocation. -/
structure Stored (b : Buffer α) : Prop where
  held : b.data.elems.length ≤ b.data.capacity
  bounded : b.data.capacity ≤ b.maxSize

/-- **Storing keeps within the total allocation** unless it overgrows. -/
theorem Stored.store (hA : A.Doubling) (h : Rep A b l) (hb : Stored b) {op : Op α} {xs : List α}
    (hcount : op.count b = xs.length) (hnot : ¬ b.Overgrows op)
    (hres : b.store A trivial xs = .ok b') : Stored b' := by
  obtain ⟨b₁, hspace, hrest⟩ := bind_ok.mp hres
  obtain ⟨data, hinsert, hrest⟩ := bind_ok.mp hrest
  cases hrest
  have hfits := (insertEnd_ok hinsert).1
  obtain ⟨hheld, hgrown⟩ := insertEnd_capacity hA hinsert
  obtain ⟨-, hmax⟩ := ensureSpace_sizes hspace
  have hA_lt := A.maxSize_lt
  have hle := h.cb_le
  have hlt := h.max_lt
  have hend := h.posEnd
  have hbounded := hb.bounded
  rw [Buffer.Overgrows, hcount] at hnot
  refine ⟨by simpa using hheld, ?_⟩
  rw [advancePos_data, advancePos_maxSize]
  show data.capacity ≤ b₁.maxSize
  rw [hmax]
  rcases ensureSpace_cases h hb.held hspace with ⟨hover, hclear, hcleared, hcapacity⟩ |
    ⟨hn, hshifted, hwindow, hcapacity⟩ | ⟨hover, hkept, hcapacity⟩
  · -- everything has been cleared
    rw [hcleared, List.length_nil, hcapacity] at hgrown
    omega
  · -- the window fits in the capacity there is
    omega
  · -- the elements fit, or the capacity can be doubled
    rw [addSize_eq (by omega)] at hover
    rcases hcapacity with hreserved | ⟨hsame, hroom | hdouble⟩
    · omega
    · rw [addSize_eq (by omega)] at hroom
      omega
    · omega

/-- What overgrows gets a capacity for the elements in place of those that have been cleared. -/
theorem store_overgrows {op : Op α} {xs : List α} (hcount : op.count b = xs.length)
    (hover : b.Overgrows op) (hres : b.store A trivial xs = .ok b') :
    b'.maxSize = b.maxSize ∧
      b'.data.capacity = A.grow b.data.capacity xs.length xs.length := by
  rw [Buffer.Overgrows, hcount] at hover
  obtain ⟨hpast, hclear, hlack, -⟩ := hover
  obtain ⟨b₁, hspace, hrest⟩ := bind_ok.mp hres
  obtain ⟨data, hinsert, hrest⟩ := bind_ok.mp hrest
  cases hrest
  rw [Buffer.ensureSpace, if_pos hpast, if_pos hclear] at hspace
  cases hspace
  obtain ⟨-, -, hcapacity⟩ := insertEnd_ok hinsert
  simp only [List.length_nil, Nat.zero_add] at hcapacity
  rw [if_neg (by omega)] at hcapacity
  rw [advancePos_data, advancePos_maxSize]
  exact ⟨rfl, hcapacity⟩

theorem Stored.resize (hA : A.Doubling) (h : Rep A b l) {size reserveSize : ℕ}
    (hsized : size + reserveSize < 2 ^ 64) (hres : b.resize A size reserveSize = .ok b') :
    Stored b' := by
  obtain ⟨kept, hrange, hrest⟩ := bind_ok.mp hres
  obtain ⟨newVec, hinsert, hrest⟩ := bind_ok.mp hrest
  cases hrest
  obtain ⟨-, -, hlength⟩ := range_ok hrange
  obtain ⟨hheld, hgrown⟩ := insertEnd_capacity hA hinsert
  have hlt := h.posEnd_lt
  have hend := h.posEnd
  have hcopy : min b.size size ≤ b.data.elems.length := by
    rw [Buffer.size, subSize_eq h.posBegin_le (by omega)]
    omega
  rw [subSize_eq hcopy (by omega)] at hlength
  refine ⟨hheld, ?_⟩
  show newVec.capacity ≤ addSize size reserveSize
  rw [addSize_eq hsized]
  simp only [StdVector.other, List.length_nil] at hgrown
  omega

/-- **Every step keeps within the total allocation** unless it overgrows. -/
theorem Stored.apply (hA : A.Doubling) (h : Rep A b l) (hb : Stored b) {op : Op α} (hop : op.Sized)
    (hnot : ¬ b.Overgrows op) (hres : op.apply A trivial b = .ok b') : Stored b' := by
  rcases apply_cases hres with ⟨xs, hcount, -, hstore⟩ | ⟨size, reserveSize, rfl, hresize⟩ |
    ⟨rfl, rfl⟩
  · exact hb.store hA h hcount hnot hstore
  · exact Stored.resize hA h hop hresize
  · exact ⟨Nat.le_refl 0, Nat.zero_le _⟩

/-- What overgrows leaves the total allocation, if the vector doubles. -/
theorem not_bounded_of_overgrows (hA : ∀ c n k, c < n → A.grow c n k = max (2 * c) n) {op : Op α}
    (hover : b.Overgrows op) (hres : op.apply A trivial b = .ok b') :
    b'.maxSize < b'.data.capacity := by
  have hlack := hover.2.2
  rcases apply_cases hres with ⟨xs, hcount, -, hstore⟩ | ⟨size, reserveSize, rfl, -⟩ | ⟨rfl, -⟩
  · obtain ⟨hmax, hcapacity⟩ := store_overgrows hcount hover hstore
    rw [hcount] at hlack
    rw [hmax, hcapacity, hA _ _ _ hlack.1]
    exact hlack.2
  · exact absurd hlack.1 (Nat.not_lt_zero _)
  · exact absurd hlack.1 (Nat.not_lt_zero _)

end Capacity

/-! ## Histories -/

section Histories

variable {A : Allocation} {trivial : Bool} {start b b' : Buffer α} {l : BoundedSuffix α}
  {ops ops₁ ops₂ : List (Op α)} {op op' : Op α}

theorem runOps_append :
    runOps A trivial (ops₁ ++ ops₂) start =
      runOps A trivial ops₁ start >>= runOps A trivial ops₂ := by
  induction ops₁ generalizing start with
  | nil => rfl
  | cons op ops ih =>
    show (op.apply A trivial start >>= fun b => runOps A trivial (ops ++ ops₂) b) = _
    cases hop : op.apply A trivial start with
    | ok b =>
      rw [runOps, hop]
      exact ih
    | error fault =>
      rw [runOps, hop]
      rfl

theorem Step.applies (h : Step A trivial start ops b op b') : op.apply A trivial b = .ok b' := by
  obtain ⟨-, -, -, -, hstep⟩ := h
  exact hstep

theorem Step.head (hop : op.apply A trivial start = .ok b) :
    Step A trivial start (op :: ops) start op b :=
  ⟨[], ops, rfl, rfl, hop⟩

theorem Step.tail {b₁ : Buffer α} (hop : op.apply A trivial start = .ok b₁)
    (h : Step A trivial b₁ ops b op' b') : Step A trivial start (op :: ops) b op' b' := by
  obtain ⟨ops₁, ops₂, rfl, hrun, hstep⟩ := h
  refine ⟨op :: ops₁, ops₂, rfl, ?_, hstep⟩
  rw [runOps, hop]
  exact hrun

theorem Step.not_nil : ¬Step A trivial start [] b op b' := by
  rintro ⟨ops₁, ops₂, hops, -, -⟩
  exact List.append_ne_nil_of_right_ne_nil ops₁ (List.cons_ne_nil op ops₂) hops.symm

/-- A step is the first of a history or one of the rest. -/
theorem Step.cons_cases (h : Step A trivial start (op :: ops) b op' b') :
    (b = start ∧ op' = op) ∨
      ∃ b₁, op.apply A trivial start = .ok b₁ ∧ Step A trivial b₁ ops b op' b' := by
  obtain ⟨ops₁, ops₂, hops, hrun, hstep⟩ := h
  cases ops₁ with
  | nil =>
    cases hops
    cases hrun
    exact .inl ⟨rfl, rfl⟩
  | cons op₁ ops₁ =>
    cases hops
    obtain ⟨b₁, hb₁, hrest⟩ := bind_ok.mp hrun
    exact .inr ⟨b₁, hb₁, ops₁, ops₂, rfl, hrest, hstep⟩

/-- The steps made until a given one are steps of the history. -/
theorem Step.of_prefix (h : Step A trivial start ops₁ b op b') :
    Step A trivial start (ops₁ ++ ops₂) b op b' := by
  obtain ⟨before, after, rfl, hrun, hstep⟩ := h
  refine ⟨before, after ++ ops₂, ?_, hrun, hstep⟩
  rw [List.append_assoc, List.cons_append]

/-- A step is the last one of a history. -/
theorem Step.last (h : Step A trivial start ops b op b') :
    ∃ ops₁ ops₂, ops = ops₁ ++ ops₂ ∧ runOps A trivial ops₁ start = .ok b' := by
  obtain ⟨ops₁, ops₂, rfl, hrun, hstep⟩ := h
  refine ⟨ops₁ ++ [op], ops₂, ?_, ?_⟩
  · rw [List.append_assoc, List.singleton_append]
  · rw [runOps_append, hrun]
    show (op.apply A trivial b >>= fun b => runOps A trivial [] b) = _
    rw [hstep]
    rfl

/-- **The storage over a history** none of whose steps overgrows. -/
theorem Stored.runOps (hA : A.Doubling) (h : Rep A start l) (hstart : Stored start)
    (hops : ∀ op ∈ ops, op.Sized)
    (hsteps : ∀ b op b', Step A trivial start ops b op b' → ¬ b.Overgrows op)
    (hres : runOps A trivial ops start = .ok b) : Stored b := by
  induction ops generalizing start l with
  | nil =>
    cases hres
    exact hstart
  | cons op ops ih =>
    obtain ⟨b₁, hop, hrest⟩ := bind_ok.mp hres
    have hsized := hops op List.mem_cons_self
    have hyields := apply_yields trivial h op hsized
    rw [hop] at hyields
    refine ih hyields.1 (hstart.apply hA h hsized (hsteps _ _ _ (.head hop)) hop)
      (fun op' hop' => hops op' (List.mem_cons_of_mem op hop')) ?_ hrest
    exact fun b op' b' hstep => hsteps b op' b' (.tail hop hstep)

end Histories

/-- **The storage of the buffer**, after any history that returns, where `S` and `R` have been asked
for last.  The vector ends where the window ends, within the total allocation, and the window is
full as soon as there are elements for it.  A shift reads inside the window.  The capacity stays
within the total allocation if no step overgrows; if the vector doubles, exactly then. -/
theorem storage_bounded_iff (A : Allocation) (trivial : Bool) (size reserveSize : ℕ)
    (hnew : size + reserveSize < 2 ^ 64) (ops : List (Op α)) (hops : ∀ op ∈ ops, op.Sized)
    {S R : ℕ} (hsizes : ops.foldl (fun sizes op => op.sizes sizes) (size, reserveSize) = (S, R))
    {b : Buffer α} (h : runOps A trivial ops (Buffer.new α size reserveSize) = .ok b) :
    (b.cbSize = S ∧ b.maxSize = S + R) ∧
    (b.data.elems.length = b.posEnd ∧ (1 ≤ S → b.posEnd ≤ S + R)) ∧
    b.posEnd - b.posBegin = min b.posEnd S ∧
    (∀ n < S, S + R < addSize b.posEnd n → ShiftsInside b n) ∧
    (A.Doubling →
      (∀ b op b', Step A trivial (Buffer.new α size reserveSize) ops b op b' → ¬ b.Overgrows op) →
      b.data.capacity ≤ S + R) ∧
    ((∀ c n k, c < n → A.grow c n k = max (2 * c) n) →
      ((∀ b op b', Step A trivial (Buffer.new α size reserveSize) ops b op b' →
          b'.data.capacity ≤ b'.maxSize) ↔
        ∀ b op b', Step A trivial (Buffer.new α size reserveSize) ops b op b' →
          ¬ b.Overgrows op)) := by
  have hnewRep := Rep.new A α hnew
  have hnewStored : Stored (Buffer.new α size reserveSize) := ⟨Nat.le_refl 0, Nat.zero_le _⟩
  have hrep := runOps_yields trivial ops hnewRep hops
  rw [h] at hrep
  have hasked : b.Asked (S, R) := by
    rw [← hsizes]
    exact runOps_asked ⟨rfl, addSize_eq hnew⟩ hops h
  have hcb : b.cbSize = S := hasked.1
  have hmax : b.maxSize = S + R := hasked.2
  refine ⟨⟨hcb, hmax⟩, ⟨hrep.posEnd.symm, fun hS => ?_⟩, ?_, fun n hn hover => ?_,
    fun hA hsteps => ?_, fun hA => ⟨fun hbounded b op b' hstep hover => ?_, ?_⟩⟩
  · have hroom := hrep.room
    omega
  · rw [← hcb]
    exact hrep.window
  · rw [← hmax] at hover
    exact hrep.shiftsInside (hcb ▸ hn) hover
  · rw [← hmax]
    exact (hnewStored.runOps hA hnewRep hops hsteps h).bounded
  · have hgrown := not_bounded_of_overgrows hA hover hstep.applies
    exact Nat.not_le_of_lt hgrown (hbounded b op b' hstep)
  · intro hsteps b op b' hstep
    have hdoubling : A.Doubling := by
      constructor
      · intro c n k hlt
        rw [hA c n k hlt]
        exact Nat.le_max_right _ _
      · intro c n k hlt
        exact Nat.le_of_eq (hA c n k hlt)
    obtain ⟨ops₁, ops₂, rfl, hrun⟩ := hstep.last
    refine (hnewStored.runOps hdoubling hnewRep ?_ ?_ hrun).bounded
    · exact fun op hop => hops op (List.mem_append_left _ hop)
    · exact fun b op b' hstep => hsteps b op b' hstep.of_prefix

/-- An allocation that grows to twice its capacity, or to what is needed. -/
def doublingAllocation : Allocation := { exactAllocation with grow := fun c n _ => max (2 * c) n }

theorem doublingAllocation_doubling : doublingAllocation.Doubling :=
  ⟨fun _ _ _ _ => Nat.le_max_right _ _, fun _ _ _ _ => Nat.le_refl _⟩

/-- Nine elements in a window of five and an allocation of ten: three more are shifted for, and the
capacity is within the allocation. -/
theorem storage_bounded_iff_shift :
    ∃ b, runOps doublingAllocation true [Op.append [0, 1, 2, 3], .append [4, 5, 6, 7, 8]]
        (Buffer.new ℕ 5 5) = .ok b ∧
      b.posEnd ≤ 5 + 5 ∧ b.posEnd - b.posBegin = 5 ∧ ShiftsInside b 3 ∧
      b.data.capacity ≤ 5 + 5 := by
  have hsized : ∀ op ∈ [Op.append [0, 1, 2, 3], .append [4, 5, 6, 7, 8]], op.Sized := by
    intro op hop
    rcases List.mem_cons.mp hop with rfl | hop
    · trivial
    · rw [List.mem_singleton.mp hop]
      trivial
  have hfirst : (Op.append [0, 1, 2, 3]).apply doublingAllocation true (Buffer.new ℕ 5 5) =
      .ok ⟨⟨[0, 1, 2, 3], 4, 1⟩, 5, 10, 0, 4⟩ := by decide +kernel
  have hrun : runOps doublingAllocation true [Op.append [0, 1, 2, 3], .append [4, 5, 6, 7, 8]]
      (Buffer.new ℕ 5 5) = .ok ⟨⟨[0, 1, 2, 3, 4, 5, 6, 7, 8], 9, 2⟩, 5, 10, 4, 9⟩ := by
    decide +kernel
  have hsteps : ∀ b op b', Step doublingAllocation true (Buffer.new ℕ 5 5)
      [Op.append [0, 1, 2, 3], .append [4, 5, 6, 7, 8]] b op b' → ¬b.Overgrows op := by
    intro b op b' hstep
    rcases hstep.cons_cases with ⟨rfl, rfl⟩ | ⟨b₁, hb₁, hstep⟩
    · decide
    · cases hfirst.symm.trans hb₁
      rcases hstep.cons_cases with ⟨rfl, rfl⟩ | ⟨b₂, -, hstep⟩
      · decide
      · exact absurd hstep Step.not_nil
  obtain ⟨-, ⟨-, hend⟩, hwindow, hshift, hcapacity, -⟩ :=
    storage_bounded_iff doublingAllocation true 5 5 (by decide) _ hsized rfl hrun
  exact ⟨_, hrun, hend (by decide), hwindow, hshift 3 (by decide) (by decide),
    hcapacity doublingAllocation_doubling hsteps⟩

/-- Three elements replace two in a vector of capacity two that doubles: its capacity is four, the
total allocation three. -/
theorem cleared_vector_outgrows :
    doublingAllocation.Doubling ∧
    ∃ b, runOps doublingAllocation true [.pushBack 0, .pushBack 1, .append [2, 3, 4]]
        (Buffer.new ℕ 3 0) = .ok b ∧
      3 + 0 < b.data.capacity := by
  refine ⟨doublingAllocation_doubling, ⟨⟨[2, 3, 4], 4, 3⟩, 3, 3, 0, 3⟩, ?_, by decide⟩
  decide +kernel

/-- Sizes whose sum overflows lead to a shift of elements that are not there. -/
example : runOps doublingAllocation true [.pushBack 0]
    (Buffer.new ℕ (2 ^ 62) (2 ^ 64 - 2 ^ 62)) = .error .undefined := by
  decide +kernel

end RollingContiguousBuffer
