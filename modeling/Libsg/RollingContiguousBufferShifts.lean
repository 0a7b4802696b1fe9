/-
# What the shifts of a rolling contiguous buffer cost

`rolling_contiguous_buffer.h` has more memory than it shows, to increase performance: a shift
copies what stays in the window to the front, and then the reserve `R` has to be filled before the
next one.  A shift may copy the whole window `S` but for one element; every element stored pays
`(S - 1) / (R + 1)` of it.

The potential is the end of the window: what has been stored since the last shift lies between `S`
and `pos_end`.
-/
import Libsg.RollingContiguousBufferStorage
import Mathlib.Tactic.Ring

namespace RollingContiguousBuffer

variable {α : Type*}

/-! ## What is counted -/

/-- How many elements `ensure_space` copies or moves to the front. -/
def Buffer.shifted (b : Buffer α) (noNewPoints : ℕ) : ℕ :=
  if b.maxSize < addSize b.posEnd noNewPoints then
    if b.cbSize ≤ noNewPoints then 0 else subSize b.cbSize noNewPoints
  else 0

/-- How many of them an operation does. -/
def Op.shifted (b : Buffer α) : Op α → ℕ
  | .resize _ _ | .clear => 0
  | op => b.shifted (op.count b)

/-- The sum over the operations of a history, up to the first that throws. -/
def total (A : Allocation) (trivial : Bool) (f : Buffer α → Op α → ℕ) :
    List (Op α) → Buffer α → ℕ
  | [], _ => 0
  | op :: ops, b => f b op +
    match op.apply A trivial b with
    | .ok b' => total A trivial f ops b'
    | .error _ => 0

/-- The operation is no `resize`. -/
def Op.Keeps (op : Op α) : Prop := ∀ sizes, op.sizes sizes = sizes

/-! ## One operation -/

section Step

variable {A : Allocation} {trivial : Bool} {b b' : Buffer α} {l : BoundedSuffix α}

/-- **What `ensure_space` copies or moves** is what it leaves in the vector, when it shifts. -/
theorem ensureSpace_elems (h : Rep A b l) {n : ℕ} (hres : b.ensureSpace A trivial n = .ok b') :
    b'.data.elems = if b.maxSize < addSize b.posEnd n then b.data.elems.lastN (b.shifted n)
      else b.data.elems := by
  have hle := h.cb_le
  have hlt := h.max_lt
  have hend := h.posEnd
  have hend_lt := h.posEnd_lt
  rw [Buffer.ensureSpace] at hres
  rw [Buffer.shifted]
  split at hres
  · next hover =>
    rw [if_pos hover, if_pos hover]
    split at hres
    · next hclear =>
      cases hres
      rw [if_pos hclear, List.lastN, Nat.sub_zero, List.drop_length]
    · next hclear =>
      have hn : n < b.cbSize := Nat.lt_of_not_le hclear
      have hkeep : subSize b.cbSize n = b.cbSize - n := subSize_eq (by omega) (by omega)
      have hinside := h.shiftsInside hn hover
      have hsource : subSize b.posEnd (subSize b.cbSize n) =
          b.data.elems.length - (b.cbSize - n) := by
        have := hinside.source
        omega
      rw [if_neg hclear, hkeep, List.lastN]
      split at hres
      · next hmem =>
        have happart := hinside.apart hmem.2
        obtain ⟨data, hmemcpy, hrest⟩ := bind_ok.mp hres
        obtain ⟨data', herase, hrest⟩ := bind_ok.mp hrest
        cases hrest
        rw [hkeep] at hmemcpy herase hsource happart
        rw [hsource] at hmemcpy happart
        -- the two ranges are apart, so the last elements come to the front unchanged
        rw [StdVector.memcpyFront, if_pos ⟨happart, by omega⟩] at hmemcpy
        cases hmemcpy
        rw [StdVector.eraseFrom] at herase
        split at herase
        · cases herase
          have hlength : ((b.data.elems.drop (b.data.elems.length - (b.cbSize - n))).take
              (b.cbSize - n)).length = b.cbSize - n := by
            rw [List.length_take, List.length_drop]
            omega
          show List.take (b.cbSize - n) (List.take _ _ ++ _) = _
          rw [List.take_left' hlength, List.take_of_length_le]
          rw [List.length_drop]
          omega
        · cases herase
      · obtain ⟨newVec, hreserve, hrest⟩ := bind_ok.mp hres
        obtain ⟨kept, hrange, hrest⟩ := bind_ok.mp hrest
        obtain ⟨newVec', hinsert, hrest⟩ := bind_ok.mp hrest
        cases hrest
        obtain ⟨-, hempty, -⟩ := reserve_ok hreserve
        obtain ⟨-, helems, -⟩ := insertEnd_ok hinsert
        rw [StdVector.range] at hrange
        split at hrange
        · cases hrange
          show newVec'.elems = _
          rw [helems, hempty, hsource, hend, List.take_length]
          rfl
        · cases hrange
  · next hover =>
    rw [if_neg hover]
    split at hres
    · obtain ⟨data, hreserve, hrest⟩ := bind_ok.mp hres
      cases hrest
      exact (reserve_ok hreserve).2.1
    · cases hres
      rfl

/-- Where the elements end that `ensure_space` leaves. -/
theorem ensureSpace_posEnd (h : Rep A b l) {n : ℕ} (hres : b.ensureSpace A trivial n = .ok b') :
    b'.posEnd = if b.maxSize < addSize b.posEnd n then b.cbSize - n else b.posEnd := by
  have hle := h.cb_le
  have hlt := h.max_lt
  have hinside : Inside A b := ⟨h.posEnd, h.posBegin_le, h.fits⟩
  rw [(hinside.ensureSpace hres).posEnd, ensureSpace_elems h hres]
  split
  · next hover =>
    have hover' : b.maxSize < b.posEnd + n := Nat.lt_of_lt_of_le hover (Nat.mod_le _ _)
    rw [List.length_lastN, Buffer.shifted, if_pos hover, ← h.posEnd]
    split
    · omega
    · rw [subSize_eq (by omega) (by omega)]
      omega
  · exact h.posEnd.symm

/-- Where the window ends after `n` elements have been stored, and what that has shifted. -/
structure Moves (b b' : Buffer α) (n cost : ℕ) : Prop where
  posEnd : b'.posEnd = (if b.maxSize < b.posEnd + n then b.cbSize - n else b.posEnd) + n
  cost : cost = if b.maxSize < b.posEnd + n then b.cbSize - n else 0

theorem store_moves (h : Rep A b l) {xs : List α} (hres : b.store A trivial xs = .ok b') :
    Moves b b' xs.length (b.shifted xs.length) := by
  obtain ⟨b₁, hspace, hrest⟩ := bind_ok.mp hres
  obtain ⟨data, hinsert, hrest⟩ := bind_ok.mp hrest
  cases hrest
  have hposEnd := ensureSpace_posEnd h hspace
  have hfits := (insertEnd_ok hinsert).1
  have hmax := A.maxSize_lt
  have hlt := h.max_lt
  have hle := h.cb_le
  have hend_lt := h.posEnd_lt
  have hsum : addSize b.posEnd xs.length = b.posEnd + xs.length := addSize_eq (by omega)
  rw [hsum] at hposEnd
  constructor
  · have hadvance : (Buffer.advancePos xs.length { b₁ with data := data }).posEnd =
        addSize b₁.posEnd xs.length := by
      rw [Buffer.advancePos]
      dsimp only
      split <;> rfl
    have hend₁ : b₁.posEnd + xs.length < 2 ^ 64 := by
      rw [hposEnd]
      split <;> omega
    rw [hadvance, addSize_eq hend₁, hposEnd]
  · rw [Buffer.shifted, hsum]
    split
    · split
      · omega
      · rw [subSize_eq (by omega) (by omega)]
    · rfl

/-- What one operation shifts is paid for by what it stores and by the window that it ends. -/
theorem apply_pays {S R : ℕ} (h : Rep A b l) (hasked : b.Asked (S, R)) {op : Op α}
    (hop : op.Keeps) (hres : op.apply A trivial b = .ok b') :
    (R + 1) * op.shifted b + (S - 1) * b'.posEnd ≤ (S - 1) * (op.count b + b.posEnd) := by
  have hcb : b.cbSize = S := hasked.1
  have hmax : b.maxSize = S + R := hasked.2
  rcases apply_cases hres with ⟨xs, hcount, -, hstore⟩ | ⟨size, reserveSize, rfl, -⟩ | ⟨rfl, rfl⟩
  · obtain ⟨hposEnd, hcost⟩ := store_moves h hstore
    have hshifted : op.shifted b ≤ b.shifted xs.length := by
      rw [← hcount]
      cases op with
      | resize size reserveSize => exact Nat.zero_le _
      | clear => exact Nat.zero_le _
      | _ => exact Nat.le_refl _
    have hroom := h.room
    rw [hcount, hposEnd]
    refine Nat.le_trans (Nat.add_le_add_right (Nat.mul_le_mul_left (R + 1) hshifted) _) ?_
    rw [hcost, hcb, hmax]
    by_cases hover : S + R < b.posEnd + xs.length
    · rw [if_pos hover, if_pos hover]
      by_cases hclear : S ≤ xs.length
      · rw [Nat.sub_eq_zero_of_le hclear, Nat.mul_zero, Nat.zero_add, Nat.zero_add]
        exact Nat.mul_le_mul_left _ (Nat.le_add_right _ _)
      · -- one element of the window at least is new
        have hsome : 1 ≤ xs.length := by omega
        have hend : S - xs.length + xs.length = S := by omega
        rw [hend]
        calc (R + 1) * (S - xs.length) + (S - 1) * S
            ≤ (R + 1) * (S - 1) + (S - 1) * S :=
              Nat.add_le_add_right (Nat.mul_le_mul_left _ (by omega)) _
          _ = (S - 1) * (S + R + 1) := by ring
          _ ≤ (S - 1) * (xs.length + b.posEnd) := Nat.mul_le_mul_left _ (by omega)
    · rw [if_neg hover, if_neg hover, Nat.mul_zero, Nat.zero_add, Nat.add_comm b.posEnd]
  · have hsame := hop (size + 1, reserveSize)
    exact absurd (congrArg Prod.fst hsame) (by simp [Op.sizes])
  · exact Nat.zero_le _

end Step

/-! ## Histories -/

section Histories

variable {A : Allocation} {trivial : Bool} {b b' : Buffer α} {l : BoundedSuffix α} {S R : ℕ}

theorem Op.Keeps.sized {op : Op α} (h : op.Keeps) : op.Sized := by
  cases op with
  | resize size reserveSize =>
    have hsame := h (size + 1, reserveSize)
    exact absurd (congrArg Prod.fst hsame) (by simp [Op.sizes])
  | _ => trivial

theorem total_cons {f : Buffer α → Op α → ℕ} {op : Op α} {ops : List (Op α)} {b₁ : Buffer α}
    (hop : op.apply A trivial b = .ok b₁) :
    total A trivial f (op :: ops) b = f b op + total A trivial f ops b₁ := by
  rw [total, hop]

/-- **The shifts of a history** are paid for by what it stores and by the window it starts with. -/
theorem total_pays {ops : List (Op α)} (h : Rep A b l) (hasked : b.Asked (S, R))
    (hops : ∀ op ∈ ops, op.Keeps) (hres : runOps A trivial ops b = .ok b') :
    (R + 1) * total A trivial (fun b op => op.shifted b) ops b + (S - 1) * b'.posEnd ≤
      (S - 1) * (total A trivial (fun b op => op.count b) ops b + b.posEnd) := by
  induction ops generalizing b l with
  | nil =>
    cases hres
    exact Nat.le_of_eq (by simp [total])
  | cons op ops ih =>
    obtain ⟨b₁, hop, hrest⟩ := bind_ok.mp hres
    have hkeeps := hops op List.mem_cons_self
    have hyields := apply_yields trivial h op hkeeps.sized
    rw [hop] at hyields
    have hasked₁ : b₁.Asked (S, R) := by
      have hsizes := apply_asked hasked hkeeps.sized hop
      rwa [hkeeps] at hsizes
    have hrun := ih hyields.1 hasked₁ (fun op' hop' => hops op' (List.mem_cons_of_mem op hop')) hrest
    have hstep := apply_pays h hasked hkeeps hop
    rw [total_cons hop, total_cons hop]
    simp only [Nat.mul_add] at hrun hstep ⊢
    omega

/-! ## One element after another -/

/-- Where the window ends after `n` elements and `shifts` shifts. -/
def Filled (S R n shifts posEnd : ℕ) : Prop :=
  (n < S ∧ shifts = 0 ∧ posEnd = n) ∨
    ∃ since ≤ R, n = S + shifts * (R + 1) + since ∧ posEnd = S + since

theorem Filled.shifts {n shifts posEnd : ℕ} (h : Filled S R n shifts posEnd) :
    shifts = (n - S) / (R + 1) := by
  rcases h with ⟨hn, rfl, -⟩ | ⟨since, hsince, rfl, -⟩
  · rw [Nat.sub_eq_zero_of_le (Nat.le_of_lt hn), Nat.zero_div]
  · have hrest : S + shifts * (R + 1) + since - S = (R + 1) * shifts + since := by
      rw [Nat.add_assoc, Nat.add_sub_cancel_left, Nat.mul_comm]
    rw [hrest, Nat.mul_add_div (Nat.succ_pos R), Nat.div_eq_of_lt (Nat.lt_succ_of_le hsince),
      Nat.add_zero]

theorem pushBack_filled {n shifts : ℕ} (hS : 1 ≤ S) (h : Rep A b l) (hasked : b.Asked (S, R))
    (hfilled : Filled S R n shifts b.posEnd) {val : α}
    (hres : (Op.pushBack val).apply A trivial b = .ok b') :
    ∃ shifts', Filled S R (n + 1) shifts' b'.posEnd ∧
      (S - 1) * shifts' = (Op.pushBack val).shifted b + (S - 1) * shifts := by
  have hcb : b.cbSize = S := hasked.1
  have hmax : b.maxSize = S + R := hasked.2
  obtain ⟨hposEnd, hcost⟩ := store_moves h hres
  have hshifted : (Op.pushBack val).shifted b = b.shifted [val].length := rfl
  rw [hcb, hmax, List.length_singleton] at hposEnd hcost
  rw [hshifted, List.length_singleton, hcost]
  by_cases hover : S + R < b.posEnd + 1
  · rw [if_pos hover] at hposEnd ⊢
    refine ⟨shifts + 1, ?_, by rw [Nat.mul_add, Nat.mul_one, Nat.add_comm]⟩
    rcases hfilled with ⟨hn, rfl, hend⟩ | ⟨since, hsince, rfl, hend⟩
    · omega
    · -- the reserve is full
      obtain rfl : since = R := by omega
      refine .inr ⟨0, Nat.zero_le _, ?_, by omega⟩
      rw [Nat.add_mul]
      omega
  · rw [if_neg hover] at hposEnd ⊢
    refine ⟨shifts, ?_, (Nat.zero_add _).symm⟩
    rcases hfilled with ⟨hn, rfl, hend⟩ | ⟨since, hsince, rfl, hend⟩
    · by_cases hfull : n + 1 < S
      · exact .inl ⟨hfull, rfl, by omega⟩
      · exact .inr ⟨0, Nat.zero_le _, by omega, by omega⟩
    · exact .inr ⟨since + 1, by omega, by omega, by omega⟩

theorem total_pushBack {n shifts : ℕ} (hS : 1 ≤ S) (h : Rep A b l) (hasked : b.Asked (S, R))
    (hfilled : Filled S R n shifts b.posEnd) (xs : List α)
    (hres : runOps A trivial (xs.map .pushBack) b = .ok b') :
    total A trivial (fun b op => op.shifted b) (xs.map .pushBack) b + (S - 1) * shifts =
      (S - 1) * ((n + xs.length - S) / (R + 1)) := by
  induction xs generalizing b l n shifts with
  | nil =>
    show 0 + (S - 1) * shifts = _
    rw [hfilled.shifts, Nat.zero_add]
    rfl
  | cons x xs ih =>
    obtain ⟨b₁, hop, hrest⟩ := bind_ok.mp hres
    have hyields := apply_yields trivial h (.pushBack x) True.intro
    rw [hop] at hyields
    obtain ⟨shifts', hfilled', hpaid⟩ := pushBack_filled hS h hasked hfilled hop
    have hasked₁ : b₁.Asked (S, R) :=
      apply_asked hasked (show (Op.pushBack x).Sized from True.intro) hop
    have hrun := ih hyields.1 hasked₁ hfilled' hrest
    have hcount : n + (xs.length + 1) = n + 1 + xs.length := by omega
    rw [List.map_cons, total_cons hop, List.length_cons, hcount, ← hrun, hpaid]
    omega

end Histories

/-- **A shift is rare enough.**  While the sizes stay `S` and `R`, every element stored pays for
`(S - 1) / (R + 1)` elements that are copied to the front, besides what was there before; and
elements that are pushed one after another into a new buffer cost just that. -/
theorem shifts_amortised (A : Allocation) (trivial : Bool) (size reserveSize : ℕ)
    (hnew : size + reserveSize < 2 ^ 64) :
    (∀ (ops : List (Op α)) {S R : ℕ} {b : Buffer α}, (∀ op ∈ ops, op.Sized) →
      ops.foldl (fun sizes op => op.sizes sizes) (size, reserveSize) = (S, R) →
      runOps A trivial ops (Buffer.new α size reserveSize) = .ok b →
      ∀ (ops' : List (Op α)) {b' : Buffer α}, (∀ op ∈ ops', op.Keeps) →
      runOps A trivial ops' b = .ok b' →
      (R + 1) * total A trivial (fun b op => op.shifted b) ops' b ≤
        (S - 1) * (total A trivial (fun b op => op.count b) ops' b + b.posEnd)) ∧
    ∀ (xs : List α) {b : Buffer α},
      runOps A trivial (xs.map .pushBack) (Buffer.new α size reserveSize) = .ok b →
      total A trivial (fun b op => op.shifted b) (xs.map .pushBack)
          (Buffer.new α size reserveSize) =
        (size - 1) * ((xs.length - size) / (reserveSize + 1)) := by
  have hnewRep := Rep.new A α hnew
  have hnewAsked : (Buffer.new α size reserveSize).Asked (size, reserveSize) :=
    ⟨rfl, addSize_eq hnew⟩
  refine ⟨fun ops S R b hops hsizes hrun ops' b' hkeeps hrun' => ?_, fun xs b hrun => ?_⟩
  · have hrep := runOps_yields trivial ops hnewRep hops
    rw [hrun] at hrep
    have hasked := runOps_asked hnewAsked hops hrun
    rw [hsizes] at hasked
    exact Nat.le_trans (Nat.le_add_right _ _) (total_pays hrep hasked hkeeps hrun')
  · rcases Nat.eq_zero_or_pos size with rfl | hpos
    · have hkeeps : ∀ op ∈ xs.map Op.pushBack, op.Keeps := by
        intro op hop sizes
        obtain ⟨x, -, rfl⟩ := List.mem_map.mp hop
        rfl
      have hpays := total_pays hnewRep hnewAsked hkeeps hrun
      rw [Nat.zero_sub, Nat.zero_mul, Nat.zero_mul, Nat.add_zero, Nat.le_zero,
        Nat.mul_eq_zero] at hpays
      rw [Nat.zero_sub, Nat.zero_mul]
      exact hpays.resolve_left (Nat.succ_ne_zero _)
    · have hempty : Filled size reserveSize 0 0 (Buffer.new α size reserveSize).posEnd :=
        .inl ⟨hpos, rfl, rfl⟩
      have htotal := total_pushBack hpos hnewRep hnewAsked hempty xs hrun
      rwa [Nat.mul_zero, Nat.add_zero, Nat.zero_add] at htotal

/-- Fourteen elements in a window of three and a reserve of three: two shifts of two. -/
theorem shifts_amortised_three : ∃ b : Buffer ℕ,
    runOps doublingAllocation true ((List.range 14).map .pushBack) (Buffer.new ℕ 3 3) = .ok b ∧
      total doublingAllocation true (fun b op => op.shifted b) ((List.range 14).map .pushBack)
        (Buffer.new ℕ 3 3) = 4 := by
  obtain ⟨b, hrun⟩ : ∃ b : Buffer ℕ, runOps doublingAllocation true
      ((List.range 14).map .pushBack) (Buffer.new ℕ 3 3) = .ok b := by
    refine ⟨⟨⟨[8, 9, 10, 11, 12, 13], 6, 4⟩, 3, 6, 3, 6⟩, ?_⟩
    decide +kernel
  exact ⟨b, hrun, (shifts_amortised doublingAllocation true 3 3 (by decide)).2 _ hrun⟩

end RollingContiguousBuffer
