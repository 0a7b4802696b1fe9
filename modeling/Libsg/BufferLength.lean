/-
# Lengths without pointers

A buffer keeps its length beside its pointer.  `reset` writes both and `swap` exchanges both, but
`release()` and the moves that are made by default take the pointer and leave the length where it
is, so what is left behind still claims its elements.

`sized_iff` : every buffer without a pointer is empty, throughout a run, if and only if no buffer
with elements is released, converted or moved from in it.
-/
import Libsg.Buffer

open TransitionSystem SmartPointers

namespace Buffers

variable {D : Type}

/-- A buffer without a pointer has no elements. -/
def State.Sized (s : State D) : Prop := ∀ i, s.get i = none → s.size i = 0

/-- Then there is nothing between `begin()` and `end()`. -/
theorem State.Sized.beginIter_eq {s : State D} (h : s.Sized) {i : ℕ} (hi : s.get i = none) :
    s.empty i = true ∧ s.beginIter i = s.endIter i := by
  have hsize := h i hi
  constructor
  · exact decide_eq_true hsize
  · rw [State.endIter, State.beginIter, hsize]

/-- The pointer and the length handed over are valid together. -/
def Action.valid : Action D → Bool
  | .uniqueNew ptr length | .uniqueNewWith ptr length _ | .uniqueReset _ ptr length
  | .sharedNew ptr length | .sharedReset _ ptr length => ptr.isSome || length = 0
  | _ => true

/-- The pointer is taken from a buffer that keeps its length, which is not 0. -/
def Action.strands (length : ℕ → ℕ) : Action D → Bool
  | .uniqueMove j | .sharedMove j | .sharedOfUnique j | .uniqueRelease j => length j ≠ 0
  | .uniqueMoveAssign i j | .sharedMoveAssign i j => i ≠ j ∧ length j ≠ 0
  | _ => false

/-! ## One operation -/

section Shapes

variable {s s' : State D} {i j : ℕ}

/-- A pointer and its length are written together. -/
theorem State.Sized.write (h : s.Sized) {ptr : Option ℕ} {length : ℕ}
    (hget : s'.ptrs.get = Function.update s.ptrs.get i ptr)
    (hlength : s'.length = Function.update s.length i length) (hvalid : ptr = none → length = 0) :
    s'.Sized := by
  intro k hk
  rw [State.get, hget] at hk
  rw [State.size, hlength]
  by_cases hki : k = i
  · rw [hki, Function.update_self] at hk
    rw [hki, Function.update_self]
    exact hvalid hk
  · rw [Function.update_of_ne hki] at hk
    rw [Function.update_of_ne hki]
    exact h k hk

/-- A pointer is moved, and its length is copied. -/
theorem State.Sized.move (h : s.Sized) (hget : s'.ptrs.get = moved s.ptrs.get i j)
    (hlength : s'.length = Function.update s.length i (s.length j)) :
    s'.Sized ↔ i = j ∨ s.length j = 0 := by
  constructor
  · intro h'
    by_cases hij : i = j
    · exact .inl hij
    · right
      have hnone : s'.get j = none := by
        rw [State.get, hget, moved, Function.update_of_ne (Ne.symm hij), Function.update_self]
      have hzero := h' j hnone
      rwa [State.size, hlength, Function.update_of_ne (Ne.symm hij)] at hzero
  · intro hcase k hk
    rw [State.get, hget, moved] at hk
    rw [State.size, hlength]
    by_cases hki : k = i
    · rw [hki, Function.update_self] at hk
      rw [hki, Function.update_self]
      exact h j hk
    · rw [Function.update_of_ne hki] at hk
      rw [Function.update_of_ne hki]
      by_cases hkj : k = j
      · rw [hkj]
        exact hcase.resolve_left fun hij => hki (hkj.trans hij.symm)
      · rw [Function.update_of_ne hkj] at hk
        exact h k hk

/-- A pointer is taken, and its length stays. -/
theorem State.Sized.take (h : s.Sized) (hget : s'.ptrs.get = Function.update s.ptrs.get i none)
    (hlength : s'.length = s.length) : s'.Sized ↔ s.length i = 0 := by
  constructor
  · intro h'
    have hnone : s'.get i = none := by rw [State.get, hget, Function.update_self]
    have hzero := h' i hnone
    rwa [State.size, hlength] at hzero
  · intro hzero
    refine h.write hget ?_ fun _ => rfl
    rw [hlength, ← hzero, Function.update_eq_self]

end Shapes

section Step

variable {T : DeleterType D} {tr es : List (Event D)} {s s' : State D} {a : Action D}

/-- **What one operation does to lengths that were right.** -/
theorem State.Sized.step_iff (h : s.Sized) (hledger : Ledger tr s.ptrs)
    (hvalid : a.valid = true) (hstep : step T s a = some (s', es)) :
    s'.Sized ↔ a.strands s.length = false := by
  have hget := step_get hledger hstep
  have halive := alive_of_step hstep
  obtain ⟨-, hlength, -⟩ := step_spec hstep
  have hwritten {ptr : Option ℕ} {length : ℕ} (hv : (ptr.isSome || length = 0) = true) :
      ptr = none → length = 0 := by
    rintro rfl
    simpa using hv
  cases a with
  | uniqueDefault | sharedDefault =>
    have hnone : s'.ptrs.get = Function.update s.ptrs.get s.new none := by
      rw [hget, ← get_new hledger, Function.update_eq_self]
      rfl
    exact iff_of_true (h.write hnone hlength fun _ => rfl) rfl
  | uniqueNew ptr length | uniqueNewWith ptr length _ | sharedNew ptr length =>
    exact iff_of_true (h.write hget hlength (hwritten hvalid)) rfl
  | uniqueReset i ptr length | sharedReset i ptr length =>
    exact iff_of_true (h.write hget hlength (hwritten hvalid)) rfl
  | uniqueResetNull i | sharedResetNull i =>
    exact iff_of_true (h.write hget hlength fun _ => rfl) rfl
  | sharedCopy j => exact iff_of_true (h.write hget hlength (h j)) rfl
  | sharedCopyAssign i j => exact iff_of_true (h.write hget hlength (h j)) rfl
  | destroy i =>
    refine iff_of_true (h.write hget ?_ fun _ => rfl) rfl
    rw [hlength, State.effect]
    split <;> rfl
  | swap i j =>
    refine iff_of_true (fun k hk => ?_) rfl
    rw [State.get, hget] at hk
    rw [State.size, hlength]
    exact h (Equiv.swap i j k) hk
  | uniqueRelease i =>
    refine (h.take hget hlength).trans ?_
    simp [Action.strands]
  | uniqueMove j | sharedMove j | sharedOfUnique j =>
    have hne : s.new ≠ j := (ne_new hledger (halive j List.mem_cons_self)).symm
    refine (h.move hget hlength).trans ((or_iff_right hne).trans ?_)
    simp [Action.strands]
  | uniqueMoveAssign i j | sharedMoveAssign i j =>
    refine (h.move hget hlength).trans ?_
    simp [Action.strands, or_iff_not_imp_left]

end Step

/-! ## Runs -/

/-- A valid call that leaves every buffer without a pointer empty. -/
def keepsSized (T : DeleterType D) (s : State D) (a : Action D) : Prop :=
  a.valid = true ∧ ∀ s' es, step T s a = some (s', es) → s'.Sized

/-- A valid call that does not take the pointer of a buffer with elements. -/
def strandsNothing (s : State D) (a : Action D) : Prop :=
  a.valid = true ∧ a.strands s.length = false

section Runs

variable {T : DeleterType D} {tr : List (Event D)} {s : State D}

theorem sized_of_strandsNothing (h : (system T).Run strandsNothing tr s) :
    s.Sized := by
  refine Run.invariant (I := fun _ s => s.Sized) (fun _ _ => rfl) ?_ h
  intro tr s a s' es hrun hC hstep ih
  exact (ih.step_iff (ledger hrun) hC.1 hstep).mpr hC.2

theorem sized_of_keepsSized
    (h : (system T).Run (keepsSized T) tr s) : s.Sized := by
  refine Run.invariant (I := fun _ s => s.Sized) (fun _ _ => rfl) ?_ h
  intro tr s a s' es _ hC hstep _
  exact hC.2 s' es hstep

end Runs

/-- **Buffers without a pointer are empty throughout a run if and only if** no step of it takes
the pointer of a buffer with elements, by `release()`, by a conversion to a `shared_buffer` or by a
move to another buffer.  What is empty has nothing between `begin()` and `end()`. -/
theorem sized_iff (T : DeleterType D) (tr : List (Event D)) (s : State D) :
    ((system T).Run (keepsSized T) tr s ↔
      (system T).Run strandsNothing tr s) ∧
    ((system T).Run strandsNothing tr s → ∀ i, s.get i = none →
      s.size i = 0 ∧ s.empty i = true ∧ s.beginIter i = s.endIter i) := by
  refine ⟨⟨fun h => ?_, fun h => ?_⟩, fun h i hi => ?_⟩
  · refine Run.invariant
      (I := fun tr s => (system T).Run strandsNothing tr s) .nil ?_ h
    intro tr s a s' es hrun hC hstep ih
    have hiff := (sized_of_keepsSized hrun).step_iff (ledger hrun) hC.1 hstep
    exact RunFrom.snoc ih ⟨hC.1, hiff.mp (hC.2 s' es hstep)⟩ hstep
  · refine h.meets fun tr s a hrun hC => ⟨hC.1, fun s' es hstep => ?_⟩
    have hiff := (sized_of_strandsNothing hrun).step_iff (ledger hrun) hC.1 hstep
    exact hiff.mpr hC.2
  · have hsized := sized_of_strandsNothing h
    exact ⟨hsized i hi, hsized.beginIter_eq hi⟩

/-- What a buffer of three elements has released it still claims. -/
theorem release_keeps_size : ∃ tr s, (system arrayDeleter).Run (fun _ a => a.valid = true) tr s ∧
    s.get 0 = none ∧ s.size 0 = 3 ∧ s.beginIter 0 ≠ s.endIter 0 := by
  have hrun : (((system arrayDeleter).exec
      [.uniqueNew (some 0) 3, .uniqueRelease 0]).map fun r =>
        (r.1.get 0, r.1.size 0, r.1.beginIter 0, r.1.endIter 0)) =
      some (none, 3, (none, 0), (none, 3)) := by decide +kernel
  obtain ⟨⟨s, tr⟩, hexec, hs⟩ := Option.map_eq_some_iff.mp hrun
  simp only [Prod.mk.injEq] at hs
  obtain ⟨hget, hsize, hbegin, hend⟩ := hs
  refine ⟨tr, s, runFrom_of_execFrom (by decide +kernel) hexec, hget, hsize, ?_⟩
  rw [hbegin, hend]
  decide

end Buffers
