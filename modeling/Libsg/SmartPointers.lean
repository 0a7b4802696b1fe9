/-
# Smart pointers

Nothing here names the library under verification.  `std::unique_ptr` and `std::shared_ptr` as the
standard describes them: a `unique_ptr` has its pointer for itself, the `shared_ptr`s that are
copies of each other share a control block, and the one that lets go last deletes the pointer
through the deleter that the control block was made with.

A pointer stands for one allocation.  It is handed over by the caller, who has it back once it has
been released from a `unique_ptr`.

* `system` : instructions on smart pointers, one at a time;
* `Place` : an allocation is with the caller, in one `unique_ptr`, in one control block, or it has
  been deleted once;
* `Ledger.run` : every allocation has its place after every run.
-/
import Libsg.TransitionSystem
import Mathlib.Logic.Equiv.Basic

open TransitionSystem

namespace SmartPointers

/-! ## The instructions -/

/-- A smart pointer, with its pointer or its control block. -/
inductive Slot
  | dead
  | unique (ptr : Option ℕ)
  | shared (block : Option ℕ)
  deriving DecidableEq

structure Block (D : Type) where
  ptr : Option ℕ
  deleter : D

structure Store (D : Type) where
  slots : ℕ → Slot
  slotCount : ℕ
  blocks : ℕ → Option (Block D)
  blockCount : ℕ
  /-- the allocations that the caller has -/
  withCaller : ℕ → Bool

inductive Event (D : Type)
  /-- a control block has been made for `ptr` -/
  | made (ptr : ℕ) (deleter : D)
  | deleted (ptr : ℕ) (deleter : D)
  deriving DecidableEq

inductive Instr (D : Type)
  | newUnique
  | newShared
  /-- `unique_ptr::release()` -/
  | release (i : ℕ)
  /-- `unique_ptr::reset(ptr)`, where `deleter` is what the `unique_ptr` deletes with -/
  | reset (i : ℕ) (ptr : Option ℕ) (deleter : D)
  | swap (i j : ℕ)
  /-- `shared_ptr(ptr, deleter)` -/
  | make (i : ℕ) (ptr : Option ℕ) (deleter : D)
  /-- `shared_ptr(other)` -/
  | share (i j : ℕ)
  /-- `~shared_ptr()`, which leaves an empty one here -/
  | drop (i : ℕ)
  | destroy (i : ℕ)

variable {D : Type}

namespace Store

def put (s : Store D) (i : ℕ) (slot : Slot) : Store D :=
  { s with slots := Function.update s.slots i slot }

def extend (s : Store D) (slot : Slot) : Store D :=
  { s.put s.slotCount slot with slotCount := s.slotCount + 1 }

/-- The pointer of a smart pointer with these contents. -/
def pointerOf (s : Store D) : Slot → Option ℕ
  | .unique ptr => ptr
  | .shared (some b) => (s.blocks b).bind Block.ptr
  | _ => none

/-- `get()` -/
def get (s : Store D) (i : ℕ) : Option ℕ := s.pointerOf (s.slots i)

/-- The caller has `ptr` to hand over. -/
def offers (s : Store D) : Option ℕ → Bool
  | some p => s.withCaller p
  | none => true

def setCaller (s : Store D) (ptr : Option ℕ) (has : Bool) : Store D :=
  { s with withCaller := ptr.elim s.withCaller fun p => Function.update s.withCaller p has }

def addBlock (s : Store D) (block : Block D) : Store D :=
  { s with blocks := Function.update s.blocks s.blockCount (some block)
           blockCount := s.blockCount + 1 }

/-- Some `shared_ptr` shares the block. -/
def refersTo (s : Store D) (b : ℕ) : Bool :=
  (List.range s.slotCount).any fun i => s.slots i = .shared (some b)

end Store

/-- Two smart pointers of one kind, which can be swapped. -/
def Slot.alike : Slot → Slot → Bool
  | .unique _, .unique _ => true
  | .shared _, .shared _ => true
  | _, _ => false

/-- The null pointer needs no deleter. -/
def deletes (deleter : D) (ptr : Option ℕ) : List (Event D) :=
  ptr.elim [] fun p => [.deleted p deleter]

def makes (deleter : D) (ptr : Option ℕ) : List (Event D) :=
  ptr.elim [] fun p => [.made p deleter]

def step (s : Store D) : Instr D → Option (Store D × List (Event D))
  | .newUnique => some (s.extend (.unique none), [])
  | .newShared => some (s.extend (.shared none), [])
  | .release i =>
    match s.slots i with
    | .unique ptr => some ((s.put i (.unique none)).setCaller ptr true, [])
    | _ => none
  | .reset i ptr deleter =>
    match s.slots i with
    | .unique old =>
      if s.offers ptr then
        some ((s.put i (.unique ptr)).setCaller ptr false, deletes deleter old)
      else none
    | _ => none
  | .swap i j =>
    if (s.slots i).alike (s.slots j) then
      some ({ s with slots := s.slots ∘ Equiv.swap i j }, [])
    else none
  | .make i ptr deleter =>
    if s.slots i = .shared none ∧ s.offers ptr = true then
      some (((s.put i (.shared (some s.blockCount))).addBlock ⟨ptr, deleter⟩).setCaller ptr false,
        makes deleter ptr)
    else none
  | .share i j =>
    match s.slots i, s.slots j with
    | .shared none, .shared block => some (s.put i (.shared block), [])
    | _, _ => none
  | .drop i =>
    match s.slots i with
    | .shared none => some (s, [])
    | .shared (some b) =>
      some (s.put i (.shared none),
        if (s.put i (.shared none)).refersTo b then []
        else (s.blocks b).elim [] fun block => deletes block.deleter block.ptr)
    | _ => none
  | .destroy i =>
    if s.slots i = .unique none ∨ s.slots i = .shared none then some (s.put i .dead, []) else none

/-- All allocations are with the caller first. -/
def system : TransitionSystem (Store D) (Instr D) (Event D) where
  start :=
    { slots := fun _ => .dead
      slotCount := 0
      blocks := fun _ => none
      blockCount := 0
      withCaller := fun _ => true }
  step := step

/-! ## What holds a pointer -/

/-- What will delete a pointer: a `unique_ptr`, or a control block that is shared. -/
inductive Holder
  | unique (i : ℕ)
  | block (b : ℕ)

def Store.Shares (s : Store D) (b : ℕ) : Prop := ∃ i, s.slots i = .shared (some b)

def Store.Holds (s : Store D) (p : ℕ) : Holder → Prop
  | .unique i => s.slots i = .unique (some p)
  | .block b => s.Shares b ∧ ∃ d, s.blocks b = some ⟨some p, d⟩

/-- The deleters that control blocks for `p` have been made with. -/
def makers (p : ℕ) (tr : List (Event D)) : List D :=
  tr.filterMap fun
    | .made q d => if q = p then some d else none
    | .deleted .. => none

/-- The deleters that `p` has been deleted through. -/
def deleters (p : ℕ) (tr : List (Event D)) : List D :=
  tr.filterMap fun
    | .made .. => none
    | .deleted q d => if q = p then some d else none

@[simp] theorem makers_append (p : ℕ) (tr es : List (Event D)) :
    makers p (tr ++ es) = makers p tr ++ makers p es :=
  List.filterMap_append ..

@[simp] theorem deleters_append (p : ℕ) (tr es : List (Event D)) :
    deleters p (tr ++ es) = deleters p tr ++ deleters p es :=
  List.filterMap_append ..

@[simp] theorem makers_nil (p : ℕ) : makers p ([] : List (Event D)) = [] := rfl

@[simp] theorem deleters_nil (p : ℕ) : deleters p ([] : List (Event D)) = [] := rfl

@[simp] theorem makers_deletes (p : ℕ) (d : D) (ptr : Option ℕ) : makers p (deletes d ptr) = [] := by
  cases ptr <;> rfl

@[simp] theorem deleters_makes (p : ℕ) (d : D) (ptr : Option ℕ) : deleters p (makes d ptr) = [] := by
  cases ptr <;> rfl

theorem deleters_deletes (p : ℕ) (d : D) (ptr : Option ℕ) :
    deleters p (deletes d ptr) = if ptr = some p then [d] else [] := by
  cases ptr with
  | none => rfl
  | some q => by_cases h : q = p <;> simp [deleters, deletes, h]

theorem makers_makes (p : ℕ) (d : D) (ptr : Option ℕ) :
    makers p (makes d ptr) = if ptr = some p then [d] else [] := by
  cases ptr with
  | none => rfl
  | some q => by_cases h : q = p <;> simp [makers, makes, h]

/-- **Where an allocation is.**  It is deleted once, by the last that holds it and through the
deleter that its control block was made with, if it has ever had one. -/
inductive Place (tr : List (Event D)) (s : Store D) (p : ℕ) : Prop
  | caller (hwith : s.withCaller p = true) (hfree : ∀ x, ¬ s.Holds p x) (hmakers : makers p tr = [])
      (hdeleters : deleters p tr = [])
  | unique (i : ℕ) (hwith : s.withCaller p = false) (hheld : ∀ x, s.Holds p x ↔ x = .unique i)
      (hmakers : makers p tr = []) (hdeleters : deleters p tr = [])
  | block (b : ℕ) (d : D) (hwith : s.withCaller p = false) (hheld : ∀ x, s.Holds p x ↔ x = .block b)
      (hblock : s.blocks b = some ⟨some p, d⟩) (hmakers : makers p tr = [d])
      (hdeleters : deleters p tr = [])
  | deleted (d : D) (hwith : s.withCaller p = false) (hfree : ∀ x, ¬ s.Holds p x)
      (hdeleters : deleters p tr = [d]) (hmakers : makers p tr = [d] ∨ makers p tr = [])

/-- **What holds after every run.** -/
structure Ledger (tr : List (Event D)) (s : Store D) : Prop where
  fresh : ∀ i, s.slotCount ≤ i → s.slots i = .dead
  bound : ∀ i b, s.slots i = .shared (some b) → b < s.blockCount
  unmade : ∀ b, s.blockCount ≤ b → s.blocks b = none
  place : ∀ p, Place tr s p

section Places

variable {d : D} {tr es : List (Event D)} {s s' : Store D} {p i b : ℕ}

/-- Nothing happens to `p`. -/
theorem Place.keep (h : Place tr s p) (hheld : ∀ x, s'.Holds p x ↔ s.Holds p x)
    (hwith : s'.withCaller p = s.withCaller p)
    (hblocks : ∀ b d, s.blocks b = some ⟨some p, d⟩ → s'.blocks b = s.blocks b)
    (hmakers : makers p es = []) (hdeleters : deleters p es = []) : Place (tr ++ es) s' p := by
  have hm : makers p (tr ++ es) = makers p tr := by rw [makers_append, hmakers, List.append_nil]
  have hd : deleters p (tr ++ es) = deleters p tr := by
    rw [deleters_append, hdeleters, List.append_nil]
  cases h with
  | caller hw hfree hm₀ hd₀ =>
    exact .caller (hwith.trans hw) (fun x hx => hfree x ((hheld x).mp hx)) (hm.trans hm₀)
      (hd.trans hd₀)
  | unique i hw hx hm₀ hd₀ =>
    exact .unique i (hwith.trans hw) (fun x => (hheld x).trans (hx x)) (hm.trans hm₀) (hd.trans hd₀)
  | block b d hw hx hb hm₀ hd₀ =>
    exact .block b d (hwith.trans hw) (fun x => (hheld x).trans (hx x)) ((hblocks b d hb).trans hb)
      (hm.trans hm₀) (hd.trans hd₀)
  | deleted d hw hfree hd₀ hm₀ =>
    exact .deleted d (hwith.trans hw) (fun x hx => hfree x ((hheld x).mp hx)) (hd.trans hd₀)
      (hm ▸ hm₀)

/-- What the caller has is with the caller. -/
theorem Place.of_caller (h : Place tr s p) (hoffers : s.withCaller p = true) :
    (∀ x, ¬ s.Holds p x) ∧ makers p tr = [] ∧ deleters p tr = [] := by
  cases h with
  | caller _ hfree hm hd => exact ⟨hfree, hm, hd⟩
  | unique i hw => exact absurd (hoffers.symm.trans hw) nofun
  | block b d hw => exact absurd (hoffers.symm.trans hw) nofun
  | deleted d hw => exact absurd (hoffers.symm.trans hw) nofun

/-- What a `unique_ptr` has, nobody else has. -/
theorem Place.of_unique (h : Place tr s p) (hx : s.Holds p (.unique i)) :
    s.withCaller p = false ∧ (∀ x, s.Holds p x ↔ x = .unique i) ∧ makers p tr = [] ∧
      deleters p tr = [] := by
  cases h with
  | caller _ hfree => exact absurd hx (hfree _)
  | unique j hw hheld hm hd =>
    have hj := (hheld _).mp hx
    rw [hj]
    exact ⟨hw, hheld, hm, hd⟩
  | block b d _ hheld => exact absurd ((hheld _).mp hx) nofun
  | deleted d _ hfree => exact absurd hx (hfree _)

/-- What a control block has, nobody else has. -/
theorem Place.of_block (h : Place tr s p) (hx : s.Holds p (.block b))
    (hb : s.blocks b = some ⟨some p, d⟩) :
    s.withCaller p = false ∧ (∀ x, s.Holds p x ↔ x = .block b) ∧ makers p tr = [d] ∧
      deleters p tr = [] := by
  cases h with
  | caller _ hfree => exact absurd hx (hfree _)
  | unique i _ hheld => exact absurd ((hheld _).mp hx) nofun
  | block c e hw hheld hc hm hd =>
    obtain rfl : b = c := Holder.block.inj ((hheld _).mp hx)
    obtain rfl : d = e := by
      rw [hb] at hc
      cases hc
      rfl
    exact ⟨hw, hheld, hm, hd⟩
  | deleted d _ hfree => exact absurd hx (hfree _)

/-- A `unique_ptr` takes `p`. -/
theorem Place.adopt (h : Place tr s p) (hoffers : s.withCaller p = true)
    (hwith : s'.withCaller p = false) (hheld : ∀ x, s'.Holds p x ↔ x = .unique i)
    (hmakers : makers p es = []) (hdeleters : deleters p es = []) : Place (tr ++ es) s' p := by
  obtain ⟨-, hm, hd⟩ := h.of_caller hoffers
  refine .unique i hwith hheld ?_ ?_
  · rw [makers_append, hm, hmakers, List.nil_append]
  · rw [deleters_append, hd, hdeleters, List.nil_append]

/-- A control block is made for `p`. -/
theorem Place.share (h : Place tr s p) (hoffers : s.withCaller p = true)
    (hwith : s'.withCaller p = false) (hheld : ∀ x, s'.Holds p x ↔ x = .block b)
    (hblock : s'.blocks b = some ⟨some p, d⟩) (hmakers : makers p es = [d])
    (hdeleters : deleters p es = []) : Place (tr ++ es) s' p := by
  obtain ⟨-, hm, hd⟩ := h.of_caller hoffers
  refine .block b d hwith hheld hblock ?_ ?_
  · rw [makers_append, hm, hmakers, List.nil_append]
  · rw [deleters_append, hd, hdeleters, List.nil_append]

/-- The caller has `p` back. -/
theorem Place.giveBack (h : Place tr s p) (hx : s.Holds p (.unique i))
    (hwith : s'.withCaller p = true) (hfree : ∀ x, ¬ s'.Holds p x) (hmakers : makers p es = [])
    (hdeleters : deleters p es = []) : Place (tr ++ es) s' p := by
  obtain ⟨-, -, hm, hd⟩ := h.of_unique hx
  refine .caller hwith hfree ?_ ?_
  · rw [makers_append, hm, hmakers, List.nil_append]
  · rw [deleters_append, hd, hdeleters, List.nil_append]

/-- The `unique_ptr` that has `p` deletes it. -/
theorem Place.delete_unique (h : Place tr s p) (hx : s.Holds p (.unique i))
    (hwith : s'.withCaller p = s.withCaller p) (hfree : ∀ x, ¬ s'.Holds p x)
    (hmakers : makers p es = []) (hdeleters : deleters p es = [d]) : Place (tr ++ es) s' p := by
  obtain ⟨hw, -, hm, hd⟩ := h.of_unique hx
  refine .deleted d (hwith.trans hw) hfree ?_ (.inr ?_)
  · rw [deleters_append, hd, hdeleters, List.nil_append]
  · rw [makers_append, hm, hmakers, List.nil_append]

/-- The last `shared_ptr` of the control block that has `p` lets go. -/
theorem Place.delete_block (h : Place tr s p) (hx : s.Holds p (.block b))
    (hb : s.blocks b = some ⟨some p, d⟩) (hwith : s'.withCaller p = s.withCaller p)
    (hfree : ∀ x, ¬ s'.Holds p x) (hmakers : makers p es = []) (hdeleters : deleters p es = [d]) :
    Place (tr ++ es) s' p := by
  obtain ⟨hw, -, hm, hd⟩ := h.of_block hx hb
  refine .deleted d (hwith.trans hw) hfree ?_ (.inl ?_)
  · rw [deleters_append, hd, hdeleters, List.nil_append]
  · rw [makers_append, hm, hmakers, List.append_nil]

end Places

/-! ## What an instruction does to the holders -/

section Slots

variable {s : Store D} {i k b c p : ℕ} {slot : Slot}

theorem holds_unique_put : (s.put i slot).Holds p (.unique k) ↔
    if k = i then slot = .unique (some p) else s.Holds p (.unique k) := by
  show Function.update s.slots i slot k = _ ↔ _
  by_cases hk : k = i
  · rw [if_pos hk, hk, Function.update_self]
  · rw [if_neg hk, Function.update_of_ne hk]
    rfl

/-- The blocks shared by the other slots stay shared. -/
theorem shares_put (hold : s.slots i ≠ .shared (some b)) :
    (s.put i slot).Shares b ↔ slot = .shared (some b) ∨ s.Shares b := by
  constructor
  · rintro ⟨k, hk⟩
    by_cases hki : k = i
    · rw [hki] at hk
      exact .inl ((Function.update_self ..).symm.trans hk)
    · exact .inr ⟨k, (Function.update_of_ne hki ..).symm.trans hk⟩
  · rintro (hslot | ⟨k, hk⟩)
    · exact ⟨i, (Function.update_self ..).trans hslot⟩
    · have hki : k ≠ i := fun h => hold (h ▸ hk)
      exact ⟨k, (Function.update_of_ne hki ..).trans hk⟩

/-- The slot had no block and has none. -/
theorem holds_block_put (hold : s.slots i ≠ .shared (some b)) (hnew : slot ≠ .shared (some b)) :
    (s.put i slot).Holds p (.block b) ↔ s.Holds p (.block b) := by
  refine and_congr ((shares_put hold).trans ?_) Iff.rfl
  exact or_iff_right hnew

theorem refersTo_iff (hfresh : ∀ i, s.slotCount ≤ i → s.slots i = .dead) :
    s.refersTo b = true ↔ s.Shares b := by
  rw [Store.refersTo, List.any_eq_true]
  constructor
  · rintro ⟨k, -, hk⟩
    exact ⟨k, of_decide_eq_true hk⟩
  · rintro ⟨k, hk⟩
    refine ⟨k, List.mem_range.mpr ?_, decide_eq_true hk⟩
    by_contra hge
    rw [hfresh k (Nat.not_lt.mp hge)] at hk
    cases hk

/-- Neither a pointer nor a control block. -/
def Slot.empty : Slot → Bool
  | .unique (some _) => false
  | .shared (some _) => false
  | _ => true

theorem holds_put_empty (hold : (s.slots i).empty = true) (hnew : slot.empty = true) (x : Holder) :
    (s.put i slot).Holds p x ↔ s.Holds p x := by
  cases x with
  | unique k =>
    rw [holds_unique_put]
    split
    · next hk =>
      subst hk
      constructor
      · rintro rfl
        cases hnew
      · intro hheld
        rw [Store.Holds] at hheld
        rw [hheld] at hold
        cases hold
    · exact Iff.rfl
  | block b =>
    refine holds_block_put (fun h => ?_) fun h => ?_
    · rw [h] at hold
      cases hold
    · rw [h] at hnew
      cases hnew

end Slots

/-! ## Every instruction keeps the ledger -/

namespace Ledger

variable {tr : List (Event D)} {s : Store D} {i j : ℕ}

theorem start : Ledger ([] : List (Event D)) system.start where
  fresh _ _ := rfl
  bound _ _ h := by cases h
  unmade _ _ := rfl
  place p := by
    refine .caller rfl (fun x hx => ?_) rfl rfl
    cases x with
    | unique i => cases hx
    | block b =>
      obtain ⟨⟨i, hi⟩, -⟩ := hx
      cases hi

theorem lt_of_alive (h : Ledger tr s) (hi : s.slots i ≠ .dead) : i < s.slotCount :=
  Nat.not_le.mp fun hge => hi (h.fresh i hge)

theorem fresh_put (h : Ledger tr s) (hi : s.slots i ≠ .dead) (slot : Slot) (k : ℕ)
    (hk : s.slotCount ≤ k) : (s.put i slot).slots k = .dead := by
  have hlt := h.lt_of_alive hi
  exact (Function.update_of_ne (by omega) ..).trans (h.fresh k hk)

theorem bound_put (h : Ledger tr s) {slot : Slot}
    (hslot : ∀ b, slot = .shared (some b) → b < s.blockCount) (k b : ℕ)
    (hk : (s.put i slot).slots k = .shared (some b)) : b < s.blockCount := by
  by_cases hki : k = i
  · rw [hki] at hk
    exact hslot b ((Function.update_self ..).symm.trans hk)
  · exact h.bound k b ((Function.update_of_ne hki ..).symm.trans hk)

/-- An empty smart pointer is constructed. -/
theorem extend (h : Ledger tr s) {slot : Slot} (hslot : slot.empty = true) :
    Ledger (tr ++ []) (s.extend slot) where
  fresh k hk := by
    have hne : k ≠ s.slotCount := Nat.ne_of_gt hk
    exact (Function.update_of_ne hne ..).trans (h.fresh k (Nat.le_of_succ_le hk))
  bound := h.bound_put fun b hb => by
    rw [hb] at hslot
    cases hslot
  unmade := h.unmade
  place p := by
    have hdead : (s.slots s.slotCount).empty = true := by rw [h.fresh _ (Nat.le_refl _)]; rfl
    exact (h.place p).keep (holds_put_empty hdead hslot) rfl (fun _ _ _ => rfl) rfl rfl

/-- An empty smart pointer is destroyed. -/
theorem destroy (h : Ledger tr s) (hi : s.slots i = .unique none ∨ s.slots i = .shared none) :
    Ledger (tr ++ []) (s.put i .dead) := by
  have hempty : (s.slots i).empty = true ∧ s.slots i ≠ .dead := by
    rcases hi with hi | hi
    · rw [hi]
      exact ⟨rfl, nofun⟩
    · rw [hi]
      exact ⟨rfl, nofun⟩
  exact {
    fresh := h.fresh_put hempty.2 .dead
    bound := h.bound_put nofun
    unmade := h.unmade
    place := fun p =>
      (h.place p).keep (holds_put_empty hempty.1 rfl) rfl (fun _ _ _ => rfl) rfl rfl }

/-- What a `unique_ptr` that changes its pointer does to the holders. -/
theorem holds_put_unique {old new : Option ℕ} {p : ℕ} (hi : s.slots i = .unique old) (x : Holder) :
    (s.put i (.unique new)).Holds p x ↔
      (x = .unique i ∧ new = some p) ∨ (x ≠ .unique i ∧ s.Holds p x) := by
  cases x with
  | unique k =>
    rw [holds_unique_put]
    by_cases hk : k = i
    · simp [hk]
    · simp [hk]
  | block b =>
    have hblock : (s.put i (.unique new)).Holds p (.block b) ↔ s.Holds p (.block b) :=
      holds_block_put (by rw [hi]; nofun) nofun
    simp [hblock]

theorem release (h : Ledger tr s) {ptr : Option ℕ} (hi : s.slots i = .unique ptr) :
    Ledger (tr ++ []) ((s.put i (.unique none)).setCaller ptr true) where
  fresh := h.fresh_put (by rw [hi]; nofun) _
  bound := h.bound_put nofun
  unmade := h.unmade
  place p := by
    by_cases hp : ptr = some p
    · subst hp
      refine (h.place p).giveBack hi (Function.update_self ..) (fun x hx => ?_) rfl rfl
      rcases (holds_put_unique hi x).mp hx with ⟨-, hnone⟩ | ⟨hne, hheld⟩
      · cases hnone
      · exact hne ((((h.place p).of_unique hi).2.1 x).mp hheld)
    · refine (h.place p).keep (fun x => ?_) ?_ (fun _ _ _ => rfl) rfl rfl
      · refine (holds_put_unique hi x).trans ?_
        constructor
        · rintro (⟨-, hnone⟩ | ⟨-, hheld⟩)
          · cases hnone
          · exact hheld
        · intro hheld
          refine .inr ⟨?_, hheld⟩
          rintro rfl
          exact hp (Slot.unique.inj (hi.symm.trans hheld))
      · cases ptr with
        | none => rfl
        | some q => exact Function.update_of_ne (fun hpq => hp (congrArg some hpq.symm)) ..

theorem reset (h : Ledger tr s) {old ptr : Option ℕ} (hi : s.slots i = .unique old)
    (hoffers : s.offers ptr = true) (d : D) :
    Ledger (tr ++ deletes d old) ((s.put i (.unique ptr)).setCaller ptr false) where
  fresh := h.fresh_put (by rw [hi]; nofun) _
  bound := h.bound_put nofun
  unmade := h.unmade
  place p := by
    by_cases hp : ptr = some p
    · -- the pointer handed over, which is not the old one
      subst hp
      have hfree := ((h.place p).of_caller hoffers).1
      have hold : old ≠ some p := by
        rintro rfl
        exact hfree (.unique i) hi
      refine (h.place p).adopt (i := i) hoffers (Function.update_self ..) (fun x => ?_)
        (makers_deletes ..) ?_
      · refine (holds_put_unique hi x).trans ⟨?_, fun hx => .inl ⟨hx, rfl⟩⟩
        rintro (⟨hx, -⟩ | ⟨-, hheld⟩)
        · exact hx
        · exact absurd hheld (hfree x)
      · rw [deleters_deletes, if_neg hold]
    · have hheld (x : Holder) :
          ((s.put i (.unique ptr)).setCaller ptr false).Holds p x ↔ x ≠ .unique i ∧ s.Holds p x :=
        (holds_put_unique hi x).trans (or_iff_right fun hx => hp hx.2)
      have hwith : ((s.put i (.unique ptr)).setCaller ptr false).withCaller p = s.withCaller p := by
        cases ptr with
        | none => rfl
        | some q => exact Function.update_of_ne (fun hpq => hp (congrArg some hpq.symm)) ..
      by_cases hold : old = some p
      · subst hold
        refine (h.place p).delete_unique (d := d) hi hwith (fun x hx => ?_) (makers_deletes ..) ?_
        · obtain ⟨hne, hx⟩ := (hheld x).mp hx
          exact hne ((((h.place p).of_unique hi).2.1 x).mp hx)
        · rw [deleters_deletes, if_pos rfl]
      · refine (h.place p).keep (fun x => (hheld x).trans (and_iff_right_of_imp fun hx => ?_)) hwith
          (fun _ _ _ => rfl) (makers_deletes ..) ?_
        · rintro rfl
          exact hold (Slot.unique.inj (hi.symm.trans hx))
        · rw [deleters_deletes, if_neg hold]

/-- The holder after the contents of two slots have been swapped. -/
def swapped (i j : ℕ) : Holder → Holder
  | .unique k => .unique (Equiv.swap i j k)
  | .block b => .block b

theorem holds_swap {p : ℕ} (x : Holder) :
    Store.Holds { s with slots := s.slots ∘ Equiv.swap i j } p x ↔ s.Holds p (swapped i j x) := by
  cases x with
  | unique k => exact Iff.rfl
  | block b =>
    refine and_congr ⟨?_, ?_⟩ Iff.rfl
    · rintro ⟨k, hk⟩
      exact ⟨Equiv.swap i j k, hk⟩
    · rintro ⟨k, hk⟩
      refine ⟨Equiv.swap i j k, ?_⟩
      show s.slots (Equiv.swap i j (Equiv.swap i j k)) = .shared (some b)
      rwa [Equiv.swap_apply_self]

theorem swap (h : Ledger tr s) (halike : (s.slots i).alike (s.slots j) = true) :
    Ledger (tr ++ []) { s with slots := s.slots ∘ Equiv.swap i j } where
  fresh k hk := by
    have hi : s.slots i ≠ .dead := fun hdead => by rw [hdead] at halike; cases halike
    have hj : s.slots j ≠ .dead := fun hdead => by
      rw [hdead] at halike
      cases hslot : s.slots i <;> rw [hslot] at halike <;> cases halike
    have hne : Equiv.swap i j k = k :=
      Equiv.swap_apply_of_ne_of_ne (Nat.ne_of_gt (Nat.lt_of_lt_of_le (h.lt_of_alive hi) hk))
        (Nat.ne_of_gt (Nat.lt_of_lt_of_le (h.lt_of_alive hj) hk))
    show s.slots (Equiv.swap i j k) = .dead
    rw [hne]
    exact h.fresh k hk
  bound k := h.bound (Equiv.swap i j k)
  unmade := h.unmade
  place p := by
    rw [List.append_nil]
    cases h.place p with
    | caller hw hfree hm hd => exact .caller hw (fun x hx => hfree _ ((holds_swap x).mp hx)) hm hd
    | unique k hw hheld hm hd =>
      refine .unique (Equiv.swap i j k) hw (fun x => (holds_swap x).trans ((hheld _).trans ?_)) hm hd
      cases x with
      | unique l =>
        simp only [swapped, Holder.unique.injEq]
        exact Equiv.swap_apply_eq_iff
      | block b => exact ⟨nofun, nofun⟩
    | block b d hw hheld hb hm hd =>
      refine .block b d hw (fun x => (holds_swap x).trans ((hheld _).trans ?_)) hb hm hd
      cases x with
      | unique l => exact ⟨nofun, nofun⟩
      | block c => exact Iff.rfl
    | deleted d hw hfree hd hm => exact .deleted d hw (fun x hx => hfree _ ((holds_swap x).mp hx)) hd hm

/-- An empty `shared_ptr` becomes one of block `c`. -/
theorem holds_put_shared {p : ℕ} {c : ℕ} {t : Store D} (hi : s.slots i = .shared none)
    (ht : t.slots = s.slots) (x : Holder) :
    (t.put i (.shared (some c))).Holds p x ↔
      (x = .block c ∧ ∃ d, t.blocks c = some ⟨some p, d⟩) ∨ t.Holds p x := by
  have hold (b : ℕ) : t.slots i ≠ .shared (some b) := by
    rw [ht, hi]
    nofun
  cases x with
  | unique k =>
    rw [holds_unique_put]
    by_cases hk : k = i
    · have hnot : ¬ t.Holds p (.unique i) := by
        rw [Store.Holds, ht, hi]
        nofun
      simp [hk, hnot]
    · simp [hk]
  | block b =>
    show (t.put i (.shared (some c))).Shares b ∧ _ ↔ _
    rw [shares_put (hold b)]
    simp only [Slot.shared.injEq, Option.some.injEq, Holder.block.injEq, Store.Holds]
    constructor
    · rintro ⟨rfl | hshares, hb⟩
      · exact .inl ⟨rfl, hb⟩
      · exact .inr ⟨hshares, hb⟩
    · rintro (⟨rfl, hb⟩ | ⟨hshares, hb⟩)
      · exact ⟨.inl rfl, hb⟩
      · exact ⟨.inr hshares, hb⟩

theorem share (h : Ledger tr s) {block : Option ℕ} (hi : s.slots i = .shared none)
    (hj : s.slots j = .shared block) : Ledger (tr ++ []) (s.put i (.shared block)) where
  fresh := h.fresh_put (by rw [hi]; nofun) _
  bound := h.bound_put fun b hb => h.bound j b (hj.trans hb)
  unmade := h.unmade
  place p := by
    refine (h.place p).keep (fun x => ?_) rfl (fun _ _ _ => rfl) rfl rfl
    cases block with
    | none => exact holds_put_empty (by rw [hi]; rfl) rfl x
    | some c =>
      refine (holds_put_shared hi rfl x).trans (or_iff_right_of_imp ?_)
      rintro ⟨rfl, hc⟩
      exact ⟨⟨j, hj⟩, hc⟩

theorem make (h : Ledger tr s) {ptr : Option ℕ} {d : D} (hi : s.slots i = .shared none)
    (hoffers : s.offers ptr = true) :
    Ledger (tr ++ makes d ptr)
      (((s.put i (.shared (some s.blockCount))).addBlock ⟨ptr, d⟩).setCaller ptr false) where
  fresh := h.fresh_put (by rw [hi]; nofun) _
  bound k b hk := by
    by_cases hki : k = i
    · rw [hki] at hk
      obtain rfl : s.blockCount = b :=
        Option.some.inj (Slot.shared.inj ((Function.update_self ..).symm.trans hk))
      exact Nat.lt_succ_self _
    · exact Nat.lt_succ_of_lt (h.bound k b ((Function.update_of_ne hki ..).symm.trans hk))
  unmade b hb := by
    have hne : b ≠ s.blockCount := Nat.ne_of_gt hb
    exact (Function.update_of_ne hne ..).trans (h.unmade b (Nat.le_of_succ_le hb))
  place p := by
    -- the new block is nobody's yet
    have hnew : ¬ s.Shares s.blockCount := fun ⟨k, hk⟩ => Nat.lt_irrefl _ (h.bound k _ hk)
    have hbefore (x : Holder) : Store.Holds (s.addBlock ⟨ptr, d⟩) p x ↔ s.Holds p x := by
      cases x with
      | unique k => exact Iff.rfl
      | block b =>
        refine and_congr_right fun hshares => ?_
        have hb : b ≠ s.blockCount := fun hb => hnew (hb ▸ hshares)
        have hsame : (s.addBlock ⟨ptr, d⟩).blocks b = s.blocks b := Function.update_of_ne hb ..
        rw [hsame]
    have hheld (x : Holder) : Store.Holds
        (((s.put i (.shared (some s.blockCount))).addBlock ⟨ptr, d⟩).setCaller ptr false) p x ↔
          (x = .block s.blockCount ∧ ptr = some p) ∨ s.Holds p x := by
      refine (holds_put_shared (t := s.addBlock ⟨ptr, d⟩) hi rfl x).trans (or_congr ?_ (hbefore x))
      refine and_congr_right fun _ => ?_
      show (∃ e, Function.update s.blocks s.blockCount (some ⟨ptr, d⟩) s.blockCount = _) ↔ _
      rw [Function.update_self]
      simp
    by_cases hp : ptr = some p
    · subst hp
      have hfree := ((h.place p).of_caller hoffers).1
      refine (h.place p).share (b := s.blockCount) hoffers (Function.update_self ..) (fun x => ?_)
        (Function.update_self ..) ?_ (deleters_makes ..)
      · refine (hheld x).trans ((or_iff_left (hfree x)).trans ?_)
        exact and_iff_left rfl
      · rw [makers_makes, if_pos rfl]
    · refine (h.place p).keep (fun x => (hheld x).trans (or_iff_right fun hx => hp hx.2)) ?_ ?_ ?_
        (deleters_makes ..)
      · cases ptr with
        | none => rfl
        | some q => exact Function.update_of_ne (fun hpq => hp (congrArg some hpq.symm)) ..
      · intro b e hb
        have hne : b ≠ s.blockCount := by
          rintro rfl
          rw [h.unmade _ (Nat.le_refl _)] at hb
          cases hb
        exact Function.update_of_ne hne ..
      · rw [makers_makes, if_neg hp]

theorem holds_drop {b p : ℕ} (hi : s.slots i = .shared (some b)) (x : Holder) :
    (s.put i (.shared none)).Holds p x ↔
      s.Holds p x ∧ (x = .block b → (s.put i (.shared none)).Shares b) := by
  cases x with
  | unique k =>
    rw [holds_unique_put]
    by_cases hk : k = i
    · have hnot : ¬ s.Holds p (.unique i) := by
        rw [Store.Holds, hi]
        nofun
      simp [hk, hnot]
    · simp [hk]
  | block c =>
    by_cases hc : c = b
    · subst hc
      constructor
      · rintro ⟨hshares, hp⟩
        exact ⟨⟨⟨i, hi⟩, hp⟩, fun _ => hshares⟩
      · rintro ⟨⟨-, hp⟩, hshares⟩
        exact ⟨hshares rfl, hp⟩
    · have hne : s.slots i ≠ .shared (some c) := by
        rw [hi]
        exact fun heq => hc (Option.some.inj (Slot.shared.inj heq)).symm
      have hsame : (s.put i (.shared none)).Holds p (.block c) ↔ s.Holds p (.block c) :=
        holds_block_put hne nofun
      exact hsame.trans (and_iff_left fun hcb => absurd (Holder.block.inj hcb) hc).symm

theorem drop (h : Ledger tr s) {b : ℕ} (hi : s.slots i = .shared (some b)) :
    Ledger (tr ++ if (s.put i (.shared none)).refersTo b then []
      else (s.blocks b).elim [] fun block => deletes block.deleter block.ptr)
      (s.put i (.shared none)) where
  fresh := h.fresh_put (by rw [hi]; nofun) _
  bound := h.bound_put nofun
  unmade := h.unmade
  place p := by
    have hrefers : (s.put i (.shared none)).refersTo b = true ↔ (s.put i (.shared none)).Shares b :=
      refersTo_iff (h.fresh_put (by rw [hi]; nofun) (.shared none))
    by_cases hshares : (s.put i (.shared none)).Shares b
    · rw [if_pos (hrefers.mpr hshares)]
      refine (h.place p).keep (fun x => ?_) rfl (fun _ _ _ => rfl) rfl rfl
      exact (holds_drop hi x).trans (and_iff_left fun _ => hshares)
    · rw [if_neg fun hyes => hshares (hrefers.mp hyes)]
      cases hb : s.blocks b with
      | none =>
        refine (h.place p).keep (fun x => ?_) rfl (fun _ _ _ => rfl) rfl rfl
        refine (holds_drop hi x).trans (and_iff_left_of_imp ?_)
        rintro hx rfl
        obtain ⟨-, d, hd⟩ := hx
        rw [hb] at hd
        cases hd
      | some block =>
        obtain ⟨ptr, d⟩ := block
        show Place (tr ++ deletes d ptr) _ p
        by_cases hp : ptr = some p
        · subst hp
          have hheld : s.Holds p (.block b) := ⟨⟨i, hi⟩, d, hb⟩
          refine (h.place p).delete_block hheld hb rfl (fun x hx => ?_) (makers_deletes ..) ?_
          · obtain ⟨hx, hlast⟩ := (holds_drop hi x).mp hx
            exact hshares (hlast ((((h.place p).of_block hheld hb).2.1 x).mp hx))
          · rw [deleters_deletes, if_pos rfl]
        · refine (h.place p).keep (fun x => ?_) rfl (fun _ _ _ => rfl) (makers_deletes ..) ?_
          · refine (holds_drop hi x).trans (and_iff_left_of_imp ?_)
            rintro hx rfl
            obtain ⟨-, e, he⟩ := hx
            rw [hb] at he
            cases he
            exact absurd rfl hp
          · rw [deleters_deletes, if_neg hp]

/-- **Every instruction keeps the ledger.** -/
theorem step (h : Ledger tr s) {a : Instr D} {s' : Store D} {es : List (Event D)}
    (hstep : SmartPointers.step s a = some (s', es)) : Ledger (tr ++ es) s' := by
  cases a with
  | newUnique =>
    cases hstep
    exact h.extend rfl
  | newShared =>
    cases hstep
    exact h.extend rfl
  | release i =>
    cases hi : s.slots i with
    | unique ptr =>
      simp only [SmartPointers.step, hi] at hstep
      cases hstep
      exact h.release hi
    | _ => simp [SmartPointers.step, hi] at hstep
  | reset i ptr d =>
    cases hi : s.slots i with
    | unique old =>
      simp only [SmartPointers.step, hi] at hstep
      split at hstep
      · next hoffers =>
        cases hstep
        exact h.reset hi hoffers d
      · cases hstep
    | _ => simp [SmartPointers.step, hi] at hstep
  | swap i j =>
    simp only [SmartPointers.step] at hstep
    split at hstep
    · next halike =>
      cases hstep
      exact h.swap halike
    · cases hstep
  | make i ptr d =>
    simp only [SmartPointers.step] at hstep
    split at hstep
    · next hempty =>
      cases hstep
      exact h.make hempty.1 hempty.2
    · cases hstep
  | share i j =>
    simp only [SmartPointers.step] at hstep
    split at hstep
    · next block hi hj =>
      cases hstep
      exact h.share hi hj
    · cases hstep
  | drop i =>
    simp only [SmartPointers.step] at hstep
    split at hstep
    · cases hstep
      rwa [List.append_nil]
    · next b hi =>
      cases hstep
      exact h.drop hi
    · cases hstep
  | destroy i =>
    simp only [SmartPointers.step] at hstep
    split at hstep
    · next hi =>
      cases hstep
      exact h.destroy hi
    · cases hstep

/-- **Instructions that follow each other keep it.** -/
theorem run {C : Store D → Instr D → Prop} {s' : Store D} {tr' : List (Event D)}
    (h : Ledger tr s) (hrun : system.RunFrom C s tr' s') : Ledger (tr ++ tr') s' := by
  refine hrun.invariant (I := fun tr' t => Ledger (tr ++ tr') t) (by rwa [List.append_nil]) ?_
  intro tr' t a t' es _ _ hstep ih
  rw [← List.append_assoc]
  exact ih.step hstep

end Ledger

/-! ## What `get()` returns -/

section Get

variable {tr es : List (Event D)} {s s' : Store D} {i b p : ℕ} {slot : Slot}

theorem get_put (s : Store D) (i : ℕ) (slot : Slot) :
    (s.put i slot).get = Function.update s.get i (s.pointerOf slot) := by
  funext k
  rw [Store.get]
  by_cases hk : k = i
  · subst hk
    rw [Function.update_self]
    show Store.pointerOf _ (Function.update s.slots k slot k) = _
    rw [Function.update_self]
    rfl
  · rw [Function.update_of_ne hk, Store.get]
    show Store.pointerOf _ (Function.update s.slots i slot k) = _
    rw [Function.update_of_ne hk]
    rfl

/-- A pointer is held where `get()` returns it. -/
theorem exists_get_iff : (∃ i, s.get i = some p) ↔ ∃ x, s.Holds p x := by
  constructor
  · rintro ⟨i, hi⟩
    rw [Store.get] at hi
    cases hslot : s.slots i with
    | dead =>
      rw [hslot] at hi
      cases hi
    | unique ptr =>
      rw [hslot] at hi
      exact ⟨.unique i, hslot.trans (congrArg _ hi)⟩
    | shared block =>
      rw [hslot] at hi
      cases block with
      | none => cases hi
      | some b =>
        obtain ⟨⟨ptr, d⟩, hb, rfl⟩ := Option.bind_eq_some_iff.mp hi
        exact ⟨.block b, ⟨i, hslot⟩, d, hb⟩
  · rintro ⟨x, hx⟩
    cases x with
    | unique i => exact ⟨i, by rw [Store.get, show s.slots i = _ from hx]; rfl⟩
    | block b =>
      obtain ⟨⟨i, hi⟩, d, hb⟩ := hx
      exact ⟨i, by rw [Store.get, hi, Store.pointerOf, hb]; rfl⟩

/-- What an instruction does to the pointers. -/
def Instr.getAfter (g : ℕ → Option ℕ) : Instr D → ℕ → Option ℕ
  | .newUnique | .newShared | .destroy _ => g
  | .release i | .drop i => Function.update g i none
  | .reset i ptr _ | .make i ptr _ => Function.update g i ptr
  | .swap i j => g ∘ Equiv.swap i j
  | .share i j => Function.update g i (g j)

/-- A block is made where there was none. -/
theorem Ledger.get_addBlock (h : Ledger tr s) (block : Block D) (k : ℕ) :
    (s.addBlock block).get k = s.get k := by
  show (s.addBlock block).pointerOf (s.slots k) = s.pointerOf (s.slots k)
  cases hk : s.slots k with
  | dead => rfl
  | unique ptr => rfl
  | shared c =>
    cases c with
    | none => rfl
    | some b =>
      have hne : b ≠ s.blockCount := Nat.ne_of_lt (h.bound k b hk)
      have hsame : (s.addBlock block).blocks b = s.blocks b := Function.update_of_ne hne ..
      rw [Store.pointerOf, hsame]
      rfl

/-- What an instruction does to the pointers it does to every run. -/
theorem Ledger.step_get (h : Ledger tr s) {a : Instr D}
    (hstep : SmartPointers.step s a = some (s', es)) : s'.get = a.getAfter s.get := by
  have hempty (i : ℕ) (slot : Slot) (hold : s.get i = none) (hnew : s.pointerOf slot = none) :
      (s.put i slot).get = s.get := by
    rw [get_put, hnew, ← hold, Function.update_eq_self]
  have hfresh : s.get s.slotCount = none := by
    rw [Store.get, h.fresh _ (Nat.le_refl _)]
    rfl
  cases a with
  | newUnique =>
    cases hstep
    exact hempty s.slotCount (.unique none) hfresh rfl
  | newShared =>
    cases hstep
    exact hempty s.slotCount (.shared none) hfresh rfl
  | release i =>
    simp only [SmartPointers.step] at hstep
    split at hstep
    · cases hstep
      exact get_put s i (.unique none)
    · cases hstep
  | reset i ptr d =>
    simp only [SmartPointers.step] at hstep
    split at hstep
    · split at hstep
      · cases hstep
        exact get_put s i (.unique ptr)
      · cases hstep
    · cases hstep
  | swap i j =>
    simp only [SmartPointers.step] at hstep
    split at hstep
    · cases hstep
      rfl
    · cases hstep
  | make i ptr d =>
    simp only [SmartPointers.step] at hstep
    split at hstep
    · cases hstep
      show ((s.addBlock ⟨ptr, d⟩).put i (.shared (some s.blockCount))).get = _
      have hptr : (s.addBlock ⟨ptr, d⟩).pointerOf (.shared (some s.blockCount)) = ptr := by
        show (Function.update s.blocks s.blockCount (some ⟨ptr, d⟩) s.blockCount).bind Block.ptr = ptr
        rw [Function.update_self]
        rfl
      rw [get_put, hptr, funext (h.get_addBlock ⟨ptr, d⟩)]
      rfl
    · cases hstep
  | share i j =>
    simp only [SmartPointers.step] at hstep
    split at hstep
    · next block _ hj =>
      cases hstep
      rw [get_put, ← hj]
      rfl
    · cases hstep
  | drop i =>
    simp only [SmartPointers.step] at hstep
    split at hstep
    · next hi =>
      cases hstep
      have hnone : s.get i = none := by
        rw [Store.get, hi]
        rfl
      show s.get = Function.update s.get i none
      rw [← hnone, Function.update_eq_self]
    · cases hstep
      exact get_put s i (.shared none)
    · cases hstep
  | destroy i =>
    simp only [SmartPointers.step] at hstep
    split at hstep
    · next hi =>
      cases hstep
      refine hempty i .dead ?_ rfl
      rcases hi with hi | hi
      · rw [Store.get, hi]
        rfl
      · rw [Store.get, hi]
        rfl
    · cases hstep

/-- The deleters that an instruction makes control blocks for `p` with. -/
def Instr.makersOf (p : ℕ) : Instr D → List D
  | .make _ ptr d => if ptr = some p then [d] else []
  | _ => []

theorem step_makers {a : Instr D} (hstep : step s a = some (s', es)) (p : ℕ) :
    makers p es = a.makersOf p := by
  cases a with
  | make i ptr d =>
    simp only [step] at hstep
    split at hstep
    · cases hstep
      exact makers_makes p d ptr
    · cases hstep
  | drop i =>
    simp only [step] at hstep
    split at hstep
    · cases hstep
      rfl
    · next b _ =>
      cases hstep
      split
      · rfl
      · cases s.blocks b with
        | none => rfl
        | some block => exact makers_deletes ..
    · cases hstep
  | reset i ptr d =>
    simp only [step] at hstep
    split at hstep
    · split at hstep
      · cases hstep
        exact makers_deletes ..
      · cases hstep
    · cases hstep
  | newUnique | newShared =>
    cases hstep
    rfl
  | release i | swap i j | share i j | destroy i =>
    simp only [step] at hstep
    split at hstep
    · cases hstep
      rfl
    · cases hstep

/-- What an instruction deletes a pointer through that a `unique_ptr` has. -/
def Instr.deletersOf (g : ℕ → Option ℕ) (p : ℕ) : Instr D → List D
  | .reset i _ d => if g i = some p then [d] else []
  | _ => []

/-- What is deleted was shared, or a `unique_ptr` had it. -/
theorem Ledger.step_deleters (h : Ledger tr s) {a : Instr D} {d : D}
    (hstep : SmartPointers.step s a = some (s', es)) (hd : d ∈ deleters p es) :
    d ∈ makers p tr ∨ d ∈ a.deletersOf s.get p := by
  cases a with
  | reset i ptr e =>
    simp only [SmartPointers.step] at hstep
    split at hstep
    · next old hi =>
      split at hstep
      · cases hstep
        right
        have hget : s.get i = old := by
          rw [Store.get, hi]
          rfl
        rw [Instr.deletersOf, hget]
        rwa [deleters_deletes] at hd
      · cases hstep
    · cases hstep
  | drop i =>
    simp only [SmartPointers.step] at hstep
    split at hstep
    · cases hstep
      cases hd
    · next b hi =>
      cases hstep
      split at hd
      · cases hd
      · cases hb : s.blocks b with
        | none =>
          rw [hb] at hd
          cases hd
        | some block =>
          -- the last of its owners goes: the block was made for the pointer
          obtain ⟨ptr, e⟩ := block
          rw [hb] at hd
          change d ∈ deleters p (deletes e ptr) at hd
          rw [deleters_deletes] at hd
          split at hd
          · next hptr =>
            left
            subst hptr
            obtain ⟨-, -, hmakers, -⟩ := (h.place p).of_block ⟨⟨i, hi⟩, e, hb⟩ hb
            rwa [hmakers]
          · cases hd
    · cases hstep
  | newUnique | newShared =>
    cases hstep
    cases hd
  | make i ptr e =>
    simp only [SmartPointers.step] at hstep
    split at hstep
    · cases hstep
      rw [deleters_makes] at hd
      cases hd
    · cases hstep
  | release i | swap i j | share i j | destroy i =>
    simp only [SmartPointers.step] at hstep
    split at hstep
    · cases hstep
      cases hd
    · cases hstep

/-! ## Programs -/

/-- What a program deletes a pointer through that a `unique_ptr` has. -/
def deletersOf (p : ℕ) : (ℕ → Option ℕ) → List (Instr D) → List D
  | _, [] => []
  | g, a :: prog => a.deletersOf g p ++ deletersOf p (a.getAfter g) prog

theorem execFrom_cons {a : Instr D} {prog : List (Instr D)}
    (hexec : system.execFrom s (a :: prog) = some (s', es)) : ∃ t es₁ es₂,
      step s a = some (t, es₁) ∧ system.execFrom t prog = some (s', es₂) ∧ es = es₁ ++ es₂ := by
  rw [execFrom] at hexec
  cases hstep : system.step s a with
  | none =>
    rw [hstep] at hexec
    cases hexec
  | some r =>
    obtain ⟨t, es₁⟩ := r
    rw [hstep] at hexec
    obtain ⟨⟨s'', es₂⟩, hrest, heq⟩ := Option.map_eq_some_iff.mp hexec
    cases heq
    exact ⟨t, es₁, es₂, hstep, hrest, rfl⟩

/-- The caller has what a `unique_ptr` is reset to. -/
theorem offers_of_reset {ptr : Option ℕ} {d : D} (hstep : step s (.reset i ptr d) = some (s', es)) :
    s.offers ptr = true := by
  simp only [step] at hstep
  split at hstep
  · split at hstep
    · next hoffers => exact hoffers
    · cases hstep
  · cases hstep

/-- The caller has what a control block is made for. -/
theorem offers_of_make {ptr : Option ℕ} {d : D} (hstep : step s (.make i ptr d) = some (s', es)) :
    s.offers ptr = true := by
  simp only [step] at hstep
  split at hstep
  · next hempty => exact hempty.2
  · cases hstep

/-- Only a `shared_ptr` can be swapped with one that is new. -/
theorem shared_of_swap {j : ℕ} (hi : s.slots i = .shared none)
    (hstep : step s (.swap i j) = some (s', es)) : ∃ block, s.slots j = .shared block := by
  simp only [step] at hstep
  split at hstep
  · next halike =>
    rw [hi] at halike
    cases hj : s.slots j with
    | shared block => exact ⟨block, rfl⟩
    | _ => simp [hj, Slot.alike] at halike
  · cases hstep

/-- Only a `shared_ptr` can be copied. -/
theorem shared_of_share {j : ℕ} (hstep : step s (.share i j) = some (s', es)) :
    ∃ block, s.slots j = .shared block := by
  simp only [step] at hstep
  split at hstep
  · next block _ hj => exact ⟨block, hj⟩
  · cases hstep

/-- What a `shared_ptr` returns has a control block. -/
theorem Ledger.makers_ne_nil (h : Ledger tr s) {block : Option ℕ} (hi : s.slots i = .shared block)
    (hget : s.get i = some p) : makers p tr ≠ [] := by
  rw [Store.get, hi] at hget
  cases block with
  | none => cases hget
  | some b =>
    obtain ⟨⟨ptr, d⟩, hb, rfl⟩ := Option.bind_eq_some_iff.mp hget
    obtain ⟨-, -, hmakers, -⟩ := (h.place p).of_block ⟨⟨i, hi⟩, d, hb⟩ hb
    rw [hmakers]
    exact List.cons_ne_nil d []

/-- **What a program does**, instruction by instruction. -/
structure Ledger.Exec (tr es : List (Event D)) (s s' : Store D) (prog : List (Instr D)) :
    Prop where
  ledger : Ledger (tr ++ es) s'
  get : s'.get = prog.foldl (fun g a => a.getAfter g) s.get
  makers : ∀ p, makers p es = prog.flatMap (Instr.makersOf p)
  deleters : ∀ p, ∀ d ∈ deleters p es, d ∈ SmartPointers.makers p (tr ++ es) ∨
    d ∈ deletersOf p s.get prog

theorem Ledger.exec (h : Ledger tr s) {prog : List (Instr D)}
    (hexec : system.execFrom s prog = some (s', es)) : Ledger.Exec tr es s s' prog := by
  induction prog generalizing s tr es with
  | nil =>
    cases hexec
    refine ⟨?_, rfl, fun _ => rfl, fun p d hd => ?_⟩
    · rwa [List.append_nil]
    · cases hd
  | cons a prog ih =>
    obtain ⟨t, es₁, es₂, hstep, hrest, rfl⟩ := execFrom_cons hexec
    have hget := h.step_get hstep
    obtain ⟨hledger, htail, hmakers, hdeleters⟩ := ih (h.step hstep) hrest
    rw [List.append_assoc] at hledger hdeleters
    refine ⟨hledger, ?_, fun p => ?_, fun p d hd => ?_⟩
    · rw [htail, hget]
      rfl
    · rw [makers_append, step_makers hstep, hmakers]
      rfl
    · rw [deletersOf, ← hget]
      rw [deleters_append] at hd
      rcases List.mem_append.mp hd with hd | hd
      · rcases h.step_deleters hstep hd with hd | hd
        · left
          rw [makers_append]
          exact List.mem_append_left _ hd
        · exact .inr (List.mem_append_left _ hd)
      · rcases hdeleters p d hd with hd | hd
        · exact .inl hd
        · exact .inr (List.mem_append_right _ hd)

/-- **An allocation that the caller has handed over is deleted once**, when nothing has it any
more and not before. -/
theorem Ledger.deleters_eq (h : Ledger tr s) (p : ℕ) :
    (s.withCaller p = true ∨ (∃ i, s.get i = some p) → deleters p tr = []) ∧
      (¬ (s.withCaller p = true ∨ ∃ i, s.get i = some p) →
        ∃ d, deleters p tr = [d] ∧ (makers p tr = [d] ∨ makers p tr = [])) := by
  rw [exists_get_iff]
  cases h.place p with
  | caller hw _ _ hd => exact ⟨fun _ => hd, fun hnot => absurd (.inl hw) hnot⟩
  | unique i _ hheld _ hd =>
    exact ⟨fun _ => hd, fun hnot => absurd (.inr ⟨_, (hheld _).mpr rfl⟩) hnot⟩
  | block b d _ hheld _ _ hd =>
    exact ⟨fun _ => hd, fun hnot => absurd (.inr ⟨_, (hheld _).mpr rfl⟩) hnot⟩
  | deleted d hw hfree hd hm =>
    refine ⟨?_, fun _ => ⟨d, hd, hm⟩⟩
    rintro (hcaller | ⟨x, hx⟩)
    · exact absurd (hcaller.symm.trans hw) nofun
    · exact absurd hx (hfree x)

end Get

end SmartPointers
