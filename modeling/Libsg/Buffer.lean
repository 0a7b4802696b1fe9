/-
# Owning buffers

`unique_buffer` and `shared_buffer` of `buffer.h`: a smart pointer and a length, which are two
members.  Every operation is a program on the smart pointers, as the standard spells it out, beside
what is written to the length; where the two are moved by default the length is copied.

A `std::unique_ptr` has its deleter beside its pointer, and the two go together.  A control block
keeps the deleter that it is made with, which the buffers construct anew.
-/
import Libsg.SmartPointers

open TransitionSystem SmartPointers

namespace Buffers

variable {D : Type}

structure State (D : Type) where
  ptrs : Store D
  /-- the lengths of the buffers, 0 where there is none -/
  length : ℕ → ℕ
  /-- what the `unique_ptr`s delete with -/
  deleter : ℕ → D

/-- What `deleter_free<T>`, `std::default_delete<T[]>` and a null function pointer call. -/
inductive Deleter
  | free
  | arrayDelete
  | null
  deriving DecidableEq

/-- The template parameter `deleter`, which may have a state. -/
structure DeleterType (D : Type) where
  /-- `deleter()` -/
  init : D
  /-- what is left of a deleter that has been moved from -/
  movedFrom : D → D
  /-- `std::default_delete<T[]>()` -/
  defaultDelete : D

/-- The default one, which has no state. -/
def arrayDeleter : DeleterType Deleter := ⟨.arrayDelete, id, .arrayDelete⟩

/-! ## `IBuffer` -/

namespace State

variable (s : State D) (i : ℕ)

def get : Option ℕ := s.ptrs.get i

def size : ℕ := s.length i

def empty : Bool := s.size i = 0

/-- `begin()`: a pointer and an offset. -/
def beginIter : Option ℕ × ℕ := (s.get i, 0)

/-- `end()`, which is `begin() + size()`. -/
def endIter : Option ℕ × ℕ := ((s.beginIter i).1, (s.beginIter i).2 + s.size i)

end State

/-! ## The operations -/

/-- A buffer is known by the number it was constructed with. -/
inductive Action (D : Type)
  | uniqueDefault
  | uniqueNew (ptr : Option ℕ) (length : ℕ)
  /-- `unique_buffer(ptr, length, del)` -/
  | uniqueNewWith (ptr : Option ℕ) (length : ℕ) (del : D)
  | uniqueMove (other : ℕ)
  | uniqueMoveAssign (i other : ℕ)
  | uniqueRelease (i : ℕ)
  | uniqueReset (i : ℕ) (ptr : Option ℕ) (length : ℕ)
  | uniqueResetNull (i : ℕ)
  | sharedDefault
  | sharedNew (ptr : Option ℕ) (length : ℕ)
  | sharedOfUnique (buff : ℕ)
  | sharedMove (other : ℕ)
  | sharedMoveAssign (i other : ℕ)
  | sharedCopy (other : ℕ)
  | sharedCopyAssign (i other : ℕ)
  | sharedReset (i : ℕ) (ptr : Option ℕ) (length : ℕ)
  | sharedResetNull (i : ℕ)
  | swap (i other : ℕ)
  | destroy (i : ℕ)

/-- The buffers that an operation is called with. -/
def Action.operands : Action D → List ℕ
  | .uniqueDefault | .uniqueNew .. | .uniqueNewWith .. | .sharedDefault | .sharedNew .. => []
  | .uniqueMove i | .uniqueRelease i | .uniqueReset i .. | .uniqueResetNull i | .sharedOfUnique i
  | .sharedMove i | .sharedCopy i | .sharedReset i .. | .sharedResetNull i | .destroy i => [i]
  | .uniqueMoveAssign i j | .sharedMoveAssign i j | .sharedCopyAssign i j | .swap i j => [i, j]

/-- What is done to the smart pointers, and the other members afterwards. -/
structure Effect (D : Type) where
  program : List (Instr D)
  length : ℕ → ℕ
  deleter : ℕ → D

namespace State

variable (s : State D)

/-- The number of the next smart pointer, which may be a temporary one. -/
def new : ℕ := s.ptrs.slotCount

/-- `std::unique_ptr<T[], deleter>(ptr, del)` -/
def uniqueNew (ptr : Option ℕ) (length : ℕ) (del : D) : Effect D where
  program := [.newUnique, .reset s.new ptr del]
  length := Function.update s.length s.new length
  deleter := Function.update s.deleter s.new del

/-- The old pointer is deleted before the deleter is assigned. -/
def uniqueMoveAssign (movedFrom : D → D) (i j : ℕ) : Effect D where
  program := [.release j, .reset i (s.get j) (s.deleter i)]
  length := Function.update s.length i (s.length j)
  deleter := Function.update (Function.update s.deleter j (movedFrom (s.deleter j))) i (s.deleter j)

def uniqueReset (i : ℕ) (ptr : Option ℕ) (length : ℕ) : Effect D where
  program := [.reset i ptr (s.deleter i)]
  length := Function.update s.length i length
  deleter := s.deleter

/-- An operation on `shared_buffer`s. -/
def onShared (program : List (Instr D)) (i length : ℕ) : Effect D where
  program := program
  length := Function.update s.length i length
  deleter := s.deleter

/-- `std::shared_ptr<T[]>(ptr).swap(*this)`, which is `ptr.reset(_ptr)`. -/
def sharedReset (defaultDelete : D) (i : ℕ) (ptr : Option ℕ) (length : ℕ) : Effect D :=
  s.onShared
    [.newShared, .make s.new ptr defaultDelete, .swap s.new i, .drop s.new, .destroy s.new] i length

def effect (T : DeleterType D) : Action D → Effect D
  | .uniqueDefault =>
    ⟨[.newUnique], Function.update s.length s.new 0, Function.update s.deleter s.new T.init⟩
  | .uniqueNew ptr length => s.uniqueNew ptr length T.init
  | .uniqueNewWith ptr length del => s.uniqueNew ptr length del
  | .uniqueMove j =>
    ⟨[.newUnique, .release j, .reset s.new (s.get j) (s.deleter j)],
      Function.update s.length s.new (s.length j),
      Function.update (Function.update s.deleter j (T.movedFrom (s.deleter j))) s.new (s.deleter j)⟩
  | .uniqueMoveAssign i j => s.uniqueMoveAssign T.movedFrom i j
  | .uniqueRelease i => ⟨[.release i], s.length, s.deleter⟩
  | .uniqueReset i ptr length => s.uniqueReset i ptr length
  | .uniqueResetNull i => s.uniqueReset i none 0
  | .sharedDefault => s.onShared [.newShared] s.new 0
  | .sharedNew ptr length => s.onShared [.newShared, .make s.new ptr T.init] s.new length
  | .sharedOfUnique j =>
    -- the deleter of the `unique_buffer` stays where it is
    s.onShared [.newShared, .release j, .make s.new (s.get j) T.init] s.new (s.size j)
  | .sharedMove j => s.onShared [.newShared, .swap s.new j] s.new (s.length j)
  | .sharedMoveAssign i j =>
    s.onShared [.newShared, .swap s.new j, .swap s.new i, .drop s.new, .destroy s.new] i
      (s.length j)
  | .sharedCopy j => s.onShared [.newShared, .share s.new j] s.new (s.length j)
  | .sharedCopyAssign i j =>
    s.onShared [.newShared, .share s.new j, .swap s.new i, .drop s.new, .destroy s.new] i
      (s.length j)
  | .sharedReset i ptr length => s.sharedReset T.defaultDelete i ptr length
  | .sharedResetNull i => s.sharedReset T.defaultDelete i none 0
  | .swap i j => ⟨[.swap i j], s.length ∘ Equiv.swap i j, s.deleter ∘ Equiv.swap i j⟩
  | .destroy i =>
    match s.ptrs.slots i with
    | .unique _ =>
      ⟨[.reset i none (s.deleter i), .destroy i], Function.update s.length i 0, s.deleter⟩
    | _ => s.onShared [.drop i, .destroy i] i 0

end State

def step (T : DeleterType D) (s : State D) (a : Action D) : Option (State D × List (Event D)) :=
  if a.operands.all fun i => s.ptrs.slots i ≠ .dead then
    (SmartPointers.system.execFrom s.ptrs (s.effect T a).program).map
      fun r => (⟨r.1, (s.effect T a).length, (s.effect T a).deleter⟩, r.2)
  else none

def system (T : DeleterType D) : TransitionSystem (State D) (Action D) (Event D) where
  start := ⟨SmartPointers.system.start, fun _ => 0, fun _ => T.init⟩
  step := step T

/-! ## What one operation does -/

section Step

variable {T : DeleterType D} {tr es : List (Event D)} {s s' : State D} {a : Action D}

theorem alive_of_step (hstep : step T s a = some (s', es)) :
    ∀ i ∈ a.operands, s.ptrs.slots i ≠ .dead := by
  unfold step at hstep
  split at hstep
  · next halive => exact fun i hi => of_decide_eq_true (List.all_eq_true.mp halive i hi)
  · cases hstep

theorem step_spec (hstep : step T s a = some (s', es)) :
    SmartPointers.system.execFrom s.ptrs (s.effect T a).program = some (s'.ptrs, es) ∧
      s'.length = (s.effect T a).length ∧ s'.deleter = (s.effect T a).deleter := by
  unfold step at hstep
  split at hstep
  · obtain ⟨⟨ptrs, es'⟩, hexec, heq⟩ := Option.map_eq_some_iff.mp hstep
    cases heq
    exact ⟨hexec, rfl, rfl⟩
  · cases hstep

theorem exec_of_step (h : Ledger tr s.ptrs) (hstep : step T s a = some (s', es)) :
    Ledger.Exec tr es s.ptrs s'.ptrs (s.effect T a).program :=
  h.exec (step_spec hstep).1

/-- **The smart pointers of a run of buffers keep their ledger.** -/
theorem ledger {C : State D → Action D → Prop} (h : (system T).Run C tr s) : Ledger tr s.ptrs := by
  refine Run.invariant (I := fun tr s => Ledger tr s.ptrs) Ledger.start ?_ h
  intro tr s a s' es _ _ hstep ih
  exact (exec_of_step ih hstep).ledger

/-- What is not alive has no pointer. -/
theorem get_new (h : Ledger tr s.ptrs) : s.ptrs.get s.new = none := by
  have hdead : s.ptrs.slots s.new = .dead := h.fresh _ (Nat.le_refl _)
  rw [Store.get, hdead]
  rfl

theorem ne_new (h : Ledger tr s.ptrs) {i : ℕ} (hi : s.ptrs.slots i ≠ .dead) : i ≠ s.new :=
  Nat.ne_of_lt (h.lt_of_alive hi)

end Step

/-! ## What one operation does to the pointers -/

/-- The pointers after an operation: it takes the pointer out of the buffer `other` and into `i`. -/
def moved (g : ℕ → Option ℕ) (i other : ℕ) : ℕ → Option ℕ :=
  Function.update (Function.update g other none) i (g other)

def Action.getAfter (s : State D) : Action D → ℕ → Option ℕ
  | .uniqueDefault | .sharedDefault => s.ptrs.get
  | .uniqueNew ptr _ | .uniqueNewWith ptr _ _ | .sharedNew ptr _ =>
    Function.update s.ptrs.get s.new ptr
  | .uniqueMove j | .sharedMove j | .sharedOfUnique j => moved s.ptrs.get s.new j
  | .uniqueMoveAssign i j | .sharedMoveAssign i j => moved s.ptrs.get i j
  | .uniqueRelease i | .uniqueResetNull i | .sharedResetNull i | .destroy i =>
    Function.update s.ptrs.get i none
  | .uniqueReset i ptr _ | .sharedReset i ptr _ => Function.update s.ptrs.get i ptr
  | .sharedCopy j => Function.update s.ptrs.get s.new (s.ptrs.get j)
  | .sharedCopyAssign i j => Function.update s.ptrs.get i (s.ptrs.get j)
  | .swap i j => s.ptrs.get ∘ Equiv.swap i j

section Pointers

variable {g : ℕ → Option ℕ} {i j t : ℕ}

/-- The temporary takes what is to be stored, and leaves with what was there. -/
theorem replace_eq (ht : g t = none) (hit : i ≠ t) (new : Option ℕ) :
    Function.update (Function.update g t new ∘ Equiv.swap t i) t none =
      Function.update g i new := by
  funext k
  by_cases hkt : k = t
  · rw [hkt, Function.update_self, Function.update_of_ne hit.symm, ht]
  · rw [Function.update_of_ne hkt, Function.comp_apply]
    by_cases hki : k = i
    · rw [hki, Equiv.swap_apply_right, Function.update_self, Function.update_self]
    · rw [Equiv.swap_apply_of_ne_of_ne hkt hki, Function.update_of_ne hkt,
        Function.update_of_ne hki]

/-- To swap with what is empty is to move. -/
theorem swap_empty (ht : g t = none) : g ∘ Equiv.swap t j = moved g t j := by
  funext k
  rw [Function.comp_apply, moved]
  by_cases hkt : k = t
  · rw [hkt, Equiv.swap_apply_left, Function.update_self]
  · rw [Function.update_of_ne hkt]
    by_cases hkj : k = j
    · rw [hkj, Equiv.swap_apply_right, Function.update_self, ht]
    · rw [Equiv.swap_apply_of_ne_of_ne hkt hkj, Function.update_of_ne hkj]

/-- To swap the temporary twice is to move. -/
theorem move_eq (ht : g t = none) (hit : i ≠ t) (hjt : j ≠ t) :
    Function.update ((g ∘ Equiv.swap t j) ∘ Equiv.swap t i) t none = moved g i j := by
  have hfirst : g ∘ Equiv.swap t j = Function.update (Function.update g j none) t (g j) :=
    swap_empty ht
  rw [hfirst, moved, replace_eq _ hit]
  rw [Function.update_of_ne hjt.symm, ht]

end Pointers

section Step

variable {T : DeleterType D} {tr es : List (Event D)} {s s' : State D} {a : Action D}

theorem step_get (h : Ledger tr s.ptrs)
    (hstep : step T s a = some (s', es)) : s'.ptrs.get = a.getAfter s := by
  have hnew := get_new h
  have hne (i : ℕ) (hi : i ∈ a.operands) : i ≠ s.new := ne_new h (alive_of_step hstep i hi)
  rw [(exec_of_step h hstep).get]
  cases a with
  | uniqueMove j | sharedOfUnique j => rfl
  | sharedMove j => exact swap_empty hnew
  | uniqueMoveAssign i j => rfl
  | sharedMoveAssign i j =>
    exact move_eq hnew (hne i List.mem_cons_self) (hne j (List.mem_cons_of_mem _ List.mem_cons_self))
  | sharedCopyAssign i j => exact replace_eq hnew (hne i List.mem_cons_self) _
  | sharedReset i ptr _ => exact replace_eq hnew (hne i List.mem_cons_self) _
  | sharedResetNull i => exact replace_eq hnew (hne i List.mem_cons_self) _
  | destroy i =>
    rw [State.effect]
    split <;> rfl
  | _ => rfl

end Step

end Buffers
