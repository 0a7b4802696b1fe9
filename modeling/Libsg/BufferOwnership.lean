/-
# Who deletes a buffer, and how

The deleter of a `shared_buffer` is not part of its `std::shared_ptr`: it has to be given to every
control block that is made.  The constructors give it a new `deleter()`, also where a
`unique_buffer` with a deleter of its own is converted, and `reset(ptr, length)` gives it none, so
that `std::default_delete<T[]>` deletes in the end.

Every pointer that is handed over is deleted once, when its last owner lets go
(`SmartPointers.Ledger`); `released_through_deleter_iff` says through what.
-/
import Libsg.Buffer

open TransitionSystem SmartPointers

namespace Buffers

variable {D : Type}

/-! ## What a pointer is to be deleted through -/

/-- The deleter that `p` is handed over with, if the call hands it over. -/
def Action.handed (T : DeleterType D) (s : State D) (p : ℕ) : Action D → Option D
  | .uniqueNew ptr _ | .sharedNew ptr _ | .sharedReset _ ptr _ =>
    if ptr = some p then some T.init else none
  | .uniqueNewWith ptr _ del => if ptr = some p then some del else none
  | .uniqueReset i ptr _ => if ptr = some p then some (s.deleter i) else none
  | _ => none

/-- `p` gets a control block with another deleter than it has been handed over with. -/
def Action.forgets (T : DeleterType D) (s : State D) (p : ℕ) : Action D → Prop
  | .sharedReset _ ptr _ => ptr = some p ∧ T.defaultDelete ≠ T.init
  | .sharedOfUnique j => s.get j = some p ∧ s.deleter j ≠ T.init
  | _ => False

/-- What has been noted of the calls. -/
structure Notes (D : Type) where
  /-- the deleters that the pointers have been handed over with -/
  meant : ℕ → Option D
  /-- they have been forgotten since -/
  forgotten : ℕ → Prop

def Notes.blank : Notes D := ⟨fun _ => none, fun _ => False⟩

def note (T : DeleterType D) (n : Notes D) (s : State D) (a : Action D) : Notes D where
  meant p := (a.handed T s p).or (n.meant p)
  forgotten p := a.forgets T s p ∨ a.handed T s p = none ∧ n.forgotten p

/-- `d` is as the notes have it. -/
def Notes.Fits (n : Notes D) (p : ℕ) (d : D) : Prop :=
  ∃ m, n.meant p = some m ∧ (d = m ↔ ¬ n.forgotten p)

/-- The caller has the pointer, or a buffer has. -/
def State.Owned (s : State D) (p : ℕ) : Prop :=
  s.ptrs.withCaller p = true ∨ ∃ i, s.get i = some p

theorem note_of_unchanged {T : DeleterType D} {n : Notes D} {s : State D} {a : Action D} {p : ℕ}
    (hhanded : a.handed T s p = none) (hforgets : ¬ a.forgets T s p) :
    (note T n s a).meant p = n.meant p ∧ ((note T n s a).forgotten p ↔ n.forgotten p) := by
  constructor
  · show (a.handed T s p).or _ = _
    rw [hhanded]
    rfl
  · show a.forgets T s p ∨ a.handed T s p = none ∧ _ ↔ _
    simp [hhanded, hforgets]

/-! ## What the operations do to one pointer -/

section Updates

variable {g : ℕ → Option ℕ} {i j k p : ℕ} {ptr : Option ℕ}

theorem update_eq_some (h : Function.update g i ptr k = some p) :
    k = i ∧ ptr = some p ∨ k ≠ i ∧ g k = some p := by
  by_cases hk : k = i
  · rw [hk, Function.update_self] at h
    exact .inl ⟨hk, h⟩
  · rw [Function.update_of_ne hk] at h
    exact .inr ⟨hk, h⟩

theorem update_none_eq_some (h : Function.update g i none k = some p) : k ≠ i ∧ g k = some p := by
  rcases update_eq_some h with ⟨-, hnone⟩ | hk
  · cases hnone
  · exact hk

theorem moved_eq_some (h : moved g i j k = some p) :
    k = i ∧ g j = some p ∨ k ≠ i ∧ k ≠ j ∧ g k = some p := by
  rcases update_eq_some h with hk | ⟨hk, hrest⟩
  · exact .inl hk
  · exact .inr ⟨hk, update_none_eq_some hrest⟩

end Updates

section Step

variable {T : DeleterType D} {tr es : List (Event D)} {s s' : State D} {a : Action D}
  {n : Notes D} {k p : ℕ} {d : D}

/-- What is handed over was with the caller. -/
theorem withCaller_of_handed (hstep : step T s a = some (s', es))
    (hhanded : a.handed T s p = some d) : s.ptrs.withCaller p = true := by
  have hexec := (step_spec hstep).1
  -- the first instruction constructs a smart pointer, the second one takes the pointer
  have hreset {del : D} {ptr : Option ℕ}
      (hexec : SmartPointers.system.execFrom s.ptrs [.newUnique, .reset s.new ptr del] =
        some (s'.ptrs, es)) : s.ptrs.offers ptr = true := by
    obtain ⟨t, es₁, es₂, hfirst, hrest, -⟩ := execFrom_cons hexec
    cases hfirst
    obtain ⟨_, _, _, hsecond, -, -⟩ := execFrom_cons hrest
    have hoffers := offers_of_reset hsecond
    exact hoffers
  have hmake {del : D} {ptr : Option ℕ} {prog : List (Instr D)}
      (hexec : SmartPointers.system.execFrom s.ptrs (.newShared :: .make s.new ptr del :: prog) =
        some (s'.ptrs, es)) : s.ptrs.offers ptr = true := by
    obtain ⟨t, es₁, es₂, hfirst, hrest, -⟩ := execFrom_cons hexec
    cases hfirst
    obtain ⟨_, _, _, hsecond, -, -⟩ := execFrom_cons hrest
    have hoffers := offers_of_make hsecond
    exact hoffers
  have hptr {e : D} {ptr : Option ℕ} (hoffers : s.ptrs.offers ptr = true)
      (h : (if ptr = some p then some e else none) = some d) : s.ptrs.withCaller p = true := by
    split at h
    · next heq =>
      subst heq
      exact hoffers
    · cases h
  cases a with
  | uniqueNew ptr _ => exact hptr (hreset hexec) hhanded
  | uniqueNewWith ptr _ del => exact hptr (hreset hexec) hhanded
  | uniqueReset i ptr _ =>
    obtain ⟨_, _, _, hfirst, -, -⟩ := execFrom_cons hexec
    exact hptr (offers_of_reset hfirst) hhanded
  | sharedNew ptr _ => exact hptr (hmake hexec) hhanded
  | sharedReset i ptr _ => exact hptr (hmake hexec) hhanded
  | _ => cases hhanded

/-- What is shared or copied has a control block. -/
theorem shared_of_step (h : Ledger tr s.ptrs) (hstep : step T s a = some (s', es)) {j : ℕ}
    (ha : (∃ i, a = .sharedMoveAssign i j ∨ a = .sharedCopyAssign i j) ∨ a = .sharedMove j ∨
      a = .sharedCopy j) (hget : s.get j = some p) : makers p tr ≠ [] := by
  have hexec := (step_spec hstep).1
  have hne : j ≠ s.new := by
    rintro rfl
    rw [State.get, get_new h] at hget
    cases hget
  have hold : (s.ptrs.extend (.shared none)).slots j = s.ptrs.slots j := Function.update_of_ne hne ..
  have hswap {prog : List (Instr D)}
      (hexec : SmartPointers.system.execFrom s.ptrs (.newShared :: .swap s.new j :: prog) =
        some (s'.ptrs, es)) : ∃ block, s.ptrs.slots j = .shared block := by
    obtain ⟨t, es₁, es₂, hfirst, hrest, -⟩ := execFrom_cons hexec
    cases hfirst
    obtain ⟨_, _, _, hsecond, -, -⟩ := execFrom_cons hrest
    rw [← hold]
    exact shared_of_swap (Function.update_self ..) hsecond
  have hshare {prog : List (Instr D)}
      (hexec : SmartPointers.system.execFrom s.ptrs (.newShared :: .share s.new j :: prog) =
        some (s'.ptrs, es)) : ∃ block, s.ptrs.slots j = .shared block := by
    obtain ⟨t, es₁, es₂, hfirst, hrest, -⟩ := execFrom_cons hexec
    cases hfirst
    obtain ⟨_, _, _, hsecond, -, -⟩ := execFrom_cons hrest
    rw [← hold]
    exact shared_of_share hsecond
  have hslot : ∃ block, s.ptrs.slots j = .shared block := by
    rcases ha with ⟨i, rfl | rfl⟩ | rfl | rfl
    · exact hswap hexec
    · exact hshare hexec
    · exact hswap hexec
    · exact hshare hexec
  obtain ⟨block, hslot⟩ := hslot
  exact h.makers_ne_nil hslot hget

/-- What is handed over or given another deleter has an owner then. -/
theorem owned_of_call (h : Ledger tr s.ptrs) (hstep : step T s a = some (s', es))
    (hcall : a.handed T s p ≠ none ∨ a.forgets T s p) : s'.Owned p := by
  have hget := step_get h hstep
  have hself {i : ℕ} {ptr : Option ℕ} (hafter : s'.ptrs.get = Function.update s.ptrs.get i ptr)
      (hptr : ptr = some p) : s'.Owned p := by
    refine .inr ⟨i, ?_⟩
    rw [State.get, hafter, Function.update_self, hptr]
  cases a with
  | uniqueNew ptr _ | uniqueNewWith ptr _ _ | sharedNew ptr _ =>
    exact hself hget (by simpa [Action.handed, Action.forgets] using hcall)
  | uniqueReset i ptr _ => exact hself hget (by simpa [Action.handed, Action.forgets] using hcall)
  | sharedReset i ptr _ =>
    refine hself hget ?_
    rcases hcall with hhanded | hforgets
    · simpa [Action.handed] using hhanded
    · exact hforgets.1
  | sharedOfUnique j =>
    rcases hcall with hhanded | hforgets
    · exact absurd rfl hhanded
    · refine .inr ⟨s.new, ?_⟩
      rw [State.get, hget, Action.getAfter, moved, Function.update_self]
      exact hforgets.1
  | _ => simp [Action.handed, Action.forgets] at hcall

/-- **What control blocks are made with.** -/
theorem makers_of_step (h : Ledger tr s.ptrs) (hstep : step T s a = some (s', es)) :
    d ∈ makers p es →
      (a.handed T s p = some T.init ∧ (d = T.init ↔ ¬ a.forgets T s p)) ∨
      (∃ j, a = .sharedOfUnique j ∧ s.get j = some p ∧ d = T.init) := by
  rw [(exec_of_step h hstep).makers]
  intro hd
  cases a with
  | sharedNew ptr length =>
    left
    by_cases hptr : ptr = some p
    · simp_all [State.effect, State.onShared, Instr.makersOf, Action.handed, Action.forgets]
    · simp [State.effect, State.onShared, Instr.makersOf, hptr] at hd
  | sharedReset i ptr length =>
    left
    by_cases hptr : ptr = some p
    · simp_all [State.effect, State.sharedReset, State.onShared, Instr.makersOf, Action.handed,
        Action.forgets]
    · simp [State.effect, State.sharedReset, State.onShared, Instr.makersOf, hptr] at hd
  | sharedOfUnique j =>
    right
    by_cases hptr : s.get j = some p
    · refine ⟨j, rfl, hptr, ?_⟩
      simpa [State.effect, State.onShared, Instr.makersOf, hptr] using hd
    · simp [State.effect, State.onShared, Instr.makersOf, hptr] at hd
  | destroy i =>
    rw [State.effect] at hd
    split at hd <;> simp [State.onShared, Instr.makersOf] at hd
  | _ =>
    simp [State.effect, State.uniqueNew, State.uniqueMoveAssign, State.uniqueReset,
      State.sharedReset, State.onShared, Instr.makersOf] at hd

/-- Who forgets a deleter makes a control block. -/
theorem makers_of_forgets (h : Ledger tr s.ptrs) (hstep : step T s a = some (s', es))
    (hforgets : a.forgets T s p) : makers p es ≠ [] := by
  rw [(exec_of_step h hstep).makers]
  cases a with
  | sharedReset i ptr length =>
    simp [State.effect, State.sharedReset, State.onShared, Instr.makersOf, hforgets.1]
  | sharedOfUnique j => simp [State.effect, State.onShared, Instr.makersOf, hforgets.1]
  | _ => cases hforgets

/-- **What the `unique_ptr`s delete with.** -/
theorem deleters_of_step (h : Ledger tr s.ptrs) (hstep : step T s a = some (s', es))
    (hd : d ∈ deleters p es) :
    d ∈ makers p (tr ++ es) ∨ ∃ i, s.get i = some p ∧ s.deleter i = d := by
  rcases (exec_of_step h hstep).deleters p d hd with hd | hd
  · exact .inl hd
  · right
    have hnew := get_new h
    have hif {i : ℕ} {g : ℕ → Option ℕ} (hg : g i = some p → s.get i = some p)
        (hmem : d ∈ if g i = some p then [s.deleter i] else []) :
        ∃ i, s.get i = some p ∧ s.deleter i = d := by
      split at hmem
      · next hi => exact ⟨i, hg hi, (List.mem_singleton.mp hmem).symm⟩
      · cases hmem
    cases a with
    | uniqueMoveAssign i j =>
      refine hif (i := i) (g := Function.update s.ptrs.get j none)
        (fun hi => (update_none_eq_some hi).2) ?_
      change d ∈ [] ++ ((if _ then [s.deleter i] else []) ++ []) at hd
      rwa [List.nil_append, List.append_nil] at hd
    | uniqueReset i ptr _ =>
      refine hif (i := i) (g := s.ptrs.get) id ?_
      simpa [State.effect, State.uniqueReset, deletersOf, Instr.deletersOf] using hd
    | uniqueResetNull i =>
      refine hif (i := i) (g := s.ptrs.get) id ?_
      simpa [State.effect, State.uniqueReset, deletersOf, Instr.deletersOf] using hd
    | destroy i =>
      rw [State.effect] at hd
      split at hd
      · refine hif (i := i) (g := s.ptrs.get) id ?_
        simpa [deletersOf, Instr.deletersOf] using hd
      · simp [State.onShared, deletersOf, Instr.deletersOf] at hd
    | uniqueMove j =>
      -- the new one has no pointer before
      have hempty : Function.update s.ptrs.get j none s.new = none := by
        rw [Function.update_apply, hnew, ite_self]
      simp [State.effect, deletersOf, Instr.deletersOf, Instr.getAfter, hempty] at hd
    | _ =>
      simp [State.effect, State.uniqueNew, State.sharedReset, State.onShared, deletersOf,
        Instr.deletersOf, Instr.getAfter, hnew] at hd

/-- **The deleters go with the pointers**, where no control block is involved. -/
theorem deleter_of_step (h : Ledger tr s.ptrs) (hstep : step T s a = some (s', es))
    (hbefore : makers p tr = []) (hnone : makers p es = []) (hk : s'.get k = some p) :
    a.handed T s p = some (s'.deleter k) ∨ ∃ j, s.get j = some p ∧ s.deleter j = s'.deleter k := by
  have hget := step_get h hstep
  obtain ⟨-, -, hdeleter⟩ := step_spec hstep
  have hshared := fun {j : ℕ} ha hj => shared_of_step h hstep (j := j) ha hj hbefore
  have hmade := (exec_of_step h hstep).makers p
  rw [hnone] at hmade
  rw [State.get, hget] at hk
  rw [hdeleter]
  cases a with
  | uniqueDefault =>
    refine .inr ⟨k, hk, ?_⟩
    have hne : k ≠ s.new := by
      rintro rfl
      exact absurd ((get_new h).symm.trans hk) nofun
    exact (Function.update_of_ne hne ..).symm
  | uniqueNew ptr _ | uniqueNewWith ptr _ _ =>
    rcases update_eq_some hk with ⟨rfl, hptr⟩ | ⟨hne, hk⟩
    · left
      simp [Action.handed, hptr, State.effect, State.uniqueNew]
    · exact .inr ⟨k, hk, (Function.update_of_ne hne ..).symm⟩
  | uniqueMove j =>
    -- the deleter moves with the pointer
    right
    rcases moved_eq_some hk with ⟨rfl, hj⟩ | ⟨hne, hnej, hk⟩
    · refine ⟨j, hj, Eq.symm ?_⟩
      exact Function.update_self ..
    · refine ⟨k, hk, Eq.symm ?_⟩
      exact (Function.update_of_ne hne ..).trans (Function.update_of_ne hnej ..)
  | uniqueMoveAssign i j =>
    right
    rcases moved_eq_some hk with ⟨rfl, hj⟩ | ⟨hne, hnej, hk⟩
    · refine ⟨j, hj, Eq.symm ?_⟩
      exact Function.update_self ..
    · refine ⟨k, hk, Eq.symm ?_⟩
      exact (Function.update_of_ne hne ..).trans (Function.update_of_ne hnej ..)
  | uniqueRelease i => exact .inr ⟨k, (update_none_eq_some hk).2, rfl⟩
  | uniqueReset i ptr _ =>
    rcases update_eq_some hk with ⟨rfl, hptr⟩ | ⟨-, hk⟩
    · exact .inl (if_pos hptr)
    · exact .inr ⟨k, hk, rfl⟩
  | uniqueResetNull i => exact .inr ⟨k, (update_none_eq_some hk).2, rfl⟩
  | sharedDefault => exact .inr ⟨k, hk, rfl⟩
  | sharedNew ptr _ =>
    -- a control block for `p` would be a maker of it
    rcases update_eq_some hk with ⟨-, hptr⟩ | ⟨-, hk⟩
    · simp [State.effect, State.onShared, Instr.makersOf, hptr] at hmade
    · exact .inr ⟨k, hk, rfl⟩
  | sharedOfUnique j =>
    rcases moved_eq_some hk with ⟨-, hj⟩ | ⟨-, -, hk⟩
    · simp [State.effect, State.onShared, Instr.makersOf, State.get, hj] at hmade
    · exact .inr ⟨k, hk, rfl⟩
  | sharedMove j =>
    -- no `shared_ptr` has `p`: none was made of it before
    rcases moved_eq_some hk with ⟨-, hj⟩ | ⟨-, -, hk⟩
    · exact absurd hj fun hj => hshared (.inr (.inl rfl)) hj
    · exact .inr ⟨k, hk, rfl⟩
  | sharedMoveAssign i j =>
    rcases moved_eq_some hk with ⟨-, hj⟩ | ⟨-, -, hk⟩
    · exact absurd hj fun hj => hshared (.inl ⟨i, .inl rfl⟩) hj
    · exact .inr ⟨k, hk, rfl⟩
  | sharedCopy j =>
    rcases update_eq_some hk with ⟨-, hj⟩ | ⟨-, hk⟩
    · exact absurd hj fun hj => hshared (.inr (.inr rfl)) hj
    · exact .inr ⟨k, hk, rfl⟩
  | sharedCopyAssign i j =>
    rcases update_eq_some hk with ⟨-, hj⟩ | ⟨-, hk⟩
    · exact absurd hj fun hj => hshared (.inl ⟨i, .inr rfl⟩) hj
    · exact .inr ⟨k, hk, rfl⟩
  | sharedReset i ptr _ =>
    rcases update_eq_some hk with ⟨-, hptr⟩ | ⟨-, hk⟩
    · simp [State.effect, State.sharedReset, State.onShared, Instr.makersOf, hptr] at hmade
    · exact .inr ⟨k, hk, rfl⟩
  | sharedResetNull i => exact .inr ⟨k, (update_none_eq_some hk).2, rfl⟩
  | swap i j => exact .inr ⟨Equiv.swap i j k, hk, rfl⟩
  | destroy i =>
    refine .inr ⟨k, (update_none_eq_some hk).2, ?_⟩
    rw [State.effect]
    split <;> rfl

end Step

/-! ## What the notes are worth -/

/-- **The notes are right.** -/
structure Noted (tr : List (Event D)) (s : State D) (n : Notes D) : Prop where
  unique : ∀ i p, s.get i = some p → makers p tr = [] →
    n.meant p = some (s.deleter i) ∧ ¬ n.forgotten p
  made : ∀ p, ∀ d ∈ makers p tr, n.Fits p d
  deleted : ∀ p, ∀ d ∈ deleters p tr, n.Fits p d

section Noted

variable {T : DeleterType D} {tr es : List (Event D)} {s s' : State D} {a : Action D}
  {n : Notes D} {k p : ℕ} {d : D}

theorem Notes.Fits.unchanged (h : n.Fits p d) (hhanded : a.handed T s p = none)
    (hforgets : ¬ a.forgets T s p) : (note T n s a).Fits p d := by
  obtain ⟨hmeant, hforgotten⟩ := note_of_unchanged (n := n) hhanded hforgets
  obtain ⟨m, hm, hiff⟩ := h
  exact ⟨m, hmeant.trans hm, hiff.trans (not_congr hforgotten).symm⟩

/-- A call that hands `p` over finds no control block for it. -/
theorem makers_of_handed (h : Ledger tr s.ptrs) (hstep : step T s a = some (s', es))
    (hhanded : a.handed T s p ≠ none) : makers p tr = [] ∧ ∀ i, s.get i ≠ some p := by
  obtain ⟨d, hd⟩ := Option.ne_none_iff_exists'.mp hhanded
  obtain ⟨hfree, hmakers, -⟩ := (h.place p).of_caller (withCaller_of_handed hstep hd)
  refine ⟨hmakers, fun i hi => ?_⟩
  obtain ⟨x, hx⟩ := exists_get_iff.mp ⟨i, hi⟩
  exact hfree x hx

/-- There is one control block at most. -/
theorem makers_append_eq_nil (h : Ledger (tr ++ es) s'.ptrs) (hbefore : makers p tr ≠ []) :
    makers p es = [] := by
  have hone {d : D} (hone : makers p (tr ++ es) = [d]) : makers p es = [] := by
    rw [makers_append] at hone
    rcases List.append_eq_singleton_iff.mp hone with ⟨hnil, -⟩ | ⟨-, hnil⟩
    · exact absurd hnil hbefore
    · exact hnil
  have hnone (hnil : makers p (tr ++ es) = []) : makers p es = [] :=
    (List.append_eq_nil_iff.mp ((makers_append p tr es).symm.trans hnil)).2
  cases h.place p with
  | caller _ _ hm _ => exact hnone hm
  | unique i _ _ hm _ => exact hnone hm
  | block b d _ _ _ hm _ => exact hone hm
  | deleted d _ _ _ hm => exact hm.elim hone hnone

theorem Noted.step_made (h : Noted tr s n) (hledger : Ledger tr s.ptrs)
    (hstep : step T s a = some (s', es)) (hd : d ∈ makers p (tr ++ es)) :
    (note T n s a).Fits p d := by
  have hafter := (exec_of_step hledger hstep).ledger
  rw [makers_append] at hd
  rcases List.mem_append.mp hd with hd | hd
  · -- there has been a control block before
    have hne : makers p tr ≠ [] := List.ne_nil_of_mem hd
    have hnone : makers p es = [] := makers_append_eq_nil hafter hne
    refine (h.made p d hd).unchanged ?_ fun hforgets =>
      makers_of_forgets hledger hstep hforgets hnone
    by_contra hhanded
    exact hne (makers_of_handed hledger hstep hhanded).1
  · rcases makers_of_step hledger hstep hd with ⟨hhanded, hiff⟩ | ⟨j, rfl, hj, rfl⟩
    · refine ⟨T.init, ?_, hiff.trans (not_congr ?_)⟩
      · show (a.handed T s p).or _ = _
        rw [hhanded]
        rfl
      · show _ ↔ a.forgets T s p ∨ a.handed T s p = none ∧ _
        simp [hhanded]
    · -- a `unique_buffer` is converted
      have hbefore : makers p tr = [] := by
        by_contra hne
        rw [makers_append_eq_nil hafter hne] at hd
        cases hd
      obtain ⟨hmeant, hnot⟩ := h.unique j p hj hbefore
      refine ⟨s.deleter j, hmeant, ?_⟩
      show _ ↔ ¬ ((s.get j = some p ∧ s.deleter j ≠ T.init) ∨ none = none ∧ n.forgotten p)
      simp [hj, hnot, eq_comm]

theorem Noted.step (h : Noted tr s n) (hledger : Ledger tr s.ptrs)
    (hstep : step T s a = some (s', es)) : Noted (tr ++ es) s' (note T n s a) where
  unique k p hk hnone := by
    obtain ⟨hbefore, hes⟩ := List.append_eq_nil_iff.mp ((makers_append p tr es).symm.trans hnone)
    have hforgets : ¬ a.forgets T s p := fun hf => makers_of_forgets hledger hstep hf hes
    rcases deleter_of_step hledger hstep hbefore hes hk with hhanded | ⟨j, hj, hdeleter⟩
    · constructor
      · show (a.handed T s p).or _ = _
        rw [hhanded]
        rfl
      · show ¬ (a.forgets T s p ∨ a.handed T s p = none ∧ _)
        simp [hhanded, hforgets]
    · have hhanded : a.handed T s p = none := by
        by_contra hhanded
        exact (makers_of_handed hledger hstep hhanded).2 j hj
      obtain ⟨hmeant, hforgotten⟩ := note_of_unchanged (n := n) hhanded hforgets
      obtain ⟨hm, hnot⟩ := h.unique j p hj hbefore
      rw [hmeant, hforgotten, ← hdeleter]
      exact ⟨hm, hnot⟩
  made p d hd := h.step_made hledger hstep hd
  deleted p d hd := by
    have hafter := (exec_of_step hledger hstep).ledger
    obtain ⟨howned, hfree⟩ := hafter.deleters_eq p
    -- what has been deleted has no owner, so the call has not handed it over
    have hnot : ¬ s'.Owned p := fun ho => by
      rw [howned ho] at hd
      cases hd
    obtain ⟨e, he, hmakers⟩ := hfree hnot
    obtain rfl : d = e := by
      rw [he] at hd
      exact List.mem_singleton.mp hd
    rcases hmakers with hmakers | hmakers
    · refine h.step_made hledger hstep ?_
      rw [hmakers]
      exact List.mem_singleton_self d
    · obtain ⟨hbefore, -⟩ := List.append_eq_nil_iff.mp ((makers_append p tr es).symm.trans hmakers)
      have hfits : n.Fits p d := by
        rw [deleters_append] at hd
        rcases List.mem_append.mp hd with hd | hd
        · exact h.deleted p d hd
        · rcases deleters_of_step hledger hstep hd with hmade | ⟨i, hi, rfl⟩
          · rw [hmakers] at hmade
            cases hmade
          · obtain ⟨hm, hkept⟩ := h.unique i p hi hbefore
            exact ⟨_, hm, iff_of_true rfl hkept⟩
      refine hfits.unchanged ?_ fun hforgets => hnot (owned_of_call hledger hstep (.inr hforgets))
      by_contra hhanded
      exact hnot (owned_of_call hledger hstep (.inl hhanded))

theorem noted (h : ((system T).observed Notes.blank (note T)).Reachable tr (s, n)) :
    Noted tr s n := by
  have hstart : Noted [] (system T).start Notes.blank := by
    refine ⟨fun i p hi => ?_, fun p d hd => ?_, fun p d hd => ?_⟩
    · cases hi
    · cases hd
    · cases hd
  have hinv := Run.invariant (I := fun tr p => Ledger tr p.1.ptrs ∧ Noted tr p.1 p.2)
    ⟨Ledger.start, hstart⟩ ?_ h
  · exact hinv.2
  · rintro tr ⟨s, n⟩ a ⟨s', n'⟩ es - - hstep ⟨hledger, hnoted⟩
    obtain ⟨hstep, rfl⟩ := observed_step.mp hstep
    exact ⟨(exec_of_step hledger hstep).ledger, hnoted.step hledger hstep⟩

/-- Every pointer is deleted once, and the notes say through what. -/
theorem released (h : ((system T).observed Notes.blank (note T)).Reachable tr (s, n)) (p : ℕ) :
    (s.Owned p → deleters p tr = []) ∧
      (¬ s.Owned p → ∃ d, deleters p tr = [d] ∧ n.Fits p d) := by
  obtain ⟨howned, hfree⟩ := (ledger (Run.unobserved (C := anyStep) h)).deleters_eq p
  refine ⟨howned, fun hnot => ?_⟩
  obtain ⟨d, hd, -⟩ := hfree hnot
  refine ⟨d, hd, (noted h).deleted p d ?_⟩
  rw [hd]
  exact List.mem_singleton_self d

end Noted

/-! ## Runs that forget nothing -/

/-- No pointer gets a control block with another deleter than it has been handed over with. -/
def forgetsNothing (T : DeleterType D) (s : State D) (a : Action D) : Prop :=
  ∀ p, ¬ a.forgets T s p

/-- The deleters have no state, and `reset(ptr, length)` of a `shared_buffer` gets no pointer unless
the deleter is the default one. -/
def Action.plain (T : DeleterType D) : Action D → Prop
  | .uniqueNewWith _ _ del => del = T.init
  | .sharedReset _ ptr _ => ptr = none ∨ T.defaultDelete = T.init
  | _ => True

section Plain

variable {T : DeleterType D} {tr es : List (Event D)} {s s' : State D} {a : Action D}
  {n : Notes D} {p : ℕ}

/-- All deleters there are, and all that have been noted, are `deleter()`. -/
structure Plain (T : DeleterType D) (s : State D) (n : Notes D) : Prop where
  deleter : ∀ i, s.deleter i = T.init
  meant : ∀ p m, n.meant p = some m → m = T.init

theorem Plain.forgets (h : Plain T s n) (ha : a.plain T) : forgetsNothing T s a := by
  intro p hforgets
  cases a with
  | sharedReset i ptr _ =>
    obtain ⟨hptr, hne⟩ := hforgets
    rcases ha with hnone | heq
    · rw [hnone] at hptr
      cases hptr
    · exact hne heq
  | sharedOfUnique j => exact hforgets.2 (h.deleter j)
  | _ => cases hforgets

theorem Plain.step (hmoved : T.movedFrom T.init = T.init) (h : Plain T s n) (ha : a.plain T)
    (hstep : step T s a = some (s', es)) : Plain T s' (note T n s a) where
  deleter k := by
    have hupdate {g : ℕ → D} {i : ℕ} {d : D} (hg : ∀ k, g k = T.init) (hd : d = T.init) (k : ℕ) :
        Function.update g i d k = T.init := by
      rw [Function.update_apply]
      split
      · exact hd
      · exact hg k
    -- what a move leaves behind is plain too
    have hleft (j : ℕ) : T.movedFrom (s.deleter j) = T.init := by rw [h.deleter, hmoved]
    rw [(step_spec hstep).2.2]
    cases a with
    | uniqueDefault | uniqueNew ptr _ => exact hupdate h.deleter rfl k
    | uniqueNewWith ptr _ del => exact hupdate h.deleter ha k
    | uniqueMove j => exact hupdate (hupdate h.deleter (hleft j)) (h.deleter j) k
    | uniqueMoveAssign i j => exact hupdate (hupdate h.deleter (hleft j)) (h.deleter j) k
    | swap i j => exact h.deleter (Equiv.swap i j k)
    | destroy i =>
      rw [State.effect]
      split <;> exact h.deleter k
    | _ => exact h.deleter k
  meant p m hm := by
    rcases Option.or_eq_some_iff.mp hm with hhanded | ⟨-, hbefore⟩
    · have hif {ptr : Option ℕ} {e : D} (he : e = T.init)
          (hm : (if ptr = some p then some e else none) = some m) : m = T.init := by
        split at hm
        · exact (Option.some.inj hm).symm.trans he
        · cases hm
      cases a with
      | uniqueNew ptr _ | sharedNew ptr _ => exact hif rfl hhanded
      | sharedReset i ptr _ => exact hif rfl hhanded
      | uniqueNewWith ptr _ del => exact hif ha hhanded
      | uniqueReset i ptr _ => exact hif (h.deleter i) hhanded
      | _ => cases hhanded
    · exact h.meant p m hbefore

theorem plain (hmoved : T.movedFrom T.init = T.init)
    (h : ((system T).observed Notes.blank (note T)).Run (fun _ a => a.plain T) tr (s, n)) :
    Plain T s n := by
  refine Run.invariant (I := fun _ p => Plain T p.1 p.2) ⟨fun _ => rfl, fun p m hm => ?_⟩ ?_ h
  · cases hm
  · rintro tr ⟨s, n⟩ a ⟨s', n'⟩ es - ha hstep hplain
    obtain ⟨hstep, rfl⟩ := observed_step.mp hstep
    exact hplain.step hmoved ha hstep

/-- Where nothing is forgotten, nothing is noted as forgotten. -/
theorem not_forgotten (h : ((system T).observed Notes.blank (note T)).Run
    (fun q a => forgetsNothing T q.1 a) tr (s, n)) (p : ℕ) : ¬ n.forgotten p := by
  refine Run.invariant (I := fun _ q => ¬ q.2.forgotten p) (fun hf => by cases hf) ?_ h
  rintro tr ⟨s, n⟩ a ⟨s', n'⟩ es - hC hstep hnot
  obtain ⟨-, rfl⟩ := observed_step.mp hstep
  rintro (hforgets | ⟨-, hf⟩)
  · exact hC p hforgets
  · exact hnot hf

theorem released_of_forgetsNothing (h : ((system T).observed Notes.blank (note T)).Run
    (fun q a => forgetsNothing T q.1 a) tr (s, n)) (p : ℕ) :
    (s.Owned p → deleters p tr = []) ∧
      (¬ s.Owned p → ∃ m, n.meant p = some m ∧ deleters p tr = [m]) := by
  obtain ⟨howned, hfree⟩ := released h.reachable p
  refine ⟨howned, fun hnot => ?_⟩
  obtain ⟨d, hd, m, hm, hiff⟩ := hfree hnot
  obtain rfl := hiff.mpr (not_forgotten h p)
  exact ⟨d, hm, hd⟩

end Plain

/-- `deleter_free<T>` -/
def freeDeleter : DeleterType Deleter := ⟨.free, id, .arrayDelete⟩

/-- `decltype(&free)`, where `deleter()` is a null pointer: what `free` was given with is lost. -/
example : (((system ⟨Deleter.null, id, .arrayDelete⟩).exec
    [.uniqueNewWith (some 0) 8 .free, .sharedOfUnique 0, .destroy 1]).map fun r => deleters 0 r.2) =
    some [.null] := by
  decide +kernel

end Buffers
