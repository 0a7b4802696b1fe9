/-
# One writer, first in first out

Several `writer()` coroutines can exist at once: an old one that has found the queue
empty and is on its way out, and a new one that `write()` has just spawned.  Only the
one spawned last can be *on duty*, and only while `m_write_scheduled` is set
(`WriterInv`); it alone takes batches off the queue and passes them to `async_write`.
So the accepted messages are, at every moment, what was passed to `async_write`, the
batch the writer on duty holds and the queue, in this order (`FifoInv`).
-/
import Libsg.TcpSessionLifeCycle

open TransitionSystem

namespace TcpSession

variable {τ : Type}

/-! ## What a trace says about the messages -/

/-- The messages `write()` accepted, in the order of its lock sections. -/
def acceptedMsgs (tr : List Event) : List Buffer :=
  tr.filterMap fun
    | .accepted msg => some msg
    | _ => none

/-- The batches passed to `async_write`, in order. -/
def asyncWrites (tr : List Event) : List (List Buffer) :=
  tr.filterMap fun
    | .asyncWrite batch => some batch
    | _ => none

@[simp] theorem acceptedMsgs_append (tr₁ tr₂ : List Event) :
    acceptedMsgs (tr₁ ++ tr₂) = acceptedMsgs tr₁ ++ acceptedMsgs tr₂ := by
  simp [acceptedMsgs]

@[simp] theorem asyncWrites_append (tr₁ tr₂ : List Event) :
    asyncWrites (tr₁ ++ tr₂) = asyncWrites tr₁ ++ asyncWrites tr₂ := by
  simp [asyncWrites]

/-! ## The writer on duty -/

/-- The places from which a `writer()` goes on to look at the queue, or to fail. -/
def WriterPc.onDuty : WriterPc → Bool
  | .unborn | .leaving | .callClose | .closing _ | .finished => false
  | _ => true

/-- `m_write_scheduled`, the queue and the places of the writers. -/
structure WriterInv (s : Session τ) : Prop where
  duty : ∀ w, (s.writers w).onDuty = true → s.writeScheduled = true ∧ w + 1 = s.spawned
  unborn : ∀ w, s.spawned ≤ w → s.writers w = .unborn
  queue : s.writeScheduled = false → s.writeMsgs = []

theorem WriterInv.start : WriterInv ({} : Session τ) where
  duty _ h := by cases h
  unborn _ _ := rfl
  queue _ := rfl

/-- Two writers on duty are one. -/
theorem WriterInv.unique {s : Session τ} (h : WriterInv s) {w w' : ℕ}
    (hw : (s.writers w).onDuty = true) (hw' : (s.writers w').onDuty = true) : w = w' := by
  have h₁ := (h.duty w hw).2
  have h₂ := (h.duty w' hw').2
  omega

/-- While the flag is clear nobody is on duty. -/
theorem WriterInv.off_duty {s : Session τ} (h : WriterInv s) (hflag : s.writeScheduled = false)
    (w : ℕ) : (s.writers w).onDuty = false := by
  rw [Bool.eq_false_iff]
  intro hw
  rw [(h.duty w hw).1] at hflag
  cases hflag

/-- The batch the last spawned writer has taken off the queue and not passed on. -/
def Session.taken (s : Session τ) : List Buffer :=
  match s.writers (s.spawned - 1) with
  | .issuing batch => batch
  | _ => []

theorem WriterInv.taken_of_issuing {s : Session τ} (h : WriterInv s) {w : ℕ} {b : List Buffer}
    (hw : s.writers w = .issuing b) : s.taken = b := by
  have hlast := (h.duty w (by rw [hw]; rfl)).2
  rw [Session.taken, show s.spawned - 1 = w by omega, hw]

theorem WriterPc.Advance.onDuty {pc pc' : WriterPc} (h : WriterPc.Advance pc pc') :
    pc.onDuty = true ∧ pc'.onDuty = true := by
  cases h <;> exact ⟨rfl, rfl⟩

theorem WriterPc.Fail.onDuty {pc pc' : WriterPc} (h : WriterPc.Fail pc pc') : pc.onDuty = true := by
  cases h <;> rfl

theorem WriterPc.ne_unborn_of_onDuty {pc : WriterPc} (h : pc.onDuty = true) : pc ≠ .unborn := by
  rintro rfl
  cases h

section Step

theorem WriterInv.quiet {s s' : Session τ} (h : WriterInv s) (hwriters : s'.writers = s.writers)
    (hspawned : s'.spawned = s.spawned) (hflag : s'.writeScheduled = s.writeScheduled)
    (hmsgs : s'.writeMsgs = s.writeMsgs) : WriterInv s' := by
  obtain ⟨h₁, h₂, h₃⟩ := h
  constructor
  · rwa [hwriters, hflag, hspawned]
  · rwa [hwriters, hspawned]
  · rwa [hflag, hmsgs]

/-- One writer goes on; it does not come on duty. -/
theorem WriterInv.update {s s' : Session τ} {w : ℕ} {old pc : WriterPc} (h : WriterInv s)
    (hwriters : s'.writers = Function.update s.writers w pc) (hspawned : s'.spawned = s.spawned)
    (hflag : s'.writeScheduled = s.writeScheduled) (hmsgs : s'.writeMsgs = s.writeMsgs)
    (hold : s.writers w = old) (hborn : old ≠ .unborn)
    (hduty : pc.onDuty = true → old.onDuty = true) : WriterInv s' where
  duty v hv := by
    rw [hflag, hspawned]
    apply h.duty
    by_cases hvw : v = w
    · rw [hwriters, hvw, Function.update_self] at hv
      rw [hvw, hold]
      exact hduty hv
    · rw [hwriters, Function.update_of_ne hvw] at hv
      exact hv
  unborn v hv := by
    rw [hspawned] at hv
    have hvw : v ≠ w := by
      rintro rfl
      exact hborn (hold.symm.trans (h.unborn v hv))
    rw [hwriters, Function.update_of_ne hvw]
    exact h.unborn v hv
  queue hf := by
    rw [hflag] at hf
    rw [hmsgs]
    exact h.queue hf

/-- One step keeps the writer on duty the last one spawned.  The flag is set by the `write()` that
spawns, and cleared by the writer on duty in the section in which it goes off duty. -/
theorem WriterInv.step {s s' : Session τ} {a : Action τ} {es : List Event} (h : WriterInv s)
    (hm : Move s a es s') : WriterInv s' := by
  cases hm with
  | accept msg k q hrun hflag =>
    refine ⟨h.duty, h.unborn, fun hclear => ?_⟩
    cases hflag.symm.trans hclear
  | acceptSpawn msg k q hrun hflag =>
    refine ⟨fun w hw => ?_, fun w hw => ?_, nofun⟩
    · have hw : (Function.update s.writers s.spawned .toSpawn w).onDuty = true := hw
      by_cases hnew : w = s.spawned
      · exact ⟨rfl, congrArg (· + 1) hnew⟩
      · rw [Function.update_of_ne hnew, h.off_duty hflag] at hw
        cases hw
    · have hw : s.spawned + 1 ≤ w := hw
      show Function.update s.writers s.spawned .toSpawn w = .unborn
      rw [Function.update_of_ne (by omega)]
      exact h.unborn w (by omega)
  | writerTakes w k q hpc =>
    obtain ⟨hflag, hlast⟩ := h.duty w (by rw [hpc]; rfl)
    refine ⟨fun v hv => ?_, fun v hv => ?_, fun _ => rfl⟩
    · simp only [Session.sched, writerSection, Session.setWriter] at hv ⊢
      by_cases hvw : v = w
      · rw [hvw, Function.update_self] at hv
        split at hv
        · cases hv
        · rename_i hmsgs
          rw [if_neg hmsgs, hvw]
          exact ⟨hflag, hlast⟩
      · rw [Function.update_of_ne hvw] at hv
        have hvlast := (h.duty v hv).2
        omega
    · have hv : s.spawned ≤ v := hv
      simp only [Session.sched, writerSection, Session.setWriter]
      rw [Function.update_of_ne (by omega)]
      exact h.unborn v hv
  | spawnThrows ag w k q hpc => exact h.update rfl rfl rfl rfl hpc nofun fun _ => rfl
  | writerAdvance w pc k q hadvance =>
    have hduty := hadvance.onDuty.1
    exact h.update rfl rfl rfl rfl rfl (WriterPc.ne_unborn_of_onDuty hduty) fun _ => hduty
  | writerFails w ex pc k q hfail =>
    have hduty := hfail.onDuty
    exact h.update rfl rfl rfl rfl rfl (WriterPc.ne_unborn_of_onDuty hduty) fun _ => hduty
  | writeDone w b ec k q hpc => exact h.update rfl rfl rfl rfl hpc nofun fun _ => rfl
  | writerIssues w b k q hpc => exact h.update rfl rfl rfl rfl hpc nofun fun _ => rfl
  | writerLeaves w k q hpc | writerStops w k q hpc | writerCloses w k q hpc =>
    exact h.update rfl rfl rfl rfl hpc nofun nofun
  | writerEnds w c k q hpc => exact h.update rfl rfl rfl rfl hpc nofun nofun
  | _ => exact h.quiet rfl rfl rfl rfl

end Step

/-! ## The messages in order -/

/-- What was accepted has been passed on, is held by the writer on duty, or is queued. -/
def FifoInv (acc : List Buffer) (out : List (List Buffer)) (s : Session τ) : Prop :=
  acc = out.flatten ++ s.taken ++ s.writeMsgs

section Step

theorem WriterPc.Advance.not_issuing {pc pc' : WriterPc} (h : WriterPc.Advance pc pc')
    (b : List Buffer) : pc ≠ .issuing b ∧ pc' ≠ .issuing b := by
  cases h <;> exact ⟨nofun, nofun⟩

theorem WriterPc.Fail.not_issuing {pc pc' : WriterPc} (h : WriterPc.Fail pc pc')
    (b : List Buffer) : pc ≠ .issuing b ∧ pc' ≠ .issuing b := by
  cases h <;> exact ⟨nofun, nofun⟩

/-- A writer that does not hold a batch goes on, and still holds none. -/
theorem Session.taken_update {s s' : Session τ} {w : ℕ} {old pc : WriterPc}
    (hwriters : s'.writers = Function.update s.writers w pc) (hspawned : s'.spawned = s.spawned)
    (hpc : s.writers w = old) (hold : ∀ b, old ≠ .issuing b) (hnew : ∀ b, pc ≠ .issuing b) :
    s'.taken = s.taken := by
  unfold Session.taken
  rw [hspawned, hwriters]
  by_cases hw : s.spawned - 1 = w
  · rw [hw, Function.update_self, hpc]
    split
    · rename_i b
      exact absurd rfl (hnew b)
    · rfl
  · rw [Function.update_of_ne hw]

/-- One step keeps the messages in order: a lock section of `write()` appends at the end, the one
of `writer()` takes the whole queue, and `async_write` gets what was taken. -/
theorem FifoInv.step {acc : List Buffer} {out : List (List Buffer)} {s s' : Session τ}
    {a : Action τ} {es : List Event} (h : FifoInv acc out s) (hw : WriterInv s)
    (hm : Move s a es s') : FifoInv (acc ++ acceptedMsgs es) (out ++ asyncWrites es) s' := by
  unfold FifoInv at *
  have hduty := hw.duty
  have hkeep {t : Session τ} (hmsgs : t.writeMsgs = s.writeMsgs) (htaken : t.taken = s.taken) :
      acc ++ [] = (out ++ []).flatten ++ t.taken ++ t.writeMsgs := by
    rw [List.append_nil, List.append_nil, htaken, hmsgs]
    exact h
  cases hm with
  | accept msg k q hrun hflag =>
    show acc ++ [msg] = (out ++ []).flatten ++ s.taken ++ (s.writeMsgs ++ [msg])
    rw [h, List.append_nil, List.append_assoc]
  | acceptSpawn msg k q hrun hflag =>
    -- nobody is on duty, so nothing was taken, and the queue was empty
    have hnone : s.taken = [] := by
      have hoff := hw.off_duty hflag (s.spawned - 1)
      unfold Session.taken
      split
      · rename_i batch hpc
        rw [hpc] at hoff
        cases hoff
      · rfl
    rw [hw.queue hflag, hnone, List.append_nil, List.append_nil] at h
    simp only [Session.sched, Session.setWriter, acceptedMsgs, asyncWrites, List.filterMap_cons,
      List.filterMap_nil, List.append_nil]
    rw [h, hw.queue hflag, List.nil_append]
    simp [Session.taken]
  | writerTakes w k q hpc =>
    -- the writer on duty held nothing, and now holds the whole queue
    have hlast := (hduty w (by rw [hpc]; rfl)).2
    have hnone : s.taken = [] := by
      rw [Session.taken, show s.spawned - 1 = w by omega, hpc]
    have htaken : (writerSection s w).taken = s.writeMsgs := by
      simp only [writerSection, Session.taken, Session.setWriter, show s.spawned - 1 = w by omega,
        Function.update_self]
      by_cases hempty : s.writeMsgs = []
      · rw [if_pos hempty, hempty]
      · rw [if_neg hempty]
    show acc ++ [] = (out ++ []).flatten ++ (writerSection s w).taken ++ []
    rw [htaken, h, hnone]
    simp
  | writerIssues w b k q hpc =>
    have hlast := (hduty w (by rw [hpc]; rfl)).2
    have hnone : ((s.setWriter w (.writing b)).sched k q).taken = [] := by
      simp [Session.sched, Session.setWriter, Session.taken, show s.spawned - 1 = w by omega]
    show acc ++ [] = (out ++ [b]).flatten ++ ((s.setWriter w (.writing b)).sched k q).taken
      ++ s.writeMsgs
    rw [hnone, h, hw.taken_of_issuing hpc]
    simp
  | spawnThrows ag w k q hpc => exact hkeep rfl (Session.taken_update rfl rfl hpc nofun nofun)
  | writerAdvance w pc k q hadvance =>
    exact hkeep rfl (Session.taken_update rfl rfl rfl (fun b => (hadvance.not_issuing b).1)
      fun b => (hadvance.not_issuing b).2)
  | writerFails w ex pc k q hfail =>
    exact hkeep rfl (Session.taken_update rfl rfl rfl (fun b => (hfail.not_issuing b).1)
      fun b => (hfail.not_issuing b).2)
  | writeDone w b ec k q hpc => exact hkeep rfl (Session.taken_update rfl rfl hpc nofun nofun)
  | writerLeaves w k q hpc | writerStops w k q hpc | writerCloses w k q hpc =>
    exact hkeep rfl (Session.taken_update rfl rfl hpc nofun nofun)
  | writerEnds w c k q hpc => exact hkeep rfl (Session.taken_update rfl rfl hpc nofun nofun)
  | _ => exact hkeep rfl rfl

end Step

/-! ## Runs -/

section Runs

variable [DecidableEq τ] {C : Session τ → Action τ → Prop} {o : Options} {tr : List Event}
  {s : Session τ}

theorem writerInv (h : (system τ o).Run C tr s) : WriterInv s :=
  invariant_of_moves (I := fun _ s => WriterInv s) .start (fun _ _ _ _ _ _ _ hm ih => ih.step hm) h

theorem fifoInv (h : (system τ o).Run C tr s) :
    FifoInv (acceptedMsgs tr) (asyncWrites tr) s := by
  refine invariant_of_moves (I := fun tr s => FifoInv (acceptedMsgs tr) (asyncWrites tr) s) rfl ?_ h
  intro tr s a es s' hrun _ hm ih
  rw [acceptedMsgs_append, asyncWrites_append]
  exact ih.step (writerInv hrun) hm

/-- **Single writer and FIFO delivery.**  In every reachable state at most one `async_write` is in
flight, and the batches passed to `async_write` so far are together a prefix of the messages
accepted so far. -/
theorem single_writer_fifo (h : (system τ o).Reachable tr s) :
    (∀ w w' b b', s.writers w = .writing b → s.writers w' = .writing b' → w = w') ∧
      (asyncWrites tr).flatten <+: acceptedMsgs tr := by
  constructor
  · intro w w' b b' hw hw'
    exact (writerInv h).unique (by rw [hw]; rfl) (by rw [hw']; rfl)
  · rw [fifoInv h, List.append_assoc]
    exact List.prefix_append _ _

end Runs

section Sample

/-- Two messages are accepted before the writer takes its first batch, a third one while that
batch is being written. -/
def writeRun : List (Action ℕ) :=
  connectRun ++ ([
    .call (.thread 1) (.write [1]), .step (.thread 1) .ok,
    .call (.thread 2) (.write [2, 3]), .step (.thread 2) .ok, .step (.thread 1) .ok,
    .runHandler, .step .strand .ok, .step .strand .ok,
    .call (.thread 2) (.write [4]), .step (.thread 2) .ok] : List (Action ℕ))

/-- The first two messages are a proper prefix of the three accepted ones. -/
theorem single_writer_fifo_writeRun : ∃ tr s, (system ℕ {}).Reachable tr s ∧
    asyncWrites tr = [[[1], [2, 3]]] ∧ acceptedMsgs tr = [[1], [2, 3], [4]] ∧
    (asyncWrites tr).flatten <+: acceptedMsgs tr := by
  have hrun := reachable_exec (by decide : ((system ℕ {}).exec writeRun).isSome = true)
  exact ⟨_, _, hrun, by decide, by decide, (single_writer_fifo hrun).2⟩

end Sample

end TcpSession
