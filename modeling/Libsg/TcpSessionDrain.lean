/-
# The graceful drain

`stop_async()` promises that queued writes are drained first.  The promise is kept by
the writer that is on duty when the state leaves `running`, unless the stop *overtakes*
a hand-over: a `writer()` has found the queue empty and has released `m_write_mutex`
without having looked at `m_state` yet; a `write()` in between has queued a message, set
the flag again and spawned a new writer; and `stop_async()` now leaves the close to the
new writer.  The old one then sees `stop_requested` and closes the socket on the strand
before the new one runs.

Without such a step everything accepted is passed to `async_write` before the socket is
closed (`graceful_drain`); `overtaken_loses` is a run with one.
-/
import Libsg.TcpSessionStop

open TransitionSystem

namespace TcpSession

variable {τ : Type}

/-! ## Graceful runs -/

/-- The step is no part of a stop other than by `stop_async()`: nobody calls
`stop_async_force()`, no data callback throws, and a read, a write or the reader's `get_option`
only fails once `close_impl()` has closed the socket. -/
def Session.disturbs (s : Session τ) : Action τ → Bool
  | .call _ .stopAsyncForce => true
  | .readDone r => s.socketOpen && !r.isOk
  | .writeDone _ ec => s.socketOpen && ec.isSome
  | .step a .fail => match s.stack a with
    | .reader :: _ => s.socketOpen || decide (s.readerPc = .inData)
    | _ => false
  | _ => false

/-- `stop_async()` makes the state `stop_requested` and relies on `m_write_scheduled`, while a
writer that went off duty before has yet to look at the state. -/
def Session.overtakes (s : Session τ) (a : Action τ) : Bool :=
  s.entersStopAsync a && decide (s.state = .running) && s.writeScheduled &&
    (List.range s.spawned).any fun w => decide (s.writers w = .leaving)

/-- The session is only stopped through `stop_async()`, which overtakes no hand-over. -/
def orderly (s : Session τ) (a : Action τ) : Prop :=
  s.disturbs a = false ∧ s.overtakes a = false

instance (s : Session τ) (a : Action τ) : Decidable (orderly s a) :=
  inferInstanceAs (Decidable (_ ∧ _))

/-- The places of a writer from a failed `async_write` to its call of `close()`. -/
def WriterPc.failed : WriterPc → Bool
  | .resumed ec | .completed ec => ec.isSome
  | .catchLoad _ | .catchRecord _ => true
  | _ => false

/-- The places of `reader()` from a failed read, or a closed socket, to its end. -/
def ReaderPc.failed : ReaderPc → Bool
  | .resumed r | .completed r => !r.isOk
  | .catchLoad _ | .catchRecord _ | .callClose | .closing _ | .finished => true
  | _ => false

/-- Nothing accepted is left: the queue is empty and no writer holds a batch. -/
def Session.drained (s : Session τ) : Prop :=
  s.writeMsgs = [] ∧ ∀ w b, s.writers w ≠ .issuing b

/-- In an orderly run nothing fails before the socket is closed, -/
structure FailInv (s : Session τ) : Prop where
  reader : s.readerPc.failed = true → 0 < s.closeWins
  writer : ∀ w, (s.writers w).failed = true → 0 < s.closeWins

/-- and whoever is about to close finds the session drained. -/
structure DrainInv (s : Session τ) : Prop where
  pending : ∀ c, (s.closes c).pc.pending = true →
    s.drained ∧ s.state ≠ .running ∧ s.startPc.started = true
  leaving : ∀ w, s.writers w = .leaving → s.state ≠ .running → s.drained
  closing : ∀ w, (s.writers w).closesNext = true → s.drained ∧ s.state ≠ .running
  closed : 0 < s.closeWins → s.drained

section Step

variable {m : List StateT} {s s' : Session τ} {a : Action τ} {es : List Event}

theorem FailInv.start : FailInv ({} : Session τ) where
  reader h := by cases h
  writer _ h := by cases h

theorem DrainInv.start : DrainInv ({} : Session τ) where
  pending _ h := by cases h
  leaving _ h := by cases h
  closing _ h := by cases h
  closed h := by cases h

theorem FailInv.quiet (h : FailInv s) (hreader : s'.readerPc = s.readerPc)
    (hwriters : s'.writers = s.writers) (hwins : s'.closeWins = s.closeWins) : FailInv s' := by
  obtain ⟨h₁, h₂⟩ := h
  constructor
  · rwa [hreader, hwins]
  · rwa [hwriters, hwins]

/-- The reader goes on, to where it has failed only if the session has been closed. -/
theorem FailInv.reads (h : FailInv s) (hwriters : s'.writers = s.writers)
    (hwins : s'.closeWins = s.closeWins)
    (hpc : s'.readerPc.failed = true → 0 < s.closeWins) : FailInv s' := by
  refine ⟨?_, ?_⟩
  · rwa [hwins]
  · rw [hwriters, hwins]
    exact h.writer

/-- A writer goes on in the same way. -/
theorem FailInv.writes {w : ℕ} {pc : WriterPc} (h : FailInv s)
    (hwriters : s'.writers = Function.update s.writers w pc) (hreader : s'.readerPc = s.readerPc)
    (hwins : s'.closeWins = s.closeWins) (hpc : pc.failed = true → 0 < s.closeWins) :
    FailInv s' := by
  refine ⟨?_, fun v hv => ?_⟩
  · rw [hreader, hwins]
    exact h.reader
  · rw [hwins]
    rw [hwriters] at hv
    by_cases hvw : v = w
    · rw [hvw, Function.update_self] at hv
      exact hpc hv
    · rw [Function.update_of_ne hvw] at hv
      exact h.writer v hv

theorem ReaderPc.Advance.of_failed {socketOpen : Bool} {pc pc' : ReaderPc}
    (h : ReaderPc.Advance socketOpen pc pc') (hfailed : pc'.failed = true) :
    pc.failed = true ∨ socketOpen = false := by
  cases h with
  | exit hclosed => exact .inr hclosed
  | run | option | read | ignore | returned => cases hfailed
  | _ => exact .inl hfailed

theorem WriterPc.Advance.failed {pc pc' : WriterPc} (h : WriterPc.Advance pc pc')
    (hfailed : pc'.failed = true) : pc.failed = true := by
  cases h with
  | resume ec => exact hfailed
  | _ => cases hfailed

theorem WriterPc.Fail.failed {pc pc' : WriterPc} (h : WriterPc.Fail pc pc') : pc.failed = true := by
  cases h <;> rfl

theorem FailInv.step (h : FailInv s) (hopen : s.socketOpen = false → 0 < s.closeWins)
    (ha : s.disturbs a = false) (hm : Move s a es s') : FailInv s' := by
  cases hm with
  | readDone r k q hpc hok hact =>
    refine h.reads rfl rfl fun hfailed => hopen ?_
    have hr : (!r.isOk) = true := hfailed
    rw [hact, Session.disturbs, hr, Bool.and_true] at ha
    exact ha
  | writeDone w b ec k q hpc hok hact =>
    refine h.writes rfl rfl rfl fun hfailed => hopen ?_
    have hec : ec.isSome = true := hfailed
    rw [hact, Session.disturbs, hec, Bool.and_true] at ha
    exact ha
  | readerFails ag ex k q hpc hact htop =>
    obtain ⟨k', hk⟩ := List.head?_eq_some_iff.mp htop
    rw [hact, Session.disturbs, hk] at ha
    exact h.reads rfl rfl fun _ => hopen (Bool.or_eq_false_iff.mp ha).1
  | readerAdvance ex pc k q hadvance =>
    exact h.reads rfl rfl fun hfailed => (hadvance.of_failed hfailed).elim h.reader hopen
  | readerCloses k q hpc => exact h.reads rfl rfl fun _ => h.reader (by rw [hpc]; rfl)
  | readerEnds c k q hpc => exact h.reads rfl rfl fun _ => h.reader (by rw [hpc]; rfl)
  | startReturns | readerData => exact h.reads rfl rfl nofun
  | closeWins c cur k q hpc hstate =>
    exact ⟨fun _ => Nat.succ_pos _, fun _ _ => Nat.succ_pos _⟩
  | writerAdvance w pc k q hadvance =>
    exact h.writes rfl rfl rfl fun hfailed => h.writer w (hadvance.failed hfailed)
  | writerFails w ex pc k q hfail => exact h.writes rfl rfl rfl fun _ => h.writer w hfail.failed
  | writerTakes w k q hpc =>
    refine h.writes rfl rfl rfl fun hfailed => ?_
    split at hfailed <;> cases hfailed
  | acceptSpawn | spawnThrows | writerIssues | writerLeaves | writerStops | writerCloses
  | writerEnds => exact h.writes rfl rfl rfl nofun
  | _ => exact h.quiet rfl rfl rfl

theorem LifeInv.started_of_wins {m : List StateT} {s : Session τ} (h : LifeInv m s)
    (hwins : 0 < s.closeWins) : s.startPc.started = true := by
  by_contra hnot
  have hfresh := (h.fresh (Bool.eq_false_iff.mpr hnot)).2.1
  omega

theorem LifeInv.wins_of_impl {m : List StateT} {s : Session τ} (h : LifeInv m s) {i : ℕ}
    (hi : s.impls i ≠ .unborn) : 0 < s.closeWins := by
  by_contra hnot
  exact hi (h.unborn i (by omega))

theorem DrainInv.quiet (h : DrainInv s) (hcloses : s'.closes = s.closes)
    (hwriters : s'.writers = s.writers) (hmsgs : s'.writeMsgs = s.writeMsgs)
    (hstate : s'.state = s.state) (hpc : s.startPc.started = true → s'.startPc.started = true)
    (hwins : s'.closeWins = s.closeWins) : DrainInv s' := by
  obtain ⟨h₁, h₂, h₃, h₄⟩ := h
  unfold Session.drained at *
  constructor <;> simp only [hcloses, hwriters, hmsgs, hstate, hwins, Session.drained]
  · intro c hc
    obtain ⟨hd, hs, hst⟩ := h₁ c hc
    exact ⟨hd, hs, hpc hst⟩
  · exact h₂
  · exact h₃
  · exact h₄

/-- A drained session that is no longer running can be closed by anybody. -/
theorem DrainInv.of_drained (hd : s.drained) (hs : s.state ≠ .running)
    (hst : s.startPc.started = true) : DrainInv s :=
  ⟨fun _ _ => ⟨hd, hs, hst⟩, fun _ _ _ => hd, fun _ _ => ⟨hd, hs⟩, fun _ => hd⟩

/-- While nobody is about to close, there is nothing to show. -/
theorem DrainInv.of_nobody (hpending : ∀ c, (s.closes c).pc.pending = false)
    (hleaving : ∀ w, s.writers w = .leaving → s.state = .running)
    (hclosing : ∀ w, (s.writers w).closesNext = false) (hwins : s.closeWins = 0) : DrainInv s := by
  refine ⟨fun c hc => ?_, fun w hw hs => absurd (hleaving w hw) hs, fun w hw => ?_, fun h => ?_⟩
  · cases (hpending c).symm.trans hc
  · cases (hclosing w).symm.trans hw
  · omega

theorem DrainInv.not_pending (h : DrainInv s) (hs : s.state = .running) (c : ℕ) :
    (s.closes c).pc.pending = false :=
  Bool.eq_false_iff.mpr fun hc => (h.pending c hc).2.1 hs

theorem DrainInv.not_closing (h : DrainInv s) (hs : s.state = .running) (w : ℕ) :
    (s.writers w).closesNext = false :=
  Bool.eq_false_iff.mpr fun hw => (h.closing w hw).2 hs

theorem Session.drained.update {w : ℕ} {pc : WriterPc} (h : s.drained)
    (hwriters : s'.writers = Function.update s.writers w pc) (hmsgs : s'.writeMsgs = s.writeMsgs)
    (hpc : ∀ b, pc ≠ .issuing b) : s'.drained := by
  refine ⟨hmsgs.trans h.1, fun v b hv => ?_⟩
  rw [hwriters] at hv
  by_cases hvw : v = w
  · rw [hvw, Function.update_self] at hv
    exact hpc b hv
  · rw [Function.update_of_ne hvw] at hv
    exact h.2 v b hv

/-- A writer goes on; it takes nothing, and is only about to close a drained session. -/
theorem DrainInv.update {w : ℕ} {pc : WriterPc} (h : DrainInv s)
    (hwriters : s'.writers = Function.update s.writers w pc) (hmsgs : s'.writeMsgs = s.writeMsgs)
    (hstate : s'.state = s.state) (hstart : s'.startPc = s.startPc) (hcloses : s'.closes = s.closes)
    (hwins : s'.closeWins = s.closeWins) (hissuing : ∀ b, pc ≠ .issuing b) (hleaving : pc ≠ .leaving)
    (hclosing : pc.closesNext = true → s.drained ∧ s.state ≠ .running) : DrainInv s' := by
  have hdrained (hd : s.drained) : s'.drained := hd.update hwriters hmsgs hissuing
  refine ⟨fun c hc => ?_, fun v hv hs => ?_, fun v hv => ?_, fun hpos => ?_⟩
  · rw [hcloses] at hc
    obtain ⟨hd, hs, hst⟩ := h.pending c hc
    rw [hstate, hstart]
    exact ⟨hdrained hd, hs, hst⟩
  · rw [hwriters] at hv
    rw [hstate] at hs
    by_cases hvw : v = w
    · rw [hvw, Function.update_self] at hv
      exact absurd hv hleaving
    · rw [Function.update_of_ne hvw] at hv
      exact hdrained (h.leaving v hv hs)
  · rw [hwriters] at hv
    rw [hstate]
    by_cases hvw : v = w
    · rw [hvw, Function.update_self] at hv
      exact (hclosing hv).imp_left hdrained
    · rw [Function.update_of_ne hvw] at hv
      exact (h.closing v hv).imp_left hdrained
  · rw [hwins] at hpos
    exact hdrained (h.closed hpos)

theorem WriterPc.Advance.stays {pc pc' : WriterPc} (h : WriterPc.Advance pc pc') :
    pc' ≠ .leaving ∧ pc'.closesNext = false := by
  cases h <;> exact ⟨nofun, rfl⟩

theorem WriterPc.Fail.ne_leaving {pc pc' : WriterPc} (h : WriterPc.Fail pc pc') :
    pc' ≠ .leaving := by
  cases h <;> exact nofun

/-- With an empty queue the writer leaves nothing behind, and otherwise nobody is closing. -/
theorem DrainInv.takes {w : ℕ} {k : Agent τ → List Frame} {q : List Handler} (h : DrainInv s)
    (hw : WriterInv s) (hpc : s.writers w = .locking) : DrainInv ((writerSection s w).sched k q) := by
  have hduty : (s.writers w).onDuty = true := by
    rw [hpc]
    rfl
  have hother {v : ℕ} {b : List Buffer} (hv : s.writers v = .issuing b) : v = w :=
    hw.unique (by rw [hv]; rfl) hduty
  by_cases hmsgs : s.writeMsgs = []
  · have hwriters : ((writerSection s w).sched k q).writers =
        Function.update s.writers w .leaving := by
      simp only [Session.sched, writerSection, Session.setWriter, if_pos hmsgs]
    have hdrained : ((writerSection s w).sched k q).drained := by
      refine ⟨rfl, fun v b hv => ?_⟩
      rw [hwriters] at hv
      by_cases hvw : v = w
      · rw [hvw, Function.update_self] at hv
        cases hv
      · rw [Function.update_of_ne hvw] at hv
        exact hvw (hother hv)
    refine ⟨fun c hc => ⟨hdrained, (h.pending c hc).2⟩, fun _ _ _ => hdrained, fun v hv => ?_,
      fun _ => hdrained⟩
    rw [hwriters] at hv
    by_cases hvw : v = w
    · rw [hvw, Function.update_self] at hv
      cases hv
    · rw [Function.update_of_ne hvw] at hv
      exact ⟨hdrained, (h.closing v hv).2⟩
  · have hwriters : ((writerSection s w).sched k q).writers =
        Function.update s.writers w (.issuing s.writeMsgs) := by
      simp only [Session.sched, writerSection, Session.setWriter, if_neg hmsgs]
    have hnot (hd : s.drained) : False := hmsgs hd.1
    refine ⟨fun c hc => (hnot (h.pending c hc).1).elim, fun v hv hs => ?_, fun v hv => ?_,
      fun hpos => (hnot (h.closed hpos)).elim⟩
    · rw [hwriters] at hv
      by_cases hvw : v = w
      · rw [hvw, Function.update_self] at hv
        cases hv
      · rw [Function.update_of_ne hvw] at hv
        exact (hnot (h.leaving v hv hs)).elim
    · rw [hwriters] at hv
      by_cases hvw : v = w
      · rw [hvw, Function.update_self] at hv
        cases hv
      · rw [Function.update_of_ne hvw] at hv
        exact (hnot (h.closing v hv).1).elim

/-- A `stop_async()` that overtakes no hand-over finds no writer that has yet to look at the
state. -/
theorem not_leaving_of_stop (hw : WriterInv s) (hovertakes : s.overtakes a = false)
    (hact : s.entersStopAsync a = true) (hrun : s.state = .running)
    (hflag : s.writeScheduled = true) (w : ℕ) : s.writers w ≠ .leaving := by
  intro hpc
  have hspawned : w < s.spawned := by
    by_contra hge
    rw [hw.unborn w (by omega)] at hpc
    cases hpc
  have hany : ((List.range s.spawned).any fun w => decide (s.writers w = .leaving)) = true := by
    rw [List.any_eq_true]
    exact ⟨w, List.mem_range.mpr hspawned, decide_eq_true hpc⟩
  rw [Session.overtakes, hact, hrun, hflag, hany] at hovertakes
  cases hovertakes

theorem DrainInv.step (h : DrainInv s) (hl : LifeInv m s) (hw : WriterInv s)
    (hws : WritersStarted s) (hf : FailInv s) (ha : orderly s a) (hm : Move s a es s') :
    DrainInv s' := by
  have hstarted := hm.started hl.notCalled
  have hclosed (hwins : 0 < s.closeWins) : s.drained ∧ s.state ≠ .running := by
    refine ⟨h.closed hwins, fun hs => ?_⟩
    have hstate := hl.state_of_wins hwins
    rw [hs] at hstate
    cases hstate
  cases hm with
  | stopDelegates pc k q hpc hact hrun hflag =>
    -- no writer is leaving, so only those on duty will look at the state
    have hnone := not_leaving_of_stop hw ha.2 hact hrun hflag
    exact .of_nobody (h.not_pending hrun) (fun w hpc => absurd hpc (hnone w)) (h.not_closing hrun)
      (hl.of_running hrun).2.1
  | stopCloses pc k q hpc hact hrun hflag =>
    -- nobody is on duty, and the queue is empty
    refine .of_drained ⟨hw.queue hflag, fun w b hpc => ?_⟩ nofun
      (hstarted (hl.of_running hrun).1)
    have hpc : s.writers w = .issuing b := hpc
    have hduty := hw.off_duty hflag w
    rw [hpc] at hduty
    cases hduty
  | writerTakes w k q hpc => exact h.takes hw hpc
  | force ag k q hact =>
    have hdisturbs := ha.1
    rw [hact] at hdisturbs
    cases hdisturbs
  | accept msg k q hrun =>
    -- the session is running, so nobody is closing it
    exact .of_nobody (h.not_pending hrun) (fun _ _ => hrun) (h.not_closing hrun)
      (hl.of_running hrun).2.1
  | acceptSpawn msg k q hrun =>
    refine .of_nobody (h.not_pending hrun) (fun _ _ => hrun) (fun w => ?_) (hl.of_running hrun).2.1
    show (Function.update s.writers s.spawned .toSpawn w).closesNext = false
    by_cases hnew : w = s.spawned
    · rw [hnew, Function.update_self]
      rfl
    · rw [Function.update_of_ne hnew]
      exact h.not_closing hrun w
  | startRuns todo k q hpc hstate =>
    have hnot {p : Prop} (hst : s.startPc.started = true) : p := by
      rw [hpc] at hst
      cases hst
    refine .of_nobody (fun c => ?_) (fun _ _ => rfl) (fun w => ?_) (hl.fresh (by rw [hpc]; rfl)).2.1
    · exact Bool.eq_false_iff.mpr fun hc => hnot (h.pending c hc).2.2
    · have hunborn : s.writers w = .unborn := by
        by_contra hborn
        exact hnot (hws w hborn)
      show (s.writers w).closesNext = false
      rw [hunborn]
      rfl
  | implStops i k q hpc =>
    have hwins := hl.wins_of_impl (i := i) (by rw [hpc]; exact ImplPc.noConfusion)
    exact .of_drained (h.closed hwins) nofun (hl.started_of_wins hwins)
  | closeLoad c pc k q hpc hnew =>
    obtain ⟨hd, hs, hst⟩ := h.pending c (by rw [hpc]; rfl)
    exact .of_drained hd hs hst
  | closeRetry c cur pc k q hpc hnew =>
    obtain ⟨hd, hs, hst⟩ := h.pending c (by rw [hpc]; rfl)
    exact .of_drained hd hs hst
  | closeWins c cur k q hpc hstate =>
    obtain ⟨hd, -, hst⟩ := h.pending c (by rw [hpc]; rfl)
    exact .of_drained hd nofun hst
  | dispatch c i pc k q hpc himpl =>
    have hwins := hl.wins_of_impl (i := i) (by rw [himpl]; exact ImplPc.noConfusion)
    exact .of_drained (hclosed hwins).1 (hclosed hwins).2 (hl.started_of_wins hwins)
  | readerCloses k q hpc =>
    have hwins := hf.reader (by rw [hpc]; rfl)
    exact .of_drained (hclosed hwins).1 (hclosed hwins).2 (hl.started_of_wins hwins)
  | writerCloses w k q hpc =>
    obtain ⟨hd, hs⟩ := h.closing w (by rw [hpc]; rfl)
    exact .of_drained (hd.update rfl rfl nofun) hs (hws w (by rw [hpc]; nofun))
  | writerFails w ex pc k q hfail =>
    exact h.update rfl rfl rfl rfl rfl rfl (fun b => (hfail.not_issuing b).2) hfail.ne_leaving
      fun _ => hclosed (hf.writer w hfail.failed)
  | writerStops w k q hpc hrun =>
    exact h.update rfl rfl rfl rfl rfl rfl nofun nofun fun _ => ⟨h.leaving w hpc hrun, hrun⟩
  | writerAdvance w pc k q hadvance =>
    obtain ⟨hleaving, hcloses⟩ := hadvance.stays
    refine h.update rfl rfl rfl rfl rfl rfl (fun b => (hadvance.not_issuing b).2) hleaving
      fun hnext => ?_
    cases hcloses.symm.trans hnext
  | spawnThrows | writeDone | writerIssues | writerLeaves | writerEnds =>
    exact h.update rfl rfl rfl rfl rfl rfl nofun nofun nofun
  | stopLate | startCalled | startBusy | startSetup | startFails | startOwes | startConnects
  | startConnected | startReturns | startCatch | startThrows =>
    exact h.quiet rfl rfl rfl rfl hstarted rfl
  | _ => exact h.quiet rfl rfl rfl rfl id rfl

end Step

/-! ## Runs -/

section Runs

variable [DecidableEq τ] {o : Options} {tr : List Event} {s : Session τ}

theorem failInv (h : (system τ o).Run orderly tr s) : FailInv s := by
  refine invariant_of_moves (I := fun _ s => FailInv s) .start ?_ h
  intro tr s a es s' hrun hC hm ih
  refine ih.step (fun hclosed => ?_) hC.1 hm
  apply (lifeInv hrun).wins_of_impl (i := 0)
  intro hpc
  rw [(implInv hrun).socket, hpc] at hclosed
  cases hclosed

theorem drainInv (h : (system τ o).Run orderly tr s) : DrainInv s := by
  refine invariant_of_moves (I := fun _ s => DrainInv s) .start ?_ h
  intro tr s a es s' hrun hC hm ih
  exact ih.step (lifeInv hrun) (writerInv hrun) (writersStarted hrun) (failInv hrun) hC hm

/-- A drained session has passed on everything it accepted. -/
theorem accepted_eq_of_drained {C : Session τ → Action τ → Prop} (h : (system τ o).Run C tr s)
    (hd : s.drained) : acceptedMsgs tr = (asyncWrites tr).flatten := by
  have hfifo := fifoInv h
  have hnone : s.taken = [] := by
    unfold Session.taken
    split
    · rename_i b hpc
      exact absurd hpc (hd.2 _ b)
    · rfl
  rw [FifoInv, hnone, hd.1, List.append_nil, List.append_nil] at hfifo
  exact hfifo

/-- After `m_state` has left `running` nothing is accepted. -/
theorem acceptedMsgs_after {C : Session τ → Action τ → Prop} (h : (system τ o).Run C tr s)
    {tr₁ tr₂ : List Event} (htr : tr = tr₁ ++ tr₂) (hmoves : .stopping ∈ stateMoves tr₁) :
    acceptedMsgs tr₂ = [] := by
  rw [List.eq_nil_iff_forall_not_mem]
  intro msg hmsg
  simp only [acceptedMsgs, List.mem_filterMap] at hmsg
  obtain ⟨e, he, hmsg⟩ := hmsg
  obtain ⟨before, after, rfl⟩ := List.append_of_mem he
  cases e <;> simp only [Option.some.injEq, reduceCtorEq] at hmsg
  cases hmsg
  have hsplit : tr = (tr₁ ++ before) ++ .accepted msg :: after := by
    rw [htr, List.append_assoc]
  have hrunning := accepted_running h hsplit
  rw [stateMoves_append] at hrunning
  have hmem : StateT.stopping ∈ stateMoves tr₁ ++ stateMoves before := List.mem_append_left _ hmoves
  rw [hrunning] at hmem
  cases hmem with
  | tail _ h => cases h

/-- **The graceful drain.**  When the session is stopped only through `stop_async()`, and no
`stop_async()` overtakes the hand-over from one writer to the next, everything that is ever
accepted has been passed to `async_write` when `close_impl()` closes the socket. -/
theorem graceful_drain (h : (system τ o).Run orderly tr s) {tr₁ tr₂ : List Event}
    (htr : tr = tr₁ ++ .socketClosed :: tr₂) : (asyncWrites tr₁).flatten = acceptedMsgs tr := by
  obtain ⟨t, a, t', hrun, -, hm⟩ := moment h htr
  have hwins : 0 < t.closeWins := by
    cases hm with
    | implCloses ag ch i k q hpc =>
      exact (lifeInv hrun).wins_of_impl (i := i) (by rw [hpc]; exact ImplPc.noConfusion)
  have hmoves : .stopping ∈ stateMoves tr₁ := by
    rw [← List.count_pos_iff, ← (lifeInv hrun).closeWins_eq]
    exact hwins
  have hafter : acceptedMsgs (.socketClosed :: tr₂) = [] := acceptedMsgs_after h htr hmoves
  rw [htr, acceptedMsgs_append, hafter, List.append_nil,
    accepted_eq_of_drained hrun ((drainInv hrun).closed hwins)]

end Runs

section Sample

/-- `stop_async()` while writer 0 is writing: the writer drains the queue and closes. -/
def drainRun : List (Action ℕ) :=
  clearedRun ++ List.replicate 10 (Action.step .strand .ok)

/-- A delegated stop drains the message that was being written. -/
theorem graceful_drain_drainRun : ∃ tr₁ tr₂ s, (system ℕ {}).Run orderly
    (tr₁ ++ .socketClosed :: tr₂) s ∧ (asyncWrites tr₁).flatten = [[1]] ∧
    (asyncWrites tr₁).flatten = acceptedMsgs (tr₁ ++ .socketClosed :: tr₂) := by
  have htr : ((system ℕ {}).exec drainRun).map Prod.snd =
      some [.moved .running, .connected, .accepted [1], .asyncWrite [[1]], .moved .stopRequested,
        .closeCalled (.writer 0), .moved .stopping, .socketClosed, .disconnected none,
        .moved .stopped] := by decide
  obtain ⟨s, hrun⟩ := exists_run_exec
    (by decide : (system ℕ {}).execMeets orderly _ drainRun = true) htr
  exact ⟨[.moved .running, .connected, .accepted [1], .asyncWrite [[1]], .moved .stopRequested,
    .closeCalled (.writer 0), .moved .stopping], [.disconnected none, .moved .stopped], s, hrun,
    rfl, graceful_drain hrun rfl⟩

/-- Writer 0 has found the queue empty when thread 1 writes again; `write()` returns, and then
thread 2 calls `stop_async()`. -/
def overtakenRun : List (Action ℕ) :=
  connectRun ++ ([
    .call (.thread 1) (.write [1]), .step (.thread 1) .ok, .step (.thread 1) .ok,
    .runHandler, .step .strand .ok, .step .strand .ok,
    .writeDone 0 none, .runHandler, .step .strand .ok, .step .strand .ok,
    .call (.thread 1) (.write [2]), .step (.thread 1) .ok, .step (.thread 1) .ok,
    .call (.thread 2) .stopAsync, .step (.thread 2) .ok,
    .step .strand .ok, .step .strand .ok, .step .strand .ok, .step .strand .ok, .step .strand .ok,
    .step .strand .ok] : List (Action ℕ))

/-- A graceful stop that loses an accepted message: nothing disturbs the run, but the stop
overtakes the hand-over, and the socket is closed with `[2]` still queued. -/
theorem overtaken_loses : ∃ tr₁ tr₂ s,
    (system ℕ {}).Run (fun s a => s.disturbs a = false) (tr₁ ++ .socketClosed :: tr₂) s ∧
    [2] ∈ acceptedMsgs tr₁ ∧ [2] ∉ (asyncWrites tr₁).flatten := by
  have htr : ((system ℕ {}).exec overtakenRun).map Prod.snd =
      some [.moved .running, .connected, .accepted [1], .asyncWrite [[1]], .accepted [2],
        .moved .stopRequested, .closeCalled (.writer 0), .moved .stopping, .socketClosed] := by
    decide
  obtain ⟨s, hrun⟩ := exists_run_exec
    (by decide : (system ℕ {}).execMeets (fun s a => s.disturbs a = false) _ overtakenRun = true)
    htr
  exact ⟨[.moved .running, .connected, .accepted [1], .asyncWrite [[1]], .accepted [2],
    .moved .stopRequested, .closeCalled (.writer 0), .moved .stopping], [], s, hrun, by decide,
    by decide⟩

end Sample

end TcpSession
