/-
# What one step of a `tcp_session` can do

`Move s a es s'` lists every change one atomic step can make to the members and to
the calls in progress, with everything the code has checked before it.  The strand's
queue and the call stacks, which decide only who goes next, are left open here
(`Session.sched`).  `step_move` proves the list complete, once and for all functions;
every invariant is then a case analysis on `Move`.
-/
import Libsg.TcpSessionStep

namespace TcpSession

variable {τ : Type} [DecidableEq τ]

/-- `s` with other call stacks and another strand queue. -/
def Session.sched (s : Session τ) (k : Agent τ → List Frame) (q : List Handler) : Session τ :=
  { s with stack := k, queue := q }

/-- The places in `start()` a failing step leaves for the catch block. -/
def StartPc.canFail : StartPc → Bool
  | .setup (_ :: _) | .inConnected | .spawnReader => true
  | _ => false

/-- The steps of a `writer()` that keep it responsible for the queue and touch nothing else. -/
inductive WriterPc.Advance : WriterPc → WriterPc → Prop
  | spawn : Advance .toSpawn .queued
  | spawnInPlace : Advance .toSpawn .locking
  | run : Advance .queued .locking
  | resume (ec : Option ErrorCode) : Advance (.resumed ec) (.completed ec)
  | again : Advance (.completed none) .locking

/-- The steps of a `writer()` from a failed `async_write` to its call of `close()`. -/
inductive WriterPc.Fail : WriterPc → WriterPc → Prop
  | threw (ec : ErrorCode) (ex : Exn) : Fail (.completed (some ec)) (.catchLoad ex)
  | load (ex : Exn) : Fail (.catchLoad ex) (.catchRecord ex)
  | skip (ex : Exn) : Fail (.catchLoad ex) .callClose
  | record (ex : Exn) : Fail (.catchRecord ex) .callClose

/-- The steps of `reader()` that touch nothing else, with the choice they were made under. -/
inductive ReaderPc.Advance (socketOpen : Bool) : ReaderPc → ReaderPc → Prop
  | run : Advance socketOpen .queued .getOption
  | option (h : socketOpen = true) : Advance socketOpen .getOption .loop
  | read (h : socketOpen = true) : Advance socketOpen .loop .reading
  | exit (h : socketOpen = false) : Advance socketOpen .loop .callClose
  | resume (r : ReadResult) : Advance socketOpen (.resumed r) (.completed r)
  | ignore (b : Buffer) : Advance socketOpen (.completed (.ok b)) .loop
  | failed (ec : ErrorCode) :
      Advance socketOpen (.completed (.error ec)) (.catchLoad (.systemError ec))
  | returned : Advance socketOpen .inData .loop
  | load (ex : Exn) : Advance socketOpen (.catchLoad ex) (.catchRecord ex)
  | skip (ex : Exn) : Advance socketOpen (.catchLoad ex) .callClose
  | record (ex : Exn) : Advance socketOpen (.catchRecord ex) .callClose

/-- The steps of `close_impl()` that touch nothing else. -/
inductive ImplPc.Advance : ImplPc → ImplPc → Prop
  | run : Advance .queued .closeSocket
  | read (ex : Option Exn) : Advance .readException (.checkOwed ex)
  | done (ex : Option Exn) : Advance (.inDisconnected ex) .storeStopped

/-- The steps inside the catch block of `start()` before it calls `stop_async()`. -/
inductive StartPc.Catch : StartPc → StartPc → Prop
  | load (ex : Exn) : Catch (.catchLoad ex) (.catchRecord ex)
  | skip (ex : Exn) : Catch (.catchLoad ex) .catchStop
  | record (ex : Exn) : Catch (.catchRecord ex) .catchStop

/-- `stop_async()` called by user code, or by the catch block of `start()`. -/
inductive StartPc.Stop (s : StartPc) : StartPc → Prop
  | user : Stop s s
  | catchBlock (h : s = .catchStop) : Stop s .catchWait

open Session

/-- **What one atomic step can do.** -/
inductive Move (s : Session τ) : Action τ → List Event → Session τ → Prop
  -- nothing but a change of who runs
  | frames {a} (k q) : Move s a [] (s.sched k q)
  -- `write()`
  | refuse {a} (msg k q) : Move s a [.refused msg] (s.sched k q)
  | accept {a} (msg k q) (hrun : s.state = .running) (hflag : s.writeScheduled = true) :
      Move s a [.accepted msg]
        ({ s with queuedBytes := s.queuedBytes + bufferSize msg,
                  writeMsgs := s.writeMsgs ++ [msg] }.sched k q)
  | acceptSpawn {a} (msg k q) (hrun : s.state = .running) (hflag : s.writeScheduled = false) :
      Move s a [.accepted msg]
        (({ s with queuedBytes := s.queuedBytes + bufferSize msg,
                   writeMsgs := s.writeMsgs ++ [msg], writeScheduled := true,
                   spawned := s.spawned + 1 }.setWriter s.spawned .toSpawn).sched k q)
  | spawnThrows {a} (ag w k q) (hpc : s.writers w = .toSpawn) (ha : a = .step ag .fail)
      (htop : (s.stack ag).head? = some (.writeSpawn w)) :
      Move s a [] ((s.setWriter w .lost).sched k q)
  -- `stop_async()` and `stop_async_force()`
  | stopLate {a} (pc k q) (hpc : s.startPc.Stop pc) (hrun : s.state ≠ .running) :
      Move s a [] ({ s with startPc := pc }.sched k q)
  | stopDelegates {a} (pc k q) (hpc : s.startPc.Stop pc) (hact : s.entersStopAsync a = true)
      (hrun : s.state = .running) (hflag : s.writeScheduled = true) :
      Move s a [.moved .stopRequested]
        ({ s with state := .stopRequested, startPc := pc }.sched k q)
  | stopCloses {a} (pc k q) (hpc : s.startPc.Stop pc) (hact : s.entersStopAsync a = true)
      (hrun : s.state = .running) (hflag : s.writeScheduled = false) :
      Move s a [.moved .stopRequested]
        (({ s with state := .stopRequested, startPc := pc }.addClose .stopAsync).sched k q)
  | force {a} (ag k q) (ha : a = .call ag .stopAsyncForce) :
      Move s a [] ((s.addClose .stopAsyncForce).sched k q)
  -- `close()`
  | closeLoad {a} (c pc k q) (hpc : (s.closes c).pc = .load)
      (hnew : pc = if s.state.closable then .compareExchange s.state else .returned) :
      Move s a [.closeCalled (s.closes c).caller] ((s.setClose c pc).sched k q)
  | closeRetry {a} (c cur pc k q) (hpc : (s.closes c).pc = .compareExchange cur)
      (hnew : pc = if s.state.closable then .compareExchange s.state else .returned) :
      Move s a [] ((s.setClose c pc).sched k q)
  | closeWins {a} (c cur k q) (hpc : (s.closes c).pc = .compareExchange cur)
      (hstate : s.state.closable = true) :
      Move s a [.moved .stopping]
        ((({ s with state := .stopping, closeWins := s.closeWins + 1 }.setImpl s.closeWins
          .dispatching).setClose c (.dispatch s.closeWins)).sched k q)
  | dispatch {a} (c i pc k q) (hpc : (s.closes c).pc = .dispatch i)
      (himpl : s.impls i = .dispatching) (hnew : pc = .queued ∨ pc = .closeSocket) :
      Move s a [] (((s.setClose c .returned).setImpl i pc).sched k q)
  -- `close_impl()`
  | implAdvance {a} (i pc k q) (hpc : (s.impls i).Advance pc)
      (hdone : ∀ ex, s.impls i = .inDisconnected ex →
        ∃ ag ch, a = .step ag ch ∧ (s.stack ag).head? = some (.closeImpl i)) :
      Move s a [] ((s.setImpl i pc).sched k q)
  | implCloses {a} (ag ch i k q) (hpc : s.impls i = .closeSocket) (ha : a = .step ag ch)
      (htop : (s.stack ag).head? = some (.closeImpl i)) :
      Move s a [.socketClosed] (({ s with socketOpen := false }.setImpl i .readException).sched k q)
  | implOwed {a} (i ex k q) (hpc : s.impls i = .checkOwed ex)
      (howed : s.disconnectionCallbackOwed = true) (ag ch) (ha : a = .step ag ch)
      (htop : (s.stack ag).head? = some (.closeImpl i)) :
      Move s a [.disconnected ex] ((s.setImpl i (.inDisconnected ex)).sched k q)
  | implNotOwed {a} (i ex k q) (hpc : s.impls i = .checkOwed ex)
      (howed : s.disconnectionCallbackOwed = false) :
      Move s a [] ((s.setImpl i .storeStopped).sched k q)
  | implStops {a} (i k q) (hpc : s.impls i = .storeStopped) :
      Move s a [.moved .stopped] (({ s with state := .stopped }.setImpl i .finished).sched k q)
  -- `start()`
  | startCalled {a} (io k q) (hnew : s.startCalled = false) :
      Move s a [] ({ s with startCalled := true, startPc := .compareExchange,
                              startInIoThread := io }.sched k q)
  | startRuns {a} (todo k q) (hpc : s.startPc = .compareExchange) (hstate : s.state = .stopped) :
      Move s a [.moved .running] ({ s with state := .running, startPc := .setup todo }.sched k q)
  | startBusy {a} (k q) (hpc : s.startPc = .compareExchange) (hstate : s.state ≠ .stopped) :
      Move s a [] ({ s with startPc := .threw }.sched k q)
  | startSetup {a} (x todo k q) (hpc : s.startPc = .setup (x :: todo)) :
      Move s a [] ({ s with startPc := .setup todo }.sched k q)
  | startFails {a} (ex k q) (hpc : s.startPc.canFail = true) (ag) (ha : a = .step ag .fail)
      (htop : (s.stack ag).head? = some .start) :
      Move s a [] ({ s with startPc := .catchLoad ex }.sched k q)
  | startOwes {a} (ag ch k q) (hpc : s.startPc = .setup []) (ha : a = .step ag ch)
      (htop : (s.stack ag).head? = some .start) :
      Move s a []
        ({ s with disconnectionCallbackOwed := true, startPc := .invokeConnected }.sched k q)
  | startConnects {a} (k q) (hpc : s.startPc = .invokeConnected) :
      Move s a [.connected] ({ s with startPc := .inConnected }.sched k q)
  | startConnected {a} (k q) (hpc : s.startPc = .inConnected) (ag ch) (ha : a = .step ag ch)
      (hch : ch ≠ .fail) (htop : (s.stack ag).head? = some .start) :
      Move s a [] ({ s with startPc := .spawnReader }.sched k q)
  | startReturns {a} (k q) (hpc : s.startPc = .spawnReader) :
      Move s a [] ({ s with startPc := .returned, readerPc := .queued }.sched k q)
  | startCatch {a} (ex pc k q) (hpc : s.startPc.Catch pc) :
      Move s a [] ({ s with exception := ex, startPc := pc }.sched k q)
  | startThrows {a} (k q) (hpc : s.startPc = .catchWait) :
      Move s a [] ({ s with startPc := .threw }.sched k q)
  -- `reader()`
  | readerAdvance {a} (ex pc k q) (hpc : s.readerPc.Advance s.socketOpen pc) :
      Move s a [] ({ s with exception := ex, readerPc := pc }.sched k q)
  | readerFails {a} (ag ex k q) (hpc : s.readerPc = .getOption ∨ s.readerPc = .inData)
      (ha : a = .step ag .fail) (htop : (s.stack ag).head? = some .reader) :
      Move s a [] ({ s with readerPc := .catchLoad ex }.sched k q)
  | readerData {a} (b payload k q) (hpc : s.readerPc = .completed (.ok b)) (ag ch)
      (ha : a = .step ag ch) (htop : (s.stack ag).head? = some .reader) :
      Move s a [.data payload] ({ s with readerPc := .inData }.sched k q)
  | readDone {a} (r k q) (hpc : s.readerPc = .reading)
      (hopen : r.isOk = true → s.socketOpen = true) (ha : a = .readDone r) :
      Move s a [] ({ s with readerPc := .resumed r }.sched k q)
  | readerCloses {a} (k q) (hpc : s.readerPc = .callClose) :
      Move s a [] (({ s with readerPc := .closing s.closeCalls }.addClose .reader).sched k q)
  | readerEnds {a} (c k q) (hpc : s.readerPc = .closing c)
      (hret : (s.closes c).pc = .returned) :
      Move s a [] ({ s with readerPc := .finished }.sched k q)
  -- `writer()`
  | writerAdvance {a} (w pc k q) (hpc : (s.writers w).Advance pc) :
      Move s a [] ((s.setWriter w pc).sched k q)
  | writerFails {a} (w ex pc k q) (hpc : (s.writers w).Fail pc) :
      Move s a [] (({ s with exception := ex }.setWriter w pc).sched k q)
  | writeDone {a} (w b ec k q) (hpc : s.writers w = .writing b)
      (hopen : ec = none → s.socketOpen = true) (ha : a = .writeDone w ec) :
      Move s a [] ((s.setWriter w (.resumed ec)).sched k q)
  | writerTakes {a} (w k q) (hpc : s.writers w = .locking) :
      Move s a [] ((writerSection s w).sched k q)
  | writerIssues {a} (w b k q) (hpc : s.writers w = .issuing b) :
      Move s a [.asyncWrite b] ((s.setWriter w (.writing b)).sched k q)
  | writerLeaves {a} (w k q) (hpc : s.writers w = .leaving) (hrun : s.state = .running) :
      Move s a [] ((s.setWriter w .finished).sched k q)
  | writerStops {a} (w k q) (hpc : s.writers w = .leaving) (hrun : s.state ≠ .running) :
      Move s a [] ((s.setWriter w .callClose).sched k q)
  | writerCloses {a} (w k q) (hpc : s.writers w = .callClose) :
      Move s a [] (((s.setWriter w (.closing s.closeCalls)).addClose (.writer w)).sched k q)
  | writerEnds {a} (w c k q) (hpc : s.writers w = .closing c)
      (hret : (s.closes c).pc = .returned) :
      Move s a [] ((s.setWriter w .finished).sched k q)

/-! ## Every step is one of them -/

variable {o : Options} {s : Session τ} {act : Action τ}

theorem write_move (ag : Agent τ) (k : List Frame) (msg : Buffer) :
    Move s act (write o s ag k msg).2 (write o s ag k msg).1 := by
  unfold write
  split
  · exact .refuse msg _ s.queue
  · rename_i hrun
    split
    · exact .refuse msg _ s.queue
    · simp only
      split
      · rename_i hflag
        exact .accept msg _ s.queue (not_not.mp hrun) hflag
      · rename_i hflag
        exact .acceptSpawn msg _ s.queue (not_not.mp hrun) (Bool.eq_false_iff.mpr hflag)

theorem writeSpawn_move {ag : Agent τ} {k : List Frame} {w : ℕ} {ch : Choice} {s' : Session τ}
    {es : List Event} (hact : act = .step ag ch)
    (htop : (s.stack ag).head? = some (.writeSpawn w))
    (h : writeSpawn s ag k w ch = some (s', es)) : Move s act es s' := by
  unfold writeSpawn at h
  split at h
  · rename_i hpc
    cases h
    exact .writerAdvance w .queued _ _ (hpc ▸ .spawn)
  · rename_i hpc
    cases h
    exact .spawnThrows ag w _ s.queue hpc hact htop
  · rename_i hpc
    split at h
    · cases h
      exact .writerAdvance w .locking _ s.queue (hpc ▸ .spawnInPlace)
    · cases h
  · cases h

theorem stopAsync_move (pc : StartPc) (hpc : s.startPc.Stop pc)
    (hact : s.entersStopAsync act = true) (ag : Agent τ) (k : List Frame) :
    Move s act (stopAsync { s with startPc := pc } ag k).2
      (stopAsync { s with startPc := pc } ag k).1 := by
  unfold stopAsync
  split
  · rename_i hrun
    exact .stopLate pc _ s.queue hpc hrun
  · rename_i hrun
    split
    · rename_i hflag
      exact .stopDelegates pc _ s.queue hpc hact (not_not.mp hrun) hflag
    · rename_i hflag
      exact .stopCloses pc _ s.queue hpc hact (not_not.mp hrun) (Bool.eq_false_iff.mpr hflag)

theorem close_move {ag : Agent τ} {k : List Frame} {c : ℕ} {ch : Choice} {s' : Session τ}
    {es : List Event} (h : close s ag k c ch = some (s', es)) : Move s act es s' := by
  unfold close at h
  split at h
  · rename_i hpc
    split at h
    · rename_i hcl
      cases h
      exact .closeLoad c _ _ s.queue hpc (by rw [if_pos hcl])
    · rename_i hcl
      cases h
      exact .closeLoad c _ _ s.queue hpc (by rw [if_neg hcl])
  · rename_i cur hpc
    split at h
    · rename_i hcl
      split at h
      · cases h
        exact .closeWins c cur _ s.queue hpc hcl
      · cases h
        exact .closeRetry c cur _ _ s.queue hpc (by rw [if_pos hcl])
    · rename_i hcl
      cases h
      exact .closeRetry c cur _ _ s.queue hpc (by rw [if_neg hcl])
  · rename_i i hpc
    split at h
    · rename_i himpl
      cases h
      exact .dispatch c i .closeSocket _ s.queue hpc himpl (.inr rfl)
    · rename_i himpl
      cases h
      exact .dispatch c i .queued _ _ hpc himpl (.inl rfl)
    · cases h
  · cases h

theorem closeImpl_move {ag : Agent τ} {k : List Frame} {i : ℕ} {ch : Choice} {s' : Session τ}
    {es : List Event} (hact : act = .step ag ch)
    (htop : (s.stack ag).head? = some (.closeImpl i))
    (h : closeImpl s ag k i = some (s', es)) : Move s act es s' := by
  unfold closeImpl at h
  split at h
  · rename_i hpc
    cases h
    exact .implCloses ag ch i s.stack s.queue hpc hact htop
  · rename_i hpc
    cases h
    exact .implAdvance i _ s.stack s.queue (hpc ▸ .read _) fun _ _ => ⟨ag, ch, hact, htop⟩
  · rename_i ex hpc
    split at h
    · rename_i howed
      cases h
      exact .implOwed i ex s.stack s.queue hpc howed ag ch hact htop
    · rename_i howed
      cases h
      exact .implNotOwed i ex s.stack s.queue hpc (Bool.eq_false_iff.mpr howed)
  · rename_i ex hpc
    cases h
    exact .implAdvance i _ s.stack s.queue (hpc ▸ .done ex) fun _ _ => ⟨ag, ch, hact, htop⟩
  · rename_i hpc
    cases h
    exact .implStops i _ s.queue hpc
  · cases h

theorem start_move {ag : Agent τ} {k : List Frame} {ch : Choice} {s' : Session τ}
    {es : List Event} (hact : act = .step ag ch) (htop : (s.stack ag).head? = some .start)
    (h : start o s ag k ch = some (s', es)) : Move s act es s' := by
  unfold start at h
  split at h
  · rename_i hpc
    split at h
    · rename_i hstate
      cases h
      exact .startRuns _ s.stack s.queue hpc hstate
    · rename_i hstate
      cases h
      exact .startBusy _ s.queue hpc hstate
  · rename_i x todo hpc
    split at h
    · rename_i hch
      cases h
      exact .startFails _ s.stack s.queue (by rw [hpc]; rfl) ag (hch ▸ hact) htop
    · split at h
      · cases h
        exact .startSetup x todo s.stack s.queue hpc
      · cases h
  · rename_i hpc
    cases h
    exact .startOwes ag ch s.stack s.queue hpc hact htop
  · rename_i hpc
    cases h
    exact .startConnects s.stack s.queue hpc
  · rename_i hpc
    split at h
    · rename_i hch
      cases h
      exact .startFails _ s.stack s.queue (by rw [hpc]; rfl) ag (hch ▸ hact) htop
    · rename_i hch
      cases h
      exact .startConnected s.stack s.queue hpc ag ch hact hch htop
  · rename_i hpc
    split at h
    · rename_i hch
      cases h
      exact .startFails _ s.stack s.queue (by rw [hpc]; rfl) ag (hch ▸ hact) htop
    · cases h
      exact .startReturns _ _ hpc
  · rename_i ex hpc
    split at h
    · cases h
      exact .startCatch s.exception _ s.stack s.queue (by rw [hpc]; exact .load ex)
    · cases h
      exact .startCatch s.exception _ s.stack s.queue (by rw [hpc]; exact .skip ex)
  · rename_i ex hpc
    cases h
    exact .startCatch _ _ s.stack s.queue (by rw [hpc]; exact .record ex)
  · rename_i hpc
    have henter : s.entersStopAsync act = true := by
      rw [hact, Session.entersStopAsync]
      cases hk : s.stack ag with
      | nil => simp [hk] at htop
      | cons f k' =>
        simp only [hk, List.head?_cons, Option.some.injEq] at htop
        simp [htop, hpc]
    have hmove := stopAsync_move .catchWait (.catchBlock hpc) henter ag (.start :: k)
    rw [Option.some.inj h] at hmove
    exact hmove
  · rename_i hpc
    split at h
    · cases h
      exact .startThrows _ s.queue hpc
    · cases h
  · cases h

theorem reader_move {ag : Agent τ} {k : List Frame} {ch : Choice} {s' : Session τ}
    {es : List Event} (hact : act = .step ag ch) (htop : (s.stack ag).head? = some .reader)
    (h : reader o s k ch = some (s', es)) : Move s act es s' := by
  unfold reader at h
  split at h
  · rename_i hpc
    split at h
    · rename_i hch
      cases h
      exact .readerFails ag _ s.stack s.queue (.inl hpc) (hch ▸ hact) htop
    · split at h
      · rename_i hopen
        cases h
        exact .readerAdvance s.exception _ s.stack s.queue (by rw [hpc]; exact .option hopen)
      · cases h
  · rename_i hpc
    split at h
    · rename_i hopen
      cases h
      exact .readerAdvance s.exception _ _ s.queue (by rw [hpc]; exact .read hopen)
    · rename_i hopen
      cases h
      exact .readerAdvance s.exception _ s.stack s.queue
        (by rw [hpc]; exact .exit (Bool.eq_false_iff.mpr hopen))
  · rename_i b hpc
    split at h
    · cases h
      exact .readerData b none s.stack s.queue hpc ag ch hact htop
    · split at h
      · cases h
        exact .readerData b (some b) s.stack s.queue hpc ag ch hact htop
      · cases h
        exact .readerAdvance s.exception _ s.stack s.queue (by rw [hpc]; exact .ignore b)
  · rename_i ec hpc
    cases h
    exact .readerAdvance s.exception _ s.stack s.queue (by rw [hpc]; exact .failed ec)
  · rename_i hpc
    split at h
    · rename_i hch
      cases h
      exact .readerFails ag _ s.stack s.queue (.inr hpc) (hch ▸ hact) htop
    · cases h
      exact .readerAdvance s.exception _ s.stack s.queue (by rw [hpc]; exact .returned)
  · rename_i ex hpc
    split at h
    · cases h
      exact .readerAdvance s.exception _ s.stack s.queue (by rw [hpc]; exact .load ex)
    · cases h
      exact .readerAdvance s.exception _ s.stack s.queue (by rw [hpc]; exact .skip ex)
  · rename_i ex hpc
    cases h
    exact .readerAdvance _ _ s.stack s.queue (by rw [hpc]; exact .record ex)
  · rename_i hpc
    cases h
    exact .readerCloses _ s.queue hpc
  · rename_i c hpc
    split at h
    · rename_i hret
      cases h
      exact .readerEnds c _ s.queue hpc hret
    · cases h
  · cases h

theorem writer_move {k : List Frame} {w : ℕ} {s' : Session τ} {es : List Event}
    (h : writer o s k w = some (s', es)) : Move s act es s' := by
  unfold writer at h
  split at h
  · rename_i hpc
    cases h
    exact .writerTakes w s.stack s.queue hpc
  · rename_i hpc
    split at h
    · rename_i hrun
      cases h
      exact .writerStops w s.stack s.queue hpc hrun
    · rename_i hrun
      cases h
      exact .writerLeaves w _ s.queue hpc (not_not.mp hrun)
  · rename_i batch hpc
    cases h
    exact .writerIssues w batch _ s.queue hpc
  · rename_i hpc
    cases h
    exact .writerAdvance w _ s.stack s.queue (by rw [hpc]; exact .again)
  · rename_i ec hpc
    cases h
    exact .writerFails w s.exception _ s.stack s.queue (by rw [hpc]; exact .threw ec _)
  · rename_i ex hpc
    split at h
    · cases h
      exact .writerFails w s.exception _ s.stack s.queue (by rw [hpc]; exact .load ex)
    · cases h
      exact .writerFails w s.exception _ s.stack s.queue (by rw [hpc]; exact .skip ex)
  · rename_i ex hpc
    cases h
    exact .writerFails w (s.record ex).exception _ s.stack s.queue (by rw [hpc]; exact .record ex)
  · rename_i hpc
    cases h
    exact .writerCloses w _ s.queue hpc
  · rename_i c hpc
    split at h
    · rename_i hret
      cases h
      exact .writerEnds w c _ s.queue hpc hret
    · cases h
  · cases h

theorem call_move (ag : Agent τ) (c : Call) (hact : act = .call ag c) :
    Move s act [] (call s ag c) := by
  cases c with
  | write msg => exact .frames _ s.queue
  | stopAsync => exact .frames _ s.queue
  | stopAsyncForce => exact .force ag _ s.queue hact
  | start io =>
    unfold call
    simp only
    split
    · exact .frames s.stack s.queue
    · rename_i hnew
      exact .startCalled io _ s.queue (Bool.eq_false_iff.mpr hnew)

theorem runHandler_move {q : List Handler} {h : Handler} {s' : Session τ}
    (hr : runHandler { s with queue := q } h = some s') : Move s act [] s' := by
  unfold runHandler at hr
  cases h with
  | reader =>
    simp only at hr
    split at hr
    · rename_i hpc
      cases hr
      exact .readerAdvance s.exception _ _ q (by rw [hpc]; exact .run)
    · rename_i r hpc
      cases hr
      exact .readerAdvance s.exception _ _ q (by rw [hpc]; exact .resume r)
    · cases hr
  | writer w =>
    simp only at hr
    split at hr
    · rename_i hpc
      cases hr
      exact .writerAdvance w _ _ q (by rw [hpc]; exact .run)
    · rename_i ec hpc
      cases hr
      exact .writerAdvance w _ _ q (by rw [hpc]; exact .resume ec)
    · cases hr
  | closeImpl i =>
    simp only at hr
    split at hr
    · rename_i hpc
      cases hr
      exact .implAdvance i _ _ q (by rw [hpc]; exact .run) (by simp [hpc])
    · cases hr

/-- **The list is complete**: whatever step a session makes is one of the moves. -/
theorem step_move {s' : Session τ} {es : List Event} (h : step o s act = some (s', es)) :
    Move s act es s' := by
  unfold step at h
  split at h
  · rename_i ag c
    split at h
    · cases h
      exact call_move ag c rfl
    · cases h
  · rename_i ag ch
    split at h
    · cases h
    · rename_i f k hstack
      have htop : (s.stack ag).head? = some f := by rw [hstack]; rfl
      cases f with
      | write msg =>
        have hmove : Move s (.step ag ch) (write o s ag k msg).2 (write o s ag k msg).1 :=
          write_move ag k msg
        rw [Option.some.inj h] at hmove
        exact hmove
      | writeSpawn w => exact writeSpawn_move rfl htop h
      | stopAsync =>
        have henter : s.entersStopAsync (.step ag ch) = true := by
          simp [Session.entersStopAsync, hstack]
        have hmove := stopAsync_move s.startPc .user henter ag k
        rw [Option.some.inj h] at hmove
        exact hmove
      | close c => exact close_move h
      | closeImpl i => exact closeImpl_move rfl htop h
      | start => exact start_move rfl htop h
      | reader => exact reader_move rfl htop h
      | writer w => exact writer_move h
  · split at h
    · simp only [Option.map_eq_some_iff, Prod.mk.injEq] at h
      obtain ⟨s₁, hr, rfl, rfl⟩ := h
      exact runHandler_move hr
    · cases h
  · rename_i r
    split at h
    · rename_i hr
      cases h
      exact .readDone r _ _ hr.1 hr.2 rfl
    · cases h
  · rename_i w ec
    split at h
    · rename_i b hpc
      split at h
      · rename_i hopen
        cases h
        exact .writeDone w b ec _ _ hpc hopen rfl
      · cases h
    · cases h

/-- **The invariant rule of the session**: what holds of a fresh session and is preserved by
every move a run makes holds at the end of the run. -/
theorem invariant_of_moves {C : Session τ → Action τ → Prop} {I : List Event → Session τ → Prop}
    (hstart : I [] {})
    (hmove : ∀ tr s a es s', (system τ o).Run C tr s → C s a → Move s a es s' → I tr s →
      I (tr ++ es) s')
    {tr : List Event} (h : (system τ o).Run C tr s) : I tr s := by
  refine TransitionSystem.Run.invariant (I := I) hstart ?_ h
  intro tr s a s' es hrun hC hst ih
  exact hmove tr s a es s' hrun hC (step_move hst) ih

omit [DecidableEq τ] in
/-- A step shows at most one event. -/
theorem Move.length_le {es : List Event} {s' : Session τ} (hm : Move s act es s') :
    es.length ≤ 1 := by
  cases hm <;> simp

/-- **The moment an event was shown**: the move that showed it, and the run up to it. -/
theorem moment {C : Session τ → Action τ → Prop} {tr tr₁ tr₂ : List Event} {e : Event}
    (h : (system τ o).Run C tr s) (htr : tr = tr₁ ++ e :: tr₂) :
    ∃ t a t', (system τ o).Run C tr₁ t ∧ C t a ∧ Move t a [e] t' := by
  obtain ⟨tr₀, t, a, t', es, es₁, es₂, hrun, hC, hst, rfl, rfl⟩ := h.split htr
  have hm := step_move hst
  have hlen := hm.length_le
  rw [List.length_append, List.length_cons] at hlen
  have hes₁ : es₁ = [] := List.eq_nil_of_length_eq_zero (by omega)
  have hes₂ : es₂ = [] := List.eq_nil_of_length_eq_zero (by omega)
  rw [hes₁, hes₂] at hm
  rw [hes₁, List.append_nil]
  exact ⟨t, a, t', hrun, hC, hm⟩

end TcpSession
