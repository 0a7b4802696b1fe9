/-
# What one step of a `tcp_server` can do

`Move o s a es s'` lists every change one atomic step can make, with everything the code
has checked before it, as `TcpSession.Move` does for a session.  A step of a session is
one move here: what it changes in the session is for the session's own list to say.
-/
import Libsg.TcpServerStep
import Libsg.TcpSessionMove

namespace TcpServer

open TcpSession (Choice)

/-- The places in `start()` a failing step leaves for the catch block, changing nothing. -/
def CallPc.canFail : CallPc → Bool
  | .startId _ | .startContext | .startBind | .startSpawn | .inStartedListening => true
  | _ => false

/-- The steps of `listener()` that touch nothing but the listener, under the value of
`m_stop_in_operation`. -/
inductive ListenerPc.Advance (stop : Bool) : ListenerPc → ListenerPc → Prop
  | accept (h : stop = false) : Advance stop .loop .accepting
  | leave (h : stop = true) : Advance stop .loop .decrement
  | transient (ec : AcceptError) (h : ec.isTransient = true) :
      Advance stop (.completed (some ec)) (.checkTransient ec)
  | aborted : Advance stop (.completed (some .operationAborted)) .callStop
  | fatal (ec : AcceptError) (h : ec.isTransient = false) (hne : ec ≠ .operationAborted) :
      Advance stop (.completed (some ec)) (.recordError ec)
  | stopping (ec : AcceptError) (h : stop = true) : Advance stop (.checkTransient ec) .loop
  | quietly (ec : AcceptError) (h : stop = false) : Advance stop (.checkTransient ec) .armTimer
  | reported : Advance stop .reporting .armTimer
  | wait : Advance stop .armTimer .backingOff
  | drop (h : stop = true) : Advance stop .checkAccepted .loop
  | filter (h : stop = false) : Advance stop .checkAccepted .filtering
  | reject : Advance stop .filtering .loop
  | take : Advance stop .filtering .takeId

/-- The handlers that resume `listener()`. -/
inductive Listener.Resume (L : Listener) : Listener → Prop
  | start (h : L.pc = .queued) : Resume L { L with pc := .loop }
  | accepted (r : AcceptResult) (h : L.pc = .resumed r) : Resume L { L with pc := .completed r }
  | timer (h : L.pc = .timerDone) :
      Resume L { L with backoff := min (L.backoff * 2) acceptRetryMax, pc := .loop }

open Server

/-- **What one atomic step can do.** -/
inductive Move (o : TcpSession.Options) (s : Server) : Action → List Event → Server → Prop
  -- calls by user threads
  | startRefused {a} : Move o s a [.startThrew] s
  | callStart {a} (n eps) (hpc : s.callers (.user n) = .idle) :
      Move o s a [] (s.setCaller (.user n) (.startExchange eps))
  | callStop {a} (n) (hpc : s.callers (.user n) = .idle) :
      Move o s a [] (s.setCaller (.user n) .stopLock)
  -- `start()`
  | startBusy {a} (t eps) (hpc : s.callers t = .startExchange eps) (hrun : s.running = true) :
      Move o s a [.startThrew] (s.setCaller t .idle)
  | startTakes {a} (t eps) (hpc : s.callers t = .startExchange eps) (hrun : s.running = false) :
      Move o s a [] ({ s with running := true }.setCaller t (.startLock eps))
  | startLocks {a} (t eps) (hpc : s.callers t = .startLock eps) (hfree : s.mutex = none) :
      Move o s a [] ({ s with mutex := some t }.setCaller t (.startReset eps))
  | startResets {a} (t eps) (hpc : s.callers t = .startReset eps) (ha : ∃ ch, a = .caller t ch) :
      Move o s a [] ({ s with stopInOperation := false }.setCaller t (.startId eps))
  | startIds {a} (t ch eps) (hpc : s.callers t = .startId eps) (ha : a = .caller t ch)
      (hch : ch ≠ .fail) :
      Move o s a []
        ({ s with lastId := 0, endpoints := eps, lastError := none }.setCaller t .startClear)
  | startClears {a} (t) (hpc : s.callers t = .startClear) :
      Move o s a [] ({ s with acceptors := [], localEndpoints := [] }.setCaller t .startContext)
  | startFails {a} (t ch) (hpc : (s.callers t).canFail = true) (ha : a = .caller t ch)
      (hch : ch = .fail ∨ s.callers t = .startBind ∧ ∀ eps, ch ≠ .bound eps) :
      Move o s a [] (s.setCaller t .catchReset)
  | destroys {a} (t) (hpc : s.callers t = .startContext ∨ s.callers t = .catchReset)
      (hcontext : s.hasContext = true) (hactive : s.cycleActive = true)
      (hlive : s.contextStopped = false) :
      Move o s a [] { s with contextStopped := true }
  | startCreates {a} (t) (hpc : s.callers t = .startContext)
      (hover : s.hasContext = true → s.cycleActive = false) :
      Move o s a []
        ({ s with hasContext := true, pool := s.pool + 1, contextStopped := false,
                  workers := false, monitor := .unborn }.setCaller t .startBind)
  | startBinds {a} (t eps) (hpc : s.callers t = .startBind) (hlen : eps.length = s.endpoints.length) :
      Move o s a []
        ({ s with
          acceptors := List.range' s.listenerCount eps.length
          listenerCount := s.listenerCount + eps.length
          listeners := fun l => if l ∈ List.range' s.listenerCount eps.length
            then { s.listeners l with acceptorOpen := true } else s.listeners l
          localEndpoints := eps }.setCaller t .startSpawn)
  | startSpawns {a} (t) (hpc : s.callers t = .startSpawn) :
      Move o s a []
        ({ s with
          listeners := fun l => if l ∈ s.acceptors
            then { s.listeners l with pc := .queued, pool := s.pool } else s.listeners l
          acceptorsRunning := s.acceptors.length }.setCaller t .invokeStartedListening)
  | startInvokes {a} (t) (hpc : s.callers t = .invokeStartedListening) :
      Move o s a [.startedListening] (s.setCaller t .inStartedListening)
  | startInvoked {a} (t) (hpc : s.callers t = .inStartedListening) :
      Move o s a [] (s.setCaller t .startWorkers)
  | startWorks {a} (t) (hpc : s.callers t = .startWorkers) :
      Move o s a [] ({ s with cycleActive := true, workers := true }.setCaller t .startMonitor)
  | startReturns {a} (t) (hpc : s.callers t = .startMonitor) :
      Move o s a [.started s.pool]
        ({ s with monitor := .joining, mutex := none }.setCaller t .idle)
  | workersFail {a} (t) (hpc : s.callers t = .startWorkers) (ha : a = .caller t .fail) :
      Move o s a [] ({ s with cycleActive := true }.setCaller t .runStop)
  | monitorFails {a} (t) (hpc : s.callers t = .startMonitor) (ha : a = .caller t .fail) :
      Move o s a [] (s.setCaller t .runStop)
  | runStops {a} (t) (hpc : s.callers t = .runStop) :
      Move o s a [] ({ s with contextStopped := true }.setCaller t .runJoin)
  | runJoins {a} (t) (hpc : s.callers t = .runJoin) (hidle : s.idle = true) :
      Move o s a [] ({ s with workers := false, cycleActive := false }.setCaller t .catchReset)
  | catchResets {a} (t) (hpc : s.callers t = .catchReset)
      (hover : s.hasContext = true → s.cycleActive = false) :
      Move o s a [] ({ s with acceptors := [], hasContext := false }.setCaller t .catchStore)
  | catchStores {a} (t) (hpc : s.callers t = .catchStore) :
      Move o s a [.startThrew]
        ({ s with acceptorsRunning := 0, running := false, mutex := none }.setCaller t .idle)
  -- `stop_async()`
  | stopIgnored {a} (t) (hpc : s.callers t = .stopLock) (hfree : s.mutex = none)
      (hstop : s.stopInOperation = true) : Move o s a [] (s.setCaller t .idle)
  | stopBegins {a} (t) (hpc : s.callers t = .stopLock) (hfree : s.mutex = none)
      (hstop : s.stopInOperation = false) :
      Move o s a []
        (({ s with stopInOperation := true, mutex := some t,
                   stopperCount := s.stopperCount + 1 }.setStopper s.stopperCount
          .closeAcceptors).setCaller t (.stopJoin s.stopperCount))
  | stopEnds {a} (t k) (hpc : s.callers t = .stopJoin k)
      (hjoin : k = 0 ∨ s.stoppers (k - 1) = .finished) :
      Move o s a [] ({ s with mutex := none }.setCaller t .idle)
  -- the stop thread
  | stopperPosts {a} (k) (hpc : s.stoppers k = .closeAcceptors) (hlive : s.contextRunning = true)
      (ha : a = .stopper k) :
      Move o s a []
        ({ s with listeners := fun l => if l ∈ s.acceptors
            then { s.listeners l with closePosted := true } else s.listeners l }.setStopper k
          .checkContext)
  | stopperCloses {a} (k) (hpc : s.stoppers k = .closeAcceptors)
      (hdead : s.contextRunning = false) (ha : a = .stopper k) :
      Move o s a []
        ({ s with listeners := fun l => if l ∈ s.acceptors
            then { s.listeners l with acceptorOpen := false } else s.listeners l }.setStopper k
          .checkContext)
  | stopperAwaits {a} (k) (hpc : s.stoppers k = .checkContext) (hlive : s.contextRunning = true) :
      Move o s a [] (s.setStopper k .waitListeners)
  | stopperSkips {a} (k) (hpc : s.stoppers k = .checkContext) (hdead : s.contextRunning = false) :
      Move o s a [] ({ s with acceptorsRunning := 0 }.setStopper k .copySessions)
  | listenersGone {a} (k) (hpc : s.stoppers k = .waitListeners) (hnone : s.acceptorsRunning = 0) :
      Move o s a [] (s.setStopper k .copySessions)
  | stopperCopies {a} (k) (hpc : s.stoppers k = .copySessions) :
      Move o s a [] (s.setStopper k (.disconnecting (s.sessions.map Prod.snd)))
  | stopperStops {a} (k i todo) (hpc : s.stoppers k = .disconnecting (i :: todo)) :
      Move o s a []
        ((s.setConn i ((s.conns i).stopBy k)).setStopper k (.inStopAsync i todo))
  | stopperStopped {a} (k i todo) (hpc : s.stoppers k = .inStopAsync i todo)
      (hret : (s.conns i).session.stack (.thread (.stopper k)) = []) :
      Move o s a [] (s.setStopper k (.disconnecting todo))
  | stopperWaits {a} (k) (hpc : s.stoppers k = .disconnecting []) :
      Move o s a [] (s.setStopper k .waitSessions)
  | sessionsGone {a} (k) (hpc : s.stoppers k = .waitSessions) (hnone : s.activeSessions = 0) :
      Move o s a [] (s.setStopper k .stopContext)
  | stopperStopsContext {a} (k) (hpc : s.stoppers k = .stopContext) (hcontext : s.hasContext = true) :
      Move o s a []
        ({ s with contextStopped := s.contextStopped || s.cycleActive }.setStopper k .waitContext)
  | stopperNoContext {a} (k) (hpc : s.stoppers k = .stopContext) (hcontext : s.hasContext = false) :
      Move o s a [] (s.setStopper k .storeRunning)
  | contextGone {a} (k) (hpc : s.stoppers k = .waitContext) (hover : s.cycleActive = false) :
      Move o s a [] (s.setStopper k .storeRunning)
  | stopperEnds {a} (k) (hpc : s.stoppers k = .storeRunning) :
      Move o s a [.stopped k] ({ s with running := false }.setStopper k .finished)
  -- `listener()`
  | listenerAdvance {a} (l pc) (hlive : s.executes (s.listeners l).pool = true)
      (hpc : (s.listeners l).pc.Advance s.stopInOperation pc) (ha : ∃ ch, a = .listener l ch) :
      Move o s a [] (s.setListenerPc l pc)
  | listenerReports {a} (l ec) (hlive : s.executes (s.listeners l).pool = true)
      (hpc : (s.listeners l).pc = .checkTransient ec) (hstop : s.stopInOperation = false)
      (hback : (s.listeners l).backoff = acceptRetryMin ∨
        acceptRetryMax ≤ (s.listeners l).backoff) (ha : ∃ ch, a = .listener l ch) :
      Move o s a [.acceptError l ec] (s.setListenerPc l .reporting)
  | listenerAccepts {a} (l) (hlive : s.executes (s.listeners l).pool = true)
      (hpc : (s.listeners l).pc = .completed none) (ha : ∃ ch, a = .listener l ch) :
      Move o s a []
        (s.setListener l { s.listeners l with backoff := acceptRetryMin, pc := .checkAccepted })
  | listenerDrops {a} (l) (hlive : s.executes (s.listeners l).pool = true)
      (hpc : (s.listeners l).pc = .takeId) (ha : ∃ ch, a = .listener l ch) :
      Move o s a [] ({ s with lastId := s.lastId + 1 }.setListenerPc l .loop)
  | listenerCreates {a} (l) (hlive : s.executes (s.listeners l).pool = true)
      (hpc : (s.listeners l).pc = .takeId) (ha : ∃ ch, a = .listener l ch) :
      Move o s a []
        (({ s with lastId := s.lastId + 1, connCount := s.connCount + 1 }.setConn s.connCount
          { session := TcpSession.call {} (.thread (.listener l)) (.start true),
            id := s.lastId, listener := l, pool := (s.listeners l).pool }).setListenerPc l
          (.starting s.connCount))
  | listenerStarted {a} (l i) (hlive : s.executes (s.listeners l).pool = true)
      (hpc : (s.listeners l).pc = .starting i)
      (hret : (s.conns i).session.stack (.thread (.listener l)) = [])
      (ha : ∃ ch, a = .listener l ch) :
      Move o s a [] (s.setListenerPc l .loop)
  | listenerRecords {a} (l ec) (hlive : s.executes (s.listeners l).pool = true)
      (hpc : (s.listeners l).pc = .recordError ec) (ha : ∃ ch, a = .listener l ch) :
      Move o s a [] ({ s with lastError := s.lastError <|> some ec }.setListenerPc l .callStop)
  | listenerStops {a} (l) (hlive : s.executes (s.listeners l).pool = true)
      (hpc : (s.listeners l).pc = .callStop) (ha : ∃ ch, a = .listener l ch) :
      Move o s a [] ((s.setCaller (.listener l) .stopLock).setListenerPc l .stopping)
  | listenerStopped {a} (l) (hlive : s.executes (s.listeners l).pool = true)
      (hpc : (s.listeners l).pc = .stopping) (hret : s.callers (.listener l) = .idle)
      (ha : ∃ ch, a = .listener l ch) :
      Move o s a [] (s.setListenerPc l .decrement)
  | listenerEnds {a} (l) (hlive : s.executes (s.listeners l).pool = true)
      (hpc : (s.listeners l).pc = .decrement) (ha : ∃ ch, a = .listener l ch) :
      Move o s a []
        ({ s with acceptorsRunning := fetchSub s.acceptorsRunning }.setListenerPc l .finished)
  | listenerResumes {a} (l L) (hlive : s.takesHandlers (s.listeners l).pool = true)
      (hres : (s.listeners l).Resume L) (ha : ∃ ch, a = .listener l ch) :
      Move o s a [] (s.setListener l L)
  | acceptDone {a} (l r) (hlive : s.takesHandlers (s.listeners l).pool = true)
      (hpc : (s.listeners l).pc = .accepting) (hr : r ≠ some .operationAborted)
      (ha : a = .acceptDone l r) :
      Move o s a [] (s.setListenerPc l (.resumed r))
  | timerDone {a} (l) (hlive : s.takesHandlers (s.listeners l).pool = true)
      (hpc : (s.listeners l).pc = .backingOff) : Move o s a [] (s.setListenerPc l .timerDone)
  | runClose {a} (l) (hlive : s.takesHandlers (s.listeners l).pool = true)
      (hposted : (s.listeners l).closePosted = true)
      (hpc : (s.listeners l).pc.executing = false) :
      Move o s a [] (s.setListener l (closeAcceptor (s.listeners l)))
  -- the pool
  | drain {a} (ha : a = .drain) (hcontext : s.hasContext = true) (hworkers : s.workers = true)
      (hlive : s.contextStopped = false) (hout : s.outOfWork = true) :
      Move o s a [] { s with contextStopped := true }
  | monitorJoins {a} (hpc : s.monitor = .joining) (hstop : s.contextStopped = true)
      (hidle : s.idle = true) : Move o s a [] { s with workers := false, monitor := .invoking }
  | monitorInvokes {a} (hpc : s.monitor = .invoking) :
      Move o s a [.stoppedListening s.pool s.lastError] { s with monitor := .inCallback }
  | monitorInvoked {a} (hpc : s.monitor = .inCallback) :
      Move o s a [] { s with monitor := .publishing }
  | monitorPublishes {a} (hpc : s.monitor = .publishing) :
      Move o s a [] { s with cycleActive := false, monitor := .finished }
  -- connections
  | session {a} (i b sess es) (ha : a = .session i b) (hi : i < s.connCount)
      (hallow : s.allows (s.conns i) b = true)
      (hstep : TcpSession.step o (s.conns i).session b = some (sess, es)) :
      Move o s a (es.map (.session i)) (s.setConn i ({ s.conns i with session := sess }.enter es))
  | counts {a} (i) (hlive : s.executes (s.conns i).pool = true)
      (hpc : (s.conns i).onConn = .counting) :
      Move o s a []
        ({ s with activeSessions := s.activeSessions + 1 }.setConn i
          { s.conns i with onConn := .emplacing })
  | emplaces {a} (i) (hlive : s.executes (s.conns i).pool = true)
      (hpc : (s.conns i).onConn = .emplacing) :
      Move o s a []
        ({ s with sessions := emplace s.sessions (s.conns i).id i }.setConn i
          { s.conns i with onConn := .invoking })
  | emplaceThrows {a} (i) (hlive : s.executes (s.conns i).pool = true)
      (hpc : (s.conns i).onConn = .emplacing) :
      Move o s a [] (s.setConn i { s.conns i with onConn := .emplaceThrew })
  | creates {a} (i) (hlive : s.executes (s.conns i).pool = true)
      (hpc : (s.conns i).onConn = .invoking) :
      Move o s a [.created i] (s.setConn i { s.conns i with onConn := .inCreated })
  | created {a} (i pc) (hlive : s.executes (s.conns i).pool = true)
      (hpc : (s.conns i).onConn = .inCreated) (hnew : pc = .returned ∨ pc = .threw) :
      Move o s a [] (s.setConn i { s.conns i with onConn := pc })
  | disconnects {a} (i ex) (hlive : s.executes (s.conns i).pool = true)
      (hpc : (s.conns i).onStop = .invoking ex) :
      Move o s a [.disconnected i ex] (s.setConn i { s.conns i with onStop := .inDisconnected })
  | disconnected {a} (i) (hlive : s.executes (s.conns i).pool = true)
      (hpc : (s.conns i).onStop = .inDisconnected) :
      Move o s a [] (s.setConn i { s.conns i with onStop := .erasing })
  | erases {a} (i) (hlive : s.executes (s.conns i).pool = true)
      (hpc : (s.conns i).onStop = .erasing) :
      Move o s a [.erased i]
        ({ s with sessions := erase s.sessions (s.conns i).id }.setConn i
          { s.conns i with onStop := .releasing })
  | releases {a} (i) (hlive : s.executes (s.conns i).pool = true)
      (hpc : (s.conns i).onStop = .releasing) :
      Move o s a []
        ({ s with activeSessions := fetchSub s.activeSessions }.setConn i
          { s.conns i with onStop := .returned })

/-! ## Every step is one of them -/

variable {o : TcpSession.Options} {s s' : Server} {act : Action} {es : List Event}

theorem monitor_move (h : monitor s = some (s', es)) : Move o s act es s' := by
  unfold monitor at h
  split at h
  · rename_i hpc
    split at h
    · rename_i hend
      cases h
      exact .monitorJoins hpc hend.1 hend.2
    · cases h
  · rename_i hpc
    cases h
    exact .monitorInvokes hpc
  · rename_i hpc
    cases h
    exact .monitorInvoked hpc
  · rename_i hpc
    cases h
    exact .monitorPublishes hpc
  · cases h

theorem destroyContext_move {t : Tid} (hpc : s.callers t = .startContext ∨ s.callers t = .catchReset)
    (hlive : s.hasContext = true ∧ s.cycleActive = true)
    (h : s.destroyContext = some (s', es)) : Move o s act es s' := by
  unfold Server.destroyContext at h
  split at h
  · cases h
  · rename_i hstop
    cases h
    exact .destroys t hpc hlive.1 hlive.2 (Bool.eq_false_iff.mpr hstop)

theorem caller_move {t : Tid} {ch : StartChoice} (hact : act = .caller t ch)
    (h : caller s t ch = some (s', es)) : Move o s act es s' := by
  unfold caller at h
  split at h
  · rename_i eps hpc
    split at h
    · rename_i hrun
      cases h
      exact .startBusy t eps hpc hrun
    · rename_i hrun
      cases h
      exact .startTakes t eps hpc (Bool.eq_false_iff.mpr hrun)
  · rename_i eps hpc
    split at h
    · rename_i hfree
      cases h
      exact .startLocks t eps hpc hfree
    · cases h
  · rename_i eps hpc
    cases h
    exact .startResets t eps hpc ⟨ch, hact⟩
  · rename_i eps hpc
    split at h
    · rename_i hch
      cases h
      exact .startFails t ch (by rw [hpc]; rfl) hact (.inl hch)
    · rename_i hch
      cases h
      exact .startIds t ch eps hpc hact hch
  · rename_i hpc
    cases h
    exact .startClears t hpc
  · rename_i hpc
    split at h
    · rename_i hch
      cases h
      exact .startFails t ch (by rw [hpc]; rfl) hact (.inl hch)
    · split at h
      · rename_i hlive
        exact destroyContext_move (.inl hpc) hlive h
      · rename_i hover
        cases h
        refine .startCreates t hpc fun hcontext => ?_
        simpa [hcontext] using hover
  · rename_i hpc
    split at h
    · rename_i eps
      split at h
      · rename_i hlen
        cases h
        exact .startBinds t eps hpc hlen
      · cases h
    · rename_i hch
      cases h
      exact .startFails t ch (by rw [hpc]; rfl) hact (.inr ⟨hpc, hch⟩)
  · rename_i hpc
    split at h
    · rename_i hch
      cases h
      exact .startFails t ch (by rw [hpc]; rfl) hact (.inl hch)
    · cases h
      exact .startSpawns t hpc
  · rename_i hpc
    cases h
    exact .startInvokes t hpc
  · rename_i hpc
    split at h
    · rename_i hch
      cases h
      exact .startFails t ch (by rw [hpc]; rfl) hact (.inl hch)
    · cases h
      exact .startInvoked t hpc
  · rename_i hpc
    split at h
    · rename_i hch
      cases h
      exact .workersFail t hpc (hch ▸ hact)
    · cases h
      exact .startWorks t hpc
  · rename_i hpc
    split at h
    · rename_i hch
      cases h
      exact .monitorFails t hpc (hch ▸ hact)
    · cases h
      exact .startReturns t hpc
  · rename_i hpc
    cases h
    exact .runStops t hpc
  · rename_i hpc
    split at h
    · rename_i hidle
      cases h
      exact .runJoins t hpc hidle
    · cases h
  · rename_i hpc
    split at h
    · rename_i hlive
      exact destroyContext_move (.inr hpc) hlive h
    · rename_i hover
      cases h
      refine .catchResets t hpc fun hcontext => ?_
      simpa [hcontext] using hover
  · rename_i hpc
    cases h
    exact .catchStores t hpc
  · rename_i hpc
    split at h
    · cases h
    · rename_i hfree
      split at h
      · rename_i hstop
        cases h
        exact .stopIgnored t hpc (not_not.mp hfree) hstop
      · rename_i hstop
        cases h
        exact .stopBegins t hpc (not_not.mp hfree) (Bool.eq_false_iff.mpr hstop)
  · rename_i k hpc
    split at h
    · rename_i hjoin
      cases h
      exact .stopEnds t k hpc hjoin
    · cases h
  · cases h

theorem stopper_move {k : ℕ} (hact : act = .stopper k) (h : stopper s k = some (s', es)) :
    Move o s act es s' := by
  unfold stopper at h
  split at h
  · rename_i hpc
    cases hlive : s.contextRunning with
    | true =>
      simp only [hlive, if_true] at h
      cases h
      exact .stopperPosts k hpc hlive hact
    | false =>
      simp only [hlive, Bool.false_eq_true, if_false] at h
      cases h
      exact .stopperCloses k hpc hlive hact
  · rename_i hpc
    split at h
    · rename_i hlive
      cases h
      exact .stopperAwaits k hpc hlive
    · rename_i hdead
      cases h
      exact .stopperSkips k hpc (Bool.eq_false_iff.mpr hdead)
  · rename_i hpc
    split at h
    · rename_i hnone
      cases h
      exact .listenersGone k hpc hnone
    · cases h
  · rename_i hpc
    cases h
    exact .stopperCopies k hpc
  · rename_i i todo hpc
    cases h
    exact .stopperStops k i todo hpc
  · rename_i i todo hpc
    split at h
    · rename_i hret
      cases h
      exact .stopperStopped k i todo hpc hret
    · cases h
  · rename_i hpc
    cases h
    exact .stopperWaits k hpc
  · rename_i hpc
    split at h
    · rename_i hnone
      cases h
      exact .sessionsGone k hpc hnone
    · cases h
  · rename_i hpc
    split at h
    · rename_i hcontext
      cases h
      exact .stopperStopsContext k hpc hcontext
    · rename_i hcontext
      cases h
      exact .stopperNoContext k hpc (Bool.eq_false_iff.mpr hcontext)
  · rename_i hpc
    split at h
    · cases h
    · rename_i hover
      cases h
      exact .contextGone k hpc (Bool.eq_false_iff.mpr hover)
  · rename_i hpc
    cases h
    exact .stopperEnds k hpc
  · cases h

theorem listener_move {l : ℕ} {ch : Choice} (hact : act = .listener l ch)
    (hlive : s.executes (s.listeners l).pool = true)
    (h : listener s l ch = some (s', es)) : Move o s act es s' := by
  unfold listener at h
  simp only at h
  split at h
  · rename_i hpc
    cases h
    refine .listenerAdvance l _ hlive ?_ ⟨ch, hact⟩
    rw [hpc]
    split
    · rename_i hstop
      exact .leave hstop
    · rename_i hstop
      exact .accept (Bool.eq_false_iff.mpr hstop)
  · rename_i hpc
    cases h
    exact .listenerAccepts l hlive hpc ⟨ch, hact⟩
  · rename_i ec hpc
    split at h
    · rename_i htransient
      cases h
      exact .listenerAdvance l _ hlive (by rw [hpc]; exact .transient ec htransient) ⟨ch, hact⟩
    · rename_i htransient
      cases h
      refine .listenerAdvance l _ hlive ?_ ⟨ch, hact⟩
      rw [hpc]
      split
      · rename_i hec
        rw [hec]
        exact .aborted
      · rename_i hec
        exact .fatal ec (Bool.eq_false_iff.mpr htransient) hec
  · rename_i ec hpc
    split at h
    · rename_i hstop
      cases h
      exact .listenerAdvance l _ hlive (by rw [hpc]; exact .stopping ec hstop) ⟨ch, hact⟩
    · rename_i hstop
      split at h
      · rename_i hback
        cases h
        exact .listenerReports l ec hlive hpc (Bool.eq_false_iff.mpr hstop) hback ⟨ch, hact⟩
      · cases h
        exact .listenerAdvance l _ hlive
          (by rw [hpc]; exact .quietly ec (Bool.eq_false_iff.mpr hstop)) ⟨ch, hact⟩
  · rename_i hpc
    cases h
    exact .listenerAdvance l _ hlive (by rw [hpc]; exact .reported) ⟨ch, hact⟩
  · rename_i hpc
    cases h
    exact .listenerAdvance l _ hlive (by rw [hpc]; exact .wait) ⟨ch, hact⟩
  · rename_i hpc
    cases h
    refine .listenerAdvance l _ hlive ?_ ⟨ch, hact⟩
    rw [hpc]
    split
    · rename_i hstop
      exact .drop hstop
    · rename_i hstop
      exact .filter (Bool.eq_false_iff.mpr hstop)
  · rename_i hpc
    cases h
    refine .listenerAdvance l _ hlive ?_ ⟨ch, hact⟩
    rw [hpc]
    split
    · exact .reject
    · exact .take
  · rename_i hpc
    split at h
    · cases h
      exact .listenerDrops l hlive hpc ⟨ch, hact⟩
    · cases h
      exact .listenerCreates l hlive hpc ⟨ch, hact⟩
  · rename_i i hpc
    split at h
    · rename_i hret
      cases h
      exact .listenerStarted l i hlive hpc hret ⟨ch, hact⟩
    · cases h
  · rename_i ec hpc
    cases h
    exact .listenerRecords l ec hlive hpc ⟨ch, hact⟩
  · rename_i hpc
    cases h
    exact .listenerStops l hlive hpc ⟨ch, hact⟩
  · rename_i hpc
    split at h
    · rename_i hret
      cases h
      exact .listenerStopped l hlive hpc hret ⟨ch, hact⟩
    · cases h
  · rename_i hpc
    cases h
    exact .listenerEnds l hlive hpc ⟨ch, hact⟩
  · cases h

theorem runListener_move {l : ℕ} {ch : Choice} (hact : act = .listener l ch)
    (hlive : s.takesHandlers (s.listeners l).pool = true)
    (h : runListener s l = some (s', es)) : Move o s act es s' := by
  unfold runListener at h
  simp only at h
  split at h
  · rename_i hpc
    cases h
    exact .listenerResumes l _ hlive (.start hpc) ⟨ch, hact⟩
  · rename_i r hpc
    cases h
    exact .listenerResumes l _ hlive (.accepted r hpc) ⟨ch, hact⟩
  · rename_i hpc
    cases h
    exact .listenerResumes l _ hlive (.timer hpc) ⟨ch, hact⟩
  · cases h

theorem onConn_move {i : ℕ} {ch : Choice} (hlive : s.executes (s.conns i).pool = true)
    (h : onConn s i ch = some (s', es)) : Move o s act es s' := by
  unfold onConn at h
  simp only at h
  split at h
  · rename_i hpc
    cases h
    exact .counts i hlive hpc
  · rename_i hpc
    split at h
    · cases h
      exact .emplaceThrows i hlive hpc
    · cases h
      exact .emplaces i hlive hpc
  · rename_i hpc
    cases h
    exact .creates i hlive hpc
  · rename_i hpc
    split at h
    · cases h
      refine .created i _ hlive hpc ?_
      split
      · exact .inr rfl
      · exact .inl rfl
    · cases h
  · cases h

theorem onStop_move {i : ℕ} (hlive : s.executes (s.conns i).pool = true)
    (h : onStop s i = some (s', es)) : Move o s act es s' := by
  unfold onStop at h
  simp only at h
  split at h
  · rename_i ex hpc
    cases h
    exact .disconnects i ex hlive hpc
  · rename_i hpc
    split at h
    · cases h
      exact .disconnected i hlive hpc
    · cases h
  · rename_i hpc
    cases h
    exact .erases i hlive hpc
  · rename_i hpc
    cases h
    exact .releases i hlive hpc
  · cases h

/-- **The list is complete**: whatever step a server makes is one of the moves. -/
theorem step_move (h : step o s act = some (s', es)) : Move o s act es s' := by
  cases act with
  | callStart n eps =>
    simp only [step] at h
    split at h
    · cases h
    · rename_i hpc
      split at h
      · cases h
        exact .startRefused
      · cases h
        exact .callStart n eps (not_not.mp hpc)
  | callStop n =>
    simp only [step] at h
    split at h
    · cases h
    · rename_i hpc
      cases h
      exact .callStop n (not_not.mp hpc)
  | caller t ch => exact caller_move rfl h
  | acceptDone l r =>
    simp only [step] at h
    split at h
    · rename_i hr
      cases h
      exact .acceptDone l r hr.2.1 hr.1 hr.2.2.1 rfl
    · cases h
  | timerDone l =>
    simp only [step] at h
    split at h
    · rename_i hpc
      cases h
      exact .timerDone l hpc.2 hpc.1
    · cases h
  | runClose l =>
    simp only [step] at h
    split at h
    · rename_i hr
      cases h
      exact .runClose l hr.2.1 hr.1 hr.2.2
    · cases h
  | listener l ch =>
    simp only [step] at h
    split at h
    · split at h
      · rename_i hlive
        exact listener_move rfl hlive h
      · cases h
    · split at h
      · rename_i hlive
        exact runListener_move rfl hlive h
      · cases h
  | stopper k => exact stopper_move rfl h
  | drain =>
    simp only [step] at h
    split at h
    · rename_i hd
      cases h
      exact .drain rfl hd.1 hd.2.1 hd.2.2.1 hd.2.2.2
    · cases h
  | monitor => exact monitor_move h
  | session i b =>
    simp only [step, session] at h
    split at h
    · rename_i hi
      simp only [Option.map_eq_some_iff, Prod.mk.injEq] at h
      obtain ⟨⟨sess, es'⟩, hstep, rfl, rfl⟩ := h
      exact .session i b sess es' rfl hi.1 hi.2 hstep
    · cases h
  | onConn i ch =>
    simp only [step] at h
    split at h
    · rename_i hlive
      exact onConn_move hlive h
    · cases h
  | onStop i =>
    simp only [step] at h
    split at h
    · rename_i hlive
      exact onStop_move hlive h
    · cases h

/-- **The invariant rule of the server**: what holds before the first `start()` and is preserved
by every move a run makes holds at the end of the run. -/
theorem invariant_of_moves {C : Server → Action → Prop} {I : List Event → Server → Prop}
    (hstart : I [] {})
    (hmove : ∀ tr s a es s', (system o).Run C tr s → C s a → Move o s a es s' → I tr s →
      I (tr ++ es) s')
    {tr : List Event} (h : (system o).Run C tr s) : I tr s := by
  refine TransitionSystem.Run.invariant (I := I) hstart ?_ h
  intro tr s a s' es hrun hC hst ih
  exact hmove tr s a es s' hrun hC (step_move hst) ih

/-- A step shows at most one event. -/
theorem Move.length_le (hm : Move o s act es s') : es.length ≤ 1 := by
  cases hm with
  | session i b sess es ha hi hallow hstep =>
    rw [List.length_map]
    exact (TcpSession.step_move hstep).length_le
  | _ => simp

/-- **The moment an event was shown**: the move that showed it, and the run up to it. -/
theorem moment {C : Server → Action → Prop} {tr tr₁ tr₂ : List Event} {e : Event}
    (h : (system o).Run C tr s) (htr : tr = tr₁ ++ e :: tr₂) :
    ∃ t a t', (system o).Run C tr₁ t ∧ C t a ∧ Move o t a [e] t' := by
  obtain ⟨tr₀, t, a, t', es, es₁, es₂, hrun, hC, hst, rfl, rfl⟩ := h.split htr
  have hm : Move o t a (es₁ ++ e :: es₂) t' := step_move hst
  have hlen := hm.length_le
  rw [List.length_append, List.length_cons] at hlen
  have hes₁ : es₁ = [] := List.eq_nil_of_length_eq_zero (by omega)
  have hes₂ : es₂ = [] := List.eq_nil_of_length_eq_zero (by omega)
  rw [hes₁, hes₂] at hm
  rw [hes₁, List.append_nil]
  exact ⟨t, a, t', hrun, hC, hm⟩

end TcpServer
