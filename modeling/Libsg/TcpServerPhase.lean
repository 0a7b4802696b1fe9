/-
# The phases of a `tcp_server` whose `start()` calls succeed

`Control` is what `m_running`, `m_stop_in_operation`, the pool's flags, the calls of
`start()` and the stop threads say about where a server is; sessions and listeners do
not enter.  A server is off, or one `start()` is on its way, or it is up, or one stop
thread takes it down, and every step leads from one of these to itself or the next
(`Phase.step`).
-/
import Libsg.TcpServerRegistry

open TransitionSystem

namespace TcpServer

/-! ## Histories without a failing `start()` -/

/-- A step of `start()` throws. -/
def Server.startFails (s : Server) : Action → Bool
  | .caller t .fail => match s.callers t with
    | .startId _ | .startContext | .startBind | .startSpawn | .inStartedListening | .startWorkers
    | .startMonitor => true
    | _ => false
  | .caller t .ok => decide (s.callers t = .startBind)
  | _ => false

/-- No step of `start()` throws. -/
def startsSucceed (s : Server) (a : Action) : Prop := s.startFails a = false

instance (s : Server) (a : Action) : Decidable (startsSucceed s a) :=
  inferInstanceAs (Decidable (_ = _))

/-! ## The control of a server -/

/-- `start()` has set `m_running`, and has not returned. -/
def CallPc.starting : CallPc → Bool
  | .idle | .startExchange _ | .stopLock | .stopJoin _ => false
  | _ => true

/-- The stop thread is at work. -/
def StopperPc.live : StopperPc → Bool
  | .unborn | .finished => false
  | _ => true

/-- The monitor has joined the workers. -/
def MonitorPc.joined : MonitorPc → Bool
  | .unborn | .joining => false
  | _ => true

structure Control where
  running : Bool
  stopInOperation : Bool
  hasContext : Bool
  cycleActive : Bool
  contextStopped : Bool
  workers : Bool
  monitor : MonitorPc
  callers : Tid → CallPc
  stoppers : ℕ → StopperPc

def Server.control (s : Server) : Control where
  running := s.running
  stopInOperation := s.stopInOperation
  hasContext := s.hasContext
  cycleActive := s.cycleActive
  contextStopped := s.contextStopped
  workers := s.workers
  monitor := s.monitor
  callers := s.callers
  stoppers := s.stoppers

namespace Control

/-- No cycle of a pool is going on. -/
structure Resting (c : Control) : Prop where
  cycle : c.cycleActive = false
  workers : c.workers = false
  monitor : c.monitor = .unborn ∨ c.monitor = .finished

/-- A pool is there with its monitor, which goes before the cycle flag falls. -/
structure Ready (c : Control) : Prop where
  hasContext : c.hasContext = true
  born : c.monitor ≠ .unborn
  cycle : c.cycleActive = true ↔ c.monitor ≠ .finished
  joined : c.monitor.joined = true → c.contextStopped = true ∧ c.workers = false

/-- What `start()` finds where it is. -/
def At (c : Control) : CallPc → Prop
  | .startLock _ | .startReset _ => c.stopInOperation = true ∧ c.Resting
  | .startId _ | .startClear | .startContext => c.stopInOperation = false ∧ c.Resting
  | .startBind | .startSpawn | .invokeStartedListening | .inStartedListening | .startWorkers =>
    c.stopInOperation = false ∧ c.Resting ∧ c.hasContext = true ∧ c.contextStopped = false ∧
      c.monitor = .unborn
  | .startMonitor =>
    c.stopInOperation = false ∧ c.hasContext = true ∧ c.monitor = .unborn ∧ c.cycleActive = true
  | _ => False

structure Off (c : Control) : Prop where
  running : c.running = false
  stop : c.stopInOperation = true
  resting : c.Resting
  callers : ∀ t, (c.callers t).starting = false
  stoppers : ∀ k, (c.stoppers k).live = false

/-- Thread `t` is inside `start()`. -/
structure Starting (c : Control) (t : Tid) : Prop where
  running : c.running = true
  place : c.At (c.callers t)
  callers : ∀ u, u ≠ t → (c.callers u).starting = false
  stoppers : ∀ k, (c.stoppers k).live = false

structure Up (c : Control) : Prop where
  running : c.running = true
  stop : c.stopInOperation = false
  ready : c.Ready
  callers : ∀ t, (c.callers t).starting = false
  stoppers : ∀ k, (c.stoppers k).live = false

/-- Stop thread `k` is at work. -/
structure Stopping (c : Control) (k : ℕ) : Prop where
  running : c.running = true
  stop : c.stopInOperation = true
  ready : c.Ready
  callers : ∀ t, (c.callers t).starting = false
  live : (c.stoppers k).live = true
  stoppers : ∀ j, j ≠ k → (c.stoppers j).live = false
  store : c.stoppers k = .storeRunning → c.cycleActive = false

/-- **The phases.** -/
inductive Phase (c : Control) : Prop
  | off (h : c.Off)
  | starting (t : Tid) (h : c.Starting t)
  | up (h : c.Up)
  | stopping (k : ℕ) (h : c.Stopping k)

/-! ## What the phases exclude -/

variable {c : Control}

theorem not_at_of_not_starting {pc : CallPc} (h : pc.starting = false) : ¬c.At pc := by
  cases pc <;> first | exact id | cases h

/-- Whoever is inside `start()` is the one the phase names. -/
theorem Phase.of_starting (h : c.Phase) {t : Tid} (ht : (c.callers t).starting = true) :
    c.Starting t := by
  have hother (hnone : (c.callers t).starting = false) : c.Starting t := by
    rw [ht] at hnone
    cases hnone
  cases h with
  | off h => exact hother (h.callers t)
  | starting u h =>
    by_cases htu : t = u
    · exact htu ▸ h
    · exact hother (h.callers t htu)
  | up h => exact hother (h.callers t)
  | stopping k h => exact hother (h.callers t)

/-- A stop thread at work is the one the phase names. -/
theorem Phase.of_live (h : c.Phase) {k : ℕ} (hk : (c.stoppers k).live = true) : c.Stopping k := by
  have hother (hnone : (c.stoppers k).live = false) : c.Stopping k := by
    rw [hk] at hnone
    cases hnone
  cases h with
  | off h => exact hother (h.stoppers k)
  | starting u h => exact hother (h.stoppers k)
  | up h => exact hother (h.stoppers k)
  | stopping j h =>
    by_cases hkj : k = j
    · exact hkj ▸ h
    · exact hother (h.stoppers k hkj)

/-- While `m_running` is false the server is off. -/
theorem Phase.of_not_running (h : c.Phase) (hrun : c.running = false) : c.Off := by
  have hother (hno : c.running = true) : c.Off := by
    rw [hrun] at hno
    cases hno
  cases h with
  | off h => exact h
  | starting t h => exact hother h.running
  | up h => exact hother h.running
  | stopping k h => exact hother h.running

/-- The monitor at work is that of a server that is up or being taken down. -/
theorem Phase.of_monitor (h : c.Phase) (hborn : c.monitor ≠ .unborn)
    (hlive : c.monitor ≠ .finished) : c.Up ∨ ∃ k, c.Stopping k := by
  have hrest (hr : c.Resting) : c.Up ∨ ∃ k, c.Stopping k := by
    rcases hr.monitor with hno | hno
    · exact absurd hno hborn
    · exact absurd hno hlive
  cases h with
  | off h => exact hrest h.resting
  | starting t h =>
    have hplace := h.place
    cases hpc : c.callers t <;> rw [hpc] at hplace <;>
      first
        | exact hplace.elim
        | exact hrest hplace.2
        | exact hrest hplace.2.1
        | exact absurd hplace.2.2.1 hborn
  | up h => exact .inl h
  | stopping k h => exact .inr ⟨k, h⟩

/-! ## From phase to phase -/

variable {c' : Control}

theorem Resting.same (h : c.Resting) (hcycle : c'.cycleActive = c.cycleActive)
    (hworkers : c'.workers = c.workers) (hmonitor : c'.monitor = c.monitor) : c'.Resting :=
  ⟨hcycle.trans h.cycle, hworkers.trans h.workers, hmonitor ▸ h.monitor⟩

theorem Ready.same (h : c.Ready) (hcontext : c'.hasContext = c.hasContext)
    (hcycle : c'.cycleActive = c.cycleActive) (hworkers : c'.workers = c.workers)
    (hmonitor : c'.monitor = c.monitor)
    (hstopped : c.contextStopped = true → c'.contextStopped = true) : c'.Ready := by
  refine ⟨hcontext.trans h.hasContext, hmonitor ▸ h.born, ?_, fun hjoined => ?_⟩
  · rw [hcycle, hmonitor]
    exact h.cycle
  · obtain ⟨hold, hnone⟩ := h.joined (hmonitor ▸ hjoined)
    exact ⟨hstopped hold, hworkers.trans hnone⟩

theorem ready_of_up (h : c.Up ∨ ∃ k, c.Stopping k) : c.Ready := by
  rcases h with h | ⟨k, h⟩
  · exact h.ready
  · exact h.ready

/-- The monitor moves on in its cycle. -/
theorem Ready.monitor (h : c.Ready) (hlive : c.monitor ≠ .finished)
    (hcontext : c'.hasContext = c.hasContext) (hcycle : c'.cycleActive = c.cycleActive)
    (hborn : c'.monitor ≠ .unborn) (hlive' : c'.monitor ≠ .finished)
    (hjoined : c'.contextStopped = true ∧ c'.workers = false) : c'.Ready := by
  refine ⟨hcontext.trans h.hasContext, hborn, ?_, fun _ => hjoined⟩
  rw [hcycle]
  exact ⟨fun _ => hlive', fun _ => h.cycle.mpr hlive⟩

/-- A call outside `start()` moves on outside it. -/
theorem Phase.call (h : c.Phase) {t : Tid} {pc : CallPc} (hold : (c.callers t).starting = false)
    (hnew : pc.starting = false) : { c with callers := Function.update c.callers t pc }.Phase := by
  have hcallers {u : Tid} (hu : (c.callers u).starting = false) :
      (Function.update c.callers t pc u).starting = false := by
    by_cases hut : u = t
    · rw [hut, Function.update_self]
      exact hnew
    · rw [Function.update_of_ne hut]
      exact hu
  cases h with
  | off h =>
    exact .off ⟨h.running, h.stop, h.resting.same rfl rfl rfl, fun u => hcallers (h.callers u),
      h.stoppers⟩
  | starting u h =>
    have hut : u ≠ t := by
      rintro rfl
      exact not_at_of_not_starting hold h.place
    refine .starting u ⟨h.running, ?_, fun v hv => hcallers (h.callers v hv), h.stoppers⟩
    show Control.At _ (Function.update c.callers t pc u)
    have hplace := h.place
    rw [Function.update_of_ne hut]
    cases hpc : c.callers u <;> rw [hpc] at hplace <;>
      first
        | exact hplace.elim
        | exact ⟨hplace.1, hplace.2.same rfl rfl rfl⟩
        | exact ⟨hplace.1, hplace.2.1.same rfl rfl rfl, hplace.2.2⟩
        | exact hplace
  | up h =>
    exact .up ⟨h.running, h.stop, h.ready.same rfl rfl rfl rfl id, fun u => hcallers (h.callers u),
      h.stoppers⟩
  | stopping k h =>
    exact .stopping k ⟨h.running, h.stop, h.ready.same rfl rfl rfl rfl id,
      fun u => hcallers (h.callers u), h.live, h.stoppers, h.store⟩

/-- `start()` takes a server that is off. -/
theorem Off.takes (h : c.Off) {t : Tid} {eps : List EndPoint} :
    { c with running := true, callers := Function.update c.callers t (.startLock eps) }.Phase := by
  refine .starting t ⟨rfl, ?_, fun u hu => ?_, h.stoppers⟩
  · show Control.At _ (Function.update c.callers t (.startLock eps) t)
    rw [Function.update_self]
    exact ⟨h.stop, h.resting.same rfl rfl rfl⟩
  · show (Function.update c.callers t (.startLock eps) u).starting = false
    rw [Function.update_of_ne hu]
    exact h.callers u

/-- `start()` returns, with a monitor that joins. -/
theorem Starting.returns {t : Tid} (h : c.Starting t) (hplace : c.At .startMonitor) :
    { c with monitor := .joining, callers := Function.update c.callers t .idle }.Phase := by
  obtain ⟨hstop, hcontext, -, hcycle⟩ := hplace
  have hready : { c with
      monitor := .joining, callers := Function.update c.callers t .idle }.Ready := by
    refine ⟨hcontext, nofun, ?_, nofun⟩
    constructor
    · intro _
      nofun
    · intro _
      exact hcycle
  refine .up ⟨h.running, hstop, hready, fun u => ?_, h.stoppers⟩
  show (Function.update c.callers t .idle u).starting = false
  by_cases hut : u = t
  · rw [hut, Function.update_self]
    rfl
  · rw [Function.update_of_ne hut]
    exact h.callers u hut

/-- `stop_async()` creates stop thread `k`. -/
theorem Up.stops (h : c.Up) {t : Tid} {k : ℕ} :
    { c with stopInOperation := true, callers := Function.update c.callers t (.stopJoin k),
             stoppers := Function.update c.stoppers k .closeAcceptors }.Phase := by
  refine .stopping k ⟨h.running, rfl, h.ready.same rfl rfl rfl rfl id, fun u => ?_, ?_,
    fun j hj => ?_, ?_⟩
  · show (Function.update c.callers t (.stopJoin k) u).starting = false
    by_cases hut : u = t
    · rw [hut, Function.update_self]
      rfl
    · rw [Function.update_of_ne hut]
      exact h.callers u
  · show (Function.update c.stoppers k .closeAcceptors k).live = true
    rw [Function.update_self]
    rfl
  · show (Function.update c.stoppers k .closeAcceptors j).live = false
    rw [Function.update_of_ne hj]
    exact h.stoppers j
  · show Function.update c.stoppers k .closeAcceptors k = .storeRunning → _
    rw [Function.update_self]
    nofun

/-- The stop thread ends. -/
theorem Stopping.ends {k : ℕ} (h : c.Stopping k) (hpc : c.stoppers k = .storeRunning) :
    { c with running := false, stoppers := Function.update c.stoppers k .finished }.Phase := by
  have hcycle := h.store hpc
  have hmonitor : c.monitor = .finished := by
    by_contra hne
    rw [h.ready.cycle.mpr hne] at hcycle
    cases hcycle
  refine .off ⟨rfl, h.stop, ⟨hcycle, (h.ready.joined (by rw [hmonitor]; rfl)).2, .inr hmonitor⟩,
    h.callers, fun j => ?_⟩
  show (Function.update c.stoppers k .finished j).live = false
  by_cases hj : j = k
  · rw [hj, Function.update_self]
    rfl
  · rw [Function.update_of_ne hj]
    exact h.stoppers j hj

/-- `start()` moves on. -/
theorem Starting.moves {t : Tid} (h : c.Starting t) {pc : CallPc}
    (hcallers : c'.callers = Function.update c.callers t pc) (hrunning : c'.running = c.running)
    (hstoppers : c'.stoppers = c.stoppers) (hplace : c'.At pc) : c'.Phase := by
  refine .starting t ⟨hrunning.trans h.running, ?_, fun u hu => ?_, ?_⟩
  · rw [hcallers, Function.update_self]
    exact hplace
  · rw [hcallers, Function.update_of_ne hu]
    exact h.callers u hu
  · rw [hstoppers]
    exact h.stoppers

/-- The stop thread moves on. -/
theorem Stopping.moves {k : ℕ} (h : c.Stopping k) {pc : StopperPc}
    (hstoppers : c'.stoppers = Function.update c.stoppers k pc) (hrunning : c'.running = c.running)
    (hstop : c'.stopInOperation = c.stopInOperation) (hcallers : c'.callers = c.callers)
    (hready : c'.Ready) (hlive : pc.live = true)
    (hstore : pc = .storeRunning → c'.cycleActive = false) : c'.Phase := by
  refine .stopping k ⟨hrunning.trans h.running, hstop.trans h.stop, hready, ?_, ?_, fun j hj => ?_,
    ?_⟩
  · rw [hcallers]
    exact h.callers
  · rw [hstoppers, Function.update_self]
    exact hlive
  · rw [hstoppers, Function.update_of_ne hj]
    exact h.stoppers j hj
  · rw [hstoppers, Function.update_self]
    exact hstore

/-- The pool moves on. -/
theorem Phase.pool (h : c.Up ∨ ∃ k, c.Stopping k) (hready : c'.Ready)
    (hrunning : c'.running = c.running) (hstop : c'.stopInOperation = c.stopInOperation)
    (hcallers : c'.callers = c.callers) (hstoppers : c'.stoppers = c.stoppers)
    (hcycle : c.cycleActive = false → c'.cycleActive = false) : c'.Phase := by
  rcases h with h | ⟨k, h⟩
  · refine .up ⟨hrunning.trans h.running, hstop.trans h.stop, hready, ?_, ?_⟩
    · rw [hcallers]
      exact h.callers
    · rw [hstoppers]
      exact h.stoppers
  · refine .stopping k ⟨hrunning.trans h.running, hstop.trans h.stop, hready, ?_, ?_, ?_, ?_⟩
    · rw [hcallers]
      exact h.callers
    · rw [hstoppers]
      exact h.live
    · rw [hstoppers]
      exact h.stoppers
    · rw [hstoppers]
      exact fun hpc => hcycle (h.store hpc)

/-- The context runs out of work, which it does not before it has workers. -/
theorem Phase.drain (h : c.Phase) (hworkers : c.workers = true) :
    { c with contextStopped := true }.Phase := by
  cases h with
  | off h => exact .off ⟨h.running, h.stop, h.resting.same rfl rfl rfl, h.callers, h.stoppers⟩
  | starting t h =>
    have hbusy (hr : c.Resting) : False := by
      rw [hr.workers] at hworkers
      cases hworkers
    have hplace := h.place
    refine .starting t ⟨h.running, ?_, h.callers, h.stoppers⟩
    show Control.At _ (c.callers t)
    cases hpc : c.callers t <;> rw [hpc] at hplace <;>
      first
        | exact hplace.elim
        | exact (hbusy hplace.2).elim
        | exact (hbusy hplace.2.1).elim
        | exact hplace
  | up h =>
    exact Phase.pool (.inl h) (h.ready.same rfl rfl rfl rfl fun _ => rfl) rfl rfl rfl rfl id
  | stopping k h =>
    exact Phase.pool (.inr ⟨k, h⟩) (h.ready.same rfl rfl rfl rfl fun _ => rfl) rfl rfl rfl rfl id

end Control

section Step

variable {o : TcpSession.Options} {s s' : Server} {a : Action} {es : List Event}

open Control

/-- What concerns neither `start()` nor `stop_async()` nor the pool. -/
theorem Control.Phase.quiet (h : s.control.Phase) (hsame : s'.control = s.control) :
    s'.control.Phase :=
  hsame ▸ h

/-- No step leads into the catch block. -/
theorem not_startFails {t : Tid} {ch : StartChoice} (hC : startsSucceed s (.caller t ch))
    (hpc : ch = .fail ∧ ((s.callers t).canFail = true ∨ s.callers t = .startWorkers ∨
        s.callers t = .startMonitor) ∨ ch = .ok ∧ s.callers t = .startBind) : False := by
  have hfails : s.startFails (.caller t ch) = false := hC
  rcases hpc with ⟨rfl, hpc⟩ | ⟨rfl, hpc⟩
  · cases hcaller : s.callers t <;> simp [hcaller, CallPc.canFail, Server.startFails] at hpc hfails
  · simp [Server.startFails, hpc] at hfails

/-- Who is at a place of `start()` finds what `At` says. -/
theorem Control.Phase.at (h : s.control.Phase) {t : Tid} {pc : CallPc} (hpc : s.callers t = pc)
    (hstarting : pc.starting = true) : s.control.Starting t ∧ s.control.At pc := by
  have hstart := h.of_starting (t := t) (by show (s.callers t).starting = true; rw [hpc, hstarting])
  refine ⟨hstart, ?_⟩
  have hplace : s.control.At (s.callers t) := hstart.place
  rwa [hpc] at hplace

/-- There is no pool to destroy whose cycle is going on. -/
theorem Control.Phase.cycle_over (h : s.control.Phase) {t : Tid}
    (hpc : s.callers t = .startContext ∨ s.callers t = .catchReset) : s.cycleActive = false := by
  rcases hpc with hpc | hpc
  · exact (h.at hpc rfl).2.2.cycle
  · exact (h.at hpc rfl).2.elim

/-- Who has not been locked out finds a server that is up. -/
theorem Control.Phase.up_of_free (h : s.control.Phase) (hl : LockInv s) (hfree : s.mutex = none)
    (hstop : s.stopInOperation = false) : s.control.Up := by
  have hset (hno : s.stopInOperation = true) : s.control.Up := by
    rw [hstop] at hno
    cases hno
  cases h with
  | off h => exact hset h.stop
  | starting t h =>
    have hplace : s.control.At (s.callers t) := h.place
    have hlocked := hl.free hfree t
    cases hpc : s.callers t <;> rw [hpc] at hplace hlocked <;>
      first
        | exact hplace.elim
        | exact hset hplace.1
        | cases hlocked
  | up h => exact h
  | stopping k h => exact hset h.stop

/-- A listener is not inside `start()` when it is about to call `stop_async()`. -/
theorem WaitInv.not_starting (h : WaitInv s) {l : ℕ} (hpc : (s.listeners l).pc ≠ .stopping) :
    (s.callers (.listener l)).starting = false := by
  have hidle : s.callers (.listener l) = .idle := by
    by_contra hcall
    exact hpc (h l hcall)
  rw [hidle]
  rfl

/-- **Every step leads from phase to phase.** -/
theorem Control.Phase.step (h : s.control.Phase) (hl : LockInv s) (hw : WaitInv s)
    (hC : startsSucceed s a) (hm : Move o s a es s') : s'.control.Phase := by
  have hcall {t : Tid} {pc pc' : CallPc} (hpc : s.callers t = pc) (hold : pc.starting = false)
      (hnew : pc'.starting = false) : (s.setCaller t pc').control.Phase :=
    h.call (t := t) (by show (s.callers t).starting = false; rw [hpc, hold]) hnew
  have hstops {k : ℕ} {pc : StopperPc} (hpc : s.stoppers k = pc) (hlive : pc.live = true) :
      s.control.Stopping k :=
    h.of_live (by show (s.stoppers k).live = true; rw [hpc, hlive])
  have hmonitor {pc : MonitorPc} (hpc : s.monitor = pc) (hborn : pc ≠ .unborn)
      (hlive : pc ≠ .finished) :
      (s.control.Up ∨ ∃ k, s.control.Stopping k) ∧ s.control.monitor ≠ .finished := by
    have hne : s.control.monitor ≠ .finished := fun hno => hlive (hpc.symm.trans hno)
    exact ⟨h.of_monitor (fun hno => hborn (hpc.symm.trans hno)) hne, hne⟩
  cases hm with
  | callStart n eps hpc => exact hcall hpc rfl rfl
  | callStop n hpc => exact hcall hpc rfl rfl
  | startBusy t eps hpc hrun => exact hcall hpc rfl rfl
  | startTakes t eps hpc hrun => exact (h.of_not_running hrun).takes
  | startLocks t eps hpc hfree =>
    obtain ⟨hstart, hplace⟩ := h.at hpc rfl
    exact hstart.moves rfl rfl rfl ⟨hplace.1, hplace.2.same rfl rfl rfl⟩
  | startResets t eps hpc =>
    obtain ⟨hstart, hplace⟩ := h.at hpc rfl
    exact hstart.moves rfl rfl rfl ⟨rfl, hplace.2.same rfl rfl rfl⟩
  | startIds t ch eps hpc ha hch =>
    obtain ⟨hstart, hplace⟩ := h.at hpc rfl
    exact hstart.moves rfl rfl rfl ⟨hplace.1, hplace.2.same rfl rfl rfl⟩
  | startClears t hpc =>
    obtain ⟨hstart, hplace⟩ := h.at hpc rfl
    exact hstart.moves rfl rfl rfl ⟨hplace.1, hplace.2.same rfl rfl rfl⟩
  | startFails t ch hpc ha hch =>
    subst ha
    exfalso
    rcases hch with rfl | ⟨hbind, hne⟩
    · exact not_startFails hC (.inl ⟨rfl, .inl hpc⟩)
    · cases ch with
      | ok => exact not_startFails hC (.inr ⟨rfl, hbind⟩)
      | fail => exact not_startFails hC (.inl ⟨rfl, .inl hpc⟩)
      | bound eps => exact hne eps rfl
  | destroys t hpc hcontext hactive hlive =>
    rw [h.cycle_over hpc] at hactive
    cases hactive
  | startCreates t hpc hover =>
    obtain ⟨hstart, hplace⟩ := h.at hpc rfl
    exact hstart.moves rfl rfl rfl
      ⟨hplace.1, ⟨hplace.2.cycle, rfl, .inl rfl⟩, rfl, rfl, rfl⟩
  | startBinds t eps hpc hlen =>
    obtain ⟨hstart, hplace⟩ := h.at hpc rfl
    exact hstart.moves rfl rfl rfl
      ⟨hplace.1, hplace.2.1.same rfl rfl rfl, hplace.2.2⟩
  | startSpawns t hpc =>
    obtain ⟨hstart, hplace⟩ := h.at hpc rfl
    exact hstart.moves rfl rfl rfl
      ⟨hplace.1, hplace.2.1.same rfl rfl rfl, hplace.2.2⟩
  | startInvokes t hpc =>
    obtain ⟨hstart, hplace⟩ := h.at hpc rfl
    exact hstart.moves rfl rfl rfl
      ⟨hplace.1, hplace.2.1.same rfl rfl rfl, hplace.2.2⟩
  | startInvoked t hpc =>
    obtain ⟨hstart, hplace⟩ := h.at hpc rfl
    exact hstart.moves rfl rfl rfl
      ⟨hplace.1, hplace.2.1.same rfl rfl rfl, hplace.2.2⟩
  | startWorks t hpc =>
    obtain ⟨hstart, hplace⟩ := h.at hpc rfl
    exact hstart.moves rfl rfl rfl
      ⟨hplace.1, hplace.2.2.1, hplace.2.2.2.2, rfl⟩
  | startReturns t hpc =>
    obtain ⟨hstart, hplace⟩ := h.at hpc rfl
    exact hstart.returns hplace
  | workersFail t hpc ha =>
    subst ha
    exact (not_startFails hC (.inl ⟨rfl, .inr (.inl hpc)⟩)).elim
  | monitorFails t hpc ha =>
    subst ha
    exact (not_startFails hC (.inl ⟨rfl, .inr (.inr hpc)⟩)).elim
  | runStops t hpc => exact (h.at hpc rfl).2.elim
  | runJoins t hpc hidle => exact (h.at hpc rfl).2.elim
  | catchResets t hpc hover => exact (h.at hpc rfl).2.elim
  | catchStores t hpc => exact (h.at hpc rfl).2.elim
  | stopIgnored t hpc hfree hstop => exact hcall hpc rfl rfl
  | stopBegins t hpc hfree hstop => exact (h.up_of_free hl hfree hstop).stops
  | stopEnds t k hpc hjoin => exact hcall hpc rfl rfl
  | stopperPosts k hpc hlive | stopperCloses k hpc hdead | stopperAwaits k hpc hlive
  | stopperSkips k hpc hdead | listenersGone k hpc hnone | stopperCopies k hpc
  | stopperStops k i todo hpc | stopperStopped k i todo hpc hret | stopperWaits k hpc
  | sessionsGone k hpc hnone =>
    have hstopping := hstops hpc rfl
    exact hstopping.moves rfl rfl rfl rfl (hstopping.ready.same rfl rfl rfl rfl id) rfl nofun
  | stopperStopsContext k hpc hcontext =>
    have hstopping := hstops hpc rfl
    refine hstopping.moves rfl rfl rfl rfl
      (hstopping.ready.same rfl rfl rfl rfl fun hset => ?_) rfl nofun
    show (s.contextStopped || s.cycleActive) = true
    rw [show s.contextStopped = true from hset, Bool.true_or]
  | stopperNoContext k hpc hcontext =>
    have hthere : s.hasContext = true := (hstops hpc rfl).ready.hasContext
    rw [hcontext] at hthere
    cases hthere
  | contextGone k hpc hover =>
    have hstopping := hstops hpc rfl
    exact hstopping.moves rfl rfl rfl rfl
      (hstopping.ready.same rfl rfl rfl rfl id) rfl fun _ => hover
  | stopperEnds k hpc => exact (hstops hpc rfl).ends hpc
  | listenerStops l hlive hpc =>
    exact h.call (t := .listener l) (hw.not_starting (by rw [hpc]; nofun)) rfl
  | drain ha hcontext hworkers hlive hout => exact h.drain hworkers
  | monitorJoins hpc hstop hidle =>
    obtain ⟨hup, hlive⟩ := hmonitor hpc nofun nofun
    exact Phase.pool hup ((ready_of_up hup).monitor hlive rfl rfl nofun nofun ⟨hstop, rfl⟩) rfl rfl
      rfl rfl id
  | monitorInvokes hpc =>
    obtain ⟨hup, hlive⟩ := hmonitor hpc nofun nofun
    have hjoined := (ready_of_up hup).joined (by show s.monitor.joined = true; rw [hpc]; rfl)
    exact Phase.pool hup ((ready_of_up hup).monitor hlive rfl rfl nofun nofun hjoined) rfl rfl rfl rfl
      id
  | monitorInvoked hpc =>
    obtain ⟨hup, hlive⟩ := hmonitor hpc nofun nofun
    have hjoined := (ready_of_up hup).joined (by show s.monitor.joined = true; rw [hpc]; rfl)
    exact Phase.pool hup ((ready_of_up hup).monitor hlive rfl rfl nofun nofun hjoined) rfl rfl rfl rfl
      id
  | monitorPublishes hpc =>
    obtain ⟨hup, hlive⟩ := hmonitor hpc nofun nofun
    have hready := ready_of_up hup
    have hjoined := hready.joined (by show s.monitor.joined = true; rw [hpc]; rfl)
    refine Phase.pool hup ⟨hready.hasContext, nofun, ?_, fun _ => hjoined⟩ rfl rfl rfl rfl
      fun _ => rfl
    show false = true ↔ MonitorPc.finished ≠ .finished
    simp
  | _ => exact h.quiet rfl

end Step

theorem phase {C : Server → Action → Prop} {o : TcpSession.Options} {tr : List Event} {s : Server}
    (hC : ∀ s a, C s a → startsSucceed s a) (h : (system o).Run C tr s) : s.control.Phase := by
  refine invariant_of_moves (I := fun _ s => s.control.Phase) ?_ ?_ h
  · exact .off ⟨rfl, rfl, ⟨rfl, rfl, .inl rfl⟩, fun _ => rfl, fun _ => rfl⟩
  · intro tr s a es s' hrun hCa hm ih
    exact ih.step (lockInv hrun) (waitInv hrun) (hC s a hCa) hm

end TcpServer
