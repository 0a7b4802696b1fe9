/-
# The io pool

`asio_io_pool.cpp` with any number of threads calling `run()`, `stop_async()`,
`wait_for_stop()` and `restart()`: threads of the user, workers inside a handler, and
monitors inside the stopped callback.  Every load, store, lock and thread creation is
a step of its own.  The `io_context` is its stopped flag, which anybody may raise (the
context runs out of work, or the user stops it) and only `run()` lowers; a worker runs
handlers while the flag is down and leaves `io_context::run()` when it is up.  A
stopped callback that is not set is one that does nothing.

A monitor is known by its number, which is that of its cycle.
-/
import Libsg.TransitionSystem
import Mathlib.Logic.Function.Basic
import Mathlib.Tactic.Common

open TransitionSystem

namespace AsioIoPool

/-! ## The state -/

/-- `create()` never makes a pool without workers. -/
structure Config where
  noWorkers : ℕ
  guardEnabled : Bool
  pos : 0 < noWorkers

inductive Tid
  | user (n : ℕ)
  | worker (w : ℕ)
  | monitor (k : ℕ)
  deriving DecidableEq, Repr

/-- Where a call is; `restart` says that the call is made by `restart()`. -/
inductive CallPc
  | idle
  -- `run()`
  | runCheck
  | runLock
  | runLoad
  | runStopped
  | runRefuse
  | runWait
  | runRestart
  | runGuard
  | runActivate
  | runSpawn (i : ℕ)
  | runMonitor
  | runAssign (k : ℕ)
  | runReturn (k : ℕ)
  | catchGuard
  | catchStop
  | catchJoin
  | catchDeactivate
  | catchThrow
  -- `stop_async()`
  | stopLock (restart : Bool)
  | stopLoad (restart : Bool)
  | stopGuard (restart : Bool)
  | stopContext (restart : Bool)
  | stopUnlock (restart : Bool)
  -- `wait_for_stop()`
  | waitCheck (restart : Bool)
  | waitLoop (restart : Bool)
  deriving DecidableEq, Repr

inductive WorkerPc
  | unborn
  | inRun
  | inHandler
  | finished
  deriving DecidableEq, Repr

inductive MonitorPc
  | unborn
  | joining
  | storeId
  | toCall
  | inCallback
  | clearId
  | deactivate
  | ended
  | finished
  deriving DecidableEq, Repr

structure State where
  mutex : Option Tid
  cycleActive : Bool
  /-- `m_context.stopped()`. -/
  stopped : Bool
  guard : Bool
  /-- `m_workers`. -/
  workers : List ℕ
  workerCount : ℕ
  workerPc : ℕ → WorkerPc
  monitorCount : ℕ
  monitorPc : ℕ → MonitorPc
  /-- The thread `m_cb_thread` owns. -/
  cbThread : Option ℕ
  cbThreadId : Option Tid
  callers : Tid → CallPc

namespace State

def setCaller (s : State) (t : Tid) (pc : CallPc) : State :=
  { s with callers := Function.update s.callers t pc }

def setWorker (s : State) (w : ℕ) (pc : WorkerPc) : State :=
  { s with workerPc := Function.update s.workerPc w pc }

def setMonitor (s : State) (k : ℕ) (pc : MonitorPc) : State :=
  { s with monitorPc := Function.update s.monitorPc k pc }

end State

inductive Event
  /-- `run()` has stored that a cycle is active. -/
  | began
  /-- The monitor of cycle `k` is there. -/
  | spawned (k : ℕ)
  | callback (k : ℕ)
  | callbackEnded (k : ℕ)
  /-- The monitor has stored that no cycle is active. -/
  | ended (k : ℕ)
  /-- A `run()` that fails has stored that no cycle is active. -/
  | failed
  | ran (t : Tid) (k : ℕ)
  /-- `run()` has seen an active cycle, and now that its context is not stopped. -/
  | sawLive (t : Tid)
  | refused (t : Tid)
  | threw (t : Tid)
  | waited (t : Tid)
  deriving DecidableEq, Repr

inductive Call
  | run
  | stopAsync
  | waitForStop
  | restart
  deriving DecidableEq, Repr

inductive Action
  | call (t : Tid) (c : Call)
  /-- The next step of a call; `ok` is false when an allocation or a thread creation fails. -/
  | caller (t : Tid) (ok : Bool)
  | handlerBegins (w : ℕ)
  | handlerEnds (w : ℕ)
  | workerExits (w : ℕ)
  | monitor (k : ℕ)
  /-- The context runs out of work. -/
  | drains
  /-- The user stops the context. -/
  | contextStops
  deriving DecidableEq, Repr

/-! ## The functions -/

/-- Who can make a call now. -/
def State.mayCall (s : State) : Tid → Bool
  | .user _ => true
  | .worker w => s.workerPc w = .inHandler
  | .monitor k => s.monitorPc k = .inCallback

def Call.entry : Call → CallPc
  | .run => .runCheck
  | .stopAsync => .stopLock false
  | .waitForStop => .waitCheck false
  | .restart => .stopLock true

/-- The next step of a call. -/
def callerStep (C : Config) (s : State) (t : Tid) (ok : Bool) : Option (State × List Event) :=
  match s.callers t with
  | .idle => none
  | .runCheck =>
    if s.cbThreadId = some t then some (s.setCaller t .idle, [.threw t])
    else some (s.setCaller t .runLock, [])
  | .runLock =>
    if s.mutex = none then some ({ s with mutex := some t }.setCaller t .runLoad, []) else none
  | .runLoad =>
    if s.cycleActive then some (s.setCaller t .runStopped, [])
    else some (s.setCaller t .runRestart, [])
  | .runStopped =>
    if s.stopped then some (s.setCaller t .runWait, [])
    else some (s.setCaller t .runRefuse, [.sawLive t])
  | .runRefuse => some ({ s with mutex := none }.setCaller t .idle, [.refused t])
  | .runWait => if s.cycleActive then none else some (s.setCaller t .runLoad, [])
  | .runRestart => some ({ s with stopped := false }.setCaller t .runGuard, [])
  | .runGuard =>
    some ({ s with guard := s.guard || C.guardEnabled }.setCaller t .runActivate, [])
  | .runActivate => some ({ s with cycleActive := true }.setCaller t (.runSpawn 0), [.began])
  | .runSpawn i =>
    if i < C.noWorkers then
      if ok then
        some (({ s with workers := s.workers ++ [s.workerCount],
                        workerCount := s.workerCount + 1 }.setWorker s.workerCount .inRun).setCaller
          t (.runSpawn (i + 1)), [])
      else some (s.setCaller t .catchGuard, [])
    else some (s.setCaller t .runMonitor, [])
  | .runMonitor =>
    if ok then
      some (({ s with monitorCount := s.monitorCount + 1 }.setMonitor s.monitorCount
        .joining).setCaller t (.runAssign s.monitorCount), [.spawned s.monitorCount])
    else some (s.setCaller t .catchGuard, [])
  | .runAssign k =>
    -- the thread that was owned is joined
    match s.cbThread with
    | none => some ({ s with cbThread := some k }.setCaller t (.runReturn k), [])
    | some j =>
      if s.monitorPc j = .finished then
        some ({ s with cbThread := some k }.setCaller t (.runReturn k), [])
      else none
  | .runReturn k => some ({ s with mutex := none }.setCaller t .idle, [.ran t k])
  | .catchGuard => some ({ s with guard := false }.setCaller t .catchStop, [])
  | .catchStop => some ({ s with stopped := true }.setCaller t .catchJoin, [])
  | .catchJoin =>
    if ∀ w ∈ s.workers, s.workerPc w = .finished then
      some ({ s with workers := [] }.setCaller t .catchDeactivate, [])
    else none
  | .catchDeactivate => some ({ s with cycleActive := false }.setCaller t .catchThrow, [.failed])
  | .catchThrow => some ({ s with mutex := none }.setCaller t .idle, [.threw t])
  | .stopLock r =>
    if s.mutex = none then some ({ s with mutex := some t }.setCaller t (.stopLoad r), []) else none
  | .stopLoad r =>
    if s.cycleActive then some (s.setCaller t (.stopGuard r), [])
    else some (s.setCaller t (.stopUnlock r), [])
  | .stopGuard r => some ({ s with guard := false }.setCaller t (.stopContext r), [])
  | .stopContext r => some ({ s with stopped := true }.setCaller t (.stopUnlock r), [])
  | .stopUnlock false => some ({ s with mutex := none }.setCaller t .idle, [])
  | .stopUnlock true => some ({ s with mutex := none }.setCaller t (.waitCheck true), [])
  | .waitCheck r =>
    if s.cbThreadId = some t then
      some (s.setCaller t (if r then .runCheck else .idle), [])
    else some (s.setCaller t (.waitLoop r), [])
  | .waitLoop r =>
    if s.cycleActive then none
    else some (s.setCaller t (if r then .runCheck else .idle), [.waited t])

/-- The next step of a monitor. -/
def monitorStep (s : State) (k : ℕ) : Option (State × List Event) :=
  match s.monitorPc k with
  | .joining =>
    if ∀ w ∈ s.workers, s.workerPc w = .finished then
      some ({ s with workers := [] }.setMonitor k .storeId, [])
    else none
  | .storeId => some ({ s with cbThreadId := some (.monitor k) }.setMonitor k .toCall, [])
  | .toCall => some (s.setMonitor k .inCallback, [.callback k])
  | .inCallback =>
    if s.callers (.monitor k) = .idle then some (s.setMonitor k .clearId, [.callbackEnded k])
    else none
  | .clearId => some ({ s with cbThreadId := none }.setMonitor k .deactivate, [])
  | .deactivate => some ({ s with cycleActive := false }.setMonitor k .ended, [.ended k])
  | .ended => some (s.setMonitor k .finished, [])
  | _ => none

def step (C : Config) (s : State) : Action → Option (State × List Event)
  | .call t c =>
    if s.callers t = .idle ∧ s.mayCall t then some (s.setCaller t c.entry, []) else none
  | .caller t ok => callerStep C s t ok
  | .handlerBegins w =>
    if s.workerPc w = .inRun ∧ s.stopped = false then some (s.setWorker w .inHandler, []) else none
  | .handlerEnds w =>
    if s.workerPc w = .inHandler ∧ s.callers (.worker w) = .idle then
      some (s.setWorker w .inRun, [])
    else none
  | .workerExits w =>
    if s.workerPc w = .inRun ∧ s.stopped = true then some (s.setWorker w .finished, []) else none
  | .monitor k => monitorStep s k
  | .drains => if s.guard = false then some ({ s with stopped := true }, []) else none
  | .contextStops => some ({ s with stopped := true }, [])

def system (C : Config) : TransitionSystem State Action Event where
  start :=
    { mutex := none
      cycleActive := false
      stopped := false
      guard := false
      workers := []
      workerCount := 0
      workerPc := fun _ => .unborn
      monitorCount := 0
      monitorPc := fun _ => .unborn
      cbThread := none
      cbThreadId := none
      callers := fun _ => .idle }
  step := step C

/-! ## What one step can do -/

/-- The steps of a call that change nothing but its place, the guard and `m_cb_thread`. -/
inductive CallPc.Advance (C : Config) (s : State) (t : Tid) : CallPc → CallPc → List Event → Prop
  | inCallback (h : s.cbThreadId = some t) : Advance C s t .runCheck .idle [.threw t]
  | outside (h : s.cbThreadId ≠ some t) : Advance C s t .runCheck .runLock []
  | active (h : s.cycleActive = true) : Advance C s t .runLoad .runStopped []
  | inactive (h : s.cycleActive = false) : Advance C s t .runLoad .runRestart []
  | winding (h : s.stopped = true) : Advance C s t .runStopped .runWait []
  | live (h : s.stopped = false) : Advance C s t .runStopped .runRefuse [.sawLive t]
  | over (h : s.cycleActive = false) : Advance C s t .runWait .runLoad []
  | guard : Advance C s t .runGuard .runActivate []
  | spawned (i : ℕ) (h : C.noWorkers ≤ i) : Advance C s t (.runSpawn i) .runMonitor []
  | spawnFails (i : ℕ) : Advance C s t (.runSpawn i) .catchGuard []
  | monitorFails : Advance C s t .runMonitor .catchGuard []
  | assigned (k : ℕ) : Advance C s t (.runAssign k) (.runReturn k) []
  | dropGuard : Advance C s t .catchGuard .catchStop []
  | stopActive (r : Bool) : Advance C s t (.stopLoad r) (.stopGuard r) []
  | stopInactive (r : Bool) : Advance C s t (.stopLoad r) (.stopUnlock r) []
  | stopGuard (r : Bool) : Advance C s t (.stopGuard r) (.stopContext r) []
  | waitInside : Advance C s t (.waitCheck false) .idle []
  | restartInside : Advance C s t (.waitCheck true) .runCheck []
  | waitOutside (r : Bool) : Advance C s t (.waitCheck r) (.waitLoop r) []
  | waited (h : s.cycleActive = false) : Advance C s t (.waitLoop false) .idle [.waited t]
  | restartWaited (h : s.cycleActive = false) : Advance C s t (.waitLoop true) .runCheck [.waited t]

/-- The steps of a call that take the lock. -/
inductive CallPc.Locks : CallPc → CallPc → Prop
  | run : Locks .runLock .runLoad
  | stop (r : Bool) : Locks (.stopLock r) (.stopLoad r)

/-- The steps of a call that release it. -/
inductive CallPc.Unlocks (t : Tid) : CallPc → CallPc → List Event → Prop
  | refuse : Unlocks t .runRefuse .idle [.refused t]
  | ran (k : ℕ) : Unlocks t (.runReturn k) .idle [.ran t k]
  | threw : Unlocks t .catchThrow .idle [.threw t]
  | stop : Unlocks t (.stopUnlock false) .idle []
  | restart : Unlocks t (.stopUnlock true) (.waitCheck true) []

/-- The steps of a monitor that change nothing but its place and `m_cb_thread_id`. -/
inductive MonitorPc.Advance (s : State) (k : ℕ) :
    MonitorPc → MonitorPc → Option Tid → List Event → Prop
  | storeId : Advance s k .storeId .toCall (some (.monitor k)) []
  | call : Advance s k .toCall .inCallback s.cbThreadId [.callback k]
  | returns (h : s.callers (.monitor k) = .idle) :
      Advance s k .inCallback .clearId s.cbThreadId [.callbackEnded k]
  | clearId : Advance s k .clearId .deactivate none []
  | exit : Advance s k .ended .finished s.cbThreadId []

/-- The steps of a worker. -/
inductive WorkerPc.Advance (s : State) (w : ℕ) : WorkerPc → WorkerPc → Prop
  | handlerBegins : Advance s w .inRun .inHandler
  | handlerEnds (h : s.callers (.worker w) = .idle) : Advance s w .inHandler .inRun
  | exits (h : s.stopped = true) : Advance s w .inRun .finished

/-- **What one step can do.** -/
inductive Move (C : Config) (s : State) : Action → List Event → State → Prop
  | enters (t : Tid) (c : Call) (hpc : s.callers t = .idle) (hmay : s.mayCall t = true) :
      Move C s (.call t c) [] (s.setCaller t c.entry)
  | advances {es : List Event} (t : Tid) (ok : Bool) (pc : CallPc) (g : Bool) (b : Option ℕ)
      (hpc : (s.callers t).Advance C s t pc es) :
      Move C s (.caller t ok) es ({ s with guard := g, cbThread := b }.setCaller t pc)
  | locks {a} (t : Tid) (pc : CallPc) (hpc : (s.callers t).Locks pc) (hfree : s.mutex = none) :
      Move C s a [] ({ s with mutex := some t }.setCaller t pc)
  | unlocks {a} {es : List Event} (t : Tid) (pc : CallPc) (hpc : (s.callers t).Unlocks t pc es) :
      Move C s a es ({ s with mutex := none }.setCaller t pc)
  | restarts {a} (t : Tid) (hpc : s.callers t = .runRestart) :
      Move C s a [] ({ s with stopped := false }.setCaller t .runGuard)
  | activates {a} (t : Tid) (hpc : s.callers t = .runActivate) :
      Move C s a [.began] ({ s with cycleActive := true }.setCaller t (.runSpawn 0))
  | spawns {a} (t : Tid) (i : ℕ) (hpc : s.callers t = .runSpawn i) (hlt : i < C.noWorkers) :
      Move C s a []
        (({ s with workers := s.workers ++ [s.workerCount], workerCount := s.workerCount + 1
          }.setWorker s.workerCount .inRun).setCaller t (.runSpawn (i + 1)))
  | creates {a} (t : Tid) (hpc : s.callers t = .runMonitor) :
      Move C s a [.spawned s.monitorCount]
        (({ s with monitorCount := s.monitorCount + 1 }.setMonitor s.monitorCount
          .joining).setCaller t (.runAssign s.monitorCount))
  | stops {a} (t : Tid) (r : Bool) (hpc : s.callers t = .stopContext r) :
      Move C s a [] ({ s with stopped := true }.setCaller t (.stopUnlock r))
  | catchStops (t : Tid) (ok : Bool) (hpc : s.callers t = .catchStop) :
      Move C s (.caller t ok) [] ({ s with stopped := true }.setCaller t .catchJoin)
  | catchJoins {a} (t : Tid) (hpc : s.callers t = .catchJoin)
      (hall : ∀ w ∈ s.workers, s.workerPc w = .finished) :
      Move C s a [] ({ s with workers := [] }.setCaller t .catchDeactivate)
  | catchDeactivates {a} (t : Tid) (hpc : s.callers t = .catchDeactivate) :
      Move C s a [.failed] ({ s with cycleActive := false }.setCaller t .catchThrow)
  | workerMoves {a} (w : ℕ) (pc : WorkerPc) (hpc : (s.workerPc w).Advance s w pc) :
      Move C s a [] (s.setWorker w pc)
  | joins {a} (k : ℕ) (hpc : s.monitorPc k = .joining)
      (hall : ∀ w ∈ s.workers, s.workerPc w = .finished) :
      Move C s a [] ({ s with workers := [] }.setMonitor k .storeId)
  | monitorMoves {a} {es : List Event} (k : ℕ) (pc : MonitorPc) (i : Option Tid)
      (hpc : (s.monitorPc k).Advance s k pc i es) :
      Move C s a es ({ s with cbThreadId := i }.setMonitor k pc)
  | deactivates {a} (k : ℕ) (hpc : s.monitorPc k = .deactivate) :
      Move C s a [.ended k] ({ s with cycleActive := false }.setMonitor k .ended)
  | contextStops {a} : Move C s a [] { s with stopped := true }

section StepMove

variable {C : Config} {s s' : State} {es : List Event}

/-- A step of a call that changes only its place, the guard and `m_cb_thread`. -/
theorem Move.advance {t : Tid} {ok : Bool} {pc pc' : CallPc} (hpc : s.callers t = pc)
    (h : pc.Advance C s t pc' es) (g : Bool) (b : Option ℕ) :
    Move C s (.caller t ok) es ({ s with guard := g, cbThread := b }.setCaller t pc') :=
  .advances t ok pc' g b (hpc ▸ h)

theorem callerStep_move {t : Tid} {ok : Bool} (h : callerStep C s t ok = some (s', es)) :
    Move C s (.caller t ok) es s' := by
  unfold callerStep at h
  split at h
  · cases h
  · next hpc =>
    split at h
    · next hid =>
      cases h
      exact .advance hpc (.inCallback hid) s.guard s.cbThread
    · next hid =>
      cases h
      exact .advance hpc (.outside hid) s.guard s.cbThread
  · next hpc =>
    split at h
    · next hfree =>
      cases h
      exact .locks t _ (hpc ▸ .run) hfree
    · cases h
  · next hpc =>
    split at h
    · next hactive =>
      cases h
      exact .advance hpc (.active hactive) s.guard s.cbThread
    · next hactive =>
      cases h
      exact .advance hpc (.inactive (by simpa using hactive)) s.guard s.cbThread
  · next hpc =>
    split at h
    · next hstopped =>
      cases h
      exact .advance hpc (.winding hstopped) s.guard s.cbThread
    · next hstopped =>
      cases h
      exact .advance hpc (.live (by simpa using hstopped)) s.guard s.cbThread
  · next hpc =>
    cases h
    exact .unlocks t _ (hpc ▸ .refuse)
  · next hpc =>
    split at h
    · cases h
    · next hactive =>
      cases h
      exact .advance hpc (.over (by simpa using hactive)) s.guard s.cbThread
  · next hpc =>
    cases h
    exact .restarts t hpc
  · next hpc =>
    cases h
    exact .advance hpc .guard _ s.cbThread
  · next hpc =>
    cases h
    exact .activates t hpc
  · next i hpc =>
    split at h
    · next hlt =>
      split at h
      · cases h
        exact .spawns t i hpc hlt
      · cases h
        exact .advance hpc (.spawnFails i) s.guard s.cbThread
    · next hlt =>
      cases h
      exact .advance hpc (.spawned i (by omega)) s.guard s.cbThread
  · next hpc =>
    split at h
    · cases h
      exact .creates t hpc
    · cases h
      exact .advance hpc .monitorFails s.guard s.cbThread
  · next k hpc =>
    split at h
    · cases h
      exact .advance hpc (.assigned k) s.guard (some k)
    · split at h
      · cases h
        exact .advance hpc (.assigned k) s.guard (some k)
      · cases h
  · next k hpc =>
    cases h
    exact .unlocks t _ (hpc ▸ .ran k)
  · next hpc =>
    cases h
    exact .advance hpc .dropGuard false s.cbThread
  · next hpc =>
    cases h
    exact .catchStops t ok hpc
  · next hpc =>
    split at h
    · next hall =>
      cases h
      exact .catchJoins t hpc hall
    · cases h
  · next hpc =>
    cases h
    exact .catchDeactivates t hpc
  · next hpc =>
    cases h
    exact .unlocks t _ (hpc ▸ .threw)
  · next r hpc =>
    split at h
    · next hfree =>
      cases h
      exact .locks t _ (hpc ▸ .stop r) hfree
    · cases h
  · next r hpc =>
    split at h
    · cases h
      exact .advance hpc (.stopActive r) s.guard s.cbThread
    · cases h
      exact .advance hpc (.stopInactive r) s.guard s.cbThread
  · next r hpc =>
    cases h
    exact .advance hpc (.stopGuard r) false s.cbThread
  · next r hpc =>
    cases h
    exact .stops t r hpc
  · next hpc =>
    cases h
    exact .unlocks t _ (hpc ▸ .stop)
  · next hpc =>
    cases h
    exact .unlocks t _ (hpc ▸ .restart)
  · next r hpc =>
    split at h
    · cases h
      cases r with
      | false => exact .advance hpc .waitInside s.guard s.cbThread
      | true => exact .advance hpc .restartInside s.guard s.cbThread
    · cases h
      exact .advance hpc (.waitOutside r) s.guard s.cbThread
  · next r hpc =>
    split at h
    · cases h
    · next hactive =>
      cases h
      cases r with
      | false => exact .advance hpc (.waited (by simpa using hactive)) s.guard s.cbThread
      | true => exact .advance hpc (.restartWaited (by simpa using hactive)) s.guard s.cbThread

theorem monitorStep_move {a : Action} {k : ℕ} (h : monitorStep s k = some (s', es)) :
    Move C s a es s' := by
  unfold monitorStep at h
  split at h
  · next hpc =>
    split at h
    · next hall =>
      cases h
      exact .joins k hpc hall
    · cases h
  · next hpc =>
    cases h
    exact .monitorMoves k _ (some (.monitor k)) (hpc ▸ .storeId)
  · next hpc =>
    cases h
    exact .monitorMoves k _ s.cbThreadId (hpc ▸ .call)
  · next hpc =>
    split at h
    · next hidle =>
      cases h
      exact .monitorMoves k _ s.cbThreadId (hpc ▸ .returns hidle)
    · cases h
  · next hpc =>
    cases h
    exact .monitorMoves k _ none (hpc ▸ .clearId)
  · next hpc =>
    cases h
    exact .deactivates k hpc
  · next hpc =>
    cases h
    exact .monitorMoves k _ s.cbThreadId (hpc ▸ .exit)
  · cases h

/-- **The list is complete.** -/
theorem step_move {a : Action} (h : step C s a = some (s', es)) : Move C s a es s' := by
  unfold step at h
  split at h
  · next t c =>
    split at h
    · next hcond =>
      cases h
      exact .enters t c hcond.1 hcond.2
    · cases h
  · exact callerStep_move h
  · next w =>
    split at h
    · next hcond =>
      cases h
      exact .workerMoves w _ (hcond.1 ▸ .handlerBegins)
    · cases h
  · next w =>
    split at h
    · next hcond =>
      cases h
      exact .workerMoves w _ (hcond.1 ▸ .handlerEnds hcond.2)
    · cases h
  · next w =>
    split at h
    · next hcond =>
      cases h
      exact .workerMoves w _ (hcond.1 ▸ .exits hcond.2)
    · cases h
  · exact monitorStep_move h
  · split at h
    · cases h
      exact .contextStops
    · cases h
  · cases h
    exact .contextStops

end StepMove

end AsioIoPool
