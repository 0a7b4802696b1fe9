/-
# The worker

`worker.cpp` with any number of threads calling `start()`, `request_stop()`,
`request_stop_after_iterations()`, `notify()`, `set_interval()`, `wait_for_stop()` and
`is_running()`, and the worker threads that the starts create one after the other.
Every load, store and lock is a step of its own.  A caller may be the code of a
callback, which runs on a worker thread; only `start()` behaves differently there, as
its `wait_for_stop()` throws.  It does so as well in a new thread that has got the id of a
worker thread which has been joined, until `m_thread_id` is reset.

A worker thread is known by its number.  `Move` lists what one step can change, with
what the code has checked before it.
-/
import Libsg.WorkerLoop
import Mathlib.Logic.Function.Basic

open TransitionSystem

namespace Worker

/-! ## The state -/

/-- What a call does once it holds no thread to join. -/
inductive After
  | starting (stopAtIteration : ℕ)
  | waiting
  deriving DecidableEq, Repr

/-- Where a call is. -/
inductive CallPc
  | idle
  -- `wait_for_stop()`, by itself or in `start()`
  | lockJoin (k : After)
  | joining (k : After)
  | joined (k : After)
  | unlocking (k : After)
  -- `start()`
  | prepare (stopAtIteration : ℕ)
  | resetStop (stopAtIteration : ℕ)
  | resetIterations (stopAtIteration : ℕ)
  | setTarget (stopAtIteration : ℕ)
  | drainLeftover
  | lockThread
  | create
  | created (w : ℕ)
  | await (w : ℕ)
  /-- The outer catch block; `some w` when the start callback of `w` threw. -/
  | handler (failed : Option ℕ)
  -- `request_stop()` and `request_stop_after_iterations()`
  | storeStop
  | loadDone (iterationCount : ℕ)
  | storeTarget (target : ℕ)
  | notifies
  deriving DecidableEq, Repr

/-- Where a worker thread is. -/
inductive ThreadPc
  | unborn
  | spawned
  | entered
  | inStart
  | started
  | startThrew
  | startStored
  | looping (pc : LoopPc)
  /-- Before the stop callback, with what the loop threw still to be rethrown. -/
  | toStop (threw : Bool)
  | inStop
  | finished
  deriving DecidableEq, Repr

/-- What the promise of a start holds. -/
inductive Promise
  | unset
  | value
  | exception
  deriving DecidableEq, Repr

structure State where
  /-- `m_state` is `running`. -/
  running : Bool
  control : Control
  joinMutex : Option ℕ
  /-- The thread `m_thread` owns, when it is joinable. -/
  thread : Option ℕ
  threadId : Option ℕ
  threadCount : ℕ
  threads : ℕ → ThreadPc
  promises : ℕ → Promise
  callers : ℕ → CallPc
  terminated : Bool

namespace State

def setCaller (s : State) (t : ℕ) (pc : CallPc) : State :=
  { s with callers := Function.update s.callers t pc }

def setThread (s : State) (w : ℕ) (pc : ThreadPc) : State :=
  { s with threads := Function.update s.threads w pc }

def setPromise (s : State) (w : ℕ) (p : Promise) : State :=
  { s with promises := Function.update s.promises w p }

end State

inductive Event
  | refused (t : ℕ)
  /-- `start()` has announced the run. -/
  | began
  | started (t w : ℕ)
  | startThrew
  | waited (t : ℕ)
  | requested (t : ℕ)
  | observed (running : Bool)
  | onStart (w : ℕ)
  | onStarted (w : ℕ) (threw : Bool)
  | loop (w : ℕ) (e : LoopEvent)
  | onStop (w : ℕ)
  | onStopped (w : ℕ)
  deriving DecidableEq, Repr

inductive Call
  | start (stopAtIteration : ℕ)
  | waitForStop
  | requestStop
  | requestStopAfterIterations (iterationCount : ℕ)
  | notify
  | setInterval (interval : ℤ)
  | isRunning
  deriving DecidableEq, Repr

inductive Action
  | call (t : ℕ) (c : Call)
  /-- The next step of a call; `ok` is false when an allocation, the new thread or a
  `try_acquire()` fails. -/
  | caller (t : ℕ) (ok : Bool)
  /-- The next step of a worker thread outside its loop; `ok` is false when a callback throws. -/
  | thread (w : ℕ) (ok : Bool)
  | loop (w : ℕ) (a : LoopAction)
  /-- A thread with the id of worker thread `w` calls `start()`. -/
  | startWithId (w : ℕ)
  deriving DecidableEq, Repr

/-! ## The functions -/

/-- The first step of a call. -/
def callStep (s : State) (t : ℕ) : Call → State × List Event
  | .start stopAtIteration =>
    if s.running then (s, [.refused t])
    else ({ s with running := true }.setCaller t (.lockJoin (.starting stopAtIteration)), [.began])
  | .waitForStop => (s.setCaller t (.lockJoin .waiting), [])
  | .requestStop => (s.setCaller t .storeStop, [])
  | .requestStopAfterIterations iterationCount =>
    if iterationCount = 0 then (s.setCaller t .storeStop, [])
    else (s.setCaller t (.loadDone iterationCount), [])
  | .notify => ({ s with control := s.control.notify }, [])
  | .setInterval interval => ({ s with control := { s.control with interval := interval } }, [])
  | .isRunning => (s, [.observed s.running])

/-- The target of `request_stop_after_iterations()`, which saturates. -/
def targetAfter (done iterationCount : ℕ) : ℕ :=
  if maxIterationCount - done ≤ iterationCount then maxIterationCount - 1
  else done + iterationCount

/-- The next step of a call. -/
def callerStep (s : State) (t : ℕ) (ok : Bool) : Option (State × List Event) :=
  match s.callers t with
  | .idle => none
  | .lockJoin k =>
    -- `m_thread_id` holds another id; a call for which it does not is a `startWithId`
    if s.joinMutex = none then
      some ({ s with joinMutex := some t }.setCaller t (.joining k), [])
    else none
  | .joining k =>
    match s.thread with
    | none => some (s.setCaller t (.unlocking k), [])
    | some w =>
      if s.threads w = .finished then
        some ({ s with thread := none }.setCaller t (.joined k), [])
      else none
  | .joined k => some ({ s with threadId := none }.setCaller t (.unlocking k), [])
  | .unlocking (.starting stopAtIteration) =>
    some ({ s with joinMutex := none }.setCaller t (.prepare stopAtIteration), [])
  | .unlocking .waiting => some ({ s with joinMutex := none }.setCaller t .idle, [.waited t])
  | .prepare stopAtIteration =>
    if ok then some (s.setCaller t (.resetStop stopAtIteration), [])
    else some (s.setCaller t (.handler none), [])
  | .resetStop stopAtIteration =>
    some ({ s with control := { s.control with stopRequested := false } }.setCaller t
      (.resetIterations stopAtIteration), [])
  | .resetIterations stopAtIteration =>
    some ({ s with control := { s.control with iterationsDone := 0 } }.setCaller t
      (.setTarget stopAtIteration), [])
  | .setTarget stopAtIteration =>
    some ({ s with control := { s.control with stopAtIteration := stopAtIteration } }.setCaller t
      .drainLeftover, [])
  | .drainLeftover =>
    if ok ∧ 0 < s.control.tokens then some ({ s with control := s.control.acquire }, [])
    else some (s.setCaller t .lockThread, [])
  | .lockThread =>
    if s.joinMutex = none then some ({ s with joinMutex := some t }.setCaller t .create, [])
    else none
  | .create =>
    if ok then
      match s.thread with
      | none =>
        let w := s.threadCount
        some (({ s with thread := some w, threadCount := w + 1 }.setThread w .spawned).setCaller t
          (.created w), [])
      -- a thread is assigned over one that has not been joined
      | some _ => some ({ s with terminated := true }, [])
    else some ({ s with joinMutex := none }.setCaller t (.handler none), [])
  | .created w => some ({ s with joinMutex := none }.setCaller t (.await w), [])
  | .await w =>
    match s.promises w with
    | .unset => none
    | .value => some (s.setCaller t .idle, [.started t w])
    | .exception => some (s.setCaller t (.handler (some w)), [])
  | .handler _ => some ({ s with running := false }.setCaller t .idle, [.startThrew])
  | .storeStop =>
    some ({ s with control := { s.control with stopRequested := true } }.setCaller t .notifies,
      [.requested t])
  | .loadDone iterationCount =>
    some (s.setCaller t (.storeTarget (targetAfter s.control.iterationsDone iterationCount)), [])
  | .storeTarget target =>
    some ({ s with control := { s.control with stopAtIteration := target } }.setCaller t
      .notifies, [])
  | .notifies => some ({ s with control := s.control.notify }.setCaller t .idle, [])

/-- The next step of `action()` outside the loop. -/
def threadStep (s : State) (w : ℕ) (ok : Bool) : Option (State × List Event) :=
  match s.threads w with
  | .spawned => some ({ s with threadId := some w }.setThread w .entered, [])
  | .entered => some (s.setThread w .inStart, [.onStart w])
  | .inStart =>
    if ok then some (s.setThread w .started, [.onStarted w false])
    else some (s.setThread w .startThrew, [.onStarted w true])
  | .started => some ((s.setPromise w .value).setThread w (.looping .check), [])
  | .startThrew => some ({ s with running := false }.setThread w .startStored, [])
  | .startStored => some ((s.setPromise w .exception).setThread w .finished, [])
  | .looping (.left threw) => some ({ s with running := false }.setThread w (.toStop threw), [])
  | .toStop _ => some (s.setThread w .inStop, [.onStop w])
  | .inStop => some (s.setThread w .finished, [.onStopped w])
  | _ => none

/-- The places of a worker thread inside a callback. -/
def ThreadPc.inCallback : ThreadPc → Bool
  | .inStart | .looping (.ticking _) | .inStop => true
  | _ => false

/-- A thread with the id of worker thread `w` makes a call: a callback of it, or a thread that has
been created after it was joined. -/
def State.hasId (s : State) (w : ℕ) : Bool :=
  (s.threads w).inCallback || s.threads w = .finished && s.thread ≠ some w

def step (correctForTaskDelay : Bool) (s : State) (a : Action) : Option (State × List Event) :=
  if s.terminated then none
  else match a with
  | .call t c => if s.callers t = .idle then some (callStep s t c) else none
  | .caller t ok => callerStep s t ok
  | .thread w ok => threadStep s w ok
  | .loop w a =>
    match s.threads w with
    | .looping pc => (loopStep correctForTaskDelay s.control pc a).map fun (c, pc, es) =>
        ({ s with control := c }.setThread w (.looping pc), es.map (.loop w))
    | _ => none
  | .startWithId w =>
    -- `wait_for_stop()` throws before anything else of `start()`, and nothing is undone
    if s.hasId w ∧ s.threadId = some w then
      if s.running then some (s, []) else some ({ s with running := true }, [.began, .startThrew])
    else none

def system (correctForTaskDelay : Bool) (interval : ℤ) : TransitionSystem State Action Event where
  start :=
    { running := false
      control := ⟨false, 0, maxIterationCount, interval, noTokens⟩
      joinMutex := none
      thread := none
      threadId := none
      threadCount := 0
      threads := fun _ => .unborn
      promises := fun _ => .unset
      callers := fun _ => .idle
      terminated := false }
  step := step correctForTaskDelay

/-! ## What one step can do -/

/-- The steps of a call that leave `m_state`, `m_stop_requested` and the threads as they are. -/
inductive CallPc.Advance (s : State) : CallPc → CallPc → Prop
  | lockJoin (k : After) : Advance s (.lockJoin k) (.joining k)
  | nothingToJoin (k : After) (h : s.thread = none) : Advance s (.joining k) (.unlocking k)
  | joined (k : After) : Advance s (.joined k) (.unlocking k)
  | unlock (n : ℕ) : Advance s (.unlocking (.starting n)) (.prepare n)
  | prepare (n : ℕ) : Advance s (.prepare n) (.resetStop n)
  | prepareFails (n : ℕ) : Advance s (.prepare n) (.handler none)
  | resetIterations (n : ℕ) : Advance s (.resetIterations n) (.setTarget n)
  | setTarget (n : ℕ) : Advance s (.setTarget n) .drainLeftover
  | drain : Advance s .drainLeftover .drainLeftover
  | drained : Advance s .drainLeftover .lockThread
  | lockThread : Advance s .lockThread .create
  | createFails : Advance s .create (.handler none)
  | created (w : ℕ) : Advance s (.created w) (.await w)
  | failed (w : ℕ) (h : s.promises w = .exception) : Advance s (.await w) (.handler (some w))
  | loadDone (n target : ℕ) : Advance s (.loadDone n) (.storeTarget target)
  | storeTarget (n : ℕ) : Advance s (.storeTarget n) .notifies
  | notifies : Advance s .notifies .idle

/-- The calls that begin at a place of their own and touch nothing else. -/
inductive CallPc.Entry : CallPc → Prop
  | wait : Entry (.lockJoin .waiting)
  | requestStop : Entry .storeStop
  | requestStopAfter (n : ℕ) : Entry (.loadDone n)

/-- **What one step can do.** -/
inductive Move (correctForTaskDelay : Bool) (s : State) : Action → List Event → State → Prop
  -- calls
  | refused {a} (t : ℕ) (hrun : s.running = true) : Move correctForTaskDelay s a [.refused t] s
  | begins (t n : ℕ) (hpc : s.callers t = .idle) (hrun : s.running = false) :
      Move correctForTaskDelay s (.call t (.start n)) [.began]
        ({ s with running := true }.setCaller t (.lockJoin (.starting n)))
  | enters {a} (t : ℕ) (pc : CallPc) (hpc : s.callers t = .idle) (hentry : pc.Entry) :
      Move correctForTaskDelay s a [] (s.setCaller t pc)
  | controls {a} (c : Control) (hstop : c.stopRequested = s.control.stopRequested) :
      Move correctForTaskDelay s a [] { s with control := c }
  | observes {a} : Move correctForTaskDelay s a [.observed s.running] s
  | advances {a} (t : ℕ) (pc : CallPc) (c : Control) (m i : Option ℕ)
      (hpc : (s.callers t).Advance s pc) (hstop : c.stopRequested = s.control.stopRequested) :
      Move correctForTaskDelay s a []
        ({ s with control := c, joinMutex := m, threadId := i }.setCaller t pc)
  | joins {a} (t : ℕ) (k : After) (w : ℕ) (hpc : s.callers t = .joining k)
      (hthread : s.thread = some w) (hfinished : s.threads w = .finished) :
      Move correctForTaskDelay s a [] ({ s with thread := none }.setCaller t (.joined k))
  | waited {a} (t : ℕ) (hpc : s.callers t = .unlocking .waiting) :
      Move correctForTaskDelay s a [.waited t] ({ s with joinMutex := none }.setCaller t .idle)
  | resets {a} (t n : ℕ) (hpc : s.callers t = .resetStop n) :
      Move correctForTaskDelay s a []
        ({ s with control := { s.control with stopRequested := false } }.setCaller t
          (.resetIterations n))
  | creates {a} (t : ℕ) (hpc : s.callers t = .create) (hthread : s.thread = none) :
      Move correctForTaskDelay s a []
        (({ s with thread := some s.threadCount, threadCount := s.threadCount + 1 }.setThread
          s.threadCount .spawned).setCaller t (.created s.threadCount))
  | overwrites {a} (t w : ℕ) (hpc : s.callers t = .create) (hthread : s.thread = some w) :
      Move correctForTaskDelay s a [] { s with terminated := true }
  | returns {a} (t w : ℕ) (hpc : s.callers t = .await w) (hvalue : s.promises w = .value) :
      Move correctForTaskDelay s a [.started t w] (s.setCaller t .idle)
  | undoes (t : ℕ) (ok : Bool) (failed : Option ℕ) (hpc : s.callers t = .handler failed) :
      Move correctForTaskDelay s (.caller t ok) [.startThrew]
        ({ s with running := false }.setCaller t .idle)
  | storesStop {a} (t : ℕ) (hpc : s.callers t = .storeStop) :
      Move correctForTaskDelay s a [.requested t]
        ({ s with control := { s.control with stopRequested := true } }.setCaller t .notifies)
  -- worker threads
  | runs {a} (w : ℕ) (hpc : s.threads w = .spawned) :
      Move correctForTaskDelay s a [] ({ s with threadId := some w }.setThread w .entered)
  | starts {a} (w : ℕ) (hpc : s.threads w = .entered) :
      Move correctForTaskDelay s a [.onStart w] (s.setThread w .inStart)
  | startReturns {a} (w : ℕ) (hpc : s.threads w = .inStart) :
      Move correctForTaskDelay s a [.onStarted w false] (s.setThread w .started)
  | startThrows (w : ℕ) (hpc : s.threads w = .inStart) :
      Move correctForTaskDelay s (.thread w false) [.onStarted w true] (s.setThread w .startThrew)
  | fulfils {a} (w : ℕ) (hpc : s.threads w = .started) :
      Move correctForTaskDelay s a [] ((s.setPromise w .value).setThread w (.looping .check))
  | fails {a} (w : ℕ) (hpc : s.threads w = .startThrew) :
      Move correctForTaskDelay s a [] ({ s with running := false }.setThread w .startStored)
  | breaks {a} (w : ℕ) (hpc : s.threads w = .startStored) :
      Move correctForTaskDelay s a [] ((s.setPromise w .exception).setThread w .finished)
  | loops {a} (w : ℕ) (pc pc' : LoopPc) (c : Control) (es : List LoopEvent)
      (hpc : s.threads w = .looping pc) (hloop : LoopMove correctForTaskDelay s.control pc c pc' es) :
      Move correctForTaskDelay s a (es.map (.loop w))
        ({ s with control := c }.setThread w (.looping pc'))
  | leaves {a} (w : ℕ) (threw : Bool) (hpc : s.threads w = .looping (.left threw)) :
      Move correctForTaskDelay s a [] ({ s with running := false }.setThread w (.toStop threw))
  | stops {a} (w : ℕ) (threw : Bool) (hpc : s.threads w = .toStop threw) :
      Move correctForTaskDelay s a [.onStop w] (s.setThread w .inStop)
  | stopped {a} (w : ℕ) (hpc : s.threads w = .inStop) :
      Move correctForTaskDelay s a [.onStopped w] (s.setThread w .finished)
  | refusedWithId {a} (w : ℕ) (hrun : s.running = true) : Move correctForTaskDelay s a [] s
  | beginsWithId (w : ℕ) (hid : s.hasId w = true) (hrun : s.running = false) :
      Move correctForTaskDelay s (.startWithId w) [.began, .startThrew] { s with running := true }

section StepMove

variable {correctForTaskDelay : Bool} {s s' : State} {es : List Event}

theorem callStep_move {t : ℕ} {c : Call} (hidle : s.callers t = .idle) :
    Move correctForTaskDelay s (.call t c) (callStep s t c).2 (callStep s t c).1 := by
  cases c with
  | start n =>
    simp only [callStep]
    split
    · next hrun => exact .refused t hrun
    · next hrun => exact .begins t n hidle (by simpa using hrun)
  | waitForStop => exact .enters t _ hidle .wait
  | requestStop => exact .enters t _ hidle .requestStop
  | requestStopAfterIterations n =>
    simp only [callStep]
    split
    · exact .enters t _ hidle .requestStop
    · exact .enters t _ hidle (.requestStopAfter n)
  | notify => exact .controls _ rfl
  | setInterval => exact .controls _ rfl
  | isRunning => exact .observes

/-- A step of a call that changes only its place, the control and the lock. -/
theorem Move.advance {a : Action} {t : ℕ} {pc pc' : CallPc} (hpc : s.callers t = pc)
    (h : pc.Advance s pc') (c : Control) (m i : Option ℕ)
    (hstop : c.stopRequested = s.control.stopRequested) :
    Move correctForTaskDelay s a []
      ({ s with control := c, joinMutex := m, threadId := i }.setCaller t pc') :=
  .advances t pc' c m i (hpc ▸ h) hstop

theorem callerStep_move {t : ℕ} {ok : Bool} (h : callerStep s t ok = some (s', es)) :
    Move correctForTaskDelay s (.caller t ok) es s' := by
  unfold callerStep at h
  split at h
  · cases h
  · next k hpc =>
    split at h
    · cases h
      exact .advance hpc (.lockJoin k) s.control (some t) s.threadId rfl
    · cases h
  · next k hpc =>
    split at h
    · next hthread =>
      cases h
      exact .advance hpc (.nothingToJoin k hthread) s.control s.joinMutex s.threadId rfl
    · next w hthread =>
      split at h
      · next hfinished =>
        cases h
        exact .joins t k w hpc hthread hfinished
      · cases h
  · next k hpc =>
    cases h
    exact .advance hpc (.joined k) s.control s.joinMutex none rfl
  · next n hpc =>
    cases h
    exact .advance hpc (.unlock n) s.control none s.threadId rfl
  · next hpc =>
    cases h
    exact .waited t hpc
  · next n hpc =>
    split at h
    · cases h
      exact .advance hpc (.prepare n) s.control s.joinMutex s.threadId rfl
    · cases h
      exact .advance hpc (.prepareFails n) s.control s.joinMutex s.threadId rfl
  · next n hpc =>
    cases h
    exact .resets t n hpc
  · next n hpc =>
    cases h
    exact .advance hpc (.resetIterations n) _ s.joinMutex s.threadId rfl
  · next n hpc =>
    cases h
    exact .advance hpc (.setTarget n) _ s.joinMutex s.threadId rfl
  · next hpc =>
    split at h
    · cases h
      have hself : Function.update s.callers t .drainLeftover = s.callers := by
        rw [← hpc, Function.update_eq_self]
      have hm : Move correctForTaskDelay s (.caller t ok) [] _ := Move.advance hpc .drain
        s.control.acquire s.joinMutex s.threadId rfl
      simpa only [State.setCaller, hself] using hm
    · cases h
      exact .advance hpc .drained s.control s.joinMutex s.threadId rfl
  · next hpc =>
    split at h
    · cases h
      exact .advance hpc .lockThread s.control (some t) s.threadId rfl
    · cases h
  · next hpc =>
    split at h
    · split at h
      · next hthread =>
        cases h
        exact .creates t hpc hthread
      · next w hthread =>
        cases h
        exact .overwrites t w hpc hthread
    · cases h
      exact .advance hpc .createFails s.control none s.threadId rfl
  · next w hpc =>
    cases h
    exact .advance hpc (.created w) s.control none s.threadId rfl
  · next w hpc =>
    split at h
    · cases h
    · next hvalue =>
      cases h
      exact .returns t w hpc hvalue
    · next hexception =>
      cases h
      exact .advance hpc (.failed w hexception) s.control s.joinMutex s.threadId rfl
  · next failed hpc =>
    cases h
    exact .undoes t ok failed hpc
  · next hpc =>
    cases h
    exact .storesStop t hpc
  · next n hpc =>
    cases h
    exact .advance hpc (.loadDone n _) s.control s.joinMutex s.threadId rfl
  · next n hpc =>
    cases h
    exact .advance hpc (.storeTarget n) _ s.joinMutex s.threadId rfl
  · next hpc =>
    cases h
    exact .advance hpc .notifies _ s.joinMutex s.threadId rfl

theorem threadStep_move {w : ℕ} {ok : Bool} (h : threadStep s w ok = some (s', es)) :
    Move correctForTaskDelay s (.thread w ok) es s' := by
  unfold threadStep at h
  split at h
  · next hpc =>
    cases h
    exact .runs w hpc
  · next hpc =>
    cases h
    exact .starts w hpc
  · next hpc =>
    split at h
    · cases h
      exact .startReturns w hpc
    · next hok =>
      cases h
      have hfalse : ok = false := by simpa using hok
      subst hfalse
      exact .startThrows w hpc
  · next hpc =>
    cases h
    exact .fulfils w hpc
  · next hpc =>
    cases h
    exact .fails w hpc
  · next hpc =>
    cases h
    exact .breaks w hpc
  · next threw hpc =>
    cases h
    exact .leaves w threw hpc
  · next threw hpc =>
    cases h
    exact .stops w threw hpc
  · next hpc =>
    cases h
    exact .stopped w hpc
  · cases h

/-- **The list is complete**, and a terminated program makes no step. -/
theorem step_move {a : Action} (h : step correctForTaskDelay s a = some (s', es)) :
    s.terminated = false ∧ Move correctForTaskDelay s a es s' := by
  unfold step at h
  split at h
  · cases h
  · next hterminated =>
    refine ⟨by simpa using hterminated, ?_⟩
    cases a with
    | call t c =>
      dsimp only at h
      split at h
      · next hidle =>
        have hmove : Move correctForTaskDelay s (.call t c) (callStep s t c).2 (callStep s t c).1 :=
          callStep_move hidle
        rw [Option.some.inj h] at hmove
        exact hmove
      · cases h
    | caller t ok => exact callerStep_move h
    | thread w ok => exact threadStep_move h
    | loop w a =>
      dsimp only at h
      split at h
      · next pc hpc =>
        obtain ⟨⟨c, pc', les⟩, hloop, heq⟩ := Option.map_eq_some_iff.mp h
        cases heq
        exact .loops w pc pc' c les hpc (loopStep_move hloop)
      · cases h
    | startWithId w =>
      dsimp only at h
      split at h
      · next hcond =>
        split at h
        · next hrun =>
          cases h
          exact .refusedWithId w hrun
        · next hrun =>
          cases h
          exact .beginsWithId w hcond.1 (by simpa using hrun)
      · cases h

end StepMove

end Worker
