/-
# The background timer

`background_timer.cpp` with any number of threads calling its members, and the timer threads that
`start()` creates one after the other, whose callbacks and task call them too.  Every lock, what is
done under it, and every unlock is a step of its own.  Of `accurate_sleeper.cpp` there is what
`set_interval()` stores, and that it may throw; how long a sleep lasts is left out.

A member function that takes a lock is a `Section`.  `start()` and the timer thread go through
several of them.  The assignment of the new thread to `m_thread` is one step with its creation.
What a thread holds of a mutex is read off where it is (`State.held`), and the mutexes record it
(`Inv`).
-/
import Mathlib.Logic.Function.Basic
import Libsg.SharedMutex
import Libsg.TransitionSystem

open TransitionSystem SharedMutex

namespace BackgroundTimer

/-! ## The data and its mutexes -/

/-- `AccurateSleeper::Tragedy` -/
inductive Tragedy
  | auto
  | sleep
  | spin
  deriving DecidableEq, Repr

/-- `AccurateSleeper`, whose strategy is not initialised. -/
structure Sleeper where
  intervalNs : ℕ := 1000000000
  realtimeEnabled : Bool := false
  strategy : Option Tragedy := none
  deriving DecidableEq, Repr

/-- `AccurateSleeper::set_interval()`; `ok` is false when the scheduling policy cannot be changed.
With it, whether the function throws. -/
def Sleeper.setInterval (intervalNs : ℕ) (strategy : Tragedy) (ok : Bool) (s : Sleeper) :
    Sleeper × Bool :=
  let chosen :=
    match strategy with
    | .auto => if 1000000 < intervalNs then .sleep else .spin
    | .sleep => .sleep
    | .spin => .spin
  let s := { s with strategy := some chosen }
  if s.realtimeEnabled = decide (chosen ≠ .sleep) then ({ s with intervalNs }, false)
  else if ok then ({ s with realtimeEnabled := !s.realtimeEnabled, intervalNs }, false)
  else (s, true)

/-- What the four mutexes protect. -/
structure Data where
  /-- `m_exception` is set. -/
  exception : Bool := false
  stopRequested : Bool := false
  sleeper : Sleeper := {}
  correctForTaskDelay : Bool := false
  isRunning : Bool := false
  deriving DecidableEq, Repr

inductive Mutex
  | exception
  | stop
  | sleeper
  | running
  deriving DecidableEq, Repr

/-- A thread that is not of the timer, or a timer thread, known by its number. -/
inductive Tid
  | user (n : ℕ)
  | timer (w : ℕ)
  deriving DecidableEq, Repr

/-- What a member function returns. -/
inductive Value
  | void
  | flag (b : Bool)
  | nanoseconds (n : ℕ)
  | threw
  deriving DecidableEq, Repr

/-- The member functions that take one lock. -/
inductive Section
  | requestStop
  | isStopRequested
  | hasException
  | setException (thrown : Bool)
  | getException
  | setIsRunning (running : Bool)
  | isRunning
  | interval
  | setInterval (intervalNs : ℕ) (strategy : Tragedy)
  | correctForTaskDelay (correct : Bool)
  deriving DecidableEq, Repr

namespace Section

def mutex : Section → Mutex
  | requestStop | isStopRequested => .stop
  | hasException | setException _ | getException => .exception
  | setIsRunning _ | isRunning => .running
  | interval | setInterval _ _ | correctForTaskDelay _ => .sleeper

/-- `std::shared_lock`, or one of `std::unique_lock` and `std::lock_guard`. -/
def mode : Section → Mode
  | isStopRequested | isRunning | interval => .shared
  | requestStop | hasException | setException _ | getException | setIsRunning _
  | setInterval _ _ | correctForTaskDelay _ => .exclusive

/-- What is done with the lock. -/
def effect (ok : Bool) (d : Data) : Section → Data × Value
  | requestStop => ({ d with stopRequested := true }, .void)
  | isStopRequested => (d, .flag d.stopRequested)
  | hasException | getException => (d, .flag d.exception)
  | setException thrown => ({ d with exception := thrown }, .void)
  | setIsRunning running => ({ d with isRunning := running }, .void)
  | isRunning => (d, .flag d.isRunning)
  | interval => (d, .nanoseconds d.sleeper.intervalNs)
  | setInterval intervalNs strategy =>
    let (sleeper, threw) := d.sleeper.setInterval intervalNs strategy ok
    ({ d with sleeper }, if threw then .threw else .void)
  | correctForTaskDelay correct => ({ d with correctForTaskDelay := correct }, .void)

end Section

/-- Where a thread is in a section: before the lock, with it, and done with what it is for. -/
inductive Place
  | lock
  | body
  | unlock (result : Value)
  deriving DecidableEq, Repr

inductive Outcome
  | at (p : Place)
  | returned (result : Value)

structure Shared where
  locks : Mutex → SharedMutex Tid
  data : Data

namespace Shared

def setLock (m : Shared) (k : Mutex) (l : SharedMutex Tid) : Shared :=
  { m with locks := Function.update m.locks k l }

end Shared

/-- The next step of a section, by the thread `t`. -/
def Section.step (t : Tid) (ok : Bool) (k : Section) (m : Shared) :
    Place → Option (Outcome × Shared)
  | .lock => ((m.locks k.mutex).acquire t k.mode).map fun l => (.at .body, m.setLock k.mutex l)
  | .body =>
    let (data, result) := k.effect ok m.data
    some (.at (.unlock result), { m with data })
  | .unlock result =>
    some (.returned result, m.setLock k.mutex ((m.locks k.mutex).release t k.mode))

/-! ## Where the threads are -/

/-- The section a call is in: its own, or one of those that `start()` goes through. -/
inductive CallSection
  | own (k : Section)
  | startIsRunning
  | startException
  | startRunning
  deriving DecidableEq, Repr

def CallSection.section : CallSection → Section
  | own k => k
  | startIsRunning => .isRunning
  | startException => .setException false
  | startRunning => .setIsRunning true

inductive CallPc
  | idle
  | within (f : CallSection) (p : Place)
  /-- `wait_for_stop()`, by itself or in `start()` -/
  | join (starting : Bool)
  | resetStop
  | create
  deriving DecidableEq, Repr

/-- Where a call is after a section. -/
def CallSection.after (result : Value) : CallSection → CallPc
  | own _ => .idle
  -- the exception is thrown if the timer is running
  | startIsRunning => if result = .flag true then .idle else .join true
  | startException => .within .startRunning .lock
  | startRunning => .create

/-- The sections of `action()`. -/
inductive ThreadSection
  | isStopRequested
  /-- In the catch block, where the lock of the loop is still held. -/
  | setException
  | setIsRunning
  | getException
  deriving DecidableEq, Repr

def ThreadSection.section : ThreadSection → Section
  | isStopRequested => .isStopRequested
  | setException => .setException true
  | setIsRunning => .setIsRunning false
  | getException => .getException

inductive ThreadPc
  | unborn
  | spawned
  | onStarted
  | within (f : ThreadSection) (p : Place)
  | lockSleeper
  | choose
  /-- In the task, and whether its delay is to be corrected for. -/
  | task (correct : Bool)
  | sleeping (correct : Bool)
  | unlockSleeper (again : Bool)
  | onStopped
  | over
  deriving DecidableEq, Repr

/-- Which callbacks are set. -/
structure Callbacks where
  started : Bool
  stopped : Bool

/-- Where the timer thread is after a section. -/
def ThreadSection.after (cbs : Callbacks) (result : Value) : ThreadSection → ThreadPc
  | isStopRequested =>
    if result = .flag true then .within .setIsRunning .lock else .lockSleeper
  | setException => .unlockSleeper false
  | setIsRunning => if cbs.stopped then .within .getException .lock else .over
  | getException => .onStopped

structure State where
  shared : Shared
  /-- The thread `m_thread` owns, when it is joinable. -/
  thread : Option ℕ
  threadCount : ℕ
  threads : ℕ → ThreadPc
  callers : Tid → CallPc
  terminated : Bool

namespace State

def setCaller (s : State) (t : Tid) (pc : CallPc) : State :=
  { s with callers := Function.update s.callers t pc }

def setThread (s : State) (w : ℕ) (pc : ThreadPc) : State :=
  { s with threads := Function.update s.threads w pc }

end State

/-- The public member functions. -/
inductive Call
  | start
  | requestStop
  | waitForStop
  | isRunning
  | isStopRequested
  | getException
  | hasException
  | interval
  | setInterval (intervalNs : ℕ) (strategy : Tragedy)
  | correctForTaskDelay (correct : Bool)
  deriving DecidableEq, Repr

def Call.entry : Call → CallPc
  | start => .within .startIsRunning .lock
  | requestStop => .within (.own .requestStop) .lock
  | waitForStop => .join false
  | isRunning => .within (.own .isRunning) .lock
  | isStopRequested => .within (.own .isStopRequested) .lock
  | getException => .within (.own .getException) .lock
  | hasException => .within (.own .hasException) .lock
  | interval => .within (.own .interval) .lock
  | setInterval intervalNs strategy => .within (.own (.setInterval intervalNs strategy)) .lock
  | correctForTaskDelay correct => .within (.own (.correctForTaskDelay correct)) .lock

/-- The calls about the interval. -/
def Call.reconfigures : Call → Bool
  | interval | setInterval _ _ | correctForTaskDelay _ => true
  | _ => false

def ThreadPc.inTask : ThreadPc → Bool
  | .task _ => true
  | _ => false

/-- The places of a timer thread where the code of the user runs. -/
def ThreadPc.inCallback : ThreadPc → Bool
  | .onStarted | .task _ | .onStopped => true
  | _ => false

inductive Event
  | taskCalls (w : ℕ) (c : Call)
  deriving DecidableEq, Repr

inductive Action
  | call (t : Tid) (c : Call)
  /-- The next step of a call; `ok` is false when the scheduling policy cannot be changed, or a
  thread cannot be created. -/
  | caller (t : Tid) (ok : Bool)
  /-- The next step of a timer thread; `ok` is false when the task throws. -/
  | thread (w : ℕ) (ok : Bool)
  deriving DecidableEq, Repr

/-! ## The steps -/

/-- The code that makes the call is running. -/
def State.mayCall (s : State) : Tid → Bool
  | .user _ => true
  | .timer w => (s.threads w).inCallback

def State.callEvents (s : State) (c : Call) : Tid → List Event
  | .user _ => []
  | .timer w => if (s.threads w).inTask then [.taskCalls w c] else []

/-- Where `wait_for_stop()` leads when there is nothing more to wait for. -/
def CallPc.joined (starting : Bool) : CallPc := if starting then .resetStop else .idle

def CallSection.resume (f : CallSection) : Outcome → CallPc
  | .at p => .within f p
  | .returned result => f.after result

def ThreadSection.resume (cbs : Callbacks) (f : ThreadSection) : Outcome → ThreadPc
  | .at p => .within f p
  | .returned result => f.after cbs result

/-- The next step of a call. -/
def callerStep (s : State) (t : Tid) (ok : Bool) : Option State :=
  match s.callers t with
  | .idle => none
  | .within f p =>
    (f.section.step t ok s.shared p).map fun (outcome, shared) =>
      { s with shared }.setCaller t (f.resume outcome)
  | .join starting =>
    match s.thread with
    | none => some (s.setCaller t (.joined starting))
    | some w =>
      -- the exception is thrown on the timer's own thread
      if t = .timer w then some (s.setCaller t .idle)
      else if s.threads w = .over then
        some ({ s with thread := none }.setCaller t (.joined starting))
      else none
  | .resetStop =>
    some ({ s with shared.data.stopRequested := false }.setCaller t
      (.within .startException .lock))
  | .create =>
    if ok then
      match s.thread with
      | none =>
        some (({ s with thread := some s.threadCount, threadCount := s.threadCount + 1 }.setThread
          s.threadCount .spawned).setCaller t .idle)
      -- a thread is assigned over one that has not been joined
      | some _ => some { s with terminated := true }
    else some (s.setCaller t .idle)

/-- The next step of `action()`. -/
def threadStep (cbs : Callbacks) (s : State) (w : ℕ) (ok : Bool) : Option State :=
  match s.threads w with
  | .unborn | .over => none
  | .spawned =>
    some (s.setThread w (if cbs.started then .onStarted else .within .isStopRequested .lock))
  | .onStarted =>
    if s.callers (.timer w) = .idle then some (s.setThread w (.within .isStopRequested .lock))
    else none
  | .within f p =>
    (f.section.step (.timer w) ok s.shared p).map fun (outcome, shared) =>
      { s with shared }.setThread w (f.resume cbs outcome)
  | .lockSleeper =>
    ((s.shared.locks .sleeper).acquire (.timer w) .shared).map fun l =>
      { s with shared := s.shared.setLock .sleeper l }.setThread w .choose
  | .choose => some (s.setThread w (.task s.shared.data.correctForTaskDelay))
  | .task correct =>
    if s.callers (.timer w) = .idle then
      if ok then some (s.setThread w (.sleeping correct))
      else some (s.setThread w (.within .setException .lock))
    else none
  | .sleeping _ => some (s.setThread w (.unlockSleeper true))
  | .unlockSleeper again =>
    let l := (s.shared.locks .sleeper).release (.timer w) .shared
    some ({ s with shared := s.shared.setLock .sleeper l }.setThread w
      (if again then .within .isStopRequested .lock else .within .setIsRunning .lock))
  | .onStopped =>
    if s.callers (.timer w) = .idle then some (s.setThread w .over) else none

def step (cbs : Callbacks) (s : State) (a : Action) : Option (State × List Event) :=
  if s.terminated then none
  else match a with
  | .call t c =>
    if s.callers t = .idle ∧ s.mayCall t = true then
      some (s.setCaller t c.entry, s.callEvents c t)
    else none
  | .caller t ok => (callerStep s t ok).map fun s' => (s', [])
  | .thread w ok => (threadStep cbs s w ok).map fun s' => (s', [])

def system (cbs : Callbacks) : TransitionSystem State Action Event where
  start :=
    { shared := { locks := fun _ => free Tid, data := {} }
      thread := none
      threadCount := 0
      threads := fun _ => .unborn
      callers := fun _ => .idle
      terminated := false }
  step := step cbs

/-! ## What one step can do -/

/-- The steps of a timer thread that touch nothing but where it is.  They begin where it is in no
section, and where code of the user runs they wait for its call to return. -/
inductive ThreadPc.Advance (cbs : Callbacks) (d : Data) : ThreadPc → ThreadPc → Prop
  | spawned (hset : cbs.started = true) : Advance cbs d .spawned .onStarted
  | begins (hset : cbs.started = false) : Advance cbs d .spawned (.within .isStopRequested .lock)
  | started : Advance cbs d .onStarted (.within .isStopRequested .lock)
  | invokes : Advance cbs d .choose (.task d.correctForTaskDelay)
  | returns (correct : Bool) : Advance cbs d (.task correct) (.sleeping correct)
  | throws (correct : Bool) : Advance cbs d (.task correct) (.within .setException .lock)
  | wakes (correct : Bool) : Advance cbs d (.sleeping correct) (.unlockSleeper true)
  | stopped : Advance cbs d .onStopped .over

/-- Where the loop goes on, or ends. -/
def ThreadPc.unlocked (again : Bool) : ThreadPc :=
  if again then .within .isStopRequested .lock else .within .setIsRunning .lock

/-- **What one step can do.** -/
inductive Move (cbs : Callbacks) (s : State) : Action → List Event → State → Prop
  | calls (t : Tid) (c : Call) (hidle : s.callers t = .idle) (hmay : s.mayCall t = true) :
      Move cbs s (.call t c) (s.callEvents c t) (s.setCaller t c.entry)
  | within (t : Tid) (ok : Bool) (f : CallSection) (p : Place) (outcome : Outcome)
      (shared : Shared) (hpc : s.callers t = .within f p)
      (hstep : f.section.step t ok s.shared p = some (outcome, shared)) :
      Move cbs s (.caller t ok) [] ({ s with shared }.setCaller t (f.resume outcome))
  | passes (t : Tid) (ok starting : Bool) (hpc : s.callers t = .join starting)
      (hthread : s.thread = none) :
      Move cbs s (.caller t ok) [] (s.setCaller t (.joined starting))
  | refused (w : ℕ) (ok starting : Bool) (hpc : s.callers (.timer w) = .join starting)
      (hthread : s.thread = some w) :
      Move cbs s (.caller (.timer w) ok) [] (s.setCaller (.timer w) .idle)
  | joins (t : Tid) (ok starting : Bool) (w : ℕ) (hpc : s.callers t = .join starting)
      (hthread : s.thread = some w) (hother : t ≠ .timer w) (hover : s.threads w = .over) :
      Move cbs s (.caller t ok) [] ({ s with thread := none }.setCaller t (.joined starting))
  | resets (t : Tid) (ok : Bool) (hpc : s.callers t = .resetStop) :
      Move cbs s (.caller t ok) []
        ({ s with shared.data.stopRequested := false }.setCaller t (.within .startException .lock))
  | creates (t : Tid) (hpc : s.callers t = .create) (hthread : s.thread = none) :
      Move cbs s (.caller t true) []
        (({ s with thread := some s.threadCount, threadCount := s.threadCount + 1 }.setThread
          s.threadCount .spawned).setCaller t .idle)
  | fails (t : Tid) (hpc : s.callers t = .create) :
      Move cbs s (.caller t false) [] (s.setCaller t .idle)
  | terminates (t : Tid) (ok : Bool) (hpc : s.callers t = .create) :
      Move cbs s (.caller t ok) [] { s with terminated := true }
  | advances (w : ℕ) (ok : Bool) (pc : ThreadPc)
      (hpc : (s.threads w).Advance cbs s.shared.data pc)
      (hidle : (s.threads w).inCallback = true → s.callers (.timer w) = .idle) :
      Move cbs s (.thread w ok) [] (s.setThread w pc)
  | acts (w : ℕ) (ok : Bool) (f : ThreadSection) (p : Place) (outcome : Outcome)
      (shared : Shared) (hpc : s.threads w = .within f p)
      (hstep : f.section.step (.timer w) ok s.shared p = some (outcome, shared)) :
      Move cbs s (.thread w ok) [] ({ s with shared }.setThread w (f.resume cbs outcome))
  | locks (w : ℕ) (ok : Bool) (l : SharedMutex Tid) (hpc : s.threads w = .lockSleeper)
      (hlock : (s.shared.locks .sleeper).acquire (.timer w) .shared = some l) :
      Move cbs s (.thread w ok) []
        ({ s with shared := s.shared.setLock .sleeper l }.setThread w .choose)
  | unlocks (w : ℕ) (ok again : Bool) (l : SharedMutex Tid)
      (hpc : s.threads w = .unlockSleeper again)
      (hl : l = (s.shared.locks .sleeper).release (.timer w) .shared) :
      Move cbs s (.thread w ok) []
        ({ s with shared := s.shared.setLock .sleeper l }.setThread w (.unlocked again))

section Moves

variable {cbs : Callbacks} {s s' : State} {a : Action} {es : List Event}

theorem callerStep_move {t : Tid} {ok : Bool} (h : callerStep s t ok = some s') :
    Move cbs s (.caller t ok) [] s' := by
  rw [callerStep] at h
  split at h
  · cases h
  · next f p hpc =>
    obtain ⟨⟨outcome, shared⟩, hstep, rfl⟩ := Option.map_eq_some_iff.mp h
    exact .within t ok f p outcome shared hpc hstep
  · next starting hpc =>
    split at h
    · next hthread =>
      cases h
      exact .passes t ok starting hpc hthread
    · next w hthread =>
      split at h
      · next hown =>
        cases h
        subst hown
        exact .refused w ok starting hpc hthread
      · next hother =>
        split at h
        · next hover =>
          cases h
          exact .joins t ok starting w hpc hthread hother hover
        · cases h
  · next hpc =>
    cases h
    exact .resets t ok hpc
  · next hpc =>
    split at h
    · next hok =>
      split at h
      · next hthread =>
        cases h
        rw [hok]
        exact .creates t hpc hthread
      · cases h
        exact .terminates t ok hpc
    · next hok =>
      cases h
      rw [Bool.eq_false_iff.mpr hok]
      exact .fails t hpc

theorem threadStep_move {w : ℕ} {ok : Bool} (h : threadStep cbs s w ok = some s') :
    Move cbs s (.thread w ok) [] s' := by
  have hmove {pc pc' : ThreadPc} (hpc : s.threads w = pc)
      (hadvance : pc.Advance cbs s.shared.data pc')
      (hidle : pc.inCallback = true → s.callers (.timer w) = .idle) :
      Move cbs s (.thread w ok) [] (s.setThread w pc') :=
    .advances w ok pc' (hpc ▸ hadvance) (hpc ▸ hidle)
  rw [threadStep] at h
  split at h
  · cases h
  · cases h
  · next hpc =>
    cases h
    split
    · next hset => exact hmove hpc (.spawned hset) nofun
    · next hset => exact hmove hpc (.begins (Bool.eq_false_iff.mpr hset)) nofun
  · next hpc =>
    split at h
    · next hidle =>
      cases h
      exact hmove hpc .started fun _ => hidle
    · cases h
  · next f p hpc =>
    obtain ⟨⟨outcome, shared⟩, hstep, rfl⟩ := Option.map_eq_some_iff.mp h
    exact .acts w ok f p outcome shared hpc hstep
  · next hpc =>
    obtain ⟨l, hlock, rfl⟩ := Option.map_eq_some_iff.mp h
    exact .locks w ok l hpc hlock
  · next hpc =>
    cases h
    exact hmove hpc .invokes nofun
  · next correct hpc =>
    split at h
    · next hidle =>
      split at h
      · cases h
        exact hmove hpc (.returns correct) fun _ => hidle
      · cases h
        exact hmove hpc (.throws correct) fun _ => hidle
    · cases h
  · next correct hpc =>
    cases h
    exact hmove hpc (.wakes correct) nofun
  · next again hpc =>
    cases h
    exact .unlocks w ok again _ hpc rfl
  · next hpc =>
    split at h
    · next hidle =>
      cases h
      exact hmove hpc .stopped fun _ => hidle
    · cases h

theorem step_move (h : (system cbs).step s a = some (s', es)) :
    s.terminated = false ∧ Move cbs s a es s' := by
  change step cbs s a = some (s', es) at h
  unfold step at h
  split at h
  · cases h
  · next hterminated =>
    refine ⟨Bool.eq_false_iff.mpr hterminated, ?_⟩
    split at h
    · next t c =>
      split at h
      · next hcall =>
        cases h
        exact .calls t c hcall.1 hcall.2
      · cases h
    · next t ok =>
      obtain ⟨u, hstep, heq⟩ := Option.map_eq_some_iff.mp h
      cases heq
      exact callerStep_move hstep
    · next w ok =>
      obtain ⟨u, hstep, heq⟩ := Option.map_eq_some_iff.mp h
      cases heq
      exact threadStep_move hstep

end Moves

end BackgroundTimer
