/-
# The tick loop of a worker

The loop of `worker::action()` with `wait_until_next_tick()` and `notify()`, statement
by statement.  The atomics and the semaphore the loop shares with the callers of the
worker are a `Control`; time enters through the choice of the step: how long a tick
took, and whether a timed wait ends by a token or by its interval.

A token that is there when the loop sleeps wakes it, and a token that is drained is drained
before a tick: so no notification is lost while the semaphore counts them.  It stops to count
at its `max()`, which `notify()` does not look at.  Many notifications make one early tick
where the drain leaves no token behind; but a `try_acquire()` may fail while there is one.
-/
import Libsg.TransitionSystem
import Mathlib.Algebra.GroupWithZero.Nat
import Mathlib.Data.Int.Notation
import Mathlib.Data.List.Count
import Mathlib.Tactic.Common

open TransitionSystem

namespace Worker

/-- `std::counting_semaphore<>`, whose `max()` is up to the implementation.  A `release()` that
finds the counter there is undefined, and what comes after it means nothing. -/
structure CountingSemaphore where
  max : ℕ
  counter : ℕ
  overflowed : Bool
  inRange : overflowed = false → counter ≤ max
  deriving DecidableEq, Repr

namespace CountingSemaphore

def empty (max : ℕ) : CountingSemaphore := ⟨max, 0, false, fun _ => Nat.zero_le max⟩

def release (sem : CountingSemaphore) : CountingSemaphore where
  max := sem.max
  counter := sem.counter + 1
  overflowed := sem.overflowed || sem.max ≤ sem.counter
  inRange h := Nat.lt_of_not_le (of_decide_eq_false (Bool.or_eq_false_iff.mp h).2)

/-- A token is acquired. -/
def take (sem : CountingSemaphore) : CountingSemaphore where
  max := sem.max
  counter := sem.counter - 1
  overflowed := sem.overflowed
  inRange h := Nat.le_trans (Nat.sub_le ..) (sem.inRange h)

/-- What is released below the maximum is counted. -/
theorem overflowed_release {sem : CountingSemaphore} (h : sem.overflowed = false) :
    sem.release.overflowed = false ↔ sem.counter < sem.max := by
  simp [release, h]

end CountingSemaphore

/-- The members the loop shares with the callers. -/
structure Control where
  stopRequested : Bool
  iterationsDone : ℕ
  stopAtIteration : ℕ
  interval : ℤ
  notifySem : CountingSemaphore
  deriving DecidableEq, Repr

def maxIterationCount : ℕ := 2 ^ 64 - 1

/-- The `max()` of an implementation that counts with an `int`. -/
def notifyMax : ℕ := 2 ^ 31 - 1

def noTokens : CountingSemaphore := .empty notifyMax

def oneToken : CountingSemaphore := noTokens.release

/-- The number of tokens there are. -/
def Control.tokens (c : Control) : ℕ := c.notifySem.counter

def Control.notify (c : Control) : Control := { c with notifySem := c.notifySem.release }

/-- A `try_acquire()` that succeeds. -/
def Control.acquire (c : Control) : Control := { c with notifySem := c.notifySem.take }

@[simp] theorem Control.tokens_notify (c : Control) : c.notify.tokens = c.tokens + 1 := rfl

@[simp] theorem Control.stopRequested_acquire (c : Control) :
    c.acquire.stopRequested = c.stopRequested := rfl

@[simp] theorem Control.iterationsDone_acquire (c : Control) :
    c.acquire.iterationsDone = c.iterationsDone := rfl

@[simp] theorem Control.stopAtIteration_acquire (c : Control) :
    c.acquire.stopAtIteration = c.stopAtIteration := rfl

@[simp] theorem Control.tokens_acquire (c : Control) : c.acquire.tokens = c.tokens - 1 := rfl

/-- Where the loop is; an iteration is known by its number from `fetch_add` on. -/
inductive LoopPc
  | check
  | counting
  | calling (iteration : ℕ)
  | ticking (iteration : ℕ)
  | ticked (iteration : ℕ)
  | timing
  | waiting
  | draining
  | left (threw : Bool)
  deriving DecidableEq, Repr

inductive LoopAction
  | proceed
  | tickReturns
  | tickThrows
  /-- The wait duration is calculated, `elapsed` after the start of the iteration. -/
  | measure (elapsed : ℕ)
  | acquire
  | timeout
  /-- `try_acquire()` fails in the drain loop while there are tokens, as it may. -/
  | miss
  deriving DecidableEq, Repr

inductive LoopEvent
  | tick
  | ticked (threw : Bool)
  /-- A timed wait ended by a token. -/
  | woken
  /-- The drain loop has ended. -/
  | drained
  deriving DecidableEq, Repr

/-- `interval`, less the time the tick took when that is to be corrected for. -/
def waitDuration (correctForTaskDelay : Bool) (interval : ℤ) (elapsed : ℕ) : ℤ :=
  if correctForTaskDelay then interval - elapsed else interval

/-- One step of the loop. -/
def loopStep (correctForTaskDelay : Bool) (c : Control) :
    LoopPc → LoopAction → Option (Control × LoopPc × List LoopEvent)
  | .check, .proceed =>
    if c.stopRequested then some (c, .left false, []) else some (c, .counting, [])
  | .counting, .proceed =>
    let iteration := (c.iterationsDone + 1) % 2 ^ 64
    some ({ c with iterationsDone := iteration }, .calling iteration, [])
  | .calling iteration, .proceed => some (c, .ticking iteration, [.tick])
  | .ticking iteration, .tickReturns => some (c, .ticked iteration, [.ticked false])
  | .ticking _, .tickThrows => some (c, .left true, [.ticked true])
  | .ticked iteration, .proceed =>
    if c.stopAtIteration ≤ iteration then some (c, .left false, []) else some (c, .timing, [])
  | .timing, .measure elapsed =>
    if 0 < waitDuration correctForTaskDelay c.interval elapsed then some (c, .waiting, [])
    else some (c, .draining, [])
  | .waiting, .acquire =>
    if 0 < c.tokens then some (c.acquire, .draining, [.woken]) else none
  | .waiting, .timeout => some (c, .draining, [])
  | .draining, .proceed =>
    if 0 < c.tokens then some (c.acquire, .draining, []) else some (c, .check, [.drained])
  | .draining, .miss => if 0 < c.tokens then some (c, .check, [.drained]) else none
  | _, _ => none

/-! ## What a step of the loop can do -/

/-- One step of the loop, with what it has checked. -/
inductive LoopMove (correctForTaskDelay : Bool) (c : Control) :
    LoopPc → Control → LoopPc → List LoopEvent → Prop
  | stop (h : c.stopRequested = true) : LoopMove correctForTaskDelay c .check c (.left false) []
  | goOn (h : c.stopRequested = false) : LoopMove correctForTaskDelay c .check c .counting []
  | count (n : ℕ) : LoopMove correctForTaskDelay c .counting { c with iterationsDone := n }
      (.calling n) []
  | call (n : ℕ) : LoopMove correctForTaskDelay c (.calling n) c (.ticking n) [.tick]
  | tickReturns (n : ℕ) : LoopMove correctForTaskDelay c (.ticking n) c (.ticked n) [.ticked false]
  | tickThrows (n : ℕ) : LoopMove correctForTaskDelay c (.ticking n) c (.left true) [.ticked true]
  | target (n : ℕ) (h : c.stopAtIteration ≤ n) :
      LoopMove correctForTaskDelay c (.ticked n) c (.left false) []
  | again (n : ℕ) (h : n < c.stopAtIteration) : LoopMove correctForTaskDelay c (.ticked n) c .timing []
  | sleep (elapsed : ℕ) (h : 0 < waitDuration correctForTaskDelay c.interval elapsed) :
      LoopMove correctForTaskDelay c .timing c .waiting []
  | late (elapsed : ℕ) (h : ¬ 0 < waitDuration correctForTaskDelay c.interval elapsed) :
      LoopMove correctForTaskDelay c .timing c .draining []
  | wake (h : 0 < c.tokens) : LoopMove correctForTaskDelay c .waiting c.acquire .draining [.woken]
  | timeout : LoopMove correctForTaskDelay c .waiting c .draining []
  | drain (h : 0 < c.tokens) : LoopMove correctForTaskDelay c .draining c.acquire .draining []
  | drained : LoopMove correctForTaskDelay c .draining c .check [.drained]

theorem loopStep_move {correctForTaskDelay : Bool} {c c' : Control} {pc pc' : LoopPc}
    {a : LoopAction} {es : List LoopEvent}
    (h : loopStep correctForTaskDelay c pc a = some (c', pc', es)) :
    LoopMove correctForTaskDelay c pc c' pc' es := by
  unfold loopStep at h
  split at h
  · split at h
    · next hstop =>
      cases h
      exact .stop hstop
    · next hstop =>
      cases h
      exact .goOn (by simpa using hstop)
  · cases h
    exact .count _
  · cases h
    exact .call _
  · cases h
    exact .tickReturns _
  · cases h
    exact .tickThrows _
  · split at h
    · next htarget =>
      cases h
      exact .target _ htarget
    · next htarget =>
      cases h
      exact .again _ (by omega)
  · split at h
    · next hlong =>
      cases h
      exact .sleep _ hlong
    · next hlong =>
      cases h
      exact .late _ hlong
  · split at h
    · next htoken =>
      cases h
      exact .wake htoken
    · cases h
  · cases h
    exact .timeout
  · split at h
    · next htoken =>
      cases h
      exact .drain htoken
    · cases h
      exact .drained
  · split at h
    · cases h
      exact .drained
    · cases h
  · cases h

/-- The places from which the loop gets to a tick, or leaves, without a timed wait. -/
def LoopPc.awake : LoopPc → Bool
  | .draining | .check | .counting | .calling _ | .left _ => true
  | _ => false

/-! ## The loop of one run among its callers -/

namespace TickLoop

structure State where
  control : Control
  pc : LoopPc
  deriving DecidableEq, Repr

/-- The loop makes a step, or a caller does: `notify()`, a store of `request_stop()` or of
`request_stop_after_iterations()`, `set_interval()`. -/
inductive Action
  | loop (a : LoopAction)
  | notify
  | storeStop
  | storeTarget (target : ℕ)
  | setInterval (interval : ℤ)
  deriving DecidableEq, Repr

inductive Event
  | loop (e : LoopEvent)
  | notified
  deriving DecidableEq, Repr

def step (correctForTaskDelay : Bool) (s : State) : Action → Option (State × List Event)
  | .loop a => (loopStep correctForTaskDelay s.control s.pc a).map
      fun (c, pc, es) => (⟨c, pc⟩, es.map .loop)
  | .notify => some ({ s with control := s.control.notify }, [.notified])
  | .storeStop => some ({ s with control := { s.control with stopRequested := true } }, [])
  | .storeTarget target =>
    some ({ s with control := { s.control with stopAtIteration := target } }, [])
  | .setInterval interval =>
    some ({ s with control := { s.control with interval := interval } }, [])

/-- The loop of a run that starts with the control `c`. -/
def system (correctForTaskDelay : Bool) (c : Control) : TransitionSystem State Action Event where
  start := ⟨c, .check⟩
  step := step correctForTaskDelay

/-- The loop is in a timed wait, and nothing is there to end it before its interval has passed. -/
def State.Asleep (s : State) : Prop := s.pc = .waiting ∧ s.control.tokens = 0

/-- All releases have been counted so far, so that what the semaphore does is defined. -/
def State.Counts (s : State) : Prop := s.control.notifySem.overflowed = false

/-- `notify()` finds the semaphore below its maximum. -/
def hasRoom (s : State) : Action → Prop
  | .notify => s.control.tokens < s.control.notifySem.max
  | _ => True

/-- Besides, the drain loop does not end while there are tokens. -/
def settles (s : State) : Action → Prop
  | .loop .miss => False
  | a => hasRoom s a

instance (s : State) : (a : Action) → Decidable (hasRoom s a)
  | .notify => inferInstanceAs (Decidable (s.control.tokens < s.control.notifySem.max))
  | .loop _ | .storeStop | .storeTarget _ | .setInterval _ => .isTrue trivial

/-- What a step does to the place and the tokens. -/
inductive Move (correctForTaskDelay : Bool) (s : State) : List Event → State → Prop
  | loop {c : Control} {pc : LoopPc} {es : List LoopEvent}
      (h : LoopMove correctForTaskDelay s.control s.pc c pc es) :
      Move correctForTaskDelay s (es.map .loop) ⟨c, pc⟩
  | notify : Move correctForTaskDelay s [.notified] { s with control := s.control.notify }
  | store (c : Control) (h : c.notifySem = s.control.notifySem) :
      Move correctForTaskDelay s [] { s with control := c }

theorem step_move {correctForTaskDelay : Bool} {s s' : State} {a : Action} {es : List Event}
    (h : step correctForTaskDelay s a = some (s', es)) : Move correctForTaskDelay s es s' := by
  cases a with
  | loop a =>
    obtain ⟨⟨c, pc, les⟩, hloop, heq⟩ := Option.map_eq_some_iff.mp h
    cases heq
    exact .loop (loopStep_move hloop)
  | notify =>
    cases h
    exact .notify
  | storeStop | storeTarget | setInterval =>
    cases h
    exact .store _ rfl

/-! ## No notification is lost -/

/-- The loop will start a tick, or leave, before it sleeps its interval. -/
def State.Awake (s : State) : Prop := s.pc.awake = true ∨ 0 < s.control.tokens

theorem State.Awake.not_asleep {s : State} (h : s.Awake) : ¬ s.Asleep := by
  rintro ⟨hpc, hsem⟩
  rcases h with hawake | htoken
  · rw [hpc] at hawake
    cases hawake
  · omega

theorem State.Awake.step {correctForTaskDelay : Bool} {s s' : State} {es : List Event} (h : s.Awake)
    (hm : Move correctForTaskDelay s es s') (htick : .loop .tick ∉ es) : s'.Awake := by
  obtain ⟨c, pc⟩ := s
  cases hm with
  | notify => exact .inr (Nat.succ_pos _)
  | store c' hc =>
    refine h.imp id fun htoken => ?_
    show 0 < c'.notifySem.counter
    rwa [hc]
  | loop hloop =>
    dsimp only at hloop
    cases hloop with
    | call n => simp at htick
    | stop | goOn | count | tickThrows | target | late | wake | timeout | drain | drained =>
      exact .inl rfl
    | tickReturns | again | sleep => exact h.imp (fun hawake => by cases hawake) id

variable {correctForTaskDelay : Bool} {c₀ : Control}

/-- A semaphore with room counts what is released. -/
theorem State.Counts.step {s s' : State} {a : Action} {es : List Event} (h : s.Counts)
    (hroom : hasRoom s a) (hstep : (system correctForTaskDelay c₀).step s a = some (s', es)) :
    s'.Counts := by
  cases a with
  | notify =>
    cases hstep
    exact (CountingSemaphore.overflowed_release h).mpr hroom
  | storeStop | storeTarget | setInterval =>
    cases hstep
    exact h
  | loop a =>
    obtain ⟨⟨c, pc, les⟩, hloop, heq⟩ := Option.map_eq_some_iff.mp hstep
    cases heq
    obtain ⟨c₁, pc₁⟩ := s
    cases loopStep_move hloop with
    | stop | goOn | count | call | tickReturns | tickThrows | target | again | sleep | late
    | timeout | drained => exact h
    | wake | drain => exact h

/-! ## No notification is multiplied -/

/-- Up to the end of a drain the loop is woken once at most: from then on it drains. -/
theorem woken_once {s s' : State} {tr : List Event}
    (hrun : (system correctForTaskDelay c₀).RunFrom anyStep s tr s')
    (hdrained : .loop .drained ∉ tr) :
    tr.count (.loop .woken) = 0 ∨ (tr.count (.loop .woken) = 1 ∧ s'.pc = .draining) := by
  induction hrun with
  | nil => exact .inl rfl
  | @snoc tr es t u a hrun hC hstep ih =>
    rw [List.mem_append, not_or] at hdrained
    have hbefore := ih hdrained.1
    have hm := step_move hstep
    obtain ⟨c, pc⟩ := t
    rw [List.count_append]
    cases hm with
    | notify | store => simpa using hbefore
    | loop hloop =>
      dsimp only at hloop hbefore
      cases hloop with
      | drained => simp at hdrained
      | drain => simpa using hbefore
      | wake => simpa using hbefore
      | late | timeout => exact .inl (by simpa using hbefore)
      | stop | goOn | count | call | tickReturns | tickThrows | target | again | sleep =>
        simpa using hbefore

/-- Every token that wakes the loop has been released. -/
theorem woken_le_notified {s s' : State} {tr : List Event}
    (hrun : (system correctForTaskDelay c₀).RunFrom anyStep s tr s') :
    tr.count (.loop .woken) + s'.control.tokens ≤ tr.count .notified + s.control.tokens := by
  induction hrun with
  | nil => simp
  | @snoc tr es t u a hrun hC hstep ih =>
    have hm := step_move hstep
    obtain ⟨c, pc⟩ := t
    rw [List.count_append, List.count_append]
    cases hm with
    | notify =>
      simp at ih ⊢
      omega
    | store c' hc =>
      have htokens : c'.tokens = c.tokens := congrArg CountingSemaphore.counter hc
      simp [htokens] at ih ⊢
      omega
    | loop hloop =>
      dsimp only at hloop ih
      cases hloop with
      | count n => simpa [Control.tokens] using ih
      | stop | goOn | call | tickReturns | tickThrows | target | again | sleep | late
      | wake | timeout | drain | drained =>
        simp at ih ⊢
        omega

/-- The drain leaves no token behind, unless it misses one. -/
theorem loopStep_drained {c c' : Control} {pc pc' : LoopPc} {a : LoopAction} {es : List LoopEvent}
    (h : loopStep correctForTaskDelay c pc a = some (c', pc', es)) (hdrained : .drained ∈ es) :
    a = .miss ∨ c'.tokens = 0 := by
  cases a with
  | miss => exact .inl rfl
  | proceed =>
    right
    cases pc with
    | draining =>
      simp only [loopStep] at h
      split at h
      · cases h
        cases hdrained
      · next htoken =>
        cases h
        exact Nat.eq_zero_of_not_pos htoken
    | check | ticked n =>
      simp only [loopStep] at h
      split at h <;> cases h <;> cases hdrained
    | counting =>
      cases h
      cases hdrained
    | calling n =>
      cases h
      simp at hdrained
    | ticking | timing | waiting | left => cases h
  | tickReturns | tickThrows | timeout =>
    cases pc <;> cases h
    simp at hdrained
  | measure elapsed | acquire =>
    cases pc <;> simp only [loopStep] at h <;> try cases h
    split at h <;> cases h
    all_goals simp at hdrained

theorem drained_empty {s s' : State} {a : Action} {es : List Event}
    (hstep : (system correctForTaskDelay c₀).step s a = some (s', es)) (hsettles : settles s a)
    (hdrained : .loop .drained ∈ es) : s'.control.tokens = 0 := by
  cases a with
  | notify | storeStop | storeTarget | setInterval =>
    cases hstep
    simp at hdrained
  | loop a =>
    obtain ⟨⟨c, pc, les⟩, hloop, heq⟩ := Option.map_eq_some_iff.mp hstep
    cases heq
    rcases loopStep_drained hloop (by simpa using hdrained) with rfl | hempty
    · cases hsettles
    · exact hempty

theorem counts_of_hasRoom {s s' : State} {tr : List Event} (h : s.Counts)
    (hrun : (system correctForTaskDelay c₀).RunFrom hasRoom s tr s') : s'.Counts :=
  hrun.invariant (I := fun _ s => s.Counts) h fun _ _ _ _ _ _ hroom hstep ih =>
    ih.step hroom hstep

/-- **Notifications are neither lost nor multiplied**, in the loop of one run among any callers,
while every `notify()` finds room in the semaphore and the drain loop misses no token.  After a
`notify()` the semaphore does as defined, and up to the next tick the loop is never in a timed wait
without a token.  Between two
ends of the drain loop it is woken once at most, and what wakes it after such an end was released
after it; only this needs a drain that misses nothing. -/
theorem notifications (correctForTaskDelay : Bool) (c₀ : Control) :
    (c₀.notifySem.overflowed = false →
      ∀ tr s s₁ es, (system correctForTaskDelay c₀).Run hasRoom tr s → hasRoom s .notify →
      (system correctForTaskDelay c₀).step s .notify = some (s₁, es) →
      ∀ tr₂ s₂, (system correctForTaskDelay c₀).RunFrom hasRoom s₁ tr₂ s₂ →
        s₂.Counts ∧ (.loop .tick ∉ tr₂ → ¬ s₂.Asleep)) ∧
    (∀ tr s, (system correctForTaskDelay c₀).Run hasRoom tr s →
      ∀ tr₂ s₂, (system correctForTaskDelay c₀).RunFrom hasRoom s tr₂ s₂ →
        .loop .drained ∉ tr₂ → tr₂.count (.loop .woken) ≤ 1) ∧
    (∀ tr s a s₁ es, (system correctForTaskDelay c₀).Run settles tr s → settles s a →
      (system correctForTaskDelay c₀).step s a = some (s₁, es) → .loop .drained ∈ es →
      ∀ tr₂ s₂, (system correctForTaskDelay c₀).RunFrom settles s₁ tr₂ s₂ →
        tr₂.count (.loop .woken) ≤ tr₂.count .notified) := by
  refine ⟨?_, ?_, ?_⟩
  -- the token is there until the loop takes it, and it ticks after that
  · intro hcounts tr s s₁ es hreach hroom hnotify tr₂ s₂ hrun
    have hbefore : s.Counts :=
      counts_of_hasRoom (s := (system correctForTaskDelay c₀).start) hcounts hreach
    have hafter : s₁.Counts := hbefore.step hroom hnotify
    have hawake : s₁.Awake := by
      cases hnotify
      exact .inr (Nat.succ_pos _)
    have hkept := hrun.invariant (I := fun tr s => .loop .tick ∉ tr → s.Awake)
      (fun _ => hawake) fun tr t a u es _ _ hstep ih hno => by
        rw [List.mem_append, not_or] at hno
        exact (ih hno.1).step (step_move hstep) hno.2
    exact ⟨counts_of_hasRoom hafter hrun, fun htick => (hkept htick).not_asleep⟩
  · intro tr s _ tr₂ s₂ hrun hdrained
    rcases woken_once (hrun.mono fun _ _ _ => trivial) hdrained with h | h
    · omega
    · omega
  -- the drain has emptied the semaphore: what wakes the loop was released since
  · intro tr s a s₁ es _ hsettles hstep hdrained tr₂ s₂ hrun
    have hempty := drained_empty hstep hsettles hdrained
    have hle := woken_le_notified (hrun.mono fun _ _ _ => trivial)
    omega

/-! ## Too many notifications, and a token that is missed -/

/-- `n` calls of `notify()` in a row. -/
theorem notify_times (n : ℕ) (s : State) : ∃ sem : CountingSemaphore,
    (system correctForTaskDelay c₀).RunFrom anyStep s (List.replicate n .notified)
      { s with control := { s.control with notifySem := sem } } ∧
    sem.counter = s.control.tokens + n ∧ sem.max = s.control.notifySem.max := by
  induction n with
  | zero => exact ⟨s.control.notifySem, .nil, rfl, rfl⟩
  | succ n ih =>
    obtain ⟨sem, hrun, hcounter, hmax⟩ := ih
    refine ⟨sem.release, ?_, ?_, hmax⟩
    · rw [List.replicate_succ']
      exact hrun.snoc (a := .notify) trivial rfl
    · show sem.counter + 1 = _
      omega

/-- **One `notify()` too many**: whatever the maximum is, a tick can last until the semaphore is
full, and after one more `notify()` the loop is in a timed wait of which nothing is known. -/
theorem notify_overflows (correctForTaskDelay : Bool) {c : Control} (hgo : c.stopRequested = false)
    (hinterval : 0 < c.interval) (hlast : (c.iterationsDone + 1) % 2 ^ 64 < c.stopAtIteration) :
    ∃ tr s s₁ es tr₂ s₂, (system correctForTaskDelay c).Reachable tr s ∧
      (system correctForTaskDelay c).step s .notify = some (s₁, es) ∧
      (system correctForTaskDelay c).RunFrom anyStep s₁ tr₂ s₂ ∧ .loop .tick ∉ tr₂ ∧
      s₂.pc = .waiting ∧ ¬ s₂.Counts := by
  obtain ⟨n, hn⟩ : ∃ n, n = (c.iterationsDone + 1) % 2 ^ 64 := ⟨_, rfl⟩
  rw [← hn] at hlast
  let M := system correctForTaskDelay c
  -- the tick begins, and lasts
  let t : State := ⟨{ c with iterationsDone := n }, .ticking n⟩
  have hbegins : M.Reachable [.loop .tick] t := by
    have hcheck : M.step M.start (.loop .proceed) = some (⟨c, .counting⟩, []) := by
      simp [M, system, step, loopStep, hgo]
    have hcount : M.step ⟨c, .counting⟩ (.loop .proceed) =
        some (⟨{ c with iterationsDone := n }, .calling n⟩, []) := by
      simp [M, system, step, loopStep, hn]
    have hcall : M.step ⟨{ c with iterationsDone := n }, .calling n⟩ (.loop .proceed) =
        some (t, [.loop .tick]) := rfl
    exact ((RunFrom.nil.snoc trivial hcheck).snoc trivial hcount).snoc trivial hcall
  obtain ⟨sem, hfill, hcounter, hmax⟩ :=
    @notify_times correctForTaskDelay c (c.notifySem.max - c.notifySem.counter) t
  let full : Control := { c with iterationsDone := n, notifySem := sem }
  have hover : full.notify.notifySem.overflowed = true := by
    have hle : sem.max ≤ sem.counter := by
      have htokens : t.control.tokens = c.notifySem.counter := rfl
      have hsame : t.control.notifySem.max = c.notifySem.max := rfl
      omega
    show (sem.overflowed || decide (sem.max ≤ sem.counter)) = true
    simp [hle]
  -- and the loop goes to sleep
  have hreturns : M.step ⟨full.notify, .ticking n⟩ (.loop .tickReturns) =
      some (⟨full.notify, .ticked n⟩, [.loop (.ticked false)]) := rfl
  have hagain : M.step ⟨full.notify, .ticked n⟩ (.loop .proceed) =
      some (⟨full.notify, .timing⟩, []) := by
    have hnot : ¬ full.notify.stopAtIteration ≤ n := Nat.not_le.mpr hlast
    simp [M, system, step, loopStep, hnot]
  have hsleep : M.step ⟨full.notify, .timing⟩ (.loop (.measure 0)) =
      some (⟨full.notify, .waiting⟩, []) := by
    have hlong : 0 < waitDuration correctForTaskDelay full.notify.interval 0 := by
      show 0 < waitDuration correctForTaskDelay c.interval 0
      simpa [waitDuration] using hinterval
    simp [M, system, step, loopStep, hlong]
  refine ⟨_, ⟨full, .ticking n⟩, ⟨full.notify, .ticking n⟩, [.notified], _, _,
    Run.append hbegins hfill, rfl,
    ((RunFrom.nil.snoc trivial hreturns).snoc trivial hagain).snoc trivial hsleep, ?_, rfl, ?_⟩
  · simp
  · show ¬ full.notify.notifySem.overflowed = false
    simp [hover]

/-- A run with an interval of 10. -/
def plainControl : Control := ⟨false, 0, maxIterationCount, 10, noTokens⟩

/-- Two notifications in the second tick; the drain after it misses one. -/
def missingRun : List Action :=
  [.loop .proceed, .loop .proceed, .loop .proceed, .loop .tickReturns,
    .loop .proceed, .loop (.measure 0), .loop .timeout, .loop .proceed,
    .loop .proceed, .loop .proceed, .loop .proceed, .notify, .notify, .loop .tickReturns,
    .loop .proceed, .loop (.measure 0), .loop .acquire, .loop .miss,
    .loop .proceed, .loop .proceed, .loop .proceed, .loop .tickReturns,
    .loop .proceed, .loop (.measure 0), .loop .acquire, .loop .proceed,
    .loop .proceed, .loop .proceed, .loop .proceed]

def missingTrace : List Event :=
  [.loop .tick, .loop (.ticked false), .loop .drained,
    .loop .tick, .notified, .notified, .loop (.ticked false), .loop .woken, .loop .drained,
    .loop .tick, .loop (.ticked false), .loop .woken, .loop .drained, .loop .tick]

/-- The last of `2 ^ 31` notifications in one tick is lost, and two notifications between two ends
of the drain make two early ticks. -/
theorem notifications_fail :
    (∃ tr s s₁ es tr₂ s₂, (system false plainControl).Reachable tr s ∧
      (system false plainControl).step s .notify = some (s₁, es) ∧
      (system false plainControl).RunFrom anyStep s₁ tr₂ s₂ ∧ .loop .tick ∉ tr₂ ∧
      s₂.pc = .waiting ∧ ¬ s₂.Counts) ∧
    ∃ s, (system false plainControl).Reachable missingTrace s := by
  constructor
  · exact notify_overflows false rfl (by decide) (by decide)
  · have hrun : (((system false plainControl).exec missingRun).map Prod.snd) =
        some missingTrace := by decide +kernel
    obtain ⟨⟨s, tr⟩, hexec, rfl⟩ := Option.map_eq_some_iff.mp hrun
    exact ⟨s, runFrom_of_execFrom (execMeets_anyStep _ _) hexec⟩

end TickLoop

end Worker
