/-
# Stop callbacks

`stop_token.hpp`: `__request_stop()`, `__try_add_callback()` and `__remove_callback()`
of the shared stop state, called by any number of threads and by the callbacks
themselves.  Every load, store and read-modify-write that another thread can see is a
step of its own; what is done to the list under the lock is one step with the unlock.
A thread is a stack of calls, since a callback may make calls while it is executed.

The constructor of a callback runs once and its destructor once, after it, so where they
are is kept with the callback (`Life`).  The call of `__request_stop()` that has set the
flag is the only one that goes on, and where it is is kept once (`Signal`).

The list is a parameter (`Registry`): what is proved here is proved over lists, and
`Libsg.StopCallbackLinks` carries it to the intrusive list of the source.  Here there is a
source left or not; the references to the state, and with them its deletion, are added in
`Libsg.StopCallbackReferences`, and a run from which the state has been deleted means nothing.
-/
import Mathlib.Logic.Function.Basic
import Mathlib.Data.List.Basic
import Libsg.CallStack
import Libsg.TransitionSystem

open TransitionSystem

namespace StopToken

/-! ## The state -/

/-- Where the constructor and the destructor of a callback are. -/
inductive Life
  | unborn
  /-- `__try_add_callback()` before it has the lock -/
  | add
  /-- the callback is executed by its constructor -/
  | inlined
  /-- with the lock -/
  | push
  | added
  /-- constructed, and `__state_` is set -/
  | registered
  /-- constructed, and `__state_` is null -/
  | detached
  /-- `__remove_callback()` before it has the lock -/
  | remove
  /-- with the lock -/
  | unlink
  | removed
  /-- waiting for the callback to finish executing -/
  | await
  | destroyed
  deriving DecidableEq, Repr

/-- Where the call of `__request_stop()` is that has set the flag. -/
inductive Signal (Cb : Type*)
  | idle
  /-- with the lock, before `__signallingThread_` is set -/
  | signalled
  /-- with the lock, before `__head_` is read -/
  | loop
  | execute (cb : Cb) (anyMore : Bool)
  | executing (cb : Cb) (anyMore : Bool)
  | executed (cb : Cb) (anyMore : Bool)
  | relock
  | returned
  deriving DecidableEq, Repr

/-- A call that a thread is in. -/
inductive Frame (Cb : Type*)
  /-- `__request_stop()` before it has set the flag -/
  | request
  /-- and after -/
  | signalling
  /-- the constructor or the destructor of a callback -/
  | life (cb : Cb)
  deriving DecidableEq, Repr

structure State (Thread Cb Q : Type*) where
  stopRequested : Bool := false
  locked : Bool := false
  /-- There is a source left. -/
  possible : Bool := true
  queue : Q
  signallingThread : Option Thread := none
  /-- `__isRemoved_` of a callback points to the flag. -/
  isRemovedSet : Cb → Bool := fun _ => false
  /-- The flag on the stack of `__request_stop()`. -/
  isRemoved : Bool := false
  callbackFinishedExecuting : Cb → Bool := fun _ => false
  signal : Signal Cb := .idle
  life : Cb → Life := fun _ => .unborn
  frames : Thread → List (Frame Cb) := fun _ => []

/-- What the functions do to the list of callbacks. -/
structure Registry (Q Cb : Type*) where
  empty : Q
  push : Q → Cb → Q
  /-- The head, whether there are any more, and the rest. -/
  pop : Q → Option (Cb × Bool × Q)
  /-- `__prev_ != nullptr` -/
  linked : Q → Cb → Bool
  unlink : Q → Cb → Q

inductive Event (Thread Cb : Type*)
  | executes (t : Thread) (cb : Cb)
  | executed (t : Thread) (cb : Cb)
  | stopReturned (t : Thread) (first : Bool)
  | destroyed (t : Thread) (cb : Cb)
  deriving DecidableEq, Repr

inductive Action (Thread Cb : Type*)
  /-- `request_stop()` is called. -/
  | request (t : Thread)
  | construct (t : Thread) (cb : Cb)
  | destroy (t : Thread) (cb : Cb)
  /-- The thread goes on with the call it is in. -/
  | step (t : Thread)
  /-- The callback that the thread executes returns. -/
  | finish (t : Thread)
  /-- The last source goes. -/
  | lastSource
  deriving DecidableEq, Repr

/-! ## The steps -/

section Steps

variable {Thread Cb Q : Type*} [DecidableEq Thread] [DecidableEq Cb]

namespace State

def setFrames (s : State Thread Cb Q) (t : Thread) (fs : List (Frame Cb)) : State Thread Cb Q :=
  { s with frames := Function.update s.frames t fs }

def setLife (s : State Thread Cb Q) (cb : Cb) (l : Life) : State Thread Cb Q :=
  { s with life := Function.update s.life cb l }

/-- The code a thread runs is not that of the stop state. -/
def userCode (s : State Thread Cb Q) (t : Thread) : Bool :=
  match s.frames t with
  | [] => true
  | .request :: _ => false
  | .signalling :: _ =>
    match s.signal with
    | .executing _ _ => true
    | _ => false
  | .life cb :: _ => s.life cb = .inlined

/-- The next step of the call of `__request_stop()` that has set the flag. -/
def signalStep (R : Registry Q Cb) (s : State Thread Cb Q) (t : Thread) (rest : List (Frame Cb)) :
    Option (State Thread Cb Q × List (Event Thread Cb)) :=
  match s.signal with
  | .idle | .returned => none
  | .signalled => some ({ s with signallingThread := some t, signal := .loop }, [])
  | .loop =>
    match R.pop s.queue with
    | none =>
      some ({ s with locked := false, signal := .returned }.setFrames t rest,
        [.stopReturned t true])
    | some (cb, anyMore, queue) =>
      some ({ s with queue, locked := false, signal := .execute cb anyMore }, [])
  | .execute cb anyMore =>
    some ({ s with
      isRemoved := false
      isRemovedSet := Function.update s.isRemovedSet cb true
      signal := .executing cb anyMore }, [.executes t cb])
  -- the callback has to return first
  | .executing _ _ => none
  | .executed cb anyMore =>
    let s := if s.isRemoved then s else
      { s with
        isRemovedSet := Function.update s.isRemovedSet cb false
        callbackFinishedExecuting := Function.update s.callbackFinishedExecuting cb true }
    if anyMore then some ({ s with signal := .relock }, [])
    else some ({ s with signal := .returned }.setFrames t rest, [.stopReturned t true])
  | .relock => if s.locked then none else some ({ s with locked := true, signal := .loop }, [])

/-- The next step of the constructor or the destructor of a callback. -/
def lifeStep (R : Registry Q Cb) (s : State Thread Cb Q) (t : Thread) (rest : List (Frame Cb))
    (cb : Cb) : Option (State Thread Cb Q × List (Event Thread Cb)) :=
  match s.life cb with
  | .add =>
    if s.stopRequested then some (s.setLife cb .inlined, [.executes t cb])
    else if s.possible = false then some ((s.setLife cb .detached).setFrames t rest, [])
    else if s.locked then none
    else some ({ s with locked := true }.setLife cb .push, [])
  | .push =>
    some ({ s with queue := R.push s.queue cb, locked := false }.setLife cb .added, [])
  | .added => some ((s.setLife cb .registered).setFrames t rest, [])
  | .remove =>
    if s.locked then none else some ({ s with locked := true }.setLife cb .unlink, [])
  | .unlink =>
    if R.linked s.queue cb then
      some (({ s with queue := R.unlink s.queue cb, locked := false }.setLife cb
        .destroyed).setFrames t rest, [.destroyed t cb])
    else
      some ({ s with locked := false }.setLife cb .removed, [])
  -- the `__remove_token_reference()` at the end is in `State.access`
  | .removed =>
    if s.signallingThread = some t then
      some (({ s with isRemoved := s.isRemoved || s.isRemovedSet cb }.setLife cb
        .destroyed).setFrames t rest, [.destroyed t cb])
    else
      some (s.setLife cb .await, [])
  | .await =>
    if s.callbackFinishedExecuting cb then
      some ((s.setLife cb .destroyed).setFrames t rest, [.destroyed t cb])
    else
      none
  | .unborn | .inlined | .registered | .detached | .destroyed => none

end State

def step (R : Registry Q Cb) (s : State Thread Cb Q) :
    Action Thread Cb → Option (State Thread Cb Q × List (Event Thread Cb))
  | .request t =>
    if s.userCode t ∧ s.possible then some (s.setFrames t (.request :: s.frames t), [])
    else none
  | .construct t cb =>
    if s.userCode t ∧ s.life cb = .unborn then
      some ((s.setLife cb .add).setFrames t (.life cb :: s.frames t), [])
    else none
  | .destroy t cb =>
    if s.userCode t then
      match s.life cb with
      | .registered => some ((s.setLife cb .remove).setFrames t (.life cb :: s.frames t), [])
      | .detached => some (s.setLife cb .destroyed, [.destroyed t cb])
      | _ => none
    else none
  | .step t =>
    match s.frames t with
    | [] => none
    | .request :: rest =>
      if s.stopRequested then some (s.setFrames t rest, [.stopReturned t false])
      else if s.locked then none
      else
        some ({ s with stopRequested := true, locked := true, signal := .signalled }.setFrames t
          (.signalling :: rest), [])
    | .signalling :: rest => s.signalStep R t rest
    | .life cb :: rest => s.lifeStep R t rest cb
  | .finish t =>
    match s.frames t with
    | .signalling :: _ =>
      match s.signal with
      | .executing cb anyMore => some ({ s with signal := .executed cb anyMore }, [.executed t cb])
      | _ => none
    | .life cb :: rest =>
      if s.life cb = .inlined then
        some ((s.setLife cb .detached).setFrames t rest, [.executed t cb])
      else none
    | _ => none
  | .lastSource => some ({ s with possible := false }, [])

def system (R : Registry Q Cb) :
    TransitionSystem (State Thread Cb Q) (Action Thread Cb) (Event Thread Cb) where
  start := { queue := R.empty }
  step := step R

/-- The list of callbacks as a list. -/
def listRegistry : Registry (List Cb) Cb where
  empty := []
  push q cb := cb :: q
  pop
    | [] => none
    | cb :: q => some (cb, !q.isEmpty, q)
  linked q cb := cb ∈ q
  unlink q cb := q.erase cb

/-- The stop state over lists. -/
def listSystem (Thread Cb : Type*) [DecidableEq Thread] [DecidableEq Cb] :
    TransitionSystem (State Thread Cb (List Cb)) (Action Thread Cb) (Event Thread Cb) :=
  system listRegistry

end Steps

/-! ## What a step can do -/

section Moves

variable {Thread Cb : Type*} [DecidableEq Thread] [DecidableEq Cb]

/-- The steps over lists, with the new state of each. -/
inductive Move (s : State Thread Cb (List Cb)) :
    State Thread Cb (List Cb) → List (Event Thread Cb) → Prop
  | request {t} (hcode : s.userCode t = true) : Move s (s.setFrames t (.request :: s.frames t)) []
  | construct {t cb} (hcode : s.userCode t = true) (hlife : s.life cb = .unborn) :
    Move s ((s.setLife cb .add).setFrames t (.life cb :: s.frames t)) []
  | destroy {t cb} (hcode : s.userCode t = true) (hlife : s.life cb = .registered) :
    Move s ((s.setLife cb .remove).setFrames t (.life cb :: s.frames t)) []
  | destroyDetached {t cb} (hlife : s.life cb = .detached) :
    Move s (s.setLife cb .destroyed) [.destroyed t cb]
  | refused {t rest} (ht : s.frames t = .request :: rest) (hstop : s.stopRequested = true) :
    Move s (s.setFrames t rest) [.stopReturned t false]
  | signal {t rest} (ht : s.frames t = .request :: rest) (hstop : s.stopRequested = false)
    (hlock : s.locked = false) :
    Move s ({ s with stopRequested := true, locked := true, signal := .signalled }.setFrames t
      (.signalling :: rest)) []
  | signalled {t rest} (ht : s.frames t = .signalling :: rest) (hsig : s.signal = .signalled) :
    Move s { s with signallingThread := some t, signal := .loop } []
  | empty {t rest} (ht : s.frames t = .signalling :: rest) (hsig : s.signal = .loop)
    (hqueue : s.queue = []) :
    Move s ({ s with locked := false, signal := .returned }.setFrames t rest)
      [.stopReturned t true]
  | dequeue {t rest cb queue} (ht : s.frames t = .signalling :: rest) (hsig : s.signal = .loop)
    (hqueue : s.queue = cb :: queue) :
    Move s { s with queue, locked := false, signal := .execute cb !queue.isEmpty } []
  | execute {t rest cb anyMore} (ht : s.frames t = .signalling :: rest)
    (hsig : s.signal = .execute cb anyMore) :
    Move s { s with
      isRemoved := false
      isRemovedSet := Function.update s.isRemovedSet cb true
      signal := .executing cb anyMore } [.executes t cb]
  | finish {t rest cb anyMore} (ht : s.frames t = .signalling :: rest)
    (hsig : s.signal = .executing cb anyMore) :
    Move s { s with signal := .executed cb anyMore } [.executed t cb]
  | executedMore {t rest cb} (ht : s.frames t = .signalling :: rest)
    (hsig : s.signal = .executed cb true) (hremoved : s.isRemoved = false) :
    Move s { s with
      isRemovedSet := Function.update s.isRemovedSet cb false
      callbackFinishedExecuting := Function.update s.callbackFinishedExecuting cb true
      signal := .relock } []
  | executedLast {t rest cb} (ht : s.frames t = .signalling :: rest)
    (hsig : s.signal = .executed cb false) (hremoved : s.isRemoved = false) :
    Move s ({ s with
      isRemovedSet := Function.update s.isRemovedSet cb false
      callbackFinishedExecuting := Function.update s.callbackFinishedExecuting cb true
      signal := .returned }.setFrames t rest) [.stopReturned t true]
  | goneMore {t rest cb} (ht : s.frames t = .signalling :: rest)
    (hsig : s.signal = .executed cb true) (hremoved : s.isRemoved = true) :
    Move s { s with signal := .relock } []
  | goneLast {t rest cb} (ht : s.frames t = .signalling :: rest)
    (hsig : s.signal = .executed cb false) (hremoved : s.isRemoved = true) :
    Move s ({ s with signal := .returned }.setFrames t rest) [.stopReturned t true]
  | relock {t rest} (ht : s.frames t = .signalling :: rest) (hsig : s.signal = .relock)
    (hlock : s.locked = false) :
    Move s { s with locked := true, signal := .loop } []
  | inlined {t rest cb} (ht : s.frames t = .life cb :: rest) (hlife : s.life cb = .add)
    (hstop : s.stopRequested = true) : Move s (s.setLife cb .inlined) [.executes t cb]
  | impossible {t rest cb} (ht : s.frames t = .life cb :: rest) (hlife : s.life cb = .add)
    (hstop : s.stopRequested = false) :
    Move s ((s.setLife cb .detached).setFrames t rest) []
  | lockAdd {t rest cb} (ht : s.frames t = .life cb :: rest) (hlife : s.life cb = .add)
    (hstop : s.stopRequested = false) (hlock : s.locked = false) :
    Move s ({ s with locked := true }.setLife cb .push) []
  | push {t rest cb} (ht : s.frames t = .life cb :: rest) (hlife : s.life cb = .push) :
    Move s ({ s with queue := cb :: s.queue, locked := false }.setLife cb .added) []
  | added {t rest cb} (ht : s.frames t = .life cb :: rest) (hlife : s.life cb = .added) :
    Move s ((s.setLife cb .registered).setFrames t rest) []
  | finishInlined {t rest cb} (ht : s.frames t = .life cb :: rest) (hlife : s.life cb = .inlined) :
    Move s ((s.setLife cb .detached).setFrames t rest) [.executed t cb]
  | lockRemove {t rest cb} (ht : s.frames t = .life cb :: rest) (hlife : s.life cb = .remove)
    (hlock : s.locked = false) :
    Move s ({ s with locked := true }.setLife cb .unlink) []
  | unlink {t rest cb} (ht : s.frames t = .life cb :: rest) (hlife : s.life cb = .unlink)
    (hqueue : cb ∈ s.queue) :
    Move s (({ s with queue := s.queue.erase cb, locked := false }.setLife cb
      .destroyed).setFrames t rest) [.destroyed t cb]
  | unlinked {t rest cb} (ht : s.frames t = .life cb :: rest) (hlife : s.life cb = .unlink)
    (hqueue : cb ∉ s.queue) :
    Move s ({ s with locked := false }.setLife cb .removed) []
  | removedHere {t rest cb} (ht : s.frames t = .life cb :: rest) (hlife : s.life cb = .removed)
    (hthread : s.signallingThread = some t) :
    Move s (({ s with isRemoved := s.isRemoved || s.isRemovedSet cb }.setLife cb
      .destroyed).setFrames t rest) [.destroyed t cb]
  | removedElsewhere {t rest cb} (ht : s.frames t = .life cb :: rest)
    (hlife : s.life cb = .removed) (hthread : s.signallingThread ≠ some t) :
    Move s (s.setLife cb .await) []
  | awaited {t rest cb} (ht : s.frames t = .life cb :: rest) (hlife : s.life cb = .await)
    (hfinished : s.callbackFinishedExecuting cb = true) :
    Move s ((s.setLife cb .destroyed).setFrames t rest) [.destroyed t cb]
  | lastSource : Move s { s with possible := false } []

variable {s s' : State Thread Cb (List Cb)} {es : List (Event Thread Cb)}

theorem signalStep_moves {t : Thread} {rest : List (Frame Cb)}
    (ht : s.frames t = .signalling :: rest)
    (h : s.signalStep listRegistry t rest = some (s', es)) : Move s s' es := by
  rw [State.signalStep] at h
  cases hsig : s.signal <;> simp only [hsig, reduceCtorEq] at h
  case signalled =>
    cases h
    exact .signalled ht hsig
  case loop =>
    cases hqueue : s.queue <;> simp only [hqueue, listRegistry] at h <;> cases h
    · simpa only [hqueue] using Move.empty ht hsig hqueue
    · exact .dequeue ht hsig hqueue
  case execute cb anyMore =>
    cases h
    exact .execute ht hsig
  case executed cb anyMore =>
    cases hremoved : s.isRemoved <;> cases anyMore <;>
      simp only [hremoved, if_true, Bool.false_eq_true, if_false] at h <;> cases h
    · simpa only [hremoved] using Move.executedLast ht hsig hremoved
    · simpa only [hremoved] using Move.executedMore ht hsig hremoved
    · simpa only [hremoved] using Move.goneLast ht hsig hremoved
    · simpa only [hremoved] using Move.goneMore ht hsig hremoved
  case relock =>
    cases hlock : s.locked <;> simp only [hlock, if_true, Bool.false_eq_true, if_false,
      reduceCtorEq] at h
    cases h
    exact .relock ht hsig hlock

theorem lifeStep_moves {t : Thread} {rest : List (Frame Cb)} {cb : Cb}
    (ht : s.frames t = .life cb :: rest)
    (h : s.lifeStep listRegistry t rest cb = some (s', es)) : Move s s' es := by
  rw [State.lifeStep] at h
  cases hlife : s.life cb <;> simp only [hlife, reduceCtorEq] at h
  case add =>
    cases hstop : s.stopRequested <;> simp only [hstop, if_true, Bool.false_eq_true, if_false] at h
    · split at h
      · cases h
        exact .impossible ht hlife hstop
      · cases hlock : s.locked <;> simp only [hlock, if_true, Bool.false_eq_true, if_false,
          reduceCtorEq] at h
        cases h
        simpa only [hstop] using Move.lockAdd ht hlife hstop hlock
    · cases h
      exact .inlined ht hlife hstop
  case push =>
    cases h
    exact .push ht hlife
  case added =>
    cases h
    exact .added ht hlife
  case remove =>
    cases hlock : s.locked <;> simp only [hlock, if_true, Bool.false_eq_true, if_false,
      reduceCtorEq] at h
    cases h
    exact .lockRemove ht hlife hlock
  case unlink =>
    by_cases hqueue : cb ∈ s.queue <;> simp only [listRegistry, hqueue, decide_true, decide_false,
      if_true, Bool.false_eq_true, if_false] at h <;> cases h
    · exact .unlink ht hlife hqueue
    · exact .unlinked ht hlife hqueue
  case removed =>
    by_cases hthread : s.signallingThread = some t <;> simp only [hthread, if_true, if_false] at h <;>
      cases h
    · simpa only [hthread] using Move.removedHere ht hlife hthread
    · exact .removedElsewhere ht hlife hthread
  case await =>
    cases hfinished : s.callbackFinishedExecuting cb <;> simp only [hfinished, if_true,
      Bool.false_eq_true, if_false, reduceCtorEq] at h
    cases h
    exact .awaited ht hlife hfinished

/-- **What a step can do.** -/
theorem step_moves {a : Action Thread Cb} (h : step listRegistry s a = some (s', es)) :
    Move s s' es := by
  cases a <;> rw [step] at h
  case request t =>
    split at h
    · next hcode =>
      cases h
      exact .request hcode.1
    · cases h
  case construct t cb =>
    split at h
    · next hcode =>
      cases h
      exact .construct hcode.1 hcode.2
    · cases h
  case destroy t cb =>
    split at h
    · next hcode =>
      cases hlife : s.life cb <;> simp only [hlife, reduceCtorEq] at h <;> cases h
      · exact .destroy hcode hlife
      · exact .destroyDetached hlife
    · cases h
  case step t =>
    cases ht : s.frames t with
    | nil => simp [ht] at h
    | cons f rest =>
      cases f <;> simp only [ht] at h
      case request =>
        cases hstop : s.stopRequested <;> simp only [hstop, if_true, Bool.false_eq_true,
          if_false] at h
        · cases hlock : s.locked <;> simp only [hlock, if_true, Bool.false_eq_true, if_false,
            reduceCtorEq] at h
          cases h
          exact .signal ht hstop hlock
        · cases h
          exact .refused ht hstop
      case signalling => exact signalStep_moves ht h
      case life cb => exact lifeStep_moves ht h
  case finish t =>
    cases ht : s.frames t with
    | nil => simp [ht] at h
    | cons f rest =>
      cases f <;> simp only [ht, reduceCtorEq] at h
      case signalling =>
        cases hsig : s.signal <;> simp only [hsig, reduceCtorEq] at h
        cases h
        exact .finish ht hsig
      case life cb =>
        split at h
        · next hlife =>
          cases h
          exact .finishInlined ht hlife
        · cases h
  case lastSource =>
    cases h
    exact .lastSource

end Moves

end StopToken
