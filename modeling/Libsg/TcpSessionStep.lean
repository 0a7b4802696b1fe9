/-
# `tcp_session`: the atomic steps

One function for each function of `net/src/tcp_session.cpp`, giving the next atomic
step of a call from the place it has reached.  A step is a section under
`m_write_mutex` or `m_exception_mutex`, one operation on an atomic member, one socket
operation, or the entry to or exit from a user callback.  Each lock section holds at
most one operation on `m_state`, so that the section happens at that operation.

The environment decides, through the actions and their `Choice`, which thread goes
next, what user code calls, which operations fail, when a pending read or write
completes, and whether a weak compare-exchange fails spuriously.
-/
import Libsg.TransitionSystem
import Libsg.TcpSessionState

namespace TcpSession

variable {τ : Type} [DecidableEq τ]

/-- What user code can call on a session. -/
inductive Call
  | write (msg : Buffer)
  | stopAsync
  | stopAsyncForce
  | start (inIoThread : Bool)
  deriving DecidableEq, Repr

/-- How a step goes that has more than one outcome. -/
inductive Choice
  /-- the operation succeeds; the user callback returns -/
  | ok
  /-- the operation throws; the user callback throws; a weak exchange fails spuriously -/
  | fail
  /-- `co_spawn` from the strand runs the coroutine at once -/
  | inPlace
  deriving DecidableEq, Repr

inductive Action (τ : Type)
  /-- user code executed by `a` calls into the session -/
  | call (a : Agent τ) (c : Call)
  /-- the innermost call of `a` makes its next step -/
  | step (a : Agent τ) (ch : Choice)
  /-- the pool takes the first handler off the strand's queue -/
  | runHandler
  /-- the pending read completes -/
  | readDone (r : ReadResult)
  /-- the pending write of writer `w` completes -/
  | writeDone (w : ℕ) (ec : Option ErrorCode)
  deriving DecidableEq

namespace Session

/-! ## Updates -/

def setStack (s : Session τ) (a : Agent τ) (k : List Frame) : Session τ :=
  { s with stack := Function.update s.stack a k }

def setWriter (s : Session τ) (w : ℕ) (pc : WriterPc) : Session τ :=
  { s with writers := Function.update s.writers w pc }

def setImpl (s : Session τ) (i : ℕ) (pc : ImplPc) : Session τ :=
  { s with impls := Function.update s.impls i pc }

def setClose (s : Session τ) (c : ℕ) (pc : ClosePc) : Session τ :=
  { s with closes := Function.update s.closes c ⟨(s.closes c).caller, pc⟩ }

def post (s : Session τ) (h : Handler) : Session τ := { s with queue := s.queue ++ [h] }

/-- A call of `close()` by `caller` comes into being. -/
def addClose (s : Session τ) (caller : Closer) : Session τ :=
  { s with
    closes := Function.update s.closes s.closeCalls ⟨caller, .load⟩
    closeCalls := s.closeCalls + 1 }

/-- `caller` calls `close()` on `a`, on top of the frames `k`. -/
def newClose (s : Session τ) (caller : Closer) (a : Agent τ) (k : List Frame) : Session τ :=
  (s.addClose caller).setStack a (.close s.closeCalls :: k)

/-- `if (!m_exception) m_exception = std::current_exception();` -/
def record (s : Session τ) (ex : Exn) : Session τ :=
  { s with exception := s.exception <|> some ex }

end Session

open Session

/-! ## `write()` -/

/-- `write()`: the section under `m_write_mutex`. -/
def write (o : Options) (s : Session τ) (a : Agent τ) (k : List Frame) (msg : Buffer) :
    Session τ × List Event :=
  if s.state ≠ .running then (s.setStack a k, [.refused msg])
  else if o.writeHighWaterMark ≠ 0 ∧ o.writeHighWaterMark ≤ s.pendingBytes then
    (s.setStack a k, [.refused msg])
  else
    let s := { s with
      queuedBytes := s.queuedBytes + bufferSize msg
      writeMsgs := s.writeMsgs ++ [msg] }
    if s.writeScheduled then (s.setStack a k, [.accepted msg])
    else
      (({ s with writeScheduled := true, spawned := s.spawned + 1 }.setWriter s.spawned
        .toSpawn).setStack a (.writeSpawn s.spawned :: k), [.accepted msg])

/-- `write()`: the `co_spawn` of `writer()` outside the lock. -/
def writeSpawn (s : Session τ) (a : Agent τ) (k : List Frame) (w : ℕ) (ch : Choice) :
    Option (Session τ × List Event) :=
  match s.writers w, ch with
  | .toSpawn, .ok => some (((s.setWriter w .queued).post (.writer w)).setStack a k, [])
  | .toSpawn, .fail => some ((s.setWriter w .lost).setStack a k, [])
  | .toSpawn, .inPlace =>
    if a = .strand then some ((s.setWriter w .locking).setStack a (.writer w :: k), []) else none
  | _, _ => none

/-! ## `stop_async()`, `close()`, `close_impl()` -/

/-- `stop_async()`: the section under `m_write_mutex`, and the call of `close()` when no writer
is scheduled. -/
def stopAsync (s : Session τ) (a : Agent τ) (k : List Frame) : Session τ × List Event :=
  if s.state ≠ .running then (s.setStack a k, [])
  else if s.writeScheduled then
    ({ s with state := .stopRequested }.setStack a k, [.moved .stopRequested])
  else ({ s with state := .stopRequested }.newClose .stopAsync a k, [.moved .stopRequested])

/-- `close()`.  A failed exchange reloads `cur`, and the loop ends as soon as the value cannot be
closed; `cur` itself always can, so an exchange is only tried on a closable `m_state`. -/
def close (s : Session τ) (a : Agent τ) (k : List Frame) (c : ℕ) (ch : Choice) :
    Option (Session τ × List Event) :=
  match (s.closes c).pc with
  | .load =>
    if s.state.closable then
      some (s.setClose c (.compareExchange s.state), [.closeCalled (s.closes c).caller])
    else some ((s.setClose c .returned).setStack a k, [.closeCalled (s.closes c).caller])
  | .compareExchange cur =>
    if s.state.closable then
      if s.state = cur ∧ ch ≠ .fail then
        some (({ s with state := .stopping, closeWins := s.closeWins + 1 }.setImpl s.closeWins
          .dispatching).setClose c (.dispatch s.closeWins), [.moved .stopping])
      else some (s.setClose c (.compareExchange s.state), [])
    else some ((s.setClose c .returned).setStack a k, [])
  | .dispatch i =>
    match s.impls i, a with
    | .dispatching, .strand =>
      some (((s.setClose c .returned).setImpl i .closeSocket).setStack a (.closeImpl i :: k), [])
    | .dispatching, .thread _ =>
      some ((((s.setClose c .returned).setImpl i .queued).post (.closeImpl i)).setStack a k, [])
    | _, _ => none
  | _ => none

/-- `close_impl()`. -/
def closeImpl (s : Session τ) (a : Agent τ) (k : List Frame) (i : ℕ) :
    Option (Session τ × List Event) :=
  match s.impls i with
  | .closeSocket => some ({ s with socketOpen := false }.setImpl i .readException, [.socketClosed])
  | .readException => some (s.setImpl i (.checkOwed s.exception), [])
  | .checkOwed ex =>
    if s.disconnectionCallbackOwed then
      some (s.setImpl i (.inDisconnected ex), [.disconnected ex])
    else some (s.setImpl i .storeStopped, [])
  -- whether the callback returns or throws: the exception is caught and printed
  | .inDisconnected _ => some (s.setImpl i .storeStopped, [])
  | .storeStopped =>
    some (({ s with state := .stopped }.setImpl i .finished).setStack a k, [.moved .stopped])
  | _ => none

/-! ## `start()` -/

/-- `start()`, after `m_start_called.test_and_set()`.  The set-up works on the socket and throws
when another thread has closed it. -/
def start (o : Options) (s : Session τ) (a : Agent τ) (k : List Frame) (ch : Choice) :
    Option (Session τ × List Event) :=
  match s.startPc with
  | .compareExchange =>
    if s.state = .stopped then
      some ({ s with state := .running, startPc := .setup (setupSteps o) }, [.moved .running])
    else some ({ s with startPc := .threw }.setStack a k, [])
  | .setup (_ :: todo) =>
    if ch = .fail then some ({ s with startPc := .catchLoad (.systemError (.other 0)) }, [])
    else if s.socketOpen then some ({ s with startPc := .setup todo }, []) else none
  | .setup [] =>
    some ({ s with disconnectionCallbackOwed := true, startPc := .invokeConnected }, [])
  | .invokeConnected => some ({ s with startPc := .inConnected }, [.connected])
  | .inConnected =>
    some ({ s with startPc := if ch = .fail then .catchLoad .callback else .spawnReader }, [])
  | .spawnReader =>
    if ch = .fail then some ({ s with startPc := .catchLoad .badAlloc }, [])
    else
      some (({ s with startPc := .returned, readerPc := .queued }.post .reader).setStack a k, [])
  | .catchLoad ex =>
    some ({ s with startPc := if s.state = .running then .catchRecord ex else .catchStop }, [])
  | .catchRecord ex => some ({ s.record ex with startPc := .catchStop }, [])
  | .catchStop => some (stopAsync { s with startPc := .catchWait } a (.start :: k))
  | .catchWait =>
    -- on an I/O thread it does not wait
    if s.startInIoThread ∨ s.state = .stopped then
      some ({ s with startPc := .threw }.setStack a k, [])
    else none
  | _ => none

/-! ## The coroutines -/

/-- `reader()`. -/
def reader (o : Options) (s : Session τ) (k : List Frame) (ch : Choice) :
    Option (Session τ × List Event) :=
  match s.readerPc with
  | .getOption =>
    if ch = .fail then some ({ s with readerPc := .catchLoad (.systemError (.other 0)) }, [])
    else if s.socketOpen then some ({ s with readerPc := .loop }, []) else none
  | .loop =>
    if s.socketOpen then some ({ s with readerPc := .reading }.setStack .strand k, [])
    else some ({ s with readerPc := .callClose }, [])
  | .completed (.ok bytes) =>
    if o.dontRead then some ({ s with readerPc := .inData }, [.data none])
    else if o.onDataAvailable then some ({ s with readerPc := .inData }, [.data (some bytes)])
    else some ({ s with readerPc := .loop }, [])
  | .completed (.error ec) => some ({ s with readerPc := .catchLoad (.systemError ec) }, [])
  | .inData => some ({ s with readerPc := if ch = .fail then .catchLoad .callback else .loop }, [])
  | .catchLoad ex =>
    some ({ s with readerPc := if s.state = .running then .catchRecord ex else .callClose }, [])
  | .catchRecord ex => some ({ s.record ex with readerPc := .callClose }, [])
  | .callClose =>
    some ({ s with readerPc := .closing s.closeCalls }.newClose .reader .strand (.reader :: k), [])
  | .closing c =>
    if (s.closes c).pc = .returned then
      some ({ s with readerPc := .finished }.setStack .strand k, [])
    else none
  | _ => none

/-- What a failed `async_write` makes `writer()` throw. -/
def writeException (o : Options) (s : Session τ) (ec : ErrorCode) : Exn :=
  if o.timeoutMsec ≠ 0 ∧ s.state = .running ∧ (ec = .timedOut ∨ ec = .operationAborted) then
    .timeOut
  else .systemError ec

/-- `writer()`: the section under `m_write_mutex`, from `buffers.swap(m_write_msgs)` on. -/
def writerSection (s : Session τ) (w : ℕ) : Session τ :=
  let s' := { s with
    writeMsgs := []
    writeScheduled := if s.writeMsgs = [] then false else s.writeScheduled
    queuedBytes := s.queuedBytes - batchSize s.writeMsgs
    writingBytes := batchSize s.writeMsgs }
  s'.setWriter w (if s.writeMsgs = [] then .leaving else .issuing s.writeMsgs)

/-- `writer()`. -/
def writer (o : Options) (s : Session τ) (k : List Frame) (w : ℕ) :
    Option (Session τ × List Event) :=
  match s.writers w with
  | .locking => some (writerSection s w, [])
  | .leaving =>
    if s.state ≠ .running then some (s.setWriter w .callClose, [])
    else some ((s.setWriter w .finished).setStack .strand k, [])
  | .issuing batch => some ((s.setWriter w (.writing batch)).setStack .strand k, [.asyncWrite batch])
  | .completed none => some (s.setWriter w .locking, [])
  | .completed (some ec) => some (s.setWriter w (.catchLoad (writeException o s ec)), [])
  | .catchLoad ex =>
    some (s.setWriter w (if s.state = .running then .catchRecord ex else .callClose), [])
  | .catchRecord ex => some ((s.record ex).setWriter w .callClose, [])
  | .callClose =>
    some ((s.setWriter w (.closing s.closeCalls)).newClose (.writer w) .strand (.writer w :: k), [])
  | .closing c =>
    if (s.closes c).pc = .returned then
      some ((s.setWriter w .finished).setStack .strand k, [])
    else none
  | _ => none

/-! ## The system -/

/-- A frame in which user code runs and may call into the session. -/
def Session.inUserCode (s : Session τ) : Frame → Bool
  | .start => s.startPc = .inConnected
  | .closeImpl i => match s.impls i with
    | .inDisconnected _ => true
    | _ => false
  | .reader => s.readerPc = .inData
  | _ => false

/-- User code runs on `a`: outside every call on a thread of its own, or inside a callback. -/
def Session.canCall (s : Session τ) (a : Agent τ) : Bool :=
  match s.stack a, a with
  | [], .thread _ => true
  | [], .strand => false
  | f :: _, _ => s.inUserCode f

/-- User code on `a` calls into the session.  A second `start()` throws at once. -/
def call (s : Session τ) (a : Agent τ) : Call → Session τ
  | .write msg => s.setStack a (.write msg :: s.stack a)
  | .stopAsync => s.setStack a (.stopAsync :: s.stack a)
  | .stopAsyncForce => s.newClose .stopAsyncForce a (s.stack a)
  | .start inIoThread =>
    if s.startCalled then s
    else { s with startCalled := true, startPc := .compareExchange,
                  startInIoThread := inIoThread }.setStack a (.start :: s.stack a)

/-- The action takes `m_write_mutex` in `stop_async()`, called by user code or by the catch block
of `start()`. -/
def Session.entersStopAsync (s : Session τ) : Action τ → Bool
  | .step a _ => match s.stack a with
    | .stopAsync :: _ => true
    | .start :: _ => s.startPc = .catchStop
    | _ => false
  | _ => false

/-- The innermost call of `a`, in the frame `f` above `k`, makes its next step. -/
def frameStep (o : Options) (s : Session τ) (a : Agent τ) (k : List Frame) (ch : Choice) :
    Frame → Option (Session τ × List Event)
  | .write msg => some (write o s a k msg)
  | .writeSpawn w => writeSpawn s a k w ch
  | .stopAsync => some (stopAsync s a k)
  | .close c => close s a k c ch
  | .closeImpl i => closeImpl s a k i
  | .start => start o s a k ch
  | .reader => reader o s k ch
  | .writer w => writer o s k w

/-- A handler starts to execute on the strand. -/
def runHandler (s : Session τ) : Handler → Option (Session τ)
  | .reader => match s.readerPc with
    | .queued => some ({ s with readerPc := .getOption }.setStack .strand [.reader])
    | .resumed r => some ({ s with readerPc := .completed r }.setStack .strand [.reader])
    | _ => none
  | .writer w => match s.writers w with
    | .queued => some ((s.setWriter w .locking).setStack .strand [.writer w])
    | .resumed ec => some ((s.setWriter w (.completed ec)).setStack .strand [.writer w])
    | _ => none
  | .closeImpl i => match s.impls i with
    | .queued => some ((s.setImpl i .closeSocket).setStack .strand [.closeImpl i])
    | _ => none

/-- One action.  The strand runs one handler at a time, in queue order.  A pending read or write
can only succeed while the socket is open. -/
def step (o : Options) (s : Session τ) : Action τ → Option (Session τ × List Event)
  | .call a c => if s.canCall a then some (call s a c, []) else none
  | .step a ch => match s.stack a with
    | [] => none
    | f :: k => frameStep o s a k ch f
  | .runHandler => match s.stack .strand, s.queue with
    | [], h :: q => (runHandler { s with queue := q } h).map fun s' => (s', [])
    | _, _ => none
  | .readDone r =>
    if s.readerPc = .reading ∧ (r.isOk = true → s.socketOpen = true) then
      some ({ s with readerPc := .resumed r }.post .reader, [])
    else none
  | .writeDone w ec => match s.writers w with
    | .writing _ =>
      if ec = none → s.socketOpen = true then
        some ((s.setWriter w (.resumed ec)).post (.writer w), [])
      else none
    | _ => none

/-- A `tcp_session` over a connected socket, not yet started. -/
def system (τ : Type) [DecidableEq τ] (o : Options) :
    TransitionSystem (Session τ) (Action τ) Event where
  start := {}
  step := step o

end TcpSession
