/-
# `tcp_server`: the atomic steps

One function for each function of `net/src/tcp_server.cpp` (and for `run()` and the
monitor thread of `net/src/asio_io_pool.cpp`), giving the next atomic step from the
place it has reached.  The steps of a connection's session are those of `tcp_session`;
`Server.allows` says which of them the server's threads and its pool make possible, and
ties the session's callbacks to the closures of the listener.

Of Asio it is assumed that handlers only run on a worker of their context, that a
context without outstanding work stops by itself, and that a context that has stopped
starts no further handler.
-/
import Libsg.TcpServerState

namespace TcpServer

open TcpSession (Choice Agent Frame)

/-- How a step of `start()` goes that has more than one outcome. -/
inductive StartChoice
  | ok
  /-- the step throws -/
  | fail
  /-- `bind_acceptors()` succeeds, and this is what was bound -/
  | bound (endpoints : List EndPoint)
  deriving DecidableEq, Repr

inductive Action
  /-- user thread `n` calls `start()` -/
  | callStart (n : ℕ) (endpoints : List EndPoint)
  /-- user thread `n` calls `stop_async()`, or the destructor -/
  | callStop (n : ℕ)
  /-- the `start()` or `stop_async()` of thread `t` makes its next step -/
  | caller (t : Tid) (ch : StartChoice)
  /-- the pending `async_accept` of listener `l` completes -/
  | acceptDone (l : ℕ) (r : AcceptResult)
  /-- the retry timer of listener `l` expires -/
  | timerDone (l : ℕ)
  /-- the `close` posted to listener `l`'s strand runs -/
  | runClose (l : ℕ)
  | listener (l : ℕ) (ch : Choice)
  | stopper (k : ℕ)
  /-- the context runs out of work -/
  | drain
  | monitor
  /-- the session of connection `i` makes a step -/
  | session (i : ℕ) (a : TcpSession.Action Tid)
  | onConn (i : ℕ) (ch : Choice)
  | onStop (i : ℕ)
  deriving DecidableEq

/-- `std::atomic<size_t>::fetch_sub(1)`. -/
def fetchSub (n : ℕ) : ℕ := if n = 0 then 2 ^ 64 - 1 else n - 1

/-- `std::map::emplace`. -/
def emplace (m : List (ℕ × ℕ)) (id i : ℕ) : List (ℕ × ℕ) :=
  if id ∈ m.map Prod.fst then m else m ++ [(id, i)]

/-- `std::map::erase`. -/
def erase (m : List (ℕ × ℕ)) (id : ℕ) : List (ℕ × ℕ) := m.filter fun p => p.1 ≠ id

/-- `find_session()`; nothing where it throws `session_not_found`. -/
def Server.findSession (s : Server) (id : ℕ) : Option ℕ :=
  (s.sessions.find? fun p => p.1 = id).map Prod.snd

namespace Server

/-! ## Updates -/

def setCaller (s : Server) (t : Tid) (pc : CallPc) : Server :=
  { s with callers := Function.update s.callers t pc }

def setListener (s : Server) (l : ℕ) (L : Listener) : Server :=
  { s with listeners := Function.update s.listeners l L }

def setListenerPc (s : Server) (l : ℕ) (pc : ListenerPc) : Server :=
  s.setListener l { s.listeners l with pc := pc }

def setStopper (s : Server) (k : ℕ) (pc : StopperPc) : Server :=
  { s with stoppers := Function.update s.stoppers k pc }

def setConn (s : Server) (i : ℕ) (c : Conn) : Server :=
  { s with conns := Function.update s.conns i c }

/-! ## The pool -/

/-- `asio_io_pool::is_running()` of `m_context`. -/
def contextRunning (s : Server) : Bool := s.hasContext && s.cycleActive && !s.contextStopped

/-- Pool `p` is there and a worker of it can go on with the handler it is executing. -/
def executes (s : Server) (p : ℕ) : Bool := s.hasContext && s.workers && (s.pool == p)

/-- A worker of pool `p` can start on a handler. -/
def takesHandlers (s : Server) (p : ℕ) : Bool := s.executes p && !s.contextStopped

end Server

/-- A worker is executing the listener. -/
def ListenerPc.executing : ListenerPc → Bool
  | .unborn | .queued | .accepting | .resumed _ | .backingOff | .timerDone | .finished => false
  | _ => true

/-- The listener keeps its context from running out of work. -/
def Listener.hasWork (L : Listener) : Bool :=
  L.closePosted || !(L.pc = .unborn || L.pc = .finished)

/-- The session's strand and its pending operations keep the context from running out of work. -/
def Conn.hasWork (c : Conn) : Bool :=
  !c.session.queue.isEmpty || !(c.session.stack .strand).isEmpty ||
    decide (c.session.readerPc = .reading) ||
    (List.range c.session.spawned).any fun w => match c.session.writers w with
      | .writing _ => true
      | _ => false

/-- Nothing of the current pool keeps the context from running out of work. -/
def Server.outOfWork (s : Server) : Bool :=
  ((List.range s.listenerCount).all fun l => (s.listeners l).pool != s.pool ||
    !(s.listeners l).hasWork) &&
  (List.range s.connCount).all fun i => (s.conns i).pool != s.pool || !(s.conns i).hasWork

/-- No worker is executing a handler of the current pool. -/
def Server.idle (s : Server) : Bool :=
  ((List.range s.listenerCount).all fun l => (s.listeners l).pool != s.pool ||
    !(s.listeners l).pc.executing) &&
  (List.range s.connCount).all fun i => (s.conns i).pool != s.pool ||
    ((s.conns i).session.stack .strand).isEmpty

/-- The monitor thread. -/
def monitor (s : Server) : Option (Server × List Event) :=
  match s.monitor with
  | .joining =>
    if s.contextStopped ∧ s.idle then some ({ s with workers := false, monitor := .invoking }, [])
    else none
  | .invoking => some ({ s with monitor := .inCallback }, [.stoppedListening s.pool s.lastError])
  | .inCallback => some ({ s with monitor := .publishing }, [])
  | .publishing => some ({ s with cycleActive := false, monitor := .finished }, [])
  | _ => none

/-- The destructor of the pool stops its context, and waits for the end of its cycle. -/
def Server.destroyContext (s : Server) : Option (Server × List Event) :=
  if s.contextStopped then none else some ({ s with contextStopped := true }, [])

/-! ## `start()` and `stop_async()` -/

/-- The next step of a call of `start()` or `stop_async()` by thread `t`. -/
def caller (s : Server) (t : Tid) (ch : StartChoice) : Option (Server × List Event) :=
  match s.callers t with
  | .startExchange eps =>
    if s.running then some (s.setCaller t .idle, [.startThrew])
    else some ({ s with running := true }.setCaller t (.startLock eps), [])
  | .startLock eps =>
    if s.mutex = none then some ({ s with mutex := some t }.setCaller t (.startReset eps), [])
    else none
  | .startReset eps => some ({ s with stopInOperation := false }.setCaller t (.startId eps), [])
  | .startId eps =>
    if ch = .fail then some (s.setCaller t .catchReset, [])
    else
      some ({ s with lastId := 0, endpoints := eps, lastError := none }.setCaller t .startClear, [])
  | .startClear =>
    some ({ s with acceptors := [], localEndpoints := [] }.setCaller t .startContext, [])
  | .startContext =>
    if ch = .fail then some (s.setCaller t .catchReset, [])
    else if s.hasContext ∧ s.cycleActive then s.destroyContext
    else
      some ({ s with hasContext := true, pool := s.pool + 1, contextStopped := false,
                     workers := false, monitor := .unborn }.setCaller t .startBind, [])
  | .startBind => match ch with
    | .bound eps =>
      if eps.length = s.endpoints.length then
        some ({ s with
          acceptors := List.range' s.listenerCount eps.length
          listenerCount := s.listenerCount + eps.length
          listeners := fun l => if l ∈ List.range' s.listenerCount eps.length
            then { s.listeners l with acceptorOpen := true } else s.listeners l
          localEndpoints := eps }.setCaller t .startSpawn, [])
      else none
    | _ => some (s.setCaller t .catchReset, [])
  | .startSpawn =>
    if ch = .fail then some (s.setCaller t .catchReset, [])
    else
      some ({ s with
        listeners := fun l => if l ∈ s.acceptors
          then { s.listeners l with pc := .queued, pool := s.pool } else s.listeners l
        acceptorsRunning := s.acceptors.length }.setCaller t .invokeStartedListening, [])
  | .invokeStartedListening => some (s.setCaller t .inStartedListening, [.startedListening])
  | .inStartedListening =>
    some (s.setCaller t (if ch = .fail then .catchReset else .startWorkers), [])
  | .startWorkers =>
    if ch = .fail then some ({ s with cycleActive := true }.setCaller t .runStop, [])
    else some ({ s with cycleActive := true, workers := true }.setCaller t .startMonitor, [])
  | .startMonitor =>
    if ch = .fail then some (s.setCaller t .runStop, [])
    else
      some ({ s with monitor := .joining, mutex := none }.setCaller t .idle, [.started s.pool])
  | .runStop => some ({ s with contextStopped := true }.setCaller t .runJoin, [])
  | .runJoin =>
    if s.idle then
      some ({ s with workers := false, cycleActive := false }.setCaller t .catchReset, [])
    else none
  | .catchReset =>
    if s.hasContext ∧ s.cycleActive then s.destroyContext
    else some ({ s with acceptors := [], hasContext := false }.setCaller t .catchStore, [])
  | .catchStore =>
    some ({ s with acceptorsRunning := 0, running := false, mutex := none }.setCaller t .idle,
      [.startThrew])
  | .stopLock =>
    if s.mutex ≠ none then none
    else if s.stopInOperation then some (s.setCaller t .idle, [])
    else
      some (({ s with stopInOperation := true, mutex := some t,
                      stopperCount := s.stopperCount + 1 }.setStopper s.stopperCount
        .closeAcceptors).setCaller t (.stopJoin s.stopperCount), [])
  | .stopJoin k =>
    if k = 0 ∨ s.stoppers (k - 1) = .finished then
      some ({ s with mutex := none }.setCaller t .idle, [])
    else none
  | .idle => none

/-- The posted `close` of acceptor `l` and of its timer. -/
def closeAcceptor (L : Listener) : Listener :=
  { L with
    closePosted := false
    acceptorOpen := false
    pc := match L.pc with
      | .accepting => .resumed (some .operationAborted)
      | .backingOff => .timerDone
      | pc => pc }

/-- Stop thread `k` calls `stop_async()` of the session. -/
def Conn.stopBy (c : Conn) (k : ℕ) : Conn :=
  { c with session := TcpSession.call c.session (.thread (.stopper k)) .stopAsync }

/-- The stop thread. -/
def stopper (s : Server) (k : ℕ) : Option (Server × List Event) :=
  match s.stoppers k with
  | .closeAcceptors =>
    let close := fun l => if l ∈ s.acceptors then
        if s.contextRunning then { s.listeners l with closePosted := true }
        else { s.listeners l with acceptorOpen := false }
      else s.listeners l
    some ({ s with listeners := close }.setStopper k .checkContext, [])
  | .checkContext =>
    if s.contextRunning then some (s.setStopper k .waitListeners, [])
    else some ({ s with acceptorsRunning := 0 }.setStopper k .copySessions, [])
  | .waitListeners => if s.acceptorsRunning = 0 then some (s.setStopper k .copySessions, []) else none
  | .copySessions => some (s.setStopper k (.disconnecting (s.sessions.map Prod.snd)), [])
  | .disconnecting (i :: todo) =>
    some ((s.setConn i ((s.conns i).stopBy k)).setStopper k (.inStopAsync i todo), [])
  | .inStopAsync i todo =>
    if (s.conns i).session.stack (.thread (.stopper k)) = [] then
      some (s.setStopper k (.disconnecting todo), [])
    else none
  | .disconnecting [] => some (s.setStopper k .waitSessions, [])
  | .waitSessions => if s.activeSessions = 0 then some (s.setStopper k .stopContext, []) else none
  | .stopContext =>
    if s.hasContext then
      some ({ s with contextStopped := s.contextStopped || s.cycleActive }.setStopper k .waitContext,
        [])
    else some (s.setStopper k .storeRunning, [])
  | .waitContext => if s.cycleActive then none else some (s.setStopper k .storeRunning, [])
  | .storeRunning => some ({ s with running := false }.setStopper k .finished, [.stopped k])
  | _ => none

/-! ## `listener()` -/

/-- `listener()`, after the handlers that resume it. -/
def listener (s : Server) (l : ℕ) (ch : Choice) : Option (Server × List Event) :=
  let L := s.listeners l
  match L.pc with
  | .loop => some (s.setListenerPc l (if s.stopInOperation then .decrement else .accepting), [])
  | .completed none =>
    some (s.setListener l { L with backoff := acceptRetryMin, pc := .checkAccepted }, [])
  | .completed (some ec) =>
    if ec.isTransient then some (s.setListenerPc l (.checkTransient ec), [])
    else some (s.setListenerPc l (if ec = .operationAborted then .callStop else .recordError ec), [])
  | .checkTransient ec =>
    if s.stopInOperation then some (s.setListenerPc l .loop, [])
    else if L.backoff = acceptRetryMin ∨ acceptRetryMax ≤ L.backoff then
      some (s.setListenerPc l .reporting, [.acceptError l ec])
    else some (s.setListenerPc l .armTimer, [])
  -- whether `OnAcceptError` returns or throws
  | .reporting => some (s.setListenerPc l .armTimer, [])
  | .armTimer => some (s.setListenerPc l .backingOff, [])
  | .checkAccepted => some (s.setListenerPc l (if s.stopInOperation then .loop else .filtering), [])
  -- `ShouldAccept` accepts the connection, or rejects it or throws
  | .filtering => some (s.setListenerPc l (if ch = .fail then .loop else .takeId), [])
  | .takeId =>
    -- when `tcp_session::create` throws, the id is gone
    if ch = .fail then some ({ s with lastId := s.lastId + 1 }.setListenerPc l .loop, [])
    else
      some (({ s with lastId := s.lastId + 1, connCount := s.connCount + 1 }.setConn s.connCount
        { session := TcpSession.call {} (.thread (.listener l)) (.start true),
          id := s.lastId, listener := l, pool := L.pool }).setListenerPc l (.starting s.connCount), [])
  | .starting i =>
    if (s.conns i).session.stack (.thread (.listener l)) = [] then
      some (s.setListenerPc l .loop, [])
    else none
  | .recordError ec =>
    some ({ s with lastError := s.lastError <|> some ec }.setListenerPc l .callStop, [])
  | .callStop => some ((s.setCaller (.listener l) .stopLock).setListenerPc l .stopping, [])
  | .stopping =>
    if s.callers (.listener l) = .idle then some (s.setListenerPc l .decrement, []) else none
  | .decrement =>
    some ({ s with acceptorsRunning := fetchSub s.acceptorsRunning }.setListenerPc l .finished, [])
  | _ => none

/-- A worker starts on a handler that resumes `listener()`. -/
def runListener (s : Server) (l : ℕ) : Option (Server × List Event) :=
  let L := s.listeners l
  match L.pc with
  | .queued => some (s.setListenerPc l .loop, [])
  | .resumed r => some (s.setListenerPc l (.completed r), [])
  | .timerDone =>
    some (s.setListener l { L with backoff := min (L.backoff * 2) acceptRetryMax, pc := .loop }, [])
  | _ => none

/-! ## Connections -/

/-- `onConn` has put the session into `m_sessions`, where user code can find it. -/
def OnConnPc.published : OnConnPc → Bool
  | .invoking | .inCreated | .returned | .threw => true
  | _ => false

/-- `onConn` has ended, with an exception or without. -/
def OnConnPc.ended : OnConnPc → Choice → Bool
  | .returned, .ok => true
  | .emplaceThrew, .fail | .threw, .fail => true
  | _, _ => false

/-- The threads of the server and its pool make this step of the session possible.  User code
holds the pointers it has found in `m_sessions`; `start()` of the session is inside `onConn` while it
is inside `onConnected`, and `close_impl()` inside `on_session_stopped()` while it is inside
`onDisconnected`. -/
def Server.allows (s : Server) (c : Conn) : TcpSession.Action Tid → Bool
  | .call (.thread (.user _)) _ => c.onConn.published
  | .call (.thread (.listener l)) _ =>
    decide ((c.session.stack (.thread (.listener l))).head? = some .start) &&
      decide (c.onConn = .inCreated)
  | .call (.thread (.stopper _)) _ => false
  | .call .strand _ => match c.session.stack .strand with
    | .closeImpl _ :: _ => decide (c.onStop = .inDisconnected)
    | _ => true
  | .step (.thread (.listener l)) ch => s.executes c.pool &&
    match c.session.stack (.thread (.listener l)) with
    | .start :: _ => decide (c.session.startPc ≠ .inConnected) || c.onConn.ended ch
    | _ => true
  | .step (.thread _) _ => true
  | .step .strand _ => s.executes c.pool &&
    match c.session.stack .strand with
    | .closeImpl i :: _ => (match c.session.impls i with
      | .inDisconnected _ => decide (c.onStop = .returned)
      | _ => true)
    | _ => true
  | .runHandler | .readDone _ | .writeDone _ _ => s.takesHandlers c.pool

/-- The session enters its callbacks. -/
def Conn.enter (c : Conn) : List TcpSession.Event → Conn
  | [.connected] => { c with onConn := .counting }
  | [.disconnected ex] => { c with onStop := .invoking ex }
  | _ => c

/-- The session of connection `i` makes a step. -/
def session (o : TcpSession.Options) (s : Server) (i : ℕ) (a : TcpSession.Action Tid) :
    Option (Server × List Event) :=
  if i < s.connCount ∧ s.allows (s.conns i) a then
    (TcpSession.step o (s.conns i).session a).map fun r =>
      (s.setConn i ({ s.conns i with session := r.1 }.enter r.2), r.2.map (.session i))
  else none

/-- The `onConn` closure. -/
def onConn (s : Server) (i : ℕ) (ch : Choice) : Option (Server × List Event) :=
  let c := s.conns i
  match c.onConn with
  | .counting =>
    some ({ s with activeSessions := s.activeSessions + 1 }.setConn i
      { c with onConn := .emplacing }, [])
  | .emplacing =>
    if ch = .fail then some (s.setConn i { c with onConn := .emplaceThrew }, [])
    else
      some ({ s with sessions := emplace s.sessions c.id i }.setConn i
        { c with onConn := .invoking }, [])
  | .invoking => some (s.setConn i { c with onConn := .inCreated }, [.created i])
  | .inCreated =>
    -- `OnSessionCreated` is not inside a call of its own into the session
    if (c.session.stack (.thread (.listener c.listener))).head? = some .start then
      some (s.setConn i { c with onConn := if ch = .fail then .threw else .returned }, [])
    else none
  | _ => none

/-- `on_session_stopped()`. -/
def onStop (s : Server) (i : ℕ) : Option (Server × List Event) :=
  let c := s.conns i
  match c.onStop with
  | .invoking ex => some (s.setConn i { c with onStop := .inDisconnected }, [.disconnected i ex])
  | .inDisconnected =>
    -- whether `OnDisconnected` returns or throws; it is not inside a call of its own
    match c.session.stack .strand with
    | .closeImpl _ :: _ => some (s.setConn i { c with onStop := .erasing }, [])
    | _ => none
  | .erasing =>
    some ({ s with sessions := erase s.sessions c.id }.setConn i { c with onStop := .releasing },
      [.erased i])
  | .releasing =>
    some ({ s with activeSessions := fetchSub s.activeSessions }.setConn i
      { c with onStop := .returned }, [])
  | _ => none

/-! ## The system -/

/-- One action. -/
def step (o : TcpSession.Options) (s : Server) : Action → Option (Server × List Event)
  | .callStart n eps =>
    if s.callers (.user n) ≠ .idle then none
    else if eps = [] then some (s, [.startThrew])
    else some (s.setCaller (.user n) (.startExchange eps), [])
  | .callStop n =>
    if s.callers (.user n) ≠ .idle then none else some (s.setCaller (.user n) .stopLock, [])
  | .caller t ch => caller s t ch
  | .acceptDone l r =>
    if (s.listeners l).pc = .accepting ∧ s.takesHandlers (s.listeners l).pool ∧
        r ≠ some .operationAborted ∧ (r = none → (s.listeners l).acceptorOpen = true) then
      some (s.setListenerPc l (.resumed r), [])
    else none
  | .timerDone l =>
    if (s.listeners l).pc = .backingOff ∧ s.takesHandlers (s.listeners l).pool then
      some (s.setListenerPc l .timerDone, [])
    else none
  | .runClose l =>
    if (s.listeners l).closePosted ∧ s.takesHandlers (s.listeners l).pool ∧
        (s.listeners l).pc.executing = false then
      some (s.setListener l (closeAcceptor (s.listeners l)), [])
    else none
  | .listener l ch =>
    if (s.listeners l).pc.executing then
      if s.executes (s.listeners l).pool then listener s l ch else none
    else if s.takesHandlers (s.listeners l).pool then runListener s l else none
  | .stopper k => stopper s k
  | .drain =>
    if s.hasContext ∧ s.workers ∧ s.contextStopped = false ∧ s.outOfWork then
      some ({ s with contextStopped := true }, [])
    else none
  | .monitor => monitor s
  | .session i a => session o s i a
  | .onConn i ch => if s.executes (s.conns i).pool then onConn s i ch else none
  | .onStop i => if s.executes (s.conns i).pool then onStop s i else none

/-- A `tcp_server` before its first `start()`; `o` are the options of its sessions. -/
def system (o : TcpSession.Options) : TransitionSystem Server Action Event where
  start := {}
  step := step o

end TcpServer
