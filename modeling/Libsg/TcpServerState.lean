/-
# `tcp_server`: members, coroutines and threads

The data of `net/src/tcp_server.cpp`, and of the `asio_io_pool` it runs on
(`net/src/asio_io_pool.cpp`).  A `Server` holds the members of the C++ object, the pool
`m_context` points to, and everything in progress: the calls of `start()` and
`stop_async()`, the `listener()` coroutines, the stop threads, and the connections.  A
connection is a `tcp_session` together with the two closures the listener hands it,
`onConn` and `onSessionDisconnected`, which run inside the session's callbacks.

Listeners, stop threads, connections and pools are numbered in the order in which they
come into being, over the whole history of the server.  The number of worker threads is
left open: whatever has work in the pool can be executed at any moment.
-/
import Libsg.TcpSessionStep

namespace TcpServer

/-- `sg::net::end_point`. -/
structure EndPoint where
  ip : String
  port : UInt16
  deriving DecidableEq, Repr

/-- The errors of `accept()` that `is_transient_accept_error()` names, `operation_aborted`, and
all others. -/
inductive AcceptError
  | noDescriptors
  | tooManyFilesOpenInSystem
  | noBufferSpace
  | noMemory
  | noStreamResources
  | interrupted
  | tryAgain
  | wouldBlock
  | connectionAborted
  | connectionReset
  | timedOut
  | networkDown
  | networkUnreachable
  | networkReset
  | hostUnreachable
  | noProtocolOption
  | operationNotSupported
  | protocolError
  | inProgress
  | hostDown
  | noNet
  | operationAborted
  | other (value : ℕ)
  deriving DecidableEq, Repr

/-- `is_transient_accept_error()`. -/
def AcceptError.isTransient : AcceptError → Bool
  | .operationAborted | .other _ => false
  | _ => true

/-- `accept_retry_min`, in milliseconds. -/
def acceptRetryMin : ℕ := 1

/-- `accept_retry_max`, in milliseconds. -/
def acceptRetryMax : ℕ := 500

/-- The threads that call into sessions or into the server: threads of the user (and user code in
callbacks), listeners, and stop threads. -/
inductive Tid
  | user (n : ℕ)
  | listener (l : ℕ)
  | stopper (k : ℕ)
  deriving DecidableEq, Repr

/-! ## Places -/

/-- Where a call of `start()` or of `stop_async()` stands. -/
inductive CallPc
  | idle
  /-- `m_running.exchange(true)` -/
  | startExchange (endpoints : List EndPoint)
  /-- about to lock `m_mutex_start_stop` -/
  | startLock (endpoints : List EndPoint)
  /-- `m_stop_in_operation.store(false)` -/
  | startReset (endpoints : List EndPoint)
  /-- `m_last_id = 0`, `m_endpoints`, `m_last_error` -/
  | startId (endpoints : List EndPoint)
  /-- the acceptors and `m_local_endpoints` are cleared -/
  | startClear
  /-- `m_context = asio_io_pool::create(..)` -/
  | startContext
  /-- `bind_acceptors()` -/
  | startBind
  /-- the listeners are spawned and counted -/
  | startSpawn
  | invokeStartedListening
  | inStartedListening
  /-- `m_context->run()`, up to the worker threads -/
  | startWorkers
  /-- `m_context->run()`, the monitor thread -/
  | startMonitor
  /-- the catch block of `asio_io_pool::run()`, up to the join of the workers -/
  | runStop
  | runJoin
  /-- the catch block of `start()` -/
  | catchReset
  | catchStore
  /-- `stop_async()` is about to lock `m_mutex_start_stop` -/
  | stopLock
  /-- it has created stop thread `k`, and joins the one before -/
  | stopJoin (k : ℕ)
  deriving DecidableEq, Repr

/-- The outcome of an `async_accept`. -/
abbrev AcceptResult := Option AcceptError

/-- Where a `listener()` coroutine stands. -/
inductive ListenerPc
  | unborn
  /-- its first handler is queued -/
  | queued
  /-- at the head of the loop -/
  | loop
  /-- suspended in `async_accept` -/
  | accepting
  /-- the completion handler is queued -/
  | resumed (r : AcceptResult)
  | completed (r : AcceptResult)
  /-- a transient error: about to look at `m_stop_in_operation` -/
  | checkTransient (ec : AcceptError)
  /-- inside `OnAcceptError` -/
  | reporting
  | armTimer
  /-- suspended in `retry_timer->async_wait` -/
  | backingOff
  /-- the timer's handler is queued -/
  | timerDone
  /-- a connection: about to look at `m_stop_in_operation` -/
  | checkAccepted
  /-- inside `ShouldAccept` -/
  | filtering
  /-- `m_last_id++`, `tcp_session::create` -/
  | takeId
  /-- inside `sess->start()` of connection `i` -/
  | starting (i : ℕ)
  | recordError (ec : AcceptError)
  | callStop
  /-- inside `stop_async()` -/
  | stopping
  /-- `m_acceptors_running_count.fetch_sub(1)` -/
  | decrement
  | finished
  deriving DecidableEq, Repr

/-- A listener, its acceptor and its timer. -/
structure Listener where
  pc : ListenerPc := .unborn
  /-- the pool it was spawned on -/
  pool : ℕ := 0
  /-- milliseconds -/
  backoff : ℕ := acceptRetryMin
  acceptorOpen : Bool := false
  /-- the `close` posted by the stop thread is queued -/
  closePosted : Bool := false
  deriving DecidableEq, Repr

/-- Where a stop thread stands. -/
inductive StopperPc
  | unborn
  /-- closes the acceptors -/
  | closeAcceptors
  /-- about to ask whether the context is running -/
  | checkContext
  | waitListeners
  /-- `disconnect_all()`: about to copy `m_sessions` -/
  | copySessions
  /-- `disconnect_all()`: connections still to stop -/
  | disconnecting (todo : List ℕ)
  /-- inside `stop_async()` of the first of them -/
  | inStopAsync (i : ℕ) (todo : List ℕ)
  | waitSessions
  | stopContext
  | waitContext
  /-- `m_running.store(false)` -/
  | storeRunning
  | finished
  deriving DecidableEq, Repr

/-- Where the monitor thread of the pool stands. -/
inductive MonitorPc
  | unborn
  /-- joins the workers -/
  | joining
  | invoking
  /-- inside `OnStoppedListening` -/
  | inCallback
  /-- `m_cycle_active.store(false)` -/
  | publishing
  | finished
  deriving DecidableEq, Repr

/-- Where the `onConn` closure of a connection stands. -/
inductive OnConnPc
  | idle
  /-- `m_active_sessions.fetch_add(1)` -/
  | counting
  /-- `m_sessions.emplace(..)` -/
  | emplacing
  | invoking
  /-- inside `OnSessionCreated` -/
  | inCreated
  | returned
  /-- `emplace` threw -/
  | emplaceThrew
  /-- `OnSessionCreated` threw -/
  | threw
  deriving DecidableEq, Repr

/-- Where `on_session_stopped()` of a connection stands. -/
inductive OnStopPc
  | idle
  | invoking (ex : Option TcpSession.Exn)
  /-- inside `OnDisconnected` -/
  | inDisconnected
  /-- `m_sessions.erase(id)` -/
  | erasing
  /-- `~release_session()` -/
  | releasing
  | returned
  deriving DecidableEq, Repr

/-- A connection. -/
structure Conn where
  session : TcpSession.Session Tid := {}
  id : ℕ := 0
  /-- the listener that accepted it -/
  listener : ℕ := 0
  /-- the pool of that listener -/
  pool : ℕ := 0
  onConn : OnConnPc := .idle
  onStop : OnStopPc := .idle

/-- A server. -/
structure Server where
  running : Bool := false
  stopInOperation : Bool := true
  /-- `m_last_id`, the number of accepts in the run; a `size_t` holds `2^64` of them -/
  lastId : ℕ := 0
  /-- `m_sessions`: ids and connections -/
  sessions : List (ℕ × ℕ) := []
  activeSessions : ℕ := 0
  endpoints : List EndPoint := []
  localEndpoints : List EndPoint := []
  lastError : Option AcceptError := none
  /-- `m_acceptors`, by the number of their listener -/
  acceptors : List ℕ := []
  acceptorsRunning : ℕ := 0
  /-- who holds `m_mutex_start_stop` -/
  mutex : Option Tid := none
  /-- `m_context` is not null -/
  hasContext : Bool := false
  /-- the number of the last pool created, which `m_context` points to if it is not null -/
  pool : ℕ := 0
  cycleActive : Bool := false
  /-- `io_context::stopped()` -/
  contextStopped : Bool := false
  /-- some worker is inside `io_context::run()` -/
  workers : Bool := false
  monitor : MonitorPc := .unborn
  callers : Tid → CallPc := fun _ => .idle
  listeners : ℕ → Listener := fun _ => {}
  listenerCount : ℕ := 0
  stoppers : ℕ → StopperPc := fun _ => .unborn
  stopperCount : ℕ := 0
  conns : ℕ → Conn := fun _ => {}
  connCount : ℕ := 0

/-- What a step lets the outside see. -/
inductive Event
  /-- of the session of connection `i` -/
  | session (i : ℕ) (e : TcpSession.Event)
  /-- `start()` returned -/
  | started (pool : ℕ)
  /-- `start()` threw -/
  | startThrew
  /-- `OnStartedListening` was invoked -/
  | startedListening
  /-- `OnStoppedListening` was invoked -/
  | stoppedListening (pool : ℕ) (error : Option AcceptError)
  /-- `OnAcceptError` was invoked -/
  | acceptError (l : ℕ) (ec : AcceptError)
  /-- `OnSessionCreated` was invoked for connection `i` -/
  | created (i : ℕ)
  /-- `OnDisconnected` was invoked for connection `i` -/
  | disconnected (i : ℕ) (ex : Option TcpSession.Exn)
  /-- `on_session_stopped()` erased connection `i` -/
  | erased (i : ℕ)
  /-- a stop thread stored `m_running = false` -/
  | stopped (k : ℕ)
  deriving DecidableEq, Repr

end TcpServer
