/-
# `tcp_session`: members, coroutines and calls in progress

The data of `net/src/tcp_session.cpp`.  A `Session` holds the members of the C++
object, the session's strand (the handlers queued on it and the call stack of the
one that is executing), and every call and coroutine in progress with the place it
has reached.  The places are the points between two atomic steps: the sections
under `m_write_mutex` and `m_exception_mutex`, the single operations on the atomic
members, the socket operations, and the entry to and exit from a user callback.

Calls are named by counters (`spawned`, `closeCalls`, `closeWins`), so that several
`writer()` coroutines, several `close()` calls and several `close_impl()` runs can
exist side by side: that there is never more than one of each that matters is a
theorem, not part of the model.
-/
import Mathlib.Data.UInt
import Mathlib.Logic.Function.Basic
import Mathlib.Data.List.Basic

namespace TcpSession

/-- `sg::shared_c_buffer<std::byte>`: the bytes of one message. -/
abbrev Buffer := List UInt8

/-- `shared_c_buffer::size()`, a `size_t`. -/
def bufferSize (b : Buffer) : UInt64 := UInt64.ofNat b.length

/-- The `batch` sum of `writer()`. -/
def batchSize (bs : List Buffer) : UInt64 := (bs.map bufferSize).sum

/-- `tcp_session::state_t`. -/
inductive StateT
  | running
  | stopRequested
  | stopping
  | stopped
  deriving DecidableEq, Repr

/-- The values `close()` keeps looping on. -/
def StateT.closable : StateT → Bool
  | .running | .stopRequested => true
  | .stopping | .stopped => false

/-- The error codes the session tells apart, and all others. -/
inductive ErrorCode
  | eof
  | timedOut
  | operationAborted
  | other (value : ℕ)
  deriving DecidableEq, Repr

/-- What an `std::exception_ptr` of the session can hold. -/
inductive Exn
  /-- `boost::system::system_error` -/
  | systemError (ec : ErrorCode)
  /-- `exceptions::net::time_out` -/
  | timeOut
  /-- thrown by a user callback -/
  | callback
  /-- `co_spawn` could not allocate -/
  | badAlloc
  deriving DecidableEq, Repr

/-- `options_t` and the callbacks, as far as the session's control flow reads them.
The constructor refuses `dont_read` without an `OnDataAvailable` callback. -/
structure Options where
  dontRead : Bool := false
  onDataAvailable : Bool := true
  timeoutMsec : ℕ := 5000
  recvBufferSize : ℕ := 0
  sendBufferSize : ℕ := 0
  writeHighWaterMark : UInt64 := 0
  dontRead_requires : dontRead = true → onDataAvailable = true := by decide

/-- The fallible socket operations of `start()` before it reaches `onConnected`. -/
inductive SetupStep
  | keepalive
  | timeout
  | remoteEndpoint
  | localEndpoint
  | recvBufferSize
  | sendBufferSize
  deriving DecidableEq, Repr

/-- The set-up of `start()`; the buffer sizes are only set when asked for. -/
def setupSteps (o : Options) : List SetupStep :=
  [.keepalive, .timeout, .remoteEndpoint, .localEndpoint]
    ++ (if o.recvBufferSize ≠ 0 then [.recvBufferSize] else [])
    ++ (if o.sendBufferSize ≠ 0 then [.sendBufferSize] else [])

/-! ## Places -/

/-- Who called `close()`. -/
inductive Closer
  | stopAsync
  | stopAsyncForce
  | reader
  | writer (w : ℕ)
  deriving DecidableEq, Repr

/-- Where a call of `close()` stands. -/
inductive ClosePc
  | unborn
  /-- about to load `m_state` -/
  | load
  /-- about to try the exchange `cur → stopping` -/
  | compareExchange (cur : StateT)
  /-- the exchange succeeded; about to dispatch `close_impl()` number `i` -/
  | dispatch (i : ℕ)
  | returned
  deriving DecidableEq, Repr

/-- A call of `close()`. -/
structure CloseCall where
  caller : Closer
  pc : ClosePc
  deriving DecidableEq, Repr

/-- Where a run of `close_impl()` stands. -/
inductive ImplPc
  | unborn
  /-- its `close()` is about to dispatch it -/
  | dispatching
  /-- queued on the strand -/
  | queued
  | closeSocket
  | readException
  /-- about to load `m_disconnection_callback_owed` -/
  | checkOwed (ex : Option Exn)
  /-- inside `onDisconnected` -/
  | inDisconnected (ex : Option Exn)
  | storeStopped
  | finished
  deriving DecidableEq, Repr

/-- Where the one call of `start()` that got past `m_start_called` stands. -/
inductive StartPc
  | idle
  /-- about to exchange `stopped → running` -/
  | compareExchange
  /-- the set-up still to do; when none is left, about to store the owed flag -/
  | setup (todo : List SetupStep)
  | invokeConnected
  /-- inside `onConnected` -/
  | inConnected
  | spawnReader
  | catchLoad (ex : Exn)
  | catchRecord (ex : Exn)
  /-- about to call `stop_async()` -/
  | catchStop
  /-- `wait_until_stopped()`, unless on an I/O thread -/
  | catchWait
  | returned
  | threw
  deriving DecidableEq, Repr

/-- The result of `async_read_some`. -/
abbrev ReadResult := Except ErrorCode Buffer

/-- Where the `reader()` coroutine stands. -/
inductive ReaderPc
  | unborn
  /-- its first handler is queued on the strand -/
  | queued
  | getOption
  | loop
  /-- suspended in `async_read_some` (or the peeking `async_receive`) -/
  | reading
  /-- the completion handler is queued on the strand -/
  | resumed (r : ReadResult)
  | completed (r : ReadResult)
  /-- inside `onDataAvailable` -/
  | inData
  | catchLoad (ex : Exn)
  | catchRecord (ex : Exn)
  | callClose
  /-- inside `close()` call number `c` -/
  | closing (c : ℕ)
  | finished
  deriving DecidableEq, Repr

/-- Where a `writer()` coroutine stands. -/
inductive WriterPc
  | unborn
  /-- `write()` has set `m_write_scheduled` and is about to `co_spawn` -/
  | toSpawn
  /-- that `co_spawn` threw -/
  | lost
  /-- its first handler is queued on the strand -/
  | queued
  /-- about to take `m_write_mutex` -/
  | locking
  /-- found the queue empty and released the mutex; about to load `m_state` -/
  | leaving
  /-- took a batch and released the mutex; about to call `async_write` -/
  | issuing (batch : List Buffer)
  /-- suspended in `async_write` -/
  | writing (batch : List Buffer)
  /-- the completion handler is queued on the strand -/
  | resumed (ec : Option ErrorCode)
  | completed (ec : Option ErrorCode)
  | catchLoad (ex : Exn)
  | catchRecord (ex : Exn)
  | callClose
  /-- inside `close()` call number `c` -/
  | closing (c : ℕ)
  | finished
  deriving DecidableEq, Repr

/-! ## Threads, the strand and the session -/

/-- A call on some thread's stack. -/
inductive Frame
  | write (msg : Buffer)
  | writeSpawn (w : ℕ)
  | stopAsync
  | close (c : ℕ)
  | closeImpl (i : ℕ)
  | start
  | reader
  | writer (w : ℕ)
  deriving DecidableEq, Repr

/-- A handler queued on the strand. -/
inductive Handler
  | reader
  | writer (w : ℕ)
  | closeImpl (i : ℕ)
  deriving DecidableEq, Repr

/-- Who executes: a thread outside the strand, or the pool thread that currently runs the
strand's handlers. -/
inductive Agent (τ : Type)
  | thread (t : τ)
  | strand
  deriving DecidableEq, Repr

/-- A session. -/
structure Session (τ : Type) where
  state : StateT := .stopped
  startCalled : Bool := false
  writeScheduled : Bool := false
  writeMsgs : List Buffer := []
  queuedBytes : UInt64 := 0
  writingBytes : UInt64 := 0
  disconnectionCallbackOwed : Bool := false
  exception : Option Exn := none
  /-- `m_socket.is_open()` -/
  socketOpen : Bool := true
  /-- handlers queued on the strand, first in first out -/
  queue : List Handler := []
  stack : Agent τ → List Frame := fun _ => []
  startPc : StartPc := .idle
  /-- `start()` was called on an I/O thread -/
  startInIoThread : Bool := false
  readerPc : ReaderPc := .unborn
  writers : ℕ → WriterPc := fun _ => .unborn
  spawned : ℕ := 0
  closes : ℕ → CloseCall := fun _ => ⟨.stopAsync, .unborn⟩
  closeCalls : ℕ := 0
  impls : ℕ → ImplPc := fun _ => .unborn
  closeWins : ℕ := 0

/-- `pending_bytes()`, here under `m_write_mutex`. -/
def Session.pendingBytes {τ : Type} (s : Session τ) : UInt64 := s.queuedBytes + s.writingBytes

/-- What a step lets the outside see. -/
inductive Event
  /-- `write()` queued the message -/
  | accepted (msg : Buffer)
  /-- `write()` threw -/
  | refused (msg : Buffer)
  /-- `writer()` passed the batch to `async_write` -/
  | asyncWrite (batch : List Buffer)
  /-- `m_state` was changed -/
  | moved (v : StateT)
  /-- `close()` was called -/
  | closeCalled (caller : Closer)
  /-- `close_impl()` closed the socket -/
  | socketClosed
  /-- `onConnected` was invoked -/
  | connected
  /-- `onDisconnected` was invoked -/
  | disconnected (ex : Option Exn)
  /-- `onDataAvailable` was invoked; no data with `dont_read` -/
  | data (payload : Option Buffer)
  deriving DecidableEq, Repr

end TcpSession
