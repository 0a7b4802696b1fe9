/-
# The blocking client

`tcp_client_sync.cpp`.  Three read operations share the buffer of what has been
read from the socket and not been returned.  Boost.Asio and the network are a
parameter: an operation is a function of the state of the network, and says with
which error code it ended and which bytes it appended to its buffer.

`received` and `returned` are histories: what has been taken from the socket, and
what the reads have returned, since the client last began to connect.

* `Client.read`, `Client.readUntil`, `Client.readSome` : the reads;
* `StreamInv` : what was returned and what is buffered are what was received;
* `delivers_stream` : every read returns the next piece of the stream;
* `stays_readable_iff` : when what was received can still be read.
-/
import Libsg.Delimiter
import Libsg.TransitionSystem

namespace TcpClientSync

open Delimiter

/-! ## The client -/

abbrev Buffer := List UInt8

/-- The error codes the client tells apart, and all others. -/
inductive ErrorCode
  | timedOut
  | operationAborted
  | eof
  | other (value : ℕ)
  deriving DecidableEq, Repr

/-- What a call of the client throws. -/
inductive Exn
  /-- `std::runtime_error` -/
  | runtimeError (what : String)
  /-- `exceptions::net::time_out` -/
  | timeOut
  /-- `exceptions::net::other`, with the message of the error code -/
  | other (ec : ErrorCode)
  /-- thrown by the resolver, or by `native::set_keepalive` and `native::set_timeout` -/
  | system
  deriving DecidableEq, Repr

/-- What the client uses of Boost.Asio and of the system, in a network whose state is a `ν`.
An error code is `none` for success; a read also gives the bytes that it transferred. -/
structure Asio (ν : Type*) where
  /-- `resolver.resolve`, and whether it returned -/
  resolve : ν → Bool × ν
  /-- `async_connect`, and whether a failure has left the socket open -/
  asyncConnect : ν → Option ErrorCode × Bool × ν
  /-- `set_keepalive` and `set_timeout`, and whether they returned -/
  setOptions : ν → Bool × ν
  /-- `shutdown` and `close` -/
  close : ν → ν
  /-- `async_read_some` into a buffer of the given size -/
  asyncReadSome : ν → ℕ → Option ErrorCode × Buffer × ν
  /-- `async_read` on a `dynamic_buffer` that holds the given bytes, with its maximal size -/
  asyncRead : ν → Buffer → ℕ → Option ErrorCode × Buffer × ν
  /-- `async_read_until` on a `dynamic_buffer`, and the number it completes with -/
  asyncReadUntil : ν → Buffer → Buffer → Option ErrorCode × ℕ × Buffer × ν
  /-- `async_write` -/
  asyncWrite : ν → Buffer → Option ErrorCode × ν

structure Client (ν : Type*) where
  network : ν
  /-- `m_socket.is_open()` -/
  isOpen : Bool
  /-- `m_read_buffer` -/
  readBuffer : Buffer
  received : Buffer
  returned : Buffer
  deriving DecidableEq, Repr

namespace Client

variable {ν : Type*} (A : Asio ν)

def init (network : ν) : Client ν := ⟨network, false, [], [], []⟩

def isTimeout (ec : ErrorCode) : Bool := ec = .timedOut ∨ ec = .operationAborted

def throwNetError (ec : ErrorCode) : Exn := if isTimeout ec then .timeOut else .other ec

def isConnected (c : Client ν) : Bool := c.isOpen

def disconnect (c : Client ν) : Client ν :=
  if ¬ c.isOpen then c else { c with isOpen := false, network := A.close c.network }

/-- Bytes have been appended to `m_read_buffer`. -/
def receive (c : Client ν) (bytes : Buffer) (network : ν) : Client ν :=
  { c with
    network := network
    readBuffer := c.readBuffer ++ bytes
    received := c.received ++ bytes }

/-- `m_read_buffer.substr(0, n)` is returned, and erased. -/
def deliver (c : Client ν) (n : ℕ) : Except Exn Buffer × Client ν :=
  (.ok (c.readBuffer.take n),
    { c with
      readBuffer := c.readBuffer.drop n
      returned := c.returned ++ c.readBuffer.take n })

/-- `throw_on_read_error`, for an error code that is one. -/
def throwOnReadError (c : Client ν) (ec : ErrorCode) : Except Exn Buffer × Client ν :=
  (.error (throwNetError ec), if isTimeout ec then c else c.disconnect A)

def notConnected : Exn := .runtimeError "client not connected"

def readUntil (c : Client ν) (delimiter : Buffer) : Except Exn Buffer × Client ν :=
  if ¬ c.isConnected then
    (.error notConnected, c)
  else
    match A.asyncReadUntil c.network c.readBuffer delimiter with
    | (some ec, _, bytes, network) => (c.receive bytes network).throwOnReadError A ec
    | (none, n, bytes, network) => (c.receive bytes network).deliver n

/-- `m_read_some_buf.size()`. -/
def readSomeSize : ℕ := 64 * 1024

def readSome (c : Client ν) : Except Exn Buffer × Client ν :=
  if ¬ c.isConnected then
    (.error notConnected, c)
  else if c.readBuffer.isEmpty then
    match A.asyncReadSome c.network readSomeSize with
    | (ec, bytes, network) =>
      let c := c.receive bytes network
      match c.readBuffer.isEmpty, ec with
      | true, some ec => c.throwOnReadError A ec
      | _, _ => c.deliver c.readBuffer.length
  else
    c.deliver c.readBuffer.length

def read (c : Client ν) (size : ℕ) : Except Exn Buffer × Client ν :=
  if ¬ c.isConnected then
    (.error notConnected, c)
  else if c.readBuffer.length < size then
    match A.asyncRead c.network c.readBuffer size with
    | (some ec, bytes, network) => (c.receive bytes network).throwOnReadError A ec
    | (none, bytes, network) => (c.receive bytes network).deliver size
  else
    c.deliver size

def alreadyConnected : Exn := .runtimeError "client already connected"

def connect (c : Client ν) : Except Exn Buffer × Client ν :=
  if c.isConnected then
    (.error alreadyConnected, c)
  else
    let c : Client ν := { c with readBuffer := [], received := [], returned := [] }
    match A.resolve c.network with
    | (false, network) => (.error .system, { c with network := network })
    | (true, network) =>
      match A.asyncConnect network with
      | (some ec, isOpen, network) =>
        (.error (throwNetError ec), { c with network := network, isOpen := isOpen })
      | (none, _, network) =>
        match A.setOptions network with
        | (true, network) => (.ok [], { c with network := network, isOpen := true })
        | (false, network) => (.error .system, { c with network := network, isOpen := true })

def write (c : Client ν) (data : Buffer) : Except Exn Buffer × Client ν :=
  if ¬ c.isConnected then
    (.error notConnected, c)
  else
    match A.asyncWrite c.network data with
    | (none, network) => (.ok [], { c with network := network })
    | (some ec, network) =>
      (.error (throwNetError ec), disconnect A { c with network := network })

end Client

/-! ## Its runs -/

/-- The calls a caller can make, in any order. -/
inductive Call
  | connect
  | disconnect
  | readUntil (delimiter : Buffer)
  | readSome
  | read (size : ℕ)
  | write (data : Buffer)
  deriving DecidableEq, Repr

/-- `read`, `read_until` and `read_some`. -/
def Call.isRead : Call → Bool
  | .readUntil _ | .readSome | .read _ => true
  | .connect | .disconnect | .write _ => false

section Runs

variable {ν : Type*} (A : Asio ν)

def Client.call (c : Client ν) : Call → Except Exn Buffer × Client ν
  | .connect => c.connect A
  | .disconnect => (.ok [], c.disconnect A)
  | .readUntil delimiter => c.readUntil A delimiter
  | .readSome => c.readSome A
  | .read size => c.read A size
  | .write data => c.write A data

/-- A step is a call; it shows the call and what came of it. -/
def system (network : ν) : TransitionSystem (Client ν) Call (Call × Except Exn Buffer) where
  start := .init network
  step c k := some ((c.call A k).2, [(k, (c.call A k).1)])

/-- The strings returned since the client last began to connect, read off what the calls showed. -/
def returnedSince (tr : List (Call × Except Exn Buffer)) : Buffer :=
  tr.foldl (fun returned shown =>
    match shown with
    | (.connect, .error e) => if e = Client.alreadyConnected then returned else []
    | (.connect, .ok _) => []
    | (_, .ok r) => returned ++ r
    | (_, .error _) => returned) []

end Runs

/-! ## What a read can do -/

section Reads

variable {ν : Type*} {A : Asio ν}

namespace Client

@[simp] theorem receive_nil (c : Client ν) : c.receive [] c.network = c := by
  simp [receive]

@[simp] theorem receive_isOpen (c : Client ν) (bytes : Buffer) (network : ν) :
    (c.receive bytes network).isOpen = c.isOpen := rfl

@[simp] theorem receive_readBuffer (c : Client ν) (bytes : Buffer) (network : ν) :
    (c.receive bytes network).readBuffer = c.readBuffer ++ bytes := rfl

@[simp] theorem deliver_isOpen (c : Client ν) (n : ℕ) : (c.deliver n).2.isOpen = c.isOpen := rfl

theorem disconnect_buffers (c : Client ν) :
    (c.disconnect A).readBuffer = c.readBuffer ∧ (c.disconnect A).received = c.received ∧
      (c.disconnect A).returned = c.returned ∧ (c.disconnect A).isOpen = false := by
  rw [disconnect]
  split
  · simp_all
  · exact ⟨rfl, rfl, rfl, rfl⟩

/-- What was returned and what is buffered are what was received. -/
def StreamInv (c : Client ν) : Prop := c.returned ++ c.readBuffer = c.received

theorem StreamInv.receive {c : Client ν} (h : c.StreamInv) (bytes : Buffer) (network : ν) :
    (c.receive bytes network).StreamInv := by
  show c.returned ++ (c.readBuffer ++ bytes) = c.received ++ bytes
  rw [← List.append_assoc, h]

theorem StreamInv.deliver {c : Client ν} (h : c.StreamInv) (n : ℕ) : (c.deliver n).2.StreamInv := by
  show c.returned ++ c.readBuffer.take n ++ c.readBuffer.drop n = c.received
  rw [List.append_assoc, List.take_append_drop, h]

theorem StreamInv.disconnect {c : Client ν} (h : c.StreamInv) : (c.disconnect A).StreamInv := by
  obtain ⟨hbuffer, hreceived, hreturned, -⟩ := c.disconnect_buffers (A := A)
  rw [StreamInv, hbuffer, hreceived, hreturned, h]

theorem StreamInv.throwOnReadError {c : Client ν} (h : c.StreamInv) (ec : ErrorCode) :
    (c.throwOnReadError A ec).2.StreamInv := by
  rw [Client.throwOnReadError]
  split
  · exact h
  · exact h.disconnect

/-- What a read on an open socket does: it takes bytes from the socket, none perhaps, and then
returns the front of the buffer or throws. -/
inductive Reads (A : Asio ν) (c : Client ν) (out : Except Exn Buffer × Client ν) : Prop
  | delivers (bytes : Buffer) (network : ν) (n : ℕ)
      (h : out = (c.receive bytes network).deliver n)
  | throws (bytes : Buffer) (network : ν) (ec : ErrorCode)
      (h : out = (c.receive bytes network).throwOnReadError A ec)

theorem readUntil_reads (c : Client ν) (hopen : c.isOpen = true) (delimiter : Buffer) :
    Reads A c (c.readUntil A delimiter) := by
  rw [readUntil, if_neg (by simp [isConnected, hopen])]
  rcases A.asyncReadUntil c.network c.readBuffer delimiter with ⟨_ | ec, n, bytes, network⟩
  · exact .delivers bytes network n rfl
  · exact .throws bytes network ec rfl

theorem readSome_reads (c : Client ν) (hopen : c.isOpen = true) : Reads A c (c.readSome A) := by
  rw [readSome, if_neg (by simp [isConnected, hopen])]
  split
  · rcases A.asyncReadSome c.network readSomeSize with ⟨ec, bytes, network⟩
    dsimp only
    split
    · exact .throws bytes network _ rfl
    · exact .delivers bytes network _ rfl
  · exact .delivers [] c.network _ (by rw [receive_nil])

theorem read_reads (c : Client ν) (hopen : c.isOpen = true) (size : ℕ) :
    Reads A c (c.read A size) := by
  rw [read, if_neg (by simp [isConnected, hopen])]
  split
  · rcases A.asyncRead c.network c.readBuffer size with ⟨_ | ec, bytes, network⟩
    · exact .delivers bytes network size rfl
    · exact .throws bytes network ec rfl
  · exact .delivers [] c.network size (by rw [receive_nil])

theorem call_reads (c : Client ν) (hopen : c.isOpen = true) {k : Call} (hk : k.isRead = true) :
    Reads A c (c.call A k) := by
  cases k with
  | readUntil delimiter => exact c.readUntil_reads hopen delimiter
  | readSome => exact c.readSome_reads hopen
  | read size => exact c.read_reads hopen size
  | connect => cases hk
  | disconnect => cases hk
  | write data => cases hk

/-- A read on a closed socket only throws. -/
theorem call_closed (c : Client ν) (hclosed : c.isOpen = false) {k : Call}
    (hk : k.isRead = true) : c.call A k = (.error notConnected, c) := by
  cases k with
  | readUntil delimiter => exact if_pos (by simp [isConnected, hclosed])
  | readSome => exact if_pos (by simp [isConnected, hclosed])
  | read size => exact if_pos (by simp [isConnected, hclosed])
  | connect => cases hk
  | disconnect => cases hk
  | write data => cases hk

theorem StreamInv.reads {c : Client ν} (h : c.StreamInv) {out : Except Exn Buffer × Client ν}
    (hreads : Reads A c out) : out.2.StreamInv := by
  rcases hreads with ⟨bytes, network, n, rfl⟩ | ⟨bytes, network, ec, rfl⟩
  · exact (h.receive bytes network).deliver n
  · exact (h.receive bytes network).throwOnReadError ec

/-- The history of a read is what it returned. -/
theorem reads_returned (c : Client ν) {out : Except Exn Buffer × Client ν} (h : Reads A c out) :
    out.2.returned = match out.1 with
      | .ok r => c.returned ++ r
      | .error _ => c.returned := by
  rcases h with ⟨bytes, network, n, rfl⟩ | ⟨bytes, network, ec, rfl⟩
  · rfl
  · rw [throwOnReadError]
    split
    · rfl
    · exact ((c.receive bytes network).disconnect_buffers).2.2.1

/-- A `connect` that is not refused starts a new history. -/
theorem connect_cases (c : Client ν) :
    (c.isOpen = true ∧ c.connect A = (.error alreadyConnected, c)) ∨
      ((c.connect A).2.readBuffer = [] ∧ (c.connect A).2.received = [] ∧
        (c.connect A).2.returned = [] ∧ (c.connect A).1 ≠ .error alreadyConnected) := by
  rw [connect]
  split
  · rename_i hopen
    exact .inl ⟨hopen, rfl⟩
  · refine .inr ?_
    dsimp only
    rcases A.resolve c.network with ⟨_ | _, network⟩
    · exact ⟨rfl, rfl, rfl, nofun⟩
    · dsimp only
      rcases A.asyncConnect network with ⟨_ | ec, isOpen, network⟩
      · dsimp only
        split <;> exact ⟨rfl, rfl, rfl, nofun⟩
      · refine ⟨rfl, rfl, rfl, ?_⟩
        dsimp only [throwNetError]
        split <;> nofun

theorem write_buffers (c : Client ν) (data : Buffer) :
    (c.write A data).2.readBuffer = c.readBuffer ∧ (c.write A data).2.received = c.received ∧
      (c.write A data).2.returned = c.returned ∧ ∀ r, (c.write A data).1 = .ok r → r = [] := by
  rw [write]
  split
  · exact ⟨rfl, rfl, rfl, nofun⟩
  · rcases A.asyncWrite c.network data with ⟨_ | ec, network⟩
    · refine ⟨rfl, rfl, rfl, ?_⟩
      rintro r hr
      exact (Except.ok.inj hr).symm
    · obtain ⟨hbuffer, hreceived, hreturned, -⟩ :=
        disconnect_buffers (A := A) { c with network := network }
      exact ⟨hbuffer, hreceived, hreturned, nofun⟩

end Client

end Reads

/-! ## The stream -/

section Stream

variable {ν : Type*} {A : Asio ν} {network : ν}

/-- The histories are those of the calls, and the buffer holds what lies between them. -/
structure StreamOf (tr : List (Call × Except Exn Buffer)) (c : Client ν) : Prop where
  returned : c.returned = returnedSince tr
  stream : c.StreamInv

theorem returnedSince_snoc (tr : List (Call × Except Exn Buffer)) (k : Call)
    (out : Except Exn Buffer) :
    returnedSince (tr ++ [(k, out)]) =
      match k, out with
      | .connect, .error e => if e = Client.alreadyConnected then returnedSince tr else []
      | .connect, .ok _ => []
      | _, .ok r => returnedSince tr ++ r
      | _, .error _ => returnedSince tr := by
  rw [returnedSince, List.foldl_append]
  cases k <;> cases out <;> rfl

theorem returnedSince_read (tr : List (Call × Except Exn Buffer)) {k : Call}
    (hk : k.isRead = true) (out : Except Exn Buffer) :
    returnedSince (tr ++ [(k, out)]) =
      match out with
      | .ok r => returnedSince tr ++ r
      | .error _ => returnedSince tr := by
  rw [returnedSince_snoc]
  cases k with
  | readUntil delimiter => cases out <;> rfl
  | readSome => cases out <;> rfl
  | read size => cases out <;> rfl
  | connect => cases hk
  | disconnect => cases hk
  | write data => cases hk

theorem StreamOf.read {tr : List (Call × Except Exn Buffer)} {c : Client ν} (h : StreamOf tr c)
    {k : Call} (hk : k.isRead = true) :
    StreamOf (tr ++ [(k, (c.call A k).1)]) (c.call A k).2 := by
  by_cases hopen : c.isOpen = true
  · have hreads := c.call_reads (A := A) hopen hk
    refine ⟨?_, h.stream.reads hreads⟩
    rw [c.reads_returned hreads, returnedSince_read tr hk, h.returned]
  · have hclosed := c.call_closed (A := A) (by simpa using hopen) hk
    refine ⟨?_, ?_⟩
    · rw [returnedSince_read tr hk, hclosed]
      exact h.returned
    · rw [hclosed]
      exact h.stream

theorem StreamOf.connect {tr : List (Call × Except Exn Buffer)} {c : Client ν}
    (h : StreamOf tr c) :
    StreamOf (tr ++ [(.connect, (c.call A .connect).1)]) (c.call A .connect).2 := by
  rcases c.connect_cases (A := A) with ⟨-, hrefused⟩ | ⟨hbuffer, hreceived, hreturned, hout⟩
  · refine ⟨?_, ?_⟩
    · rw [returnedSince_snoc, Client.call, hrefused]
      exact h.returned
    · rw [Client.call, hrefused]
      exact h.stream
  · refine ⟨?_, ?_⟩
    · rw [returnedSince_snoc, Client.call, hreturned]
      cases hresult : (c.connect A).1 with
      | ok r => rfl
      | error e =>
        have hne : e ≠ Client.alreadyConnected := by
          rintro rfl
          exact hout hresult
        exact (if_neg hne).symm
    · rw [Client.StreamInv, Client.call, hbuffer, hreceived, hreturned]
      rfl

theorem StreamOf.call {tr : List (Call × Except Exn Buffer)} {c : Client ν} (h : StreamOf tr c)
    (k : Call) : StreamOf (tr ++ [(k, (c.call A k).1)]) (c.call A k).2 := by
  cases k with
  | connect => exact h.connect
  | readUntil delimiter => exact h.read rfl
  | readSome => exact h.read rfl
  | read size => exact h.read rfl
  | disconnect =>
    obtain ⟨-, -, hreturned, -⟩ := c.disconnect_buffers (A := A)
    refine ⟨?_, h.stream.disconnect⟩
    rw [returnedSince_snoc]
    exact hreturned.trans (h.returned.trans (List.append_nil _).symm)
  | write data =>
    obtain ⟨hbuffer, hreceived, hreturned, hout⟩ := c.write_buffers (A := A) data
    refine ⟨?_, ?_⟩
    · rw [returnedSince_snoc, Client.call, hreturned, h.returned]
      cases hresult : (c.write A data).1 with
      | ok r =>
        rw [hout r hresult]
        exact (List.append_nil _).symm
      | error e => rfl
    · rw [Client.StreamInv, Client.call, hbuffer, hreceived, hreturned]
      exact h.stream

theorem streamOf_reachable {tr : List (Call × Except Exn Buffer)} {c : Client ν}
    (h : (system A network).Reachable tr c) : StreamOf tr c := by
  refine TransitionSystem.Run.invariant (I := StreamOf) ?_ ?_ h
  · exact ⟨rfl, rfl⟩
  · rintro tr c k c' es - - hstep hinv
    cases hstep
    exact hinv.call k

/-- What Boost.Asio documents of the composed reads: without an error, `async_read` has filled
its buffer, and `async_read_until` has found the delimiter and completes with where it ends. -/
structure Asio.Documented (A : Asio ν) : Prop where
  read : ∀ {network network' : ν} {buffer bytes : Buffer} {size : ℕ}, buffer.length ≤ size →
    A.asyncRead network buffer size = (none, bytes, network') → (buffer ++ bytes).length = size
  readUntil : ∀ {network network' : ν} {buffer delimiter bytes : Buffer} {n : ℕ},
    A.asyncReadUntil network buffer delimiter = (none, n, bytes, network') →
      EndsFirst delimiter (buffer ++ bytes) n

namespace Client

/-- A read that returns `r` has left the client with what it took from the socket. -/
theorem read_ok (hA : A.Documented) {c c' : Client ν} {size : ℕ} {r : Buffer}
    (h : c.read A size = (.ok r, c')) :
    ∃ bytes, c'.received = c.received ++ bytes ∧ r = (c.readBuffer ++ bytes).take size ∧
      size ≤ (c.readBuffer ++ bytes).length := by
  rw [read] at h
  split at h
  · cases h
  · split at h
    · rename_i hshort
      rcases hop : A.asyncRead c.network c.readBuffer size with ⟨_ | ec, bytes, network'⟩
      · rw [hop] at h
        cases h
        exact ⟨bytes, rfl, rfl, Nat.le_of_eq (hA.read (Nat.le_of_lt hshort) hop).symm⟩
      · rw [hop] at h
        cases h
    · rename_i hlong
      cases h
      exact ⟨[], (List.append_nil _).symm, by rw [List.append_nil], by simpa using hlong⟩

theorem readUntil_ok (hA : A.Documented) {c c' : Client ν} {delimiter r : Buffer}
    (h : c.readUntil A delimiter = (.ok r, c')) :
    ∃ bytes n, c'.received = c.received ++ bytes ∧ r = (c.readBuffer ++ bytes).take n ∧
      EndsFirst delimiter (c.readBuffer ++ bytes) n := by
  rw [readUntil] at h
  split at h
  · cases h
  · rcases hop : A.asyncReadUntil c.network c.readBuffer delimiter with
      ⟨_ | ec, n, bytes, network'⟩
    · rw [hop] at h
      cases h
      exact ⟨bytes, n, rfl, rfl, hA.readUntil hop⟩
    · rw [hop] at h
      cases h

/-- What a stream holds behind the returned strings: the buffer, the bytes just taken, the rest. -/
theorem StreamInv.drop {c : Client ν} (h : c.StreamInv) {bytes S : Buffer}
    (hS : c.received ++ bytes <+: S) :
    ∃ rest, S.drop c.returned.length = c.readBuffer ++ bytes ++ rest := by
  obtain ⟨rest, rfl⟩ := hS
  refine ⟨rest, ?_⟩
  rw [← h, List.append_assoc, List.append_assoc, List.drop_left, List.append_assoc]

end Client

/-- **The byte stream is delivered exactly.**  In every run, what the calls returned since the
client last began to connect, followed by the buffer, is what was taken from the socket.  A
`read` that returns gives exactly that many bytes and a `read_until` that returns ends with the
first occurrence of its delimiter, both the next piece of any stream that begins with what has
been taken. -/
theorem delivers_stream (hA : A.Documented) {tr : List (Call × Except Exn Buffer)} {c : Client ν}
    (h : (system A network).Reachable tr c) :
    returnedSince tr ++ c.readBuffer = c.received ∧
    (∀ size r c', c.read A size = (.ok r, c') → r.length = size ∧
      ∀ S, c'.received <+: S → r = (S.drop (returnedSince tr).length).take size) ∧
    (∀ delimiter r c', c.readUntil A delimiter = (.ok r, c') → delimiter <:+ r ∧
      ∀ S, c'.received <+: S →
        search delimiter (S.drop (returnedSince tr).length) = some r.length ∧
          r = (S.drop (returnedSince tr).length).take r.length) := by
  obtain ⟨hreturned, hstream⟩ := streamOf_reachable h
  rw [← hreturned]
  refine ⟨hstream, ?_, ?_⟩
  · intro size r c' hread
    obtain ⟨bytes, hreceived, hr, hsize⟩ := Client.read_ok hA hread
    refine ⟨by rw [hr, List.length_take_of_le hsize], ?_⟩
    intro S hS
    obtain ⟨rest, hdrop⟩ := hstream.drop (hreceived ▸ hS)
    rw [hdrop, List.take_append_of_le_length hsize, hr]
  · intro delimiter r c' hread
    obtain ⟨bytes, n, hreceived, hr, hends⟩ := Client.readUntil_ok hA hread
    have hlen : r.length = n := by rw [hr, List.length_take_of_le hends.le_length]
    refine ⟨hr ▸ hends.ends, ?_⟩
    intro S hS
    obtain ⟨rest, hdrop⟩ := hstream.drop (hreceived ▸ hS)
    rw [hdrop, hlen, search_eq_some_iff, List.take_append_of_le_length hends.le_length]
    exact ⟨hends.append rest, hr⟩

end Stream

/-! ## A network that follows a script -/

/-- What happens next on the connection. -/
inductive Arrival
  | bytes (bs : Buffer)
  | fails (ec : ErrorCode)
  deriving DecidableEq, Repr

/-- `async_read` with room for `n` more bytes; when nothing more happens it times out. -/
def scriptedRead : List Arrival → ℕ → Option ErrorCode × Buffer × List Arrival
  | network, 0 => (none, [], network)
  | [], _ + 1 => (some .operationAborted, [], [])
  | .fails ec :: network, _ + 1 => (some ec, [], network)
  | .bytes bs :: network, n + 1 =>
    if n + 1 ≤ bs.length then
      (none, bs.take (n + 1), .bytes (bs.drop (n + 1)) :: network)
    else
      match scriptedRead network (n + 1 - bs.length) with
      | (ec, more, network) => (ec, bs ++ more, network)

def scriptedReadUntil : List Arrival → Buffer → Buffer →
    Option ErrorCode × ℕ × Buffer × List Arrival
  | [], buffer, delimiter =>
    match search delimiter buffer with
    | some n => (none, n, [], [])
    | none => (some .operationAborted, 0, [], [])
  | arrival :: network, buffer, delimiter =>
    match search delimiter buffer, arrival with
    | some n, arrival => (none, n, [], arrival :: network)
    | none, .fails ec => (some ec, 0, [], network)
    | none, .bytes bs =>
      match scriptedReadUntil network (buffer ++ bs) delimiter with
      | (ec, n, more, network) => (ec, n, bs ++ more, network)

def scripted : Asio (List Arrival) where
  resolve network := (true, network)
  asyncConnect network := (none, true, network)
  setOptions network := (true, network)
  close network := network
  asyncReadSome network n :=
    match network with
    | [] => (some .operationAborted, [], [])
    | .fails ec :: network => (some ec, [], network)
    | .bytes bs :: network => (none, bs.take n, .bytes (bs.drop n) :: network)
  asyncRead network buffer size := scriptedRead network (size - buffer.length)
  asyncReadUntil network buffer delimiter := scriptedReadUntil network buffer delimiter
  asyncWrite network _ := (none, network)

theorem scriptedRead_length (network network' : List Arrival) (n : ℕ) (bytes : Buffer)
    (h : scriptedRead network n = (none, bytes, network')) : bytes.length = n := by
  induction network generalizing n bytes with
  | nil =>
    cases n with
    | zero => cases h; rfl
    | succ n => cases h
  | cons arrival network ih =>
    cases n with
    | zero => cases h; rfl
    | succ n =>
      cases arrival with
      | fails ec => cases h
      | bytes bs =>
        rw [scriptedRead] at h
        split at h
        · rename_i hle
          cases h
          exact List.length_take_of_le hle
        · rename_i hgt
          rcases hmore : scriptedRead network (n + 1 - bs.length) with ⟨ec, more, network₁⟩
          rw [hmore] at h
          cases h
          rw [List.length_append, ih _ _ hmore]
          omega

theorem scriptedReadUntil_ends (network network' : List Arrival) (buffer delimiter bytes : Buffer)
    (n : ℕ) (h : scriptedReadUntil network buffer delimiter = (none, n, bytes, network')) :
    EndsFirst delimiter (buffer ++ bytes) n := by
  induction network generalizing buffer bytes with
  | nil =>
    cases hsearch : search delimiter buffer with
    | some k =>
      simp only [scriptedReadUntil, hsearch] at h
      cases h
      rw [List.append_nil]
      exact search_eq_some_iff.mp hsearch
    | none =>
      simp only [scriptedReadUntil, hsearch] at h
      cases h
  | cons arrival network ih =>
    cases hsearch : search delimiter buffer with
    | some k =>
      simp only [scriptedReadUntil, hsearch] at h
      cases h
      rw [List.append_nil]
      exact search_eq_some_iff.mp hsearch
    | none =>
      cases arrival with
      | fails ec =>
        simp only [scriptedReadUntil, hsearch] at h
        cases h
      | bytes bs =>
        rcases hmore : scriptedReadUntil network (buffer ++ bs) delimiter with
          ⟨ec, k, more, network₁⟩
        simp only [scriptedReadUntil, hsearch, hmore] at h
        cases h
        rw [← List.append_assoc]
        exact ih _ _ hmore

theorem scripted_documented : scripted.Documented where
  read := by
    intro network network' buffer bytes size hle h
    rw [List.length_append, scriptedRead_length _ _ _ _ h]
    omega
  readUntil h := scriptedReadUntil_ends _ _ _ _ _ _ h

/-- A line that comes in two pieces, with a timeout between them. -/
def slowLine : List Arrival :=
  [.bytes [49, 50], .fails .operationAborted, .bytes [51, 10, 52, 53]]

/-- The line is read in the second attempt, and what came behind it by `read`. -/
theorem delivers_slowLine :
    ∃ tr c, (system scripted slowLine).Reachable tr c ∧
      returnedSince tr = [49, 50, 51, 10] ∧ c.readBuffer = [52, 53] ∧
      returnedSince tr ++ c.readBuffer = c.received ∧
      ∀ r c', c.read scripted 1 = (.ok r, c') → r.length = 1 := by
  have hexec : (system scripted slowLine).exec [.connect, .readUntil [10], .readUntil [10]] =
      some (⟨[], true, [52, 53], [49, 50, 51, 10, 52, 53], [49, 50, 51, 10]⟩,
        [(.connect, .ok []), (.readUntil [10], .error .timeOut),
          (.readUntil [10], .ok [49, 50, 51, 10])]) := by
    decide +kernel
  have hrun : (system scripted slowLine).Reachable _ _ :=
    TransitionSystem.runFrom_of_execFrom (TransitionSystem.execMeets_anyStep _ _) hexec
  have hdelivers := delivers_stream scripted_documented hrun
  exact ⟨_, _, hrun, rfl, rfl, hdelivers.1, fun r c' hread => (hdelivers.2.1 1 r c' hread).1⟩

/-! ## What can still be read -/

section Obtain

variable {ν : Type*} (A : Asio ν)

/-- The strings that further calls return. -/
def readAll : Client ν → List Call → Buffer
  | _, [] => []
  | c, k :: ks =>
    (match (c.call A k).1 with
      | .ok r => r
      | .error _ => []) ++ readAll (c.call A k).2 ks

/-- Further reads return all that has been received. -/
def Obtainable (tr : List (Call × Except Exn Buffer)) (c : Client ν) : Prop :=
  ∃ ks : List Call, (∀ k ∈ ks, k.isRead = true) ∧ c.received <+: returnedSince tr ++ readAll A c ks

/-- The read ends with an error other than a timeout while bytes are buffered, or have come
with it. -/
def Client.failsOnBytes (c : Client ν) : Call → Bool
  | .readUntil delimiter =>
    match A.asyncReadUntil c.network c.readBuffer delimiter with
    | (some ec, _, bytes, _) => !isTimeout ec && !(c.readBuffer ++ bytes).isEmpty
    | (none, _, _, _) => false
  | .read size =>
    decide (c.readBuffer.length < size) &&
      match A.asyncRead c.network c.readBuffer size with
      | (some ec, bytes, _) => !isTimeout ec && !(c.readBuffer ++ bytes).isEmpty
      | (none, _, _) => false
  | _ => false

/-- The buffer can be read, or there is nothing in it. -/
def Client.Alive (c : Client ν) : Prop := c.isOpen = true ∨ c.readBuffer = []

variable {A} {network : ν}

theorem readAll_closed (c : Client ν) (hclosed : c.isOpen = false) (ks : List Call)
    (hks : ∀ k ∈ ks, k.isRead = true) : readAll A c ks = [] := by
  induction ks with
  | nil => rfl
  | cons k ks ih =>
    have hcall := c.call_closed (A := A) hclosed (hks k List.mem_cons_self)
    rw [readAll, hcall]
    exact ih fun k' hk' => hks k' (List.mem_cons_of_mem k hk')

theorem StreamOf.obtainable_iff {tr : List (Call × Except Exn Buffer)} {c : Client ν}
    (h : StreamOf tr c) : Obtainable A tr c ↔ c.Alive := by
  rw [Obtainable, ← h.stream, ← h.returned]
  constructor
  · rintro ⟨ks, hks, hstart⟩
    cases hopen : c.isOpen with
    | true => exact .inl hopen
    | false =>
      rw [readAll_closed c hopen ks hks, List.prefix_append_right_inj] at hstart
      exact .inr (List.prefix_nil.mp hstart)
  · rintro (hopen | hempty)
    · -- a read of just the buffer does not go to the socket
      have hread : c.read A c.readBuffer.length = c.deliver c.readBuffer.length := by
        rw [Client.read, if_neg (by simp [Client.isConnected, hopen]), if_neg (Nat.lt_irrefl _)]
      refine ⟨[.read c.readBuffer.length], by simp [Call.isRead], ?_⟩
      rw [readAll, Client.call, hread, readAll]
      simp [Client.deliver]
    · refine ⟨[], nofun, ?_⟩
      rw [hempty]
      exact List.prefix_rfl

/-- A read that throws leaves the buffer readable on a timeout only, or empty. -/
theorem Client.throwOnReadError_alive (c : Client ν) (hopen : c.isOpen = true) (ec : ErrorCode) :
    (c.throwOnReadError A ec).2.Alive ↔ (!isTimeout ec && !c.readBuffer.isEmpty) = false := by
  rw [Client.Alive, throwOnReadError]
  cases htimeout : isTimeout ec with
  | true => simp [hopen]
  | false =>
    obtain ⟨hbuffer, -, -, hclosed⟩ := c.disconnect_buffers (A := A)
    simp [hbuffer, hclosed]

theorem Client.call_alive (c : Client ν) (hopen : c.isOpen = true) {k : Call}
    (hk : k.isRead = true) : (c.call A k).2.Alive ↔ c.failsOnBytes A k = false := by
  have hconnected : ¬ ¬ c.isConnected = true := by simp [isConnected, hopen]
  cases k with
  | readUntil delimiter =>
    rw [call, readUntil, if_neg hconnected, failsOnBytes]
    rcases A.asyncReadUntil c.network c.readBuffer delimiter with ⟨_ | ec, n, bytes, network⟩
    · exact iff_of_true (.inl hopen) rfl
    · exact (c.receive bytes network).throwOnReadError_alive hopen ec
  | readSome =>
    refine iff_of_true ?_ rfl
    rw [call, readSome, if_neg hconnected]
    split
    · rcases A.asyncReadSome c.network readSomeSize with ⟨ec, bytes, network⟩
      dsimp only
      split
      · rename_i ec hempty
        rw [(c.receive bytes network).throwOnReadError_alive hopen ec, hempty, Bool.not_true,
          Bool.and_false]
      · exact .inl hopen
    · exact .inl hopen
  | read size =>
    rw [call, read, if_neg hconnected, failsOnBytes]
    split
    · rename_i hshort
      rw [decide_eq_true hshort, Bool.true_and]
      rcases A.asyncRead c.network c.readBuffer size with ⟨_ | ec, bytes, network⟩
      · exact iff_of_true (.inl hopen) rfl
      · exact (c.receive bytes network).throwOnReadError_alive hopen ec
    · rename_i hlong
      rw [decide_eq_false hlong, Bool.false_and]
      exact iff_of_true (.inl hopen) rfl
  | connect => cases hk
  | disconnect => cases hk
  | write data => cases hk

/-- The steps of a run of reads none of which fails on bytes. -/
def GentleRead (A : Asio ν) (c : Client ν) (k : Call) : Prop :=
  k.isRead = true ∧ c.failsOnBytes A k = false

/-- **When received bytes stay readable.**  After a read on an open connection all that was
received can still be obtained exactly if the read did not fail on bytes; and in a run of reads
none of which does so, it can be obtained in every state. -/
theorem stays_readable_iff {tr : List (Call × Except Exn Buffer)} {c : Client ν}
    (h : (system A network).Reachable tr c) (hopen : c.isOpen = true) :
    (∀ k, k.isRead = true →
      (Obtainable A (tr ++ [(k, (c.call A k).1)]) (c.call A k).2 ↔
        c.failsOnBytes A k = false)) ∧
    (∀ tr' c', (system A network).RunFrom (GentleRead A) c tr' c' →
      Obtainable A (tr ++ tr') c') := by
  have hstream := streamOf_reachable h
  refine ⟨fun k hk => ?_, fun tr' c' hrun => ?_⟩
  · rw [(hstream.read hk).obtainable_iff, c.call_alive hopen hk]
  · have hinv : StreamOf (tr ++ tr') c' ∧ c'.Alive := by
      refine hrun.invariant (I := fun tr' c' => StreamOf (tr ++ tr') c' ∧ c'.Alive) ?_ ?_
      · rw [List.append_nil]
        exact ⟨hstream, .inl hopen⟩
      · rintro tr₁ c₁ k c₂ es - ⟨hk, hgentle⟩ hstep ⟨hstream₁, halive₁⟩
        cases hstep
        rw [← List.append_assoc]
        refine ⟨hstream₁.read hk, ?_⟩
        by_cases hopen₁ : c₁.isOpen = true
        · exact (c₁.call_alive hopen₁ hk).mpr hgentle
        · rw [c₁.call_closed (by simpa using hopen₁) hk]
          exact halive₁
    exact hinv.1.obtainable_iff.mpr hinv.2

end Obtain

/-- Three bytes, then the peer closes the connection. -/
def closedByPeer : List Arrival := [.bytes [97, 98, 99], .fails .eof]

/-- A read of the three bytes is harmless, one of ten is not. -/
theorem stays_readable_closedByPeer :
    ∃ tr c, (system scripted closedByPeer).Reachable tr c ∧
      Obtainable scripted (tr ++ [(.read 3, (c.call scripted (.read 3)).1)])
        (c.call scripted (.read 3)).2 ∧
      ¬ Obtainable scripted (tr ++ [(.read 10, (c.call scripted (.read 10)).1)])
        (c.call scripted (.read 10)).2 := by
  have hexec : (system scripted closedByPeer).exec [.connect] =
      some (⟨closedByPeer, true, [], [], []⟩, [(.connect, .ok [])]) := by
    decide +kernel
  have hrun : (system scripted closedByPeer).Reachable _ _ :=
    TransitionSystem.runFrom_of_execFrom (TransitionSystem.execMeets_anyStep _ _) hexec
  have hiff := (stays_readable_iff (A := scripted) hrun rfl).1
  refine ⟨_, _, hrun, (hiff (.read 3) rfl).mpr (by decide +kernel), ?_⟩
  rw [hiff (.read 10) rfl]
  decide +kernel

/-- The bytes that a read was told of with the end of the stream are lost to all later reads. -/
theorem closed_loses_bytes :
    ∃ tr c, (system scripted closedByPeer).Reachable tr c ∧
      tr = [(.connect, .ok []), (.read 10, .error (.other .eof))] ∧
      c.received = [97, 98, 99] ∧ ¬ Obtainable scripted tr c := by
  have hexec : (system scripted closedByPeer).exec [.connect, .read 10] =
      some (⟨[], false, [97, 98, 99], [97, 98, 99], []⟩,
        [(.connect, .ok []), (.read 10, .error (.other .eof))]) := by
    decide +kernel
  have hrun : (system scripted closedByPeer).Reachable _ _ :=
    TransitionSystem.runFrom_of_execFrom (TransitionSystem.execMeets_anyStep _ _) hexec
  refine ⟨_, _, hrun, rfl, rfl, ?_⟩
  rw [(streamOf_reachable hrun).obtainable_iff]
  rintro (hopen | hempty)
  · exact absurd hopen (by decide)
  · exact absurd hempty (by decide)

end TcpClientSync
