/-
# A connection attempt of the blocking client

`tcp_client_sync::connect()` with its arguments: the end point that it resolves, the
options that it stores, and the socket options that `tcp_native.cpp` sets once the
connection is there.  What the resolver, Boost.Asio and the kernel answer is a
parameter, as in `Libsg.TcpClientSync`.

* `Configured.connect` : the function, with the exception of each place that throws;
* `connect_client` : what it does to the client is what `Client.connect` does;
* `connect_throws_closed_iff` : which attempts that throw leave the client disconnected.
-/
import Libsg.TcpClientSync

namespace TcpClientSync

/-! ## The arguments -/

/-- `end_point` -/
structure EndPoint where
  ip : String
  port : UInt16
  deriving DecidableEq, Repr

/-- `keepalive_t` -/
structure Keepalive where
  enable : Bool := true
  idleSeconds : UInt32 := 60
  intervalSeconds : UInt32 := 5
  count : UInt32 := 5
  deriving DecidableEq, Repr

/-- What the client uses of `tcp_session::options_t`. -/
structure Options where
  keepalive : Keepalive := {}
  timeoutMsec : UInt32 := 5000
  connectionTimeoutMsec : UInt32 := 10000
  deriving DecidableEq, Repr

/-- What is handed to `setsockopt`. -/
inductive SocketOption
  | tcpKeepIdle (seconds : UInt32)
  | tcpKeepIntvl (seconds : UInt32)
  | tcpKeepCnt (count : UInt32)
  | soKeepAlive (enable : Bool)
  | soRcvTimeo (sec usec : UInt32)
  | soSndTimeo (sec usec : UInt32)
  deriving DecidableEq, Repr

/-- What `connect` throws, by the place that throws it. -/
inductive ConnectError
  /-- `std::runtime_error` -/
  | alreadyConnected
  /-- `boost::system::system_error`, by the resolver -/
  | resolver
  /-- by `throw_net_error` -/
  | net (ec : ErrorCode)
  /-- `std::invalid_argument`, by `native::set_keepalive` -/
  | invalidArgument (what : String)
  /-- by `THROW_ON_ERRORNO_SOCKET` -/
  | socket (errno : ℕ)
  deriving DecidableEq, Repr

/-- The exception that it is for the callers of `Client.connect`. -/
def ConnectError.exn : ConnectError → Exn
  | .alreadyConnected => Client.alreadyConnected
  | .net ec => Client.throwNetError ec
  | .resolver | .invalidArgument _ | .socket _ => .system

/-- The resolver, Boost.Asio and the kernel, where `ε` are the end points a name resolves to. -/
structure Net (ν ε : Type*) where
  /-- `resolver.resolve` of a host and a service, which throws or returns -/
  resolve : ν → String → String → Option ε × ν
  /-- `async_connect` with a timeout, and whether a failure has left the socket open -/
  asyncConnect : ν → ε → UInt32 → Option ErrorCode × Bool × ν
  /-- `setsockopt` on the socket, and its `errno` if it fails -/
  setsockopt : ν → SocketOption → Option ℕ × ν

/-- The client, with its `m_options`. -/
structure Configured (ν : Type*) where
  client : Client ν
  options : Options := {}
  deriving DecidableEq, Repr

/-! ## `tcp_native.cpp` -/

namespace Native

variable {ν ε : Type*} (N : Net ν ε)

/-- One `setsockopt` after the other, until one fails. -/
def setSocketOptions : ν → List SocketOption → Except ConnectError Unit × ν
  | network, [] => (.ok (), network)
  | network, o :: os =>
    match N.setsockopt network o with
    | (some errno, network) => (.error (.socket errno), network)
    | (none, network) => setSocketOptions network os

/-- `std::numeric_limits<int>::max()`, as an `unsigned`. -/
def intMax : UInt32 := 2147483647

def keepaliveOptions (keepAlive : Keepalive) : List SocketOption :=
  [.tcpKeepIdle keepAlive.idleSeconds, .tcpKeepIntvl keepAlive.intervalSeconds,
    .tcpKeepCnt keepAlive.count, .soKeepAlive keepAlive.enable]

/-- The test that `set_keepalive` makes. -/
def outOfRange (keepAlive : Keepalive) : Bool :=
  keepAlive.idleSeconds > intMax ∨ keepAlive.intervalSeconds > intMax ∨ keepAlive.count > intMax

def setKeepalive (network : ν) (keepAlive : Keepalive) : Except ConnectError Unit × ν :=
  if outOfRange keepAlive then
    (.error (.invalidArgument "keepalive parameters are out of range"), network)
  else
    setSocketOptions N network (keepaliveOptions keepAlive)

def timeoutOptions (timeoutMSec : UInt32) : List SocketOption :=
  [.soRcvTimeo (timeoutMSec / 1000) (timeoutMSec % 1000 * 1000),
    .soSndTimeo (timeoutMSec / 1000) (timeoutMSec % 1000 * 1000)]

def setTimeout (network : ν) (timeoutMSec : UInt32) : Except ConnectError Unit × ν :=
  setSocketOptions N network (timeoutOptions timeoutMSec)

end Native

/-! ## `connect` -/

namespace Configured

variable {ν ε : Type*} (N : Net ν ε)

def isConnected (c : Configured ν) : Bool := c.client.isConnected

/-- The network, and whether the socket is open, after an operation on it. -/
def onSocket (c : Configured ν) (isOpen : Bool) (network : ν) : Configured ν :=
  { c with client := { c.client with isOpen := isOpen, network := network } }

def setKeepalive (c : Configured ν) (keepAlive : Keepalive) :
    Except ConnectError Unit × Configured ν :=
  let c : Configured ν := { c with options := { c.options with keepalive := keepAlive } }
  match Native.setKeepalive N c.client.network keepAlive with
  | (result, network) => (result, c.onSocket c.client.isOpen network)

def setTimeout (c : Configured ν) (timeoutMSec : UInt32) :
    Except ConnectError Unit × Configured ν :=
  let c : Configured ν := { c with options := { c.options with timeoutMsec := timeoutMSec } }
  match Native.setTimeout N c.client.network timeoutMSec with
  | (result, network) => (result, c.onSocket c.client.isOpen network)

/-- `m_read_buffer.clear()` and `m_options = options`, with the histories of a new connection. -/
def prepare (c : Configured ν) (options : Options) : Configured ν :=
  { client := { c.client with readBuffer := [], received := [], returned := [] }
    options := options }

def connect (c : Configured ν) (endpoint : EndPoint) (options : Options) :
    Except ConnectError Unit × Configured ν :=
  if c.isConnected then
    (.error .alreadyConnected, c)
  else
    let c := c.prepare options
    match N.resolve c.client.network endpoint.ip (toString endpoint.port.toNat) with
    | (none, network) => (.error .resolver, c.onSocket c.client.isOpen network)
    | (some endpoints, network) =>
      match N.asyncConnect network endpoints c.options.connectionTimeoutMsec with
      | (some ec, isOpen, network) => (.error (.net ec), c.onSocket isOpen network)
      | (none, _, network) =>
        match (c.onSocket true network).setKeepalive N options.keepalive with
        | (.error e, c) => (.error e, c)
        | (.ok _, c) => c.setTimeout N options.timeoutMsec

end Configured

/-! ## Its paths -/

section Paths

variable {ν ε : Type*} {N : Net ν ε} {c : Configured ν} {endpoint : EndPoint} {options : Options}
  {endpoints : ε} {network network' : ν} {isOpen : Bool}

namespace Configured

theorem setKeepalive_eq (c : Configured ν) (keepAlive : Keepalive) :
    c.setKeepalive N keepAlive =
      ((Native.setKeepalive N c.client.network keepAlive).1,
        { client :=
            { c.client with network := (Native.setKeepalive N c.client.network keepAlive).2 }
          options := { c.options with keepalive := keepAlive } }) := rfl

theorem setTimeout_eq (c : Configured ν) (timeoutMSec : UInt32) :
    c.setTimeout N timeoutMSec =
      ((Native.setTimeout N c.client.network timeoutMSec).1,
        { client :=
            { c.client with network := (Native.setTimeout N c.client.network timeoutMSec).2 }
          options := { c.options with timeoutMsec := timeoutMSec } }) := rfl

theorem connect_connected (hopen : c.client.isOpen = true) :
    c.connect N endpoint options = (.error .alreadyConnected, c) :=
  if_pos hopen

theorem connect_unresolved (hclosed : c.client.isOpen = false)
    (hresolve : N.resolve c.client.network endpoint.ip (toString endpoint.port.toNat) =
      (none, network)) :
    c.connect N endpoint options =
      (.error .resolver, (c.prepare options).onSocket false network) := by
  rw [connect, if_neg (by simp [isConnected, Client.isConnected, hclosed])]
  simp only [prepare, hresolve, hclosed]

theorem connect_failed {ec : ErrorCode} (hclosed : c.client.isOpen = false)
    (hresolve : N.resolve c.client.network endpoint.ip (toString endpoint.port.toNat) =
      (some endpoints, network))
    (hconnect : N.asyncConnect network endpoints options.connectionTimeoutMsec =
      (some ec, isOpen, network')) :
    c.connect N endpoint options =
      (.error (.net ec), (c.prepare options).onSocket isOpen network') := by
  rw [connect, if_neg (by simp [isConnected, Client.isConnected, hclosed])]
  simp only [prepare, hresolve, hconnect]

/-- Once the connection is there, the socket stays open. -/
theorem connect_established (hclosed : c.client.isOpen = false)
    (hresolve : N.resolve c.client.network endpoint.ip (toString endpoint.port.toNat) =
      (some endpoints, network))
    (hconnect : N.asyncConnect network endpoints options.connectionTimeoutMsec =
      (none, isOpen, network')) :
    c.connect N endpoint options =
      match Native.setKeepalive N network' options.keepalive with
      | (.error e, network) => (.error e, (c.prepare options).onSocket true network)
      | (.ok _, network) =>
        ((Native.setTimeout N network options.timeoutMsec).1,
          (c.prepare options).onSocket true
            (Native.setTimeout N network options.timeoutMsec).2) := by
  rw [connect, if_neg (by simp [isConnected, Client.isConnected, hclosed])]
  simp only [prepare, hresolve, hconnect, setKeepalive_eq, setTimeout_eq, onSocket]
  rcases Native.setKeepalive N network' options.keepalive with ⟨_ | _, network⟩ <;> rfl

end Configured

end Paths

/-! ## As a call of the client -/

section Call

variable {ν ε : Type*} (N : Net ν ε)

/-- What the network answers to one attempt, as the operations that `Client.connect` uses: the
end points of `async_connect` are those that the resolver gave in the state `network₀`. -/
def Net.attempt (A : Asio ν) (network₀ : ν) (endpoint : EndPoint) (options : Options) : Asio ν :=
  { A with
    resolve := fun network =>
      match N.resolve network endpoint.ip (toString endpoint.port.toNat) with
      | (endpoints, network) => (endpoints.isSome, network)
    asyncConnect := fun network =>
      match (N.resolve network₀ endpoint.ip (toString endpoint.port.toNat)).1 with
      | none => (none, false, network)
      | some endpoints => N.asyncConnect network endpoints options.connectionTimeoutMsec
    setOptions := fun network =>
      match Native.setKeepalive N network options.keepalive with
      | (.error _, network) => (false, network)
      | (.ok _, network) =>
        match Native.setTimeout N network options.timeoutMsec with
        | (result, network) => (result.isOk, network) }

/-- What the caller sees of the result. -/
def outcome : Except ConnectError Unit → Except Exn Buffer
  | .ok _ => .ok []
  | .error e => .error e.exn

variable {N}

/-- What fails in `tcp_native.cpp` is a wrong argument or a socket option that is refused. -/
theorem setSocketOptions_exn {network : ν} {os : List SocketOption} {e : ConnectError}
    (h : (Native.setSocketOptions N network os).1 = .error e) : e.exn = .system := by
  induction os generalizing network with
  | nil => cases h
  | cons o os ih =>
    rw [Native.setSocketOptions] at h
    split at h
    · cases h
      rfl
    · exact ih h

theorem nativeKeepalive_exn {network : ν} {keepAlive : Keepalive} {e : ConnectError}
    (h : (Native.setKeepalive N network keepAlive).1 = .error e) : e.exn = .system := by
  rw [Native.setKeepalive] at h
  split at h
  · cases h
    rfl
  · exact setSocketOptions_exn h

/-- **What an attempt does to the client** is what `Client.connect` does, with the network as it
answers this attempt. -/
theorem connect_client (A : Asio ν) (c : Configured ν) (endpoint : EndPoint) (options : Options) :
    c.client.connect (N.attempt A c.client.network endpoint options) =
      (outcome (c.connect N endpoint options).1, (c.connect N endpoint options).2.client) := by
  cases hopen : c.client.isOpen with
  | true =>
    have hconnected : c.client.isConnected = true := hopen
    rw [Configured.connect_connected hopen, Client.connect, if_pos hconnected]
    rfl
  | false =>
    rw [Client.connect, if_neg (by simp [Client.isConnected, hopen])]
    rcases hresolve : N.resolve c.client.network endpoint.ip (toString endpoint.port.toNat) with
      ⟨_ | endpoints, network⟩
    · rw [Configured.connect_unresolved hopen hresolve]
      simp only [Net.attempt, hresolve]
      simp [outcome, ConnectError.exn, Configured.onSocket, Configured.prepare, hopen]
    rcases hconnect : N.asyncConnect network endpoints options.connectionTimeoutMsec with
      ⟨_ | ec, isOpen, network₁⟩
    · rw [Configured.connect_established hopen hresolve hconnect]
      simp only [Net.attempt, hresolve, Option.isSome_some, hconnect]
      rcases hkeepalive : Native.setKeepalive N network₁ options.keepalive with ⟨e | _, network₂⟩
      · simp only [outcome, nativeKeepalive_exn (congrArg Prod.fst hkeepalive)]
        rfl
      · dsimp only
        rcases htimeout : Native.setTimeout N network₂ options.timeoutMsec with ⟨e | _, network₃⟩
        · simp only [outcome, setSocketOptions_exn (congrArg Prod.fst htimeout)]
          rfl
        · rfl
    · rw [Configured.connect_failed hopen hresolve hconnect]
      simp only [Net.attempt, hresolve, Option.isSome_some, hconnect]
      rfl

end Call

/-! ## What a failed attempt leaves -/

section Failed

variable {ν ε : Type*} (N : Net ν ε)

/-- If `connect` throws, then `is_connected()` is false, and the next `connect` is not refused. -/
def Configured.ThrowsClosed (c : Configured ν) (endpoint : EndPoint) (options : Options) : Prop :=
  ∀ e, (c.connect N endpoint options).1 = .error e →
    (c.connect N endpoint options).2.isConnected = false ∧
      ∀ endpoint' options',
        ((c.connect N endpoint options).2.connect N endpoint' options').1 ≠
          .error .alreadyConnected

/-- The kernel accepts the socket options, one after the other. -/
def Net.accepts : ν → List SocketOption → Bool
  | _, [] => true
  | network, o :: os =>
    match N.setsockopt network o with
    | (some _, _) => false
    | (none, network) => accepts network os

/-- The resolver throws; or the attempt fails and the socket is closed; or it succeeds, the
keepalive parameters are in range, and all socket options are accepted. -/
def Net.clean (network : ν) (endpoint : EndPoint) (options : Options) : Bool :=
  match N.resolve network endpoint.ip (toString endpoint.port.toNat) with
  | (none, _) => true
  | (some endpoints, network) =>
    match N.asyncConnect network endpoints options.connectionTimeoutMsec with
    | (some _, isOpen, _) => !isOpen
    | (none, _, network) =>
      !Native.outOfRange options.keepalive &&
        N.accepts network
          (Native.keepaliveOptions options.keepalive ++ Native.timeoutOptions options.timeoutMsec)

variable {N} {network : ν}

theorem setSocketOptions_isOk (os : List SocketOption) :
    (Native.setSocketOptions N network os).1.isOk = N.accepts network os := by
  induction os generalizing network with
  | nil => rfl
  | cons o os ih =>
    rw [Net.accepts, Native.setSocketOptions]
    split
    · rfl
    · exact ih

/-- More options are accepted in the state that the first ones have left. -/
theorem accepts_append (os os' : List SocketOption) :
    N.accepts network (os ++ os') =
      (N.accepts network os && N.accepts (Native.setSocketOptions N network os).2 os') := by
  induction os generalizing network with
  | nil => rfl
  | cons o os ih =>
    rw [List.cons_append, Net.accepts, Net.accepts, Native.setSocketOptions]
    split
    · rfl
    · exact ih

theorem nativeKeepalive_isOk (keepAlive : Keepalive) :
    (Native.setKeepalive N network keepAlive).1.isOk =
      (!Native.outOfRange keepAlive && N.accepts network (Native.keepaliveOptions keepAlive)) := by
  rw [Native.setKeepalive]
  split
  · rename_i hrange
    rw [hrange]
    rfl
  · rename_i hrange
    rw [setSocketOptions_isOk, Bool.eq_false_iff.mpr hrange]
    rfl

theorem nativeKeepalive_ok {network' : ν} {keepAlive : Keepalive}
    (h : Native.setKeepalive N network keepAlive = (.ok (), network')) :
    (Native.setSocketOptions N network (Native.keepaliveOptions keepAlive)).2 = network' := by
  rw [Native.setKeepalive] at h
  split at h
  · cases h
  · rw [h]

namespace Configured

/-- What comes of an attempt: it throws, with the socket closed if it was clean, or it was clean
and returns. -/
inductive Attempted (N : Net ν ε) (c : Configured ν) (endpoint : EndPoint) (options : Options) :
    Prop
  | throws (e : ConnectError) (herror : (c.connect N endpoint options).1 = .error e)
      (hnew : e ≠ .alreadyConnected)
      (hclean : N.clean c.client.network endpoint options =
        !(c.connect N endpoint options).2.client.isOpen)
  | returns (hok : (c.connect N endpoint options).1 = .ok ())
      (hclean : N.clean c.client.network endpoint options = true)

theorem attempted (c : Configured ν) (endpoint : EndPoint) (options : Options)
    (hclosed : c.client.isOpen = false) : Attempted N c endpoint options := by
  have hsystem : ∀ e : ConnectError, e.exn = .system → e ≠ .alreadyConnected := by
    rintro e he rfl
    cases he
  rcases hresolve : N.resolve c.client.network endpoint.ip (toString endpoint.port.toNat) with
    ⟨_ | endpoints, network⟩
  · have hconnect : c.connect N endpoint options = _ := connect_unresolved hclosed hresolve
    refine .throws .resolver (by rw [hconnect]) (hsystem _ rfl) ?_
    rw [hconnect, Net.clean, hresolve]
    rfl
  rcases hattempt : N.asyncConnect network endpoints options.connectionTimeoutMsec with
    ⟨_ | ec, isOpen, network₁⟩
  · have hconnect := connect_established hclosed hresolve hattempt
    have hclean : N.clean c.client.network endpoint options =
        (!Native.outOfRange options.keepalive && N.accepts network₁
          (Native.keepaliveOptions options.keepalive ++
            Native.timeoutOptions options.timeoutMsec)) := by
      rw [Net.clean, hresolve]
      dsimp only
      rw [hattempt]
    rw [accepts_append, ← Bool.and_assoc, ← nativeKeepalive_isOk] at hclean
    rcases hkeepalive : Native.setKeepalive N network₁ options.keepalive with ⟨e | _, network₂⟩
    · rw [hkeepalive] at hconnect hclean
      refine .throws e (by rw [hconnect])
        (hsystem e (nativeKeepalive_exn (congrArg Prod.fst hkeepalive))) ?_
      rw [hconnect, hclean]
      rfl
    · rw [nativeKeepalive_ok hkeepalive, ← setSocketOptions_isOk, ← Native.setTimeout] at hclean
      rw [hkeepalive] at hconnect hclean
      dsimp only at hconnect
      rcases htimeout : Native.setTimeout N network₂ options.timeoutMsec with ⟨e | _, network₃⟩
      · rw [htimeout] at hconnect hclean
        refine .throws e (by rw [hconnect])
          (hsystem e (setSocketOptions_exn (congrArg Prod.fst htimeout))) ?_
        rw [hconnect, hclean]
        rfl
      · rw [htimeout] at hconnect hclean
        exact .returns (by rw [hconnect]) hclean
  · have hconnect := connect_failed hclosed hresolve hattempt
    refine .throws (.net ec) (by rw [hconnect]) nofun ?_
    rw [hconnect, Net.clean, hresolve]
    dsimp only
    rw [hattempt]
    rfl

end Configured

/-- **When a `connect` that throws leaves the client disconnected.**  On a connected client the
call is refused, which changes nothing.  Otherwise there is an attempt, and it leaves the client
disconnected if it throws exactly if it is clean. -/
theorem connect_throws_closed_iff (N : Net ν ε) (c : Configured ν) (endpoint : EndPoint)
    (options : Options) :
    (c.client.isOpen = true → c.connect N endpoint options = (.error .alreadyConnected, c)) ∧
      (c.client.isOpen = false →
        (c.ThrowsClosed N endpoint options ↔
          N.clean c.client.network endpoint options = true)) := by
  refine ⟨Configured.connect_connected, fun hclosed => ?_⟩
  rcases c.attempted (N := N) endpoint options hclosed with ⟨e, herror, -, hclean⟩ | ⟨hok, hclean⟩
  · rw [hclean, Bool.not_eq_true']
    constructor
    · intro h
      exact (h e herror).1
    · rintro hafter e' -
      refine ⟨hafter, fun endpoint' options' => ?_⟩
      rcases (c.connect N endpoint options).2.attempted (N := N) endpoint' options' hafter with
        ⟨e'', herror', hnew, -⟩ | ⟨hok, -⟩
      · rw [herror']
        exact fun heq => hnew (Except.error.inj heq)
      · rw [hok]
        nofun
  · refine iff_of_true (fun e herror => ?_) hclean
    rw [hok] at herror
    cases herror

end Failed

/-! ## A network that refuses -/

/-- The attempts succeed or fail as the list says, and a failure leaves the socket open; the
keepalive parameters are those that Linux takes. -/
def linux : Net (List (Option ErrorCode)) Unit where
  resolve network _ _ := (some (), network)
  asyncConnect network _ _ :=
    match network with
    | [] => (some .timedOut, true, [])
    | ec :: network => (ec, true, network)
  setsockopt network
    | .tcpKeepIdle seconds => (if seconds = 0 ∨ seconds > 32767 then some 22 else none, network)
    | .tcpKeepIntvl seconds => (if seconds = 0 ∨ seconds > 32767 then some 22 else none, network)
    | .tcpKeepCnt count => (if count = 0 ∨ count > 127 then some 22 else none, network)
    | _ => (none, network)

def local4444 : EndPoint := ⟨"127.0.0.1", 4444⟩

/-- The first attempt succeeds, with an idle time that is refused, or not. -/
def reaching : Configured (List (Option ErrorCode)) := { client := .init [none, none] }

/-- The default options leave nothing behind, those of an idle time of zero do. -/
theorem connect_throws_closed_reaching :
    reaching.ThrowsClosed linux local4444 {} ∧
      ¬ reaching.ThrowsClosed linux local4444 { keepalive := { idleSeconds := 0 } } ∧
      (reaching.connect linux local4444 {}).2.connect linux local4444 {} =
        (.error .alreadyConnected, (reaching.connect linux local4444 {}).2) := by
  refine ⟨?_, ?_, ?_⟩
  · exact ((connect_throws_closed_iff linux reaching local4444 {}).2 rfl).mpr (by decide +kernel)
  · rw [(connect_throws_closed_iff linux reaching local4444 _).2 rfl]
    decide +kernel
  · exact (connect_throws_closed_iff linux _ local4444 {}).1 (by decide +kernel)

/-- Nothing listens at the first attempt. -/
def refused : Configured (List (Option ErrorCode)) := { client := .init [some (.other 111), none] }

/-- **A refused attempt leaves the client connected**, and all that follow are refused by it. -/
theorem refused_stays_connected :
    (refused.connect linux local4444 {}).1 = .error (.net (.other 111)) ∧
      (refused.connect linux local4444 {}).2.isConnected = true ∧
      (∀ endpoint options,
        ((refused.connect linux local4444 {}).2.connect linux endpoint options).1 =
          .error .alreadyConnected) ∧
      ¬ refused.ThrowsClosed linux local4444 {} := by
  have hconnected : (refused.connect linux local4444 {}).2.client.isOpen = true := by
    decide +kernel
  refine ⟨by decide +kernel, hconnected, ?_, ?_⟩
  · intro endpoint options
    rw [Configured.connect_connected hconnected]
  · intro hclosed
    have hafter := (hclosed (.net (.other 111)) (by decide +kernel)).1
    rw [show (refused.connect linux local4444 {}).2.isConnected = true from hconnected] at hafter
    cases hafter

end TcpClientSync
