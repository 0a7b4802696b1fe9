/-
# `stop_async()` from the callbacks of a `tcp_server`

`start()` invokes `OnStartedListening` with `m_mutex_start_stop` held, so a
`stop_async()` made there waits for its own thread.  The thread that executes any other
callback does not hold the lock: a listener holds it only inside its own
`stop_async()`, and the strands of the sessions and the monitor of the pool do not call
`start()` or `stop_async()` themselves.
-/
import Libsg.TcpServerCallbacks

open TransitionSystem

namespace TcpServer

/-- The callbacks of a server, by what invokes them. -/
inductive Callback
  /-- by the `start()` of thread `t` -/
  | startedListening (t : Tid)
  /-- by the monitor of the pool -/
  | stoppedListening
  /-- by listener `l` -/
  | acceptError (l : ℕ)
  | shouldAccept (l : ℕ)
  /-- by the `onConn` of connection `i`, inside its listener -/
  | sessionCreated (i : ℕ)
  /-- by the reader of connection `i`, on its strand -/
  | dataAvailable (i : ℕ)
  /-- by the `on_session_stopped()` of connection `i`, on its strand -/
  | disconnected (i : ℕ)
  deriving DecidableEq, Repr

/-- The callback has been invoked and has not returned. -/
def Server.inside (s : Server) : Callback → Prop
  | .startedListening t => s.callers t = .inStartedListening
  | .stoppedListening => s.monitor = .inCallback
  | .acceptError l => (s.listeners l).pc = .reporting
  | .shouldAccept l => (s.listeners l).pc = .filtering
  | .sessionCreated i => (s.conns i).onConn = .inCreated
  | .dataAvailable i => (s.conns i).session.readerPc = .inData
  | .disconnected i => (s.conns i).onStop = .inDisconnected

/-- The thread that executes the callback, where its code outside the callback can be in `start()`
or `stop_async()`; what user code calls in a callback is a call of its own. -/
def Server.executor (s : Server) : Callback → Option Tid
  | .startedListening t => some t
  | .acceptError l | .shouldAccept l => some (.listener l)
  | .sessionCreated i => some (.listener (s.conns i).listener)
  | .stoppedListening | .dataAvailable _ | .disconnected _ => none

/-- The thread that executes the callback holds `m_mutex_start_stop`. -/
def Server.locksOut (s : Server) (c : Callback) : Prop :=
  ∃ t, s.executor c = some t ∧ s.mutex = some t

variable {o : TcpSession.Options} {tr : List Event} {s : Server}

/-- A listener that holds the lock is inside its own `stop_async()`. -/
theorem stopping_of_mutex (h : (system o).Reachable tr s) {l : ℕ}
    (hmutex : s.mutex = some (.listener l)) : (s.listeners l).pc = .stopping := by
  apply waitInv h l
  intro hidle
  have hlocked := holderInv h _ hmutex
  rw [hidle] at hlocked
  cases hlocked

/-- `OnSessionCreated` is invoked inside the listener. -/
theorem starting_of_inCreated (h : (system o).Reachable tr s) {i : ℕ}
    (hpc : (s.conns i).onConn = .inCreated) :
    (s.listeners (s.conns i).listener).pc = .starting i := by
  have hlt := (connsInv h).lt_of_onConn (by rw [hpc]; nofun : (s.conns i).onConn ≠ .idle)
  have hinside := ((connsInv h).conn i hlt).abreast.inside (by rw [hpc]; rfl)
  exact (startingInv h i hlt (by rw [hinside]; rfl)).1

/-- A `stop_async()` makes no step while somebody holds the lock. -/
theorem stop_async_waits {t : Tid} (hpc : s.callers t = .stopLock) (hheld : s.mutex ≠ none)
    (ch : StartChoice) : step o s (.caller t ch) = none := by
  show caller s t ch = none
  simp only [caller, hpc]
  exact if_pos hheld

/-- **The thread that executes a callback holds `m_mutex_start_stop` if and only if the callback
is `OnStartedListening`.** -/
theorem locksOut_iff (h : (system o).Reachable tr s) {c : Callback} (hc : s.inside c) :
    s.locksOut c ↔ ∃ t, c = .startedListening t := by
  constructor
  · rintro ⟨t, hexecutor, hmutex⟩
    cases c with
    | startedListening u => exact ⟨u, rfl⟩
    | stoppedListening | dataAvailable | disconnected => cases hexecutor
    | acceptError l =>
      cases hexecutor
      have hstopping := stopping_of_mutex h hmutex
      rw [show (s.listeners l).pc = .reporting from hc] at hstopping
      cases hstopping
    | shouldAccept l =>
      cases hexecutor
      have hstopping := stopping_of_mutex h hmutex
      rw [show (s.listeners l).pc = .filtering from hc] at hstopping
      cases hstopping
    | sessionCreated i =>
      cases hexecutor
      have hstopping := stopping_of_mutex h hmutex
      rw [starting_of_inCreated h hc] at hstopping
      cases hstopping
  · rintro ⟨t, rfl⟩
    refine ⟨t, rfl, lockInv h t ?_⟩
    rw [show s.callers t = .inStartedListening from hc]
    rfl

/-- `OnSessionCreated` of the first connection. -/
theorem locksOut_iff_created : ∃ tr s, (system {}).Reachable tr s ∧
    s.inside (.sessionCreated 0) ∧ ¬s.locksOut (.sessionCreated 0) := by
  have hrun := reachable_exec (M := system {})
    (l := publishRun ++ List.replicate 1 (Action.onConn 0 .ok)) (by decide)
  have hinside : (((system {}).exec (publishRun ++ List.replicate 1 (Action.onConn 0 .ok))).get
    (by decide)).1.inside (.sessionCreated 0) := by
    show _ = _
    decide
  refine ⟨_, _, hrun, hinside, fun hlocks => ?_⟩
  obtain ⟨t, ht⟩ := (locksOut_iff hrun hinside).mp hlocks
  cases ht

/-- A `start()` is inside `OnStartedListening`, which calls `stop_async()`: the call of user thread 1
is that call.  It makes no step before the callback has returned. -/
theorem stop_async_in_startedListening : ∃ tr s, (system {}).Reachable tr s ∧
    s.inside (.startedListening (.user 0)) ∧ s.locksOut (.startedListening (.user 0)) ∧
    s.callers (.user 1) = .stopLock ∧ ∀ ch, step {} s (.caller (.user 1) ch) = none := by
  have hrun := reachable_exec (M := system {})
    (l := startRun.take 10 ++ [.callStop 1]) (by decide)
  refine ⟨_, _, hrun, by show _ = _; decide, ⟨.user 0, rfl, by decide⟩, by decide, ?_⟩
  exact stop_async_waits (by decide) (by decide)

end TcpServer
