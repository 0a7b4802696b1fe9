/-
# Pools, ids and `m_sessions`

A listener stays inside `sess->start()` of the connection it accepted last until that has
ended (`StartingInv`).  What a listener creates belongs to the pool it runs on, and until
`asio_io_pool::run()` has started the workers there is nothing of a new pool (`PoolInv`).

So the ids of one pool are distinct (`IdInv`) unless `start()` resets `m_last_id` while
workers are still running, and a session that has been put into `m_sessions` can be looked
up there until `on_session_stopped()` erases it (`RegisteredInv`).
-/
import Libsg.TcpServerConn
import Mathlib.Data.List.Nodup

open TransitionSystem

namespace TcpServer

open TcpSession (Session Frame Agent StartPc ImplPc Choice ControlInv LifeInv)

/-! ## Listeners and pools -/

/-- While `start()` of a session is going on, its listener is inside it. -/
def StartingInv (s : Server) : Prop :=
  ∀ i, i < s.connCount → (s.conns i).session.startPc.live = true →
    (s.listeners (s.conns i).listener).pc = .starting i ∧
      (s.listeners (s.conns i).listener).pool = (s.conns i).pool

/-- `start()` has created its pool, which has no workers yet. -/
def CallPc.creating : CallPc → Bool
  | .startBind | .startSpawn | .invokeStartedListening | .inStartedListening | .startWorkers => true
  | _ => false

theorem CallPc.locked_of_creating {pc : CallPc} (h : pc.creating = true) : pc.locked = true := by
  cases pc <;> first | rfl | cases h

/-- Nothing belongs to a pool that is still to come, and no connection to one without workers. -/
structure PoolInv (s : Server) : Prop where
  listeners : ∀ l, (s.listeners l).pc ≠ .unborn → (s.listeners l).pool ≤ s.pool
  conns : ∀ i, i < s.connCount → (s.conns i).pool ≤ s.pool
  fresh : ∀ t, (s.callers t).creating = true →
    s.workers = false ∧ ∀ i, i < s.connCount → (s.conns i).pool ≠ s.pool

theorem pool_of_executes {s : Server} {p : ℕ} (h : s.executes p = true) :
    s.hasContext = true ∧ s.workers = true ∧ p = s.pool := by
  simp only [Server.executes, Bool.and_eq_true, beq_iff_eq] at h
  exact ⟨h.1.1, h.1.2, h.2.symm⟩

theorem executes_of_takesHandlers {s : Server} {p : ℕ} (h : s.takesHandlers p = true) :
    s.executes p = true := (Bool.and_eq_true_iff.mp h).1

section Step

variable {o : TcpSession.Options} {s s' : Server} {a : Action} {es : List Event}

/-- What a connection never changes. -/
structure Conn.Alike (c c' : Conn) : Prop where
  id : c'.id = c.id
  listener : c'.listener = c.listener
  pool : c'.pool = c.pool

theorem Conn.Alike.refl (c : Conn) : c.Alike c := ⟨rfl, rfl, rfl⟩

theorem Conn.Alike.update {i j : ℕ} {c : Conn} (h : (s.conns j).Alike c) :
    (s.conns i).Alike (Function.update s.conns j c i) := by
  by_cases hij : i = j
  · rw [hij, Function.update_self]
    exact h
  · rw [Function.update_of_ne hij]
    exact .refl _

theorem Move.alike (hm : Move o s a es s') {i : ℕ} (hi : i < s.connCount) :
    (s.conns i).Alike (s'.conns i) := by
  cases hm with
  | listenerCreates l hlive hpc =>
    simp only [Server.setListenerPc, Server.setListener, Server.setConn]
    rw [Function.update_of_ne (Nat.ne_of_lt hi)]
    exact .refl _
  | session j b sess es ha hj hallow hstep =>
    exact .update ⟨Conn.enter_id _ _, Conn.enter_listener _ _, Conn.enter_pool _ _⟩
  | stopperStops | counts | emplaces | emplaceThrows | creates | created | disconnects | disconnected
  | erases | releases => exact .update ⟨rfl, rfl, rfl⟩
  | _ => exact .refl _

/-- Listener `l` has accepted a connection and is inside its `start()`. -/
structure Accepts (s s' : Server) (l : ℕ) : Prop where
  takesId : (s.listeners l).pc = .takeId
  live : s.executes (s.listeners l).pool = true
  starting : (s'.listeners l).pc = .starting s.connCount
  listenerPool : (s'.listeners l).pool = (s.listeners l).pool
  id : (s'.conns s.connCount).id = s.lastId
  listener : (s'.conns s.connCount).listener = l
  pool : (s'.conns s.connCount).pool = (s.listeners l).pool
  onConn : (s'.conns s.connCount).onConn = .idle
  lastId : s'.lastId = s.lastId + 1

/-- A connection was there before, or has just been accepted. -/
theorem Move.accepts (hm : Move o s a es s') {i : ℕ} (hi : i < s'.connCount) :
    i < s.connCount ∨ ∃ l, i = s.connCount ∧ Accepts s s' l := by
  cases hm with
  | listenerCreates l hlive hpc =>
    have hi : i < s.connCount + 1 := hi
    rcases Nat.lt_succ_iff_lt_or_eq.mp hi with hlt | heq
    · exact .inl hlt
    · refine .inr ⟨l, heq, hpc, hlive, ?_, ?_, ?_, ?_, ?_, ?_, rfl⟩ <;>
        simp only [Server.setListenerPc, Server.setListener, Server.setConn, Function.update_self]
  | _ => exact .inl hi

/-- A `start()` of a session that is going on was going on before. -/
theorem Move.live (hm : Move o s a es s') (hc : ConnsInv s) {i : ℕ} (hi : i < s.connCount)
    (hpc : (s'.conns i).session.startPc.live = true) :
    (s.conns i).session.startPc.live = true := by
  have hupdate {j : ℕ} {c : Conn}
      (hpc : (Function.update s.conns j c i).session.startPc.live = true)
      (hold : c.session.startPc.live = true → (s.conns j).session.startPc.live = true) :
      (s.conns i).session.startPc.live = true := by
    by_cases hij : i = j
    · rw [hij, Function.update_self] at hpc
      rw [hij]
      exact hold hpc
    · rw [Function.update_of_ne hij] at hpc
      exact hpc
  cases hm with
  | listenerCreates l hlive hpc' =>
    simp only [Server.setListenerPc, Server.setListener, Server.setConn] at hpc
    rw [Function.update_of_ne (Nat.ne_of_lt hi)] at hpc
    exact hpc
  | session j b sess es ha hj hallow hstep =>
    refine hupdate hpc fun hnew => ?_
    rw [Conn.enter_session] at hnew
    exact live_of_move (TcpSession.step_move hstep) (hc.conn j hj).called hnew
  | stopperStops | counts | emplaces | emplaceThrows | creates | created | disconnects | disconnected
  | erases | releases => exact hupdate hpc id
  | _ => exact hpc

theorem StartingInv.step (h : StartingInv s) (hc : ConnsInv s) (hn : NumberInv s)
    (hm : Move o s a es s') : StartingInv s' := by
  intro i hi hpc
  rcases hm.accepts hi with hold | ⟨l, rfl, hnew⟩
  · have hlive := hm.live hc hold hpc
    obtain ⟨hstarting, hpool⟩ := h i hold hlive
    have hsame := hm.alike hold
    rw [hsame.listener, hsame.pool]
    cases hm.listener (s.conns i).listener with
    | stays hpc' hpool' => exact ⟨hpc'.trans hstarting, hpool'.trans hpool⟩
    | spawned t ht ht' hmem =>
      cases (hn.spawning t ht _ hmem).symm.trans hstarting
    | goes hwaits =>
      rw [hstarting] at hwaits
      cases hwaits
    | started j hpc' hret =>
      -- it is still inside the `start()` of this session
      obtain rfl := ListenerPc.starting.inj (hstarting.symm.trans hpc')
      have hmem := (hc.conn i hold).live hlive
      rw [hret] at hmem
      cases hmem
    | stopped hpc' => cases hstarting.symm.trans hpc'
  · rw [hnew.listener, hnew.pool]
    exact ⟨hnew.starting, hnew.listenerPool⟩

theorem PoolInv.start : PoolInv {} where
  listeners _ h := absurd rfl h
  conns i h := by cases h
  fresh _ h := by cases h

theorem Move.pool_le (hm : Move o s a es s') : s.pool ≤ s'.pool := by
  cases hm with
  | startCreates t hpc hover => exact Nat.le_succ _
  | _ => exact Nat.le_refl _

/-- Who is creating a pool was so before, with nothing else changed that matters here, or has just
created it. -/
theorem Move.creating (hm : Move o s a es s') (hl : LockInv s) {t : Tid}
    (ht : (s'.callers t).creating = true) :
    (s.callers t).creating = true ∧ s'.pool = s.pool ∧ (s'.workers = true → s.workers = true) ∨
      s'.pool = s.pool + 1 ∧ s'.workers = false := by
  have hkeep {u : Tid} {pc : CallPc} (ht : (Function.update s.callers u pc t).creating = true)
      (hpc : pc.creating = true → (s.callers u).creating = true) : (s.callers t).creating = true := by
    by_cases htu : t = u
    · rw [htu, Function.update_self] at ht
      rw [htu]
      exact hpc ht
    · rw [Function.update_of_ne htu] at ht
      exact ht
  cases hm with
  | startCreates u hpc hover => exact .inr ⟨rfl, rfl⟩
  | startBinds u eps hpc => exact .inl ⟨hkeep ht fun _ => by rw [hpc]; rfl, rfl, id⟩
  | startSpawns u hpc | startInvokes u hpc | startInvoked u hpc =>
    exact .inl ⟨hkeep ht fun _ => by rw [hpc]; rfl, rfl, id⟩
  | startWorks u hpc =>
    have hold := hkeep ht nofun
    have htu : t = u := hl.unique (CallPc.locked_of_creating hold) (by rw [hpc]; rfl)
    have hnew : (Function.update s.callers u .startMonitor t).creating = true := ht
    rw [htu, Function.update_self] at hnew
    cases hnew
  | callStart | callStop | startBusy | startTakes | startLocks | startResets | startIds | startClears
  | startFails | startReturns | workersFail | monitorFails | runStops | catchResets | catchStores
  | stopIgnored | stopBegins | stopEnds | listenerStops => exact .inl ⟨hkeep ht nofun, rfl, id⟩
  | runJoins => exact .inl ⟨hkeep ht nofun, rfl, nofun⟩
  | monitorJoins => exact .inl ⟨ht, rfl, nofun⟩
  | _ => exact .inl ⟨ht, rfl, id⟩

theorem PoolInv.step_listeners (h : PoolInv s) (hm : Move o s a es s') (l : ℕ)
    (hpc : (s'.listeners l).pc ≠ .unborn) : (s'.listeners l).pool ≤ s'.pool := by
  refine Nat.le_trans ?_ hm.pool_le
  have hborn {old : ListenerPc} (hold : (s.listeners l).pc = old) (hne : old ≠ .unborn)
      (hpool : (s'.listeners l).pool = (s.listeners l).pool) : (s'.listeners l).pool ≤ s.pool := by
    rw [hpool]
    exact h.listeners l (hold ▸ hne)
  cases hm.listener l with
  | stays hsame hpool => exact hborn hsame.symm hpc hpool
  | spawned t ht ht' hmem hpool => exact Nat.le_of_eq hpool
  | goes hwaits hpool =>
    refine hborn rfl (fun hunborn => ?_) hpool
    rw [hunborn] at hwaits
    cases hwaits
  | started i hold hret hpool => exact hborn hold nofun hpool
  | stopped hold hret hpool => exact hborn hold nofun hpool

theorem PoolInv.step_conns (h : PoolInv s) (hm : Move o s a es s') (i : ℕ)
    (hi : i < s'.connCount) : (s'.conns i).pool ≤ s'.pool := by
  refine Nat.le_trans ?_ hm.pool_le
  rcases hm.accepts hi with hold | ⟨l, rfl, hnew⟩
  · rw [(hm.alike hold).pool]
    exact h.conns i hold
  · rw [hnew.pool]
    exact h.listeners l (by rw [hnew.takesId]; nofun)

theorem PoolInv.step_fresh (h : PoolInv s) (hl : LockInv s) (hm : Move o s a es s') {t : Tid}
    (ht : (s'.callers t).creating = true) :
    s'.workers = false ∧ ∀ i, i < s'.connCount → (s'.conns i).pool ≠ s'.pool := by
  rcases hm.creating hl ht with ⟨hold, hpool, hworkers⟩ | ⟨hpool, hworkers⟩
  · obtain ⟨hnone, hfresh⟩ := h.fresh t hold
    rw [Bool.eq_false_iff] at hnone ⊢
    refine ⟨fun hw => hnone (hworkers hw), fun i hi => ?_⟩
    rw [hpool]
    rcases hm.accepts hi with hi | ⟨l, rfl, hnew⟩
    · rw [(hm.alike hi).pool]
      exact hfresh i hi
    · exact absurd (pool_of_executes hnew.live).2.1 hnone
  · refine ⟨hworkers, fun i hi => ?_⟩
    have hle : (s'.conns i).pool ≤ s.pool := by
      rcases hm.accepts hi with hi | ⟨l, rfl, hnew⟩
      · rw [(hm.alike hi).pool]
        exact h.conns i hi
      · rw [hnew.pool]
        exact h.listeners l (by rw [hnew.takesId]; nofun)
    omega

theorem PoolInv.step (h : PoolInv s) (hl : LockInv s) (hm : Move o s a es s') : PoolInv s' where
  listeners := h.step_listeners hm
  conns := h.step_conns hm
  fresh _ ht := h.step_fresh hl hm ht

end Step

/-! ## Ids -/

/-- `start()` resets `m_last_id` while the workers of an earlier pool are running. -/
def Server.resetsLate (s : Server) : Action → Bool
  | .caller t ch => (match s.callers t with
    | .startId _ => decide (ch ≠ .fail)
    | _ => false) && s.hasContext && s.workers
  | _ => false

/-- The ids of a pool. -/
structure IdInv (s : Server) : Prop where
  below : s.hasContext = true → s.workers = true → ∀ i, i < s.connCount →
    (s.conns i).pool = s.pool → (s.conns i).id < s.lastId
  distinct : ∀ i j, i < s.connCount → j < s.connCount → (s.conns i).pool = (s.conns j).pool →
    (s.conns i).id = (s.conns j).id → i = j

/-- `on_session_stopped()` has erased the session. -/
def OnStopPc.erased : OnStopPc → Bool
  | .releasing | .returned => true
  | _ => false

/-- What `m_sessions` holds. -/
structure MapInv (s : Server) : Prop where
  ids : ∀ p ∈ s.sessions, p.1 = (s.conns p.2).id
  present : ∀ p ∈ s.sessions, (s.conns p.2).onStop.erased = false
  nodup : (s.sessions.map Prod.snd).Nodup

/-- A session of the current pool can be looked up from `emplace` to `erase`. -/
def RegisteredInv (s : Server) : Prop :=
  ∀ i, i < s.connCount → (s.conns i).pool = s.pool → (s.conns i).onConn.published = true →
    (s.conns i).onStop.erased = false → (s.conns i).id ∈ s.sessions.map Prod.fst

section Step

variable {o : TcpSession.Options} {s s' : Server} {a : Action} {es : List Event}

theorem IdInv.start : IdInv {} where
  below _ _ i hi := by cases hi
  distinct i j hi := by cases hi

theorem IdInv.step_below (h : IdInv s) (hp : PoolInv s) (hreset : s.resetsLate a = false)
    (hm : Move o s a es s') (hcontext : s'.hasContext = true) (hworkers : s'.workers = true) {i : ℕ}
    (hi : i < s'.connCount) (hpool : (s'.conns i).pool = s'.pool) :
    (s'.conns i).id < s'.lastId := by
  rcases hm.accepts hi with hold | ⟨l, rfl, hnew⟩
  · have hsame := hm.alike hold
    rw [hsame.id]
    rw [hsame.pool] at hpool
    cases hm with
    | startIds t ch eps hpc ha hch =>
      -- no worker is left that could hand out an id again
      have hnone : s.hasContext = true → s.workers = false := by
        simpa [ha, Server.resetsLate, hpc, hch] using hreset
      cases (hnone hcontext).symm.trans hworkers
    | startWorks t hpc =>
      have hfresh := hp.fresh t (by rw [hpc]; rfl)
      exact absurd hpool (hfresh.2 i hold)
    | listenerDrops | listenerCreates =>
      exact Nat.lt_succ_of_lt (h.below hcontext hworkers i hold hpool)
    | catchResets => cases hcontext
    | startCreates | runJoins | monitorJoins => cases hworkers
    | _ => exact h.below hcontext hworkers i hold hpool
  · rw [hnew.id, hnew.lastId]
    exact Nat.lt_succ_self _

/-- What a listener has just accepted has an id of its own. -/
theorem Accepts.id_ne {l i : ℕ} (hnew : Accepts s s' l) (h : IdInv s) (hi : i < s.connCount)
    (hpool : (s.conns i).pool = (s.listeners l).pool) : (s.conns i).id ≠ s.lastId := by
  obtain ⟨hcontext, hworkers, hcurrent⟩ := pool_of_executes hnew.live
  exact Nat.ne_of_lt (h.below hcontext hworkers i hi (hpool.trans hcurrent))

theorem IdInv.step_distinct (h : IdInv s) (hm : Move o s a es s') {i j : ℕ}
    (hi : i < s'.connCount) (hj : j < s'.connCount) (hpool : (s'.conns i).pool = (s'.conns j).pool)
    (hid : (s'.conns i).id = (s'.conns j).id) : i = j := by
  rcases hm.accepts hi with hi | ⟨l, rfl, hnew⟩
  · have hsame := hm.alike hi
    rw [hsame.pool] at hpool
    rw [hsame.id] at hid
    rcases hm.accepts hj with hj | ⟨l, rfl, hnew⟩
    · rw [(hm.alike hj).pool] at hpool
      rw [(hm.alike hj).id] at hid
      exact h.distinct i j hi hj hpool hid
    · exact absurd (hid.trans hnew.id) (hnew.id_ne h hi (hpool.trans hnew.pool))
  · rcases hm.accepts hj with hj | ⟨l', rfl, -⟩
    · rw [(hm.alike hj).pool, hnew.pool] at hpool
      rw [(hm.alike hj).id, hnew.id] at hid
      exact absurd hid.symm (hnew.id_ne h hj hpool.symm)
    · rfl

theorem IdInv.step (h : IdInv s) (hp : PoolInv s) (hreset : s.resetsLate a = false)
    (hm : Move o s a es s') : IdInv s' where
  below hcontext hworkers _ hi hpool := h.step_below hp hreset hm hcontext hworkers hi hpool
  distinct _ _ hi hj hpool hid := h.step_distinct hm hi hj hpool hid

/-- `on_session_stopped()` has not begun while only the listener has been at the session. -/
theorem ConnInv.onStop_idle {c : Conn} (h : ConnInv c) (hpub : c.onConn.published = false)
    (hpc : early c.session.startPc = true) : c.onStop = .idle :=
  h.abreast.stop_idle (by rw [(h.untouched hpub hpc).impls 0]; rfl)

theorem ConnInv.early_of_inside {c : Conn} (h : ConnInv c) (hin : c.onConn.inside = true) :
    early c.session.startPc = true := by
  rw [h.abreast.inside hin]
  rfl

/-- The session invokes `onDisconnected` only once, so `on_session_stopped()` has not begun. -/
theorem ConnInv.onStop_of_disconnected {o : TcpSession.Options} {c : Conn} {sess : Session Tid}
    {b : TcpSession.Action Tid} {ex : Option TcpSession.Exn} (h : ConnInv c)
    (hstep : TcpSession.step o c.session b = some (sess, [.disconnected ex])) :
    c.onStop = .idle := by
  obtain ⟨m, hl⟩ := h.life
  cases TcpSession.step_move hstep with
  | implOwed i ex k q hpc =>
    obtain rfl := hl.impl_eq_zero (i := i) (by rw [hpc]; exact ImplPc.noConfusion)
    exact h.abreast.stop_idle (by rw [hpc]; rfl)

/-- What a step of the session can change in the closures. -/
theorem enter_cases (c : Conn) (es : List TcpSession.Event) :
    (es = [.connected] ∧ c.enter es = { c with onConn := .counting }) ∨
      (∃ ex, es = [.disconnected ex] ∧ c.enter es = { c with onStop := .invoking ex }) ∨
      c.enter es = c := by
  unfold Conn.enter
  split
  · exact .inl ⟨rfl, rfl⟩
  · rename_i ex
    exact .inr (.inl ⟨ex, rfl, rfl⟩)
  · exact .inr (.inr rfl)

theorem mem_keys_emplace {m : List (ℕ × ℕ)} {id i k : ℕ} :
    k ∈ (emplace m id i).map Prod.fst ↔ k ∈ m.map Prod.fst ∨ k = id := by
  unfold emplace
  split
  · rename_i hmem
    exact ⟨.inl, fun h => h.elim (fun hk => hk) fun heq => heq ▸ hmem⟩
  · simp

theorem mem_keys_erase {m : List (ℕ × ℕ)} {id k : ℕ} :
    k ∈ (erase m id).map Prod.fst ↔ k ∈ m.map Prod.fst ∧ k ≠ id := by
  simp only [erase, List.mem_map, List.mem_filter, decide_eq_true_eq]
  constructor
  · rintro ⟨p, ⟨hp, hne⟩, rfl⟩
    exact ⟨⟨p, hp, rfl⟩, hne⟩
  · rintro ⟨⟨p, hp, rfl⟩, hne⟩
    exact ⟨p, ⟨hp, hne⟩, rfl⟩

theorem MapInv.start : MapInv {} where
  ids _ h := by cases h
  present _ h := by cases h
  nodup := List.nodup_nil

/-- The map as it was, with changes to connections that it does not speak about. -/
theorem MapInv.of_conns (h : MapInv s) (hc : ConnsInv s) (hm : Move o s a es s')
    (hsessions : s'.sessions = s.sessions)
    (hstop : ∀ p ∈ s.sessions, (s'.conns p.2).onStop.erased = false) : MapInv s' where
  ids p hp := by
    rw [hsessions] at hp
    rw [(hm.alike (hc.entries p hp).1).id]
    exact h.ids p hp
  present p hp := by
    rw [hsessions] at hp
    exact hstop p hp
  nodup := by
    rw [hsessions]
    exact h.nodup

theorem MapInv.step (h : MapInv s) (hc : ConnsInv s) (hm : Move o s a es s') : MapInv s' := by
  obtain ⟨hid, hpresent, hnodup⟩ := id h
  have hof := h.of_conns hc hm
  have halike {i : ℕ} (hi : i < s.connCount) := hm.alike hi
  have hupdate {i : ℕ} {c : Conn} {p : ℕ × ℕ} (hp : p ∈ s.sessions)
      (hstop : p.2 = i → (s.conns i).onStop.erased = false → c.onStop.erased = false) :
      (Function.update s.conns i c p.2).onStop.erased = false := by
    by_cases hpi : p.2 = i
    · rw [hpi, Function.update_self]
      exact hstop hpi (hpi ▸ hpresent p hp)
    · rw [Function.update_of_ne hpi]
      exact hpresent p hp
  cases hm with
  | listenerCreates l hlive hpc =>
    refine hof rfl fun p hp => hupdate hp fun hpi => ?_
    exact absurd hpi (Nat.ne_of_lt (hc.entries p hp).1)
  | session j b sess es ha hj hallow hstep =>
    refine hof rfl fun p hp => hupdate hp fun _ hold => ?_
    rcases enter_cases { s.conns j with session := sess } es with ⟨-, henter⟩ | ⟨ex, -, henter⟩ |
      henter
    · rw [henter]
      exact hold
    · rw [henter]
      rfl
    · rw [henter]
      exact hold
  | emplaces i hlive hpc =>
    have hi := hc.lt_of_onConn (i := i) (by rw [hpc]; exact OnConnPc.noConfusion)
    have hconn := hc.conn i hi
    have hidle := hconn.onStop_idle (by rw [hpc]; rfl) (hconn.early_of_inside (by rw [hpc]; rfl))
    have hnot : i ∉ s.sessions.map Prod.snd := by
      intro hmem
      obtain ⟨p, hp, rfl⟩ := List.mem_map.mp hmem
      have hpub := (hc.entries p hp).2
      rw [hpc] at hpub
      cases hpub
    have hself : (Function.update s.conns i { s.conns i with onConn := .invoking } i) =
        { s.conns i with onConn := .invoking } := Function.update_self ..
    constructor
    · intro p hp
      rcases mem_emplace hp with hp | rfl
      · rw [(halike (hc.entries p hp).1).id]
        exact hid p hp
      · exact (halike hi).id.symm
    · intro p hp
      rcases mem_emplace hp with hp | rfl
      · exact hupdate hp fun _ hold => hold
      · show (Function.update s.conns i _ i).onStop.erased = false
        rw [hself, hidle]
        rfl
    · show ((emplace s.sessions (s.conns i).id i).map Prod.snd).Nodup
      unfold emplace
      split
      · exact hnodup
      · rw [List.map_append, List.map_cons, List.map_nil]
        exact List.nodup_append.mpr ⟨hnodup, List.nodup_singleton i, fun j hj k hk => by
          rw [List.mem_singleton.mp hk]
          rintro rfl
          exact hnot hj⟩
  | erases i hlive hpc =>
    have hsub : ∀ p ∈ erase s.sessions (s.conns i).id, p ∈ s.sessions ∧ p.2 ≠ i := by
      intro p hp
      obtain ⟨hmem, hne⟩ := List.mem_filter.mp hp
      refine ⟨hmem, ?_⟩
      rintro rfl
      exact of_decide_eq_true hne (hid p hmem)
    constructor
    · intro p hp
      simp only [Server.setConn]
      rw [Function.update_of_ne (hsub p hp).2]
      exact hid p (hsub p hp).1
    · intro p hp
      simp only [Server.setConn]
      rw [Function.update_of_ne (hsub p hp).2]
      exact hpresent p (hsub p hp).1
    · exact hnodup.sublist (List.filter_sublist.map _)
  | stopperStops | counts | emplaceThrows | creates | created =>
    exact hof rfl fun p hp => hupdate hp fun _ hold => hold
  | disconnects | disconnected => exact hof rfl fun p hp => hupdate hp fun _ _ => rfl
  | releases i hlive hpc =>
    refine hof rfl fun p hp => hupdate hp fun _ hold => ?_
    rw [hpc] at hold
    cases hold
  | _ => exact hof rfl hpresent

/-- One connection has changed, and `m_sessions` has not. -/
theorem RegisteredInv.update {j : ℕ} {c : Conn} (h : RegisteredInv s)
    (hconns : s'.conns = Function.update s.conns j c) (hcount : s'.connCount = s.connCount)
    (hpools : s'.pool = s.pool) (hsessions : s'.sessions = s.sessions)
    (hsame : (s.conns j).Alike c)
    (hold : c.onConn.published = true → c.onStop.erased = false →
      (s.conns j).onConn.published = true ∧ (s.conns j).onStop.erased = false) :
    RegisteredInv s' := by
  intro i hi hpool hpub herased
  rw [hcount] at hi
  rw [hsessions]
  rw [hpools] at hpool
  rw [hconns] at hpool hpub herased ⊢
  by_cases hij : i = j
  · rw [hij] at hi
    rw [hij, Function.update_self] at hpool hpub herased ⊢
    obtain ⟨hpub, herased⟩ := hold hpub herased
    rw [hsame.id]
    exact h j hi (hsame.pool.symm.trans hpool) hpub herased
  · rw [Function.update_of_ne hij] at hpool hpub herased ⊢
    exact h i hi hpool hpub herased

theorem RegisteredInv.step (h : RegisteredInv s) (hc : ConnsInv s) (hp : PoolInv s) (hi : IdInv s)
    (hm : Move o s a es s') : RegisteredInv s' := by
  cases hm with
  | startCreates t hpc hover =>
    intro i hi heq
    have hle := hp.conns i hi
    have heq' : (s.conns i).pool = s.pool + 1 := heq
    omega
  | listenerCreates l hlive hpc =>
    intro i hi hpool hpub herased
    simp only [Server.setListenerPc, Server.setListener, Server.setConn] at hpool hpub herased ⊢
    have hlt : i < s.connCount + 1 := hi
    rcases Nat.lt_succ_iff_lt_or_eq.mp hlt with hold | rfl
    · rw [Function.update_of_ne (Nat.ne_of_lt hold)] at hpool hpub herased ⊢
      exact h i hold hpool hpub herased
    · rw [Function.update_self] at hpub
      cases hpub
  | session j b sess es ha hj hallow hstep =>
    refine h.update rfl rfl rfl rfl
      ⟨Conn.enter_id _ _, Conn.enter_listener _ _, Conn.enter_pool _ _⟩ fun hpub herased => ?_
    rcases enter_cases { s.conns j with session := sess } es with ⟨-, henter⟩ |
      ⟨ex, rfl, henter⟩ | henter
    · rw [henter] at hpub
      cases hpub
    · rw [henter] at hpub
      rw [(hc.conn j hj).onStop_of_disconnected hstep]
      exact ⟨hpub, rfl⟩
    · rw [henter] at hpub herased
      exact ⟨hpub, herased⟩
  | emplaces j hlive hpc =>
    intro i hi hpool hpub herased
    simp only [Server.setConn, mem_keys_emplace] at hpool hpub herased ⊢
    by_cases hij : i = j
    · rw [hij, Function.update_self]
      exact .inr rfl
    · rw [Function.update_of_ne hij] at hpool hpub herased ⊢
      exact .inl (h i hi hpool hpub herased)
  | erases j hlive hpc =>
    intro i hlt hpool hpub herased
    simp only [Server.setConn, mem_keys_erase] at hpool hpub herased ⊢
    by_cases hij : i = j
    · rw [hij, Function.update_self] at herased
      cases herased
    · rw [Function.update_of_ne hij] at hpool hpub herased ⊢
      refine ⟨h i hlt hpool hpub herased, fun hid => hij ?_⟩
      have hj := hc.lt_of_onStop (i := j) (by rw [hpc]; exact OnStopPc.noConfusion)
      exact hi.distinct i j hlt hj (hpool.trans (pool_of_executes hlive).2.2.symm) hid
  | counts | emplaceThrows => exact h.update rfl rfl rfl rfl ⟨rfl, rfl, rfl⟩ (by rintro ⟨⟩)
  | creates j hlive hpc =>
    exact h.update rfl rfl rfl rfl ⟨rfl, rfl, rfl⟩ fun _ herased => ⟨by rw [hpc]; rfl, herased⟩
  | created j pc hlive hpc =>
    exact h.update rfl rfl rfl rfl ⟨rfl, rfl, rfl⟩ fun _ herased => ⟨by rw [hpc]; rfl, herased⟩
  | stopperStops =>
    exact h.update rfl rfl rfl rfl ⟨rfl, rfl, rfl⟩ fun hpub herased => ⟨hpub, herased⟩
  | disconnects j ex hlive hpc =>
    exact h.update rfl rfl rfl rfl ⟨rfl, rfl, rfl⟩ fun hpub _ => ⟨hpub, by rw [hpc]; rfl⟩
  | disconnected j hlive hpc =>
    exact h.update rfl rfl rfl rfl ⟨rfl, rfl, rfl⟩ fun hpub _ => ⟨hpub, by rw [hpc]; rfl⟩
  | releases => exact h.update rfl rfl rfl rfl ⟨rfl, rfl, rfl⟩ (by rintro _ ⟨⟩)
  | _ => exact h

end Step

/-! ## Runs -/

/-- `start()` only resets `m_last_id` when the workers of the earlier pools are gone. -/
def resetsInTime (s : Server) (a : Action) : Prop := s.resetsLate a = false

instance (s : Server) (a : Action) : Decidable (resetsInTime s a) :=
  inferInstanceAs (Decidable (_ = _))

section Runs

variable {C : Server → Action → Prop} {o : TcpSession.Options} {tr : List Event} {s : Server}

theorem startingInv (h : (system o).Run C tr s) : StartingInv s := by
  refine invariant_of_moves (I := fun _ s => StartingInv s) ?_ ?_ h
  · intro i hi
    cases hi
  · intro tr s a es s' hrun _ hm ih
    exact ih.step (connsInv hrun) (numberInv hrun) hm

theorem poolInv (h : (system o).Run C tr s) : PoolInv s := by
  refine invariant_of_moves (I := fun _ s => PoolInv s) .start ?_ h
  intro tr s a es s' hrun _ hm ih
  exact ih.step (lockInv hrun) hm

theorem mapInv (h : (system o).Run C tr s) : MapInv s := by
  refine invariant_of_moves (I := fun _ s => MapInv s) .start ?_ h
  intro tr s a es s' hrun _ hm ih
  exact ih.step (connsInv hrun) hm

theorem idInv (hC : ∀ s a, C s a → resetsInTime s a) (h : (system o).Run C tr s) : IdInv s := by
  refine invariant_of_moves (I := fun _ s => IdInv s) .start ?_ h
  intro tr s a es s' hrun hCs hm ih
  exact ih.step (poolInv hrun) (hC s a hCs) hm

theorem registeredInv (hC : ∀ s a, C s a → resetsInTime s a) (h : (system o).Run C tr s) :
    RegisteredInv s := by
  refine invariant_of_moves (I := fun _ s => RegisteredInv s) ?_ ?_ h
  · intro i hi
    cases hi
  · intro tr s a es s' hrun _ hm ih
    exact ih.step (connsInv hrun) (poolInv hrun) (idInv hC hrun) hm

end Runs

end TcpServer
