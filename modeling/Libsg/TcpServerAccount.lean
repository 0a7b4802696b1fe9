/-
# The accounts of a `tcp_server`

`m_active_sessions` is the number of the connections that `onConn` has counted and
whose `on_session_stopped()` has not returned, in every run (`AccountInv`); those in
`m_sessions` are among them.

While no `start()` fails, no session is active when the stop thread has waited for them,
and none but those of the current pool (`IdleInv`); so the ids of a run are its own, and
`emplace` always puts its session into `m_sessions` (`accounts`).
-/
import Libsg.TcpServerCallbacks
import Libsg.TcpServerListeners

open TransitionSystem

namespace TcpServer

open TcpSession (Session Choice)

/-! ## Active sessions -/

/-- `onConn` has counted the session. -/
def OnConnPc.counted : OnConnPc → Bool
  | .idle | .counting => false
  | _ => true

/-- The session is counted in `m_active_sessions`. -/
def Conn.active (c : Conn) : Bool := c.onConn.counted && decide (c.onStop ≠ .returned)

/-- `m_active_sessions` counts the active sessions, and `on_session_stopped()` only begins for a
session that has been counted. -/
structure AccountInv (s : Server) : Prop where
  total : s.activeSessions = Nat.count (fun i => (s.conns i).active = true) s.connCount
  counted : ∀ i, (s.conns i).onStop ≠ .idle → (s.conns i).onConn.counted = true

section Step

variable {o : TcpSession.Options} {s s' : Server} {a : Action} {es : List Event}

/-- A session that invokes `onDisconnected` has been counted. -/
theorem ConnInv.counted_of_disconnected {c : Conn} {sess : Session Tid}
    {b : TcpSession.Action Tid} {ex : Option TcpSession.Exn} (h : ConnInv c)
    (hstep : TcpSession.step o c.session b = some (sess, [.disconnected ex])) :
    c.onConn.counted = true := by
  obtain ⟨m, hl⟩ := h.life
  cases TcpSession.step_move hstep with
  | implOwed i ex k q hpc howed =>
    obtain rfl := hl.impl_eq_zero (i := i) (by rw [hpc]; nofun)
    -- nobody but the listener could be at the session otherwise
    have huntouched (hpub : c.onConn.published = false) (hpc' : early c.session.startPc = true) :
        False := by
      rw [(h.untouched hpub hpc').impls 0] at hpc
      cases hpc
    cases honConn : c.onConn with
    | idle =>
      rcases h.abreast.owed.mp howed with hne | hstart
      · exact absurd honConn hne
      · exact (huntouched (by rw [honConn]; rfl) (by rw [hstart]; rfl)).elim
    | counting =>
      exact (huntouched (by rw [honConn]; rfl) (h.early_of_inside (by rw [honConn]; rfl))).elim
    | _ => rfl

/-- A step of the session does not change whether it is counted. -/
theorem ConnInv.active_enter {c : Conn} {sess : Session Tid} {b : TcpSession.Action Tid}
    {es : List TcpSession.Event} (h : ConnInv c)
    (hstep : TcpSession.step o c.session b = some (sess, es)) :
    ({ c with session := sess }.enter es).active = c.active := by
  rcases enter_cases { c with session := sess } es with ⟨rfl, henter⟩ | ⟨ex, rfl, henter⟩ | henter
  · rw [henter, Conn.active, Conn.active, h.onConn_of_connected hstep]
    rfl
  · rw [henter, Conn.active, Conn.active, h.onStop_of_disconnected hstep]
    rfl
  · rw [henter]
    rfl

namespace AccountInv

/-- A connection moves on that is counted as it was. -/
theorem conn (h : AccountInv s) {i : ℕ} {c : Conn}
    (hconns : s'.conns = Function.update s.conns i c) (hcount : s'.connCount = s.connCount)
    (htotal : s'.activeSessions = s.activeSessions) (hactive : c.active = (s.conns i).active)
    (hcounted : c.onStop ≠ .idle → c.onConn.counted = true) : AccountInv s' := by
  refine ⟨?_, fun j hj => ?_⟩
  · rw [htotal, hcount, h.total]
    apply count_congr_below
    intro j _
    rw [hconns]
    by_cases hji : j = i
    · rw [hji, Function.update_self, hactive]
    · rw [Function.update_of_ne hji]
  · rw [hconns] at hj ⊢
    by_cases hji : j = i
    · subst hji
      rw [Function.update_self] at hj ⊢
      exact hcounted hj
    · rw [Function.update_of_ne hji] at hj ⊢
      exact h.counted j hj

/-- The places of the closures move on, and count the session as before. -/
theorem closures (h : AccountInv s) {i : ℕ} {c : Conn}
    (hconns : s'.conns = Function.update s.conns i c) (hcount : s'.connCount = s.connCount)
    (htotal : s'.activeSessions = s.activeSessions)
    (hconn : c.onConn.counted = (s.conns i).onConn.counted)
    (hstop : (c.onStop = .returned ↔ (s.conns i).onStop = .returned))
    (hidle : (s.conns i).onStop = .idle → c.onStop ≠ .idle → c.onConn.counted = true) :
    AccountInv s' := by
  refine h.conn hconns hcount htotal ?_ fun hne => ?_
  · rw [Conn.active, Conn.active, hconn]
    congr 1
    exact decide_eq_decide.mpr (not_congr hstop)
  · by_cases hold : (s.conns i).onStop = .idle
    · exact hidle hold hne
    · exact hconn.trans (h.counted i hold)

/-- `onConn` counts the session. -/
theorem counts (h : AccountInv s) (hc : ConnsInv s) {i : ℕ} (hpc : (s.conns i).onConn = .counting)
    (hconns : s'.conns = Function.update s.conns i { s.conns i with onConn := .emplacing })
    (hcount : s'.connCount = s.connCount) (htotal : s'.activeSessions = s.activeSessions + 1) :
    AccountInv s' := by
  have hi := hc.lt_of_onConn (i := i) (by rw [hpc]; nofun)
  have hidle : (s.conns i).onStop = .idle := by
    by_contra hne
    have := h.counted i hne
    rw [hpc] at this
    cases this
  refine ⟨?_, fun j hj => ?_⟩
  · rw [htotal, hcount, h.total]
    refine (count_gain hi ?_ ?_ fun j hj => ?_).symm
    · rw [Conn.active, hpc]
      nofun
    · rw [hconns, Function.update_self, Conn.active, hidle]
      rfl
    · rw [hconns, Function.update_of_ne hj]
  · rw [hconns] at hj ⊢
    by_cases hji : j = i
    · subst hji
      rw [Function.update_self]
      rfl
    · rw [Function.update_of_ne hji] at hj ⊢
      exact h.counted j hj

/-- While `~release_session()` is to come, the session is among those counted. -/
theorem pos_of_releasing (h : AccountInv s) (hc : ConnsInv s) {i : ℕ}
    (hpc : (s.conns i).onStop = .releasing) : 0 < s.activeSessions := by
  have hi := hc.lt_of_onStop (i := i) (by rw [hpc]; nofun)
  rw [h.total]
  apply count_pos_of_mem hi
  rw [Conn.active, h.counted i (by rw [hpc]; nofun), hpc]
  rfl

/-- `~release_session()` releases it. -/
theorem releases (h : AccountInv s) (hc : ConnsInv s) {i : ℕ}
    (hpc : (s.conns i).onStop = .releasing)
    (hconns : s'.conns = Function.update s.conns i { s.conns i with onStop := .returned })
    (hcount : s'.connCount = s.connCount) (htotal : s'.activeSessions = fetchSub s.activeSessions) :
    AccountInv s' := by
  have hi := hc.lt_of_onStop (i := i) (by rw [hpc]; nofun)
  have hcounted := h.counted i (by rw [hpc]; nofun)
  have hpos := h.pos_of_releasing hc hpc
  refine ⟨?_, fun j hj => ?_⟩
  · have hgain : Nat.count (fun j => (s.conns j).active = true) s.connCount =
        Nat.count (fun j => (s'.conns j).active = true) s.connCount + 1 := by
      refine count_gain hi ?_ ?_ fun j hj => ?_
      · rw [hconns, Function.update_self, Conn.active]
        simp
      · rw [Conn.active, hcounted, hpc]
        rfl
      · rw [hconns, Function.update_of_ne hj]
    rw [htotal, hcount, fetchSub, if_neg (by omega), h.total, hgain]
    rfl
  · rw [hconns] at hj ⊢
    by_cases hji : j = i
    · subst hji
      rw [Function.update_self]
      exact hcounted
    · rw [Function.update_of_ne hji] at hj ⊢
      exact h.counted j hj

/-- A new connection is not counted. -/
theorem creates (h : AccountInv s) (hc : ConnsInv s) {c : Conn}
    (hconns : s'.conns = Function.update s.conns s.connCount c)
    (hcount : s'.connCount = s.connCount + 1) (htotal : s'.activeSessions = s.activeSessions)
    (hconn : c.onConn = .idle) (hstop : c.onStop = .idle) : AccountInv s' := by
  refine ⟨?_, fun j hj => ?_⟩
  · rw [htotal, hcount, h.total, count_extend]
    · apply count_congr_below
      intro j hj
      rw [hconns, Function.update_of_ne (by omega)]
    · intro j hj
      rw [hconns]
      by_cases hjn : j = s.connCount
      · rw [hjn, Function.update_self, Conn.active, hconn]
        nofun
      · rw [Function.update_of_ne hjn, hc.unborn j hj]
        nofun
  · rw [hconns] at hj ⊢
    by_cases hjn : j = s.connCount
    · subst hjn
      rw [Function.update_self, hstop] at hj
      exact absurd rfl hj
    · rw [Function.update_of_ne hjn] at hj ⊢
      exact h.counted j hj

theorem quiet (h : AccountInv s) (hconns : s'.conns = s.conns) (hcount : s'.connCount = s.connCount)
    (htotal : s'.activeSessions = s.activeSessions) : AccountInv s' := by
  refine ⟨?_, ?_⟩
  · rw [hconns, hcount, htotal]
    exact h.total
  · rw [hconns]
    exact h.counted

theorem step (h : AccountInv s) (hc : ConnsInv s) (hm : Move o s a es s') : AccountInv s' := by
  cases hm with
  | listenerCreates l hlive hpc => exact h.creates hc rfl rfl rfl rfl rfl
  | session j b sess es ha hj hallow hstep =>
    rcases enter_cases { s.conns j with session := sess } es with ⟨rfl, henter⟩ |
      ⟨ex, rfl, henter⟩ | henter
    · have hidle := (hc.conn j hj).onConn_of_connected hstep
      refine h.closures (i := j) rfl rfl rfl ?_ ?_ ?_ <;> rw [henter]
      · rw [hidle]
        rfl
      · exact fun hold hne => absurd hold hne
    · have hidle := (hc.conn j hj).onStop_of_disconnected hstep
      refine h.closures (i := j) rfl rfl rfl ?_ ?_ ?_ <;> rw [henter]
      · rw [hidle]
        simp
      · exact fun _ _ => (hc.conn j hj).counted_of_disconnected hstep
    · refine h.closures (i := j) rfl rfl rfl ?_ ?_ ?_ <;> rw [henter]
      exact fun hold hne => absurd hold hne
  | stopperStops k i todo hpc =>
    exact h.closures (i := i) rfl rfl rfl rfl Iff.rfl fun hold hne => absurd hold hne
  | counts i hlive hpc => exact h.counts hc hpc rfl rfl rfl
  | emplaces i hlive hpc | emplaceThrows i hlive hpc | creates i hlive hpc =>
    exact h.closures (i := i) rfl rfl rfl (by rw [hpc]; rfl) Iff.rfl fun hold hne => absurd hold hne
  | created i pc hlive hpc hnew =>
    refine h.closures (i := i) rfl rfl rfl ?_ Iff.rfl fun hold hne => absurd hold hne
    rw [hpc]
    rcases hnew with rfl | rfl <;> rfl
  | disconnects i ex hlive hpc =>
    refine h.closures (i := i) rfl rfl rfl rfl ?_ fun hold => ?_ 
    · rw [hpc]
      simp
    · rw [hpc] at hold
      cases hold
  | disconnected i hlive hpc | erases i hlive hpc =>
    refine h.closures (i := i) rfl rfl rfl rfl ?_ fun hold => ?_ 
    · rw [hpc]
      simp
    · rw [hpc] at hold
      cases hold
  | releases i hlive hpc => exact h.releases hc hpc rfl rfl rfl
  | _ => exact h.quiet rfl rfl rfl

end AccountInv

end Step

/-! ## While no session is active -/

/-- The stop thread has waited for the sessions. -/
def StopperPc.drained : StopperPc → Bool
  | .stopContext | .waitContext | .storeRunning => true
  | _ => false

theorem StopperPc.past_of_drained {pc : StopperPc} (h : pc.drained = true) : pc.past = true := by
  cases pc <;> first | rfl | cases h

/-- No session is active when the stop thread has waited for them, while the server is off, and
until `start()` has workers; those that are belong to the current pool. -/
structure IdleInv (s : Server) : Prop where
  drained : ∀ k, (s.stoppers k).drained = true → s.activeSessions = 0
  off : s.running = false → s.activeSessions = 0
  starts : ∀ t, (s.callers t).starting = true → s.callers t ≠ .startMonitor → s.activeSessions = 0
  current : ∀ i, (s.conns i).active = true → (s.conns i).pool = s.pool

section Step

variable {o : TcpSession.Options} {s s' : Server} {a : Action} {es : List Event}

theorem AccountInv.lt_of_active (hc : ConnsInv s) {i : ℕ}
    (hi : (s.conns i).active = true) : i < s.connCount := by
  by_contra hge
  rw [hc.unborn i (by omega)] at hi
  cases hi

theorem AccountInv.not_active (h : AccountInv s) (hc : ConnsInv s) (hnone : s.activeSessions = 0)
    (i : ℕ) : (s.conns i).active = false := by
  rw [Bool.eq_false_iff]
  intro hi
  rw [h.total, Nat.count_iff_forall_not] at hnone
  exact hnone i (lt_of_active hc hi) hi

/-- Nobody counts a session when the listeners are gone: one of them would be inside its
`start()`. -/
theorem not_counting (hgone : s.Gone) (hc : ConnsInv s) (hs : StartingInv s) {i : ℕ}
    (hexec : s.executes (s.conns i).pool = true) : (s.conns i).onConn ≠ .counting := by
  intro hpc
  have hlt := hc.lt_of_onConn (i := i) (by rw [hpc]; nofun)
  have hinside := (hc.conn i hlt).abreast.inside (by rw [hpc]; rfl)
  obtain ⟨hstarting, hsame⟩ := hs i hlt (by rw [hinside]; rfl)
  have hlistens := hgone (s.conns i).listener
  rw [listens_eq_true.mpr ⟨hsame.trans (pool_of_executes hexec).2.2, by rw [hstarting]; rfl⟩]
    at hlistens
  cases hlistens

namespace IdleInv

/-- A call moves on. -/
theorem caller (h : IdleInv s) {t : Tid} {pc : CallPc}
    (hcallers : s'.callers = Function.update s.callers t pc) (hstoppers : s'.stoppers = s.stoppers)
    (htotal : s'.activeSessions = s.activeSessions) (hrunning : s'.running = false → s.running = false)
    (hconns : s'.conns = s.conns) (hpool : s'.pool = s.pool)
    (hpc : pc.starting = true → pc ≠ .startMonitor → s.activeSessions = 0) : IdleInv s' := by
  refine ⟨fun k hk => ?_, fun hr => ?_, fun u hu hne => ?_, fun i hi => ?_⟩
  · rw [htotal]
    exact h.drained k (hstoppers ▸ hk)
  · rw [htotal]
    exact h.off (hrunning hr)
  · rw [hcallers] at hu hne
    rw [htotal]
    by_cases hut : u = t
    · subst hut
      rw [Function.update_self] at hu hne
      exact hpc hu hne
    · rw [Function.update_of_ne hut] at hu hne
      exact h.starts u hu hne
  · rw [hconns] at hi ⊢
    rw [hpool]
    exact h.current i hi

/-- The stop thread moves on. -/
theorem stopper (h : IdleInv s) {k : ℕ} {pc : StopperPc}
    (hstoppers : s'.stoppers = Function.update s.stoppers k pc) (hcallers : s'.callers = s.callers)
    (htotal : s'.activeSessions = s.activeSessions)
    (hrunning : s'.running = false → s.activeSessions = 0)
    (hconns : ∀ i, (s'.conns i).active = (s.conns i).active ∧ (s'.conns i).pool = (s.conns i).pool)
    (hpool : s'.pool = s.pool) (hpc : pc.drained = true → s.activeSessions = 0) : IdleInv s' := by
  refine ⟨fun j hj => ?_, fun hr => htotal.trans (hrunning hr), fun t ht hne => ?_, fun i hi => ?_⟩
  · rw [htotal]
    rw [hstoppers] at hj
    by_cases hjk : j = k
    · subst hjk
      rw [Function.update_self] at hj
      exact hpc hj
    · rw [Function.update_of_ne hjk] at hj
      exact h.drained j hj
  · rw [hcallers] at ht hne
    rw [htotal]
    exact h.starts t ht hne
  · obtain ⟨hactive, hsame⟩ := hconns i
    rw [hactive] at hi
    rw [hsame, hpool]
    exact h.current i hi

/-- The connections move on; none is counted that was not. -/
theorem quiet (h : IdleInv s) (hstoppers : s'.stoppers = s.stoppers)
    (hcallers : s'.callers = s.callers) (hrunning : s'.running = s.running)
    (hpool : s'.pool = s.pool) (htotal : s.activeSessions = 0 → s'.activeSessions = 0)
    (hcurrent : ∀ i, (s'.conns i).active = true → (s'.conns i).pool = s.pool) : IdleInv s' where
  drained k hk := htotal (h.drained k (hstoppers ▸ hk))
  off hr := htotal (h.off (hrunning ▸ hr))
  starts t ht hne := by
    rw [hcallers] at ht hne
    exact htotal (h.starts t ht hne)
  current i hi := hpool ▸ hcurrent i hi

/-- A connection moves on. -/
theorem conn (h : IdleInv s) {i : ℕ} {c : Conn} (hconns : s'.conns = Function.update s.conns i c)
    (hstoppers : s'.stoppers = s.stoppers) (hcallers : s'.callers = s.callers)
    (hrunning : s'.running = s.running) (hpool : s'.pool = s.pool)
    (htotal : s.activeSessions = 0 → s'.activeSessions = 0)
    (hcurrent : c.active = true → c.pool = s.pool) : IdleInv s' := by
  refine h.quiet hstoppers hcallers hrunning hpool htotal fun j hj => ?_
  rw [hconns] at hj ⊢
  by_cases hji : j = i
  · subst hji
    rw [Function.update_self] at hj ⊢
    exact hcurrent hj
  · rw [Function.update_of_ne hji] at hj ⊢
    exact h.current j hj

/-- Nobody counts a session while none is to be active. -/
theorem busy (hgone : GoneInv s) (hphase : s.control.Phase) (hc : ConnsInv s)
    (hs : StartingInv s) {i : ℕ} (hexec : s.executes (s.conns i).pool = true)
    (hpc : (s.conns i).onConn = .counting) :
    (∀ k, (s.stoppers k).drained = false) ∧ s.running = true ∧
      ∀ t, (s.callers t).starting = true → s.callers t = .startMonitor := by
  have hworkers := (pool_of_executes hexec).2.1
  have hresting (hr : s.control.Resting) : False := by
    have hnone : s.workers = false := hr.workers
    rw [hworkers] at hnone
    cases hnone
  refine ⟨fun k => ?_, ?_, fun t ht => ?_⟩
  · rw [Bool.eq_false_iff]
    intro hk
    exact not_counting (hgone.past k (StopperPc.past_of_drained hk)) hc hs hexec hpc
  · by_contra hno
    exact hresting (hphase.of_not_running (Bool.eq_false_iff.mpr hno)).resting
  · have hplace : s.control.At (s.callers t) := (hphase.of_starting ht).place
    cases hcaller : s.callers t <;> rw [hcaller] at hplace <;>
      first
        | rfl
        | exact hplace.elim
        | exact (hresting hplace.2).elim
        | exact (hresting hplace.2.1).elim

theorem step (h : IdleInv s) (hacc : AccountInv s) (hgone : GoneInv s) (hphase : s.control.Phase)
    (hc : ConnsInv s) (hs : StartingInv s) (hC : startsSucceed s a) (hm : Move o s a es s') :
    IdleInv s' := by
  have hstart {t : Tid} {pc : CallPc} (hpc : s.callers t = pc) (hstarting : pc.starting = true)
      (hne : pc ≠ .startMonitor) : s.activeSessions = 0 :=
    h.starts t (by rw [hpc, hstarting]) (by rw [hpc]; exact hne)
  cases hm with
  | startTakes t eps hpc hrun =>
    exact h.caller (t := t) rfl rfl rfl (fun _ => hrun) rfl rfl fun _ _ => h.off hrun
  | callStart n eps hpc => exact h.caller (t := .user n) rfl rfl rfl id rfl rfl (by rintro ⟨⟩)
  | callStop n hpc => exact h.caller (t := .user n) rfl rfl rfl id rfl rfl (by rintro ⟨⟩)
  | startBusy t eps hpc hrun => exact h.caller (t := t) rfl rfl rfl id rfl rfl (by rintro ⟨⟩)
  | startLocks t eps hpc hfree | startResets t eps hpc | startBinds t eps hpc hlen =>
    exact h.caller (t := t) rfl rfl rfl id rfl rfl fun _ _ => hstart hpc rfl (by simp)
  | startIds t ch eps hpc ha hch =>
    exact h.caller (t := t) rfl rfl rfl id rfl rfl fun _ _ => hstart hpc rfl (by simp)
  | startClears t hpc | startSpawns t hpc | startInvokes t hpc | startInvoked t hpc =>
    exact h.caller (t := t) rfl rfl rfl id rfl rfl fun _ _ => hstart hpc rfl (by simp)
  | startWorks t hpc => exact h.caller (t := t) rfl rfl rfl id rfl rfl fun _ hne => absurd rfl hne
  | startFails t ch hpc ha hch =>
    exact h.caller (t := t) rfl rfl rfl id rfl rfl fun _ _ =>
      h.starts t (by cases hcaller : s.callers t <;> rw [hcaller] at hpc <;> first | rfl | cases hpc)
        fun hno => by rw [hno] at hpc; cases hpc
  | startCreates t hpc hover =>
    have hnone := hstart hpc rfl (by simp)
    refine ⟨fun k hk => h.drained k hk, fun hr => h.off hr, fun u _ _ => hnone, fun i hi => ?_⟩
    have hi' : (s.conns i).active = true := hi
    rw [hacc.not_active hc hnone i] at hi'
    cases hi'
  | startReturns t hpc | stopIgnored t hpc hfree hstop | stopEnds t k hpc hjoin =>
    exact h.caller (t := t) rfl rfl rfl id rfl rfl (by rintro ⟨⟩)
  | workersFail t hpc ha =>
    exact h.caller (t := t) rfl rfl rfl id rfl rfl fun _ _ => hstart hpc rfl (by simp)
  | monitorFails t hpc ha =>
    subst ha
    exact (not_startFails hC (.inl ⟨rfl, .inr (.inr hpc)⟩)).elim
  | runStops t hpc => exact (hphase.at hpc rfl).2.elim
  | runJoins t hpc hidle => exact (hphase.at hpc rfl).2.elim
  | catchResets t hpc hover => exact (hphase.at hpc rfl).2.elim
  | catchStores t hpc => exact (hphase.at hpc rfl).2.elim
  | stopBegins t hpc hfree hstop =>
    have hcaller : IdleInv (s.setCaller t (.stopJoin s.stopperCount)) :=
      h.caller (t := t) rfl rfl rfl id rfl rfl (by rintro ⟨⟩)
    exact hcaller.stopper (k := s.stopperCount) rfl rfl rfl h.off (fun _ => ⟨rfl, rfl⟩) rfl (by rintro ⟨⟩)
  | stopperPosts k hpc hlive | stopperCloses k hpc hdead | stopperAwaits k hpc hlive
  | stopperSkips k hpc hdead | listenersGone k hpc hnone | stopperCopies k hpc
  | stopperStopped k i todo hpc hret | stopperWaits k hpc =>
    exact h.stopper (k := k) rfl rfl rfl h.off (fun _ => ⟨rfl, rfl⟩) rfl (by rintro ⟨⟩)
  | stopperStops k i todo hpc =>
    refine h.stopper (k := k) rfl rfl rfl h.off (fun j => ?_) rfl (by rintro ⟨⟩)
    simp only [Server.setStopper, Server.setConn, Function.update_apply]
    split
    · next hj =>
      subst hj
      exact ⟨rfl, rfl⟩
    · exact ⟨rfl, rfl⟩
  | sessionsGone k hpc hnone =>
    exact h.stopper (k := k) rfl rfl rfl h.off (fun _ => ⟨rfl, rfl⟩) rfl fun _ => hnone
  | stopperStopsContext k hpc hcontext | stopperNoContext k hpc hcontext
  | contextGone k hpc hover =>
    exact h.stopper (k := k) rfl rfl rfl h.off (fun _ => ⟨rfl, rfl⟩) rfl fun _ =>
      h.drained k (by rw [hpc]; rfl)
  | stopperEnds k hpc =>
    exact h.stopper (k := k) rfl rfl rfl (fun _ => h.drained k (by rw [hpc]; rfl))
      (fun _ => ⟨rfl, rfl⟩) rfl (by rintro ⟨⟩)
  | listenerCreates l hlive hpc =>
    exact h.conn (i := s.connCount) rfl rfl rfl rfl rfl id (by rintro ⟨⟩)
  | listenerStops l hlive hpc => exact h.caller (t := .listener l) rfl rfl rfl id rfl rfl (by rintro ⟨⟩)
  | session j b sess es ha hj hallow hstep =>
    refine h.conn (i := j) rfl rfl rfl rfl rfl id fun hi => ?_
    rw [(hc.conn j hj).active_enter hstep] at hi
    rw [Conn.enter_pool]
    exact h.current j hi
  | counts i hlive hpc =>
    obtain ⟨hdrained, hrun, hstarting⟩ := busy hgone hphase hc hs hlive hpc
    refine ⟨fun k hk => ?_, fun hr => ?_, fun t ht hne => absurd (hstarting t ht) hne, fun j hj => ?_⟩
    · have hk' : (s.stoppers k).drained = true := hk
      rw [hdrained k] at hk'
      cases hk'
    · have hr' : s.running = false := hr
      rw [hrun] at hr'
      cases hr'
    · by_cases hji : j = i
      · subst hji
        simpa [Server.setConn] using (pool_of_executes hlive).2.2
      · simp only [Server.setConn, Function.update_of_ne hji] at hj ⊢
        exact h.current j hj
  | emplaces i hlive hpc | emplaceThrows i hlive hpc | creates i hlive hpc =>
    refine h.conn (i := i) rfl rfl rfl rfl rfl id fun hi => h.current i ?_
    rw [Conn.active, hpc]
    exact hi
  | created i pc hlive hpc hnew =>
    refine h.conn (i := i) rfl rfl rfl rfl rfl id fun hi => h.current i ?_
    rw [Conn.active, hpc]
    rcases hnew with rfl | rfl <;> exact hi
  | disconnects i ex hlive hpc =>
    refine h.conn (i := i) rfl rfl rfl rfl rfl id fun hi => h.current i ?_
    rw [Conn.active, hpc]
    exact hi
  | disconnected i hlive hpc | erases i hlive hpc =>
    refine h.conn (i := i) rfl rfl rfl rfl rfl id fun hi => h.current i ?_
    rw [Conn.active, hpc]
    exact hi
  | releases i hlive hpc =>
    have hsome := hacc.pos_of_releasing hc hpc
    refine h.conn (i := i) rfl rfl rfl rfl rfl (fun hnone => by omega) fun hi => ?_
    simp [Conn.active] at hi
  | _ => exact h.quiet rfl rfl rfl rfl id h.current

end IdleInv

end Step

/-! ## `m_sessions` -/

/-- What is in `m_sessions` is active. -/
theorem active_of_mem {s : Server} (hc : ConnsInv s) (hmap : MapInv s) {p : ℕ × ℕ}
    (hp : p ∈ s.sessions) : p.2 < s.connCount ∧ (s.conns p.2).active = true := by
  obtain ⟨hlt, hpub⟩ := hc.entries p hp
  have hcounted : (s.conns p.2).onConn.counted = true := by
    cases hpc : (s.conns p.2).onConn <;> rw [hpc] at hpub <;> first | rfl | cases hpub
  have hleft : (s.conns p.2).onStop ≠ .returned := by
    intro hreturned
    have hpresent := hmap.present p hp
    rw [hreturned] at hpresent
    cases hpresent
  exact ⟨hlt, by rw [Conn.active, hcounted, decide_eq_true hleft]; rfl⟩

/-- There are no more sessions in `m_sessions` than are active. -/
theorem sessions_le {s : Server} (h : AccountInv s) (hc : ConnsInv s) (hmap : MapInv s) :
    s.sessions.length ≤ s.activeSessions := by
  rw [h.total, ← List.length_map (f := Prod.snd)]
  apply length_le_count hmap.nodup
  intro j hj
  obtain ⟨p, hp, rfl⟩ := List.mem_map.mp hj
  exact active_of_mem hc hmap hp

/-- The id of a session that `onConn` is about to put into `m_sessions` is not there. -/
theorem id_not_mem {s : Server} (h : IdleInv s) (hc : ConnsInv s) (hmap : MapInv s) (hid : IdInv s)
    {i : ℕ} (hexec : s.executes (s.conns i).pool = true) (hpc : (s.conns i).onConn = .emplacing) :
    (s.conns i).id ∉ s.sessions.map Prod.fst := by
  intro hmem
  obtain ⟨p, hp, hsame⟩ := List.mem_map.mp hmem
  obtain ⟨hlt, hactive⟩ := active_of_mem hc hmap hp
  have hi := hc.lt_of_onConn (i := i) (by rw [hpc]; nofun)
  have hpool : (s.conns p.2).pool = (s.conns i).pool :=
    (h.current p.2 hactive).trans (pool_of_executes hexec).2.2.symm
  have heq := hid.distinct p.2 i hlt hi hpool ((hmap.ids p hp).symm.trans hsame)
  -- what is in `m_sessions` has been put there
  have hpub := (hc.entries p hp).2
  rw [heq, hpc] at hpub
  cases hpub

/-! ## Runs -/

section Runs

variable {C : Server → Action → Prop} {o : TcpSession.Options} {tr : List Event} {s : Server}

theorem accountInv (h : (system o).Run C tr s) : AccountInv s := by
  refine invariant_of_moves (I := fun _ s => AccountInv s) ⟨rfl, fun _ hne => absurd rfl hne⟩ ?_ h
  intro tr s a es s' hrun _ hm ih
  exact ih.step (connsInv hrun) hm

theorem idleInv (hC : ∀ s a, C s a → startsSucceed s a) (h : (system o).Run C tr s) :
    IdleInv s := by
  refine invariant_of_moves (I := fun _ s => IdleInv s) ?_ ?_ h
  · exact ⟨fun _ _ => rfl, fun _ => rfl, fun _ _ _ => rfl, nofun⟩
  · intro tr s a es s' hrun hCa hm ih
    exact ih.step (accountInv hrun) (goneInv_countInv hC hrun).1 (phase hC hrun) (connsInv hrun)
      (startingInv hrun) (hC s a hCa) hm

/-- `start()` that finds the last run over resets `m_last_id` in time. -/
theorem resetsInTime_of_phase (hphase : s.control.Phase) (a : Action) : resetsInTime s a := by
  cases a with
  | caller t ch =>
    unfold resetsInTime Server.resetsLate
    dsimp only
    cases hpc : s.callers t with
    | startId eps =>
      have hnone : s.workers = false := (hphase.at hpc rfl).2.2.workers
      rw [hnone, Bool.and_false]
    | _ => rfl
  | _ => rfl

theorem idInv_of_starts (hC : ∀ s a, C s a → startsSucceed s a) (h : (system o).Run C tr s) :
    IdInv s :=
  idInv (fun _ _ => id) (h.meets fun _ _ a hrun _ => resetsInTime_of_phase (phase hC hrun) a)

/-- **Session accounting.**  While no `start()` fails, `m_active_sessions` counts the sessions
that `onConn` has counted and whose `on_session_stopped()` has not returned; it is not zero when
it is decremented, and `m_sessions` holds no more than it says.  The ids of one pool are distinct,
and fit in a `size_t` while there are no more than `2^64` accepts in the run; and `emplace` puts
every session into `m_sessions`.  Both are empty when the stop thread has waited for the sessions,
and the next `start()` finds them, and the listeners, at zero. -/
theorem accounts (h : (system o).Run startsSucceed tr s) :
    (s.activeSessions = Nat.count (fun i => (s.conns i).active = true) s.connCount ∧
      s.sessions.length ≤ s.activeSessions ∧
      ∀ i, (s.conns i).onStop = .releasing → 0 < s.activeSessions) ∧
    ((∀ i j, i < s.connCount → j < s.connCount → (s.conns i).pool = (s.conns j).pool →
        (s.conns i).id = (s.conns j).id → i = j) ∧
      (s.hasContext = true → s.workers = true → s.lastId ≤ 2 ^ 64 →
        ∀ i, i < s.connCount → (s.conns i).pool = s.pool → (s.conns i).id < 2 ^ 64) ∧
      ∀ i s' es, (s.conns i).onConn = .emplacing →
        (system o).step s (.onConn i .ok) = some (s', es) →
        s'.sessions = s.sessions ++ [((s.conns i).id, i)]) ∧
    (∀ k, (s.stoppers k).drained = true → s.activeSessions = 0 ∧ s.sessions = []) ∧
      ∀ t eps, s.callers t = .startLock eps →
        s.activeSessions = 0 ∧ s.acceptorsRunning = 0 ∧ s.sessions = [] := by
  have hacc := accountInv h
  have hconns := connsInv h
  have hle := sessions_le hacc hconns (mapInv h)
  have hidle := idleInv (fun _ _ hC => hC) h
  obtain ⟨hgone, hcount⟩ := goneInv_countInv (fun _ _ hC => hC) h
  have hempty (hnone : s.activeSessions = 0) : s.sessions = [] :=
    List.eq_nil_of_length_eq_zero (by omega)
  have hid := idInv_of_starts (fun _ _ hC => hC) h
  refine ⟨⟨hacc.total, hle, fun i hpc => hacc.pos_of_releasing hconns hpc⟩,
    ⟨hid.distinct, ?_, ?_⟩, ?_, ?_⟩
  · intro hcontext hworkers hfew i hi hpool
    exact Nat.lt_of_lt_of_le (hid.below hcontext hworkers i hi hpool) hfew
  · intro i s' es hpc hstep
    have hexec : s.executes (s.conns i).pool = true := by
      by_contra hno
      simp [system, step, hno] at hstep
    have hfresh := id_not_mem hidle hconns (mapInv h) hid hexec hpc
    simp only [system, step, hexec, if_true, onConn, hpc] at hstep
    cases hstep
    show emplace s.sessions (s.conns i).id i = _
    rw [emplace, if_neg hfresh]
  · intro k hk
    have hnone := hidle.drained k hk
    exact ⟨hnone, hempty hnone⟩
  · intro t eps hpc
    have hnone := hidle.starts t (by rw [hpc]; rfl) (by simp [hpc])
    exact ⟨hnone, (hcount.zero_iff (numberInv h)).mpr (hgone.starts t (by rw [hpc]; rfl)),
      hempty hnone⟩

end Runs

section Sample

/-- The reader ends, and user thread 1 stops the server; the stop thread waits for the listener, and
for the sessions. -/
def shutdownRun : List Action :=
  ([.session 0 (.readDone (.error .eof)), .session 0 .runHandler] : List Action)
    ++ List.replicate 5 (Action.session 0 (.step .strand .ok))
    ++ ([.listener 0 .ok, .callStop 1] : List Action)
    ++ List.replicate 2 (Action.caller (.user 1) .ok) ++ List.replicate 2 (Action.stopper 0)
    ++ ([.runClose 0] : List Action) ++ List.replicate 3 (Action.listener 0 .ok)
    ++ ([.caller (.listener 0) .ok] : List Action) ++ List.replicate 2 (Action.listener 0 .ok)
    ++ List.replicate 4 (Action.stopper 0)

/-- The stop thread stops the pool, and ends. -/
def finishRun : List Action :=
  Action.stopper 0 :: (List.replicate 4 Action.monitor ++ List.replicate 2 (Action.stopper 0))

/-- A session comes and goes, the server is stopped, and user thread 0 calls `start()` again. -/
def restartRun : List Action :=
  readRun ++ disconnectRun ++ closeRun ++ shutdownRun ++ finishRun
    ++ [.callStart 0 [⟨"::1", 80⟩], .caller (.user 0) .ok]

/-- The `start()` after that finds everything at zero. -/
theorem accounts_restartRun : ∃ tr s, (system {}).Run startsSucceed tr s ∧
    .created 0 ∈ tr ∧ .disconnected 0 none ∈ tr ∧ s.callers (.user 0) = .startLock [⟨"::1", 80⟩] ∧
      s.activeSessions = 0 ∧ s.acceptorsRunning = 0 ∧ s.sessions = [] := by
  have hrun := run_exec (by decide +kernel : (system {}).execMeets startsSucceed _ restartRun = true)
    (by decide +kernel)
  have hpc : (((system {}).exec restartRun).get (by decide +kernel)).1.callers (.user 0) =
      .startLock [⟨"::1", 80⟩] := by
    decide +kernel
  exact ⟨_, _, hrun, by decide +kernel, by decide +kernel, hpc, (accounts hrun).2.2.2 _ _ hpc⟩

end Sample

end TcpServer
