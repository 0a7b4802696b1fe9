/-
# The listeners of a `tcp_server`

While no `start()` fails, `m_acceptors_running_count` is the number of the listeners of
the current pool that have not left `listener()` (`CountInv`), none of which is left
when the context has stopped or the stop thread has waited for them (`GoneInv`).
-/
import Libsg.TcpServerPhase
import Libsg.TcpServerRegistry
import Libsg.CountBelow

open TransitionSystem

namespace TcpServer

open TcpSession (Session Choice)

/-! ## Listeners -/

def ListenerPc.live : ListenerPc → Bool
  | .unborn | .finished => false
  | _ => true

/-- Listener `l` belongs to the current pool, and has not left `listener()`. -/
def Server.listens (s : Server) (l : ℕ) : Bool :=
  decide ((s.listeners l).pool = s.pool) && (s.listeners l).pc.live

/-- Every listener of the current pool has left `listener()`. -/
def Server.Gone (s : Server) : Prop := ∀ l, s.listens l = false

/-- The stop thread has waited for the listeners. -/
def StopperPc.past : StopperPc → Bool
  | .copySessions | .disconnecting _ | .inStopAsync _ _ | .waitSessions | .stopContext
  | .waitContext | .storeRunning => true
  | _ => false

/-- `start()` has not spawned its listeners. -/
def CallPc.unspawned : CallPc → Bool
  | .startLock _ | .startReset _ | .startId _ | .startClear | .startContext | .startBind
  | .startSpawn => true
  | _ => false

theorem StopperPc.live_of_past {pc : StopperPc} (h : pc.past = true) : pc.live = true := by
  cases pc <;> first | rfl | cases h

theorem CallPc.starting_of_unspawned {pc : CallPc} (h : pc.unspawned = true) :
    pc.starting = true := by
  cases pc <;> first | rfl | cases h

theorem listens_eq_true {s : Server} {l : ℕ} :
    s.listens l = true ↔ (s.listeners l).pool = s.pool ∧ (s.listeners l).pc.live = true := by
  simp [Server.listens]

/-- What a listener that is gone does not do. -/
theorem Server.Gone.not_live {s : Server} (h : s.Gone) {l : ℕ}
    (hlive : s.executes (s.listeners l).pool = true) : (s.listeners l).pc.live = false := by
  rw [Bool.eq_false_iff]
  intro hpc
  have hl := h l
  rw [listens_eq_true.mpr ⟨(pool_of_executes hlive).2.2, hpc⟩] at hl
  cases hl

/-- No listener is left when the context has stopped, when the stop thread has waited for them,
while the server is off, and until `start()` spawns the next. -/
structure GoneInv (s : Server) : Prop where
  context : s.contextStopped = true → s.Gone
  past : ∀ k, (s.stoppers k).past = true → s.Gone
  off : s.running = false → s.Gone
  starts : ∀ t, (s.callers t).unspawned = true → s.Gone

/-- Whoever has not left `listener()` belongs to the current pool. -/
def CurrentInv (s : Server) : Prop :=
  ∀ l, (s.listeners l).pc.live = true → (s.listeners l).pool = s.pool

/-- `m_acceptors_running_count` counts the listeners that are left, each of which has its own
acceptor. -/
structure CountInv (s : Server) : Prop where
  total : s.acceptorsRunning = Nat.count (fun l => s.listens l = true) s.listenerCount
  acceptors : s.acceptors.Nodup

section Step

variable {o : TcpSession.Options} {s s' : Server} {a : Action} {es : List Event}

theorem ListenerPc.Advance.live {stop : Bool} {pc pc' : ListenerPc} (h : pc.Advance stop pc') :
    pc.live = true ∧ pc'.live = true := by
  cases h <;> exact ⟨rfl, rfl⟩

theorem Listener.Resume.live {L L' : Listener} (h : L.Resume L') :
    L.pc.live = true ∧ L'.pc.live = true ∧ L'.pool = L.pool := by
  cases h <;> next hpc => exact ⟨by rw [hpc]; rfl, rfl, rfl⟩

theorem closeAcceptor_live (L : Listener) :
    (closeAcceptor L).pc.live = L.pc.live ∧ (closeAcceptor L).pool = L.pool := by
  refine ⟨?_, rfl⟩
  unfold closeAcceptor
  cases L.pc <;> rfl

/-- Without listeners the count is zero, and the other way round. -/
theorem CountInv.zero_iff (h : CountInv s) (hn : NumberInv s) : s.acceptorsRunning = 0 ↔ s.Gone := by
  rw [h.total, Nat.count_iff_forall_not]
  constructor
  · intro hnone l
    by_cases hl : l < s.listenerCount
    · exact Bool.eq_false_iff.mpr (hnone l hl)
    · rw [Server.listens, hn.listeners l (by omega)]
      exact Bool.and_false _
  · intro hgone l _
    exact Bool.eq_false_iff.mp (hgone l)

/-- The stop thread finds the context not running only when it has stopped. -/
theorem Control.Phase.stopped_of_dead (h : s.control.Phase) {k : ℕ}
    (hpc : (s.stoppers k).live = true) (hdead : s.contextRunning = false) :
    s.contextStopped = true := by
  have hready := (h.of_live hpc).ready
  have hcontext : s.hasContext = true := hready.hasContext
  by_contra hstopped
  have hcycle : s.cycleActive = false := by
    rw [Server.contextRunning, hcontext, Bool.eq_false_iff.mpr hstopped] at hdead
    simpa using hdead
  have hmonitor : s.monitor = .finished := by
    by_contra hne
    rw [show s.cycleActive = true from hready.cycle.mpr hne] at hcycle
    cases hcycle
  exact hstopped (hready.joined (by show s.monitor.joined = true; rw [hmonitor]; rfl)).1

namespace Server.Gone

theorem keep (h : s.Gone) (hlisteners : s'.listeners = s.listeners) (hpool : s'.pool = s.pool) :
    s'.Gone := by
  intro l
  rw [Server.listens, hlisteners, hpool]
  exact h l

/-- A listener changes that is as live as before. -/
theorem listener (h : s.Gone) {l : ℕ} {L : Listener}
    (hlisteners : s'.listeners = Function.update s.listeners l L) (hpool : s'.pool = s.pool)
    (hL : L.pool = (s.listeners l).pool) (hlive : L.pc.live = (s.listeners l).pc.live) :
    s'.Gone := by
  intro j
  rw [Server.listens, hlisteners, hpool]
  by_cases hjl : j = l
  · rw [hjl, Function.update_self, hL, hlive]
    exact h l
  · rw [Function.update_of_ne hjl]
    exact h j

/-- A new pool has no listeners yet. -/
theorem creates (hp : PoolInv s) (hlisteners : s'.listeners = s.listeners)
    (hpool : s'.pool = s.pool + 1) : s'.Gone := by
  intro l
  rw [Bool.eq_false_iff]
  intro hl
  rw [listens_eq_true, hlisteners, hpool] at hl
  have hborn : (s.listeners l).pc ≠ .unborn := fun hno => by
    rw [hno] at hl
    cases hl.2
  have hle := hp.listeners l hborn
  omega

/-- The acceptors are closed, or told to. -/
theorem closes (h : s.Gone) (hpool : s'.pool = s.pool)
    (hpcs : ∀ l, (s'.listeners l).pc = (s.listeners l).pc)
    (hpools : ∀ l, (s'.listeners l).pool = (s.listeners l).pool) : s'.Gone := by
  intro l
  rw [Server.listens, hpcs, hpools, hpool]
  exact h l

end Server.Gone

namespace GoneInv

/-- What no field of the invariant speaks about has changed. -/
theorem quiet (h : GoneInv s) (hgone : s.Gone → s'.Gone)
    (hcontext : s'.contextStopped = s.contextStopped) (hstoppers : s'.stoppers = s.stoppers)
    (hrunning : s'.running = s.running) (hcallers : s'.callers = s.callers) : GoneInv s' where
  context hc := hgone (h.context (hcontext ▸ hc))
  past k hk := hgone (h.past k (hstoppers ▸ hk))
  off hr := hgone (h.off (hrunning ▸ hr))
  starts t ht := hgone (h.starts t (hcallers ▸ ht))

/-- A call moves on. -/
theorem caller (h : GoneInv s) (hgone : s.Gone → s'.Gone) {t : Tid} {pc : CallPc}
    (hcallers : s'.callers = Function.update s.callers t pc)
    (hcontext : s'.contextStopped = true → s.contextStopped = true)
    (hstoppers : s'.stoppers = s.stoppers) (hrunning : s'.running = false → s.running = false)
    (hpc : pc.unspawned = true → s.Gone) : GoneInv s' := by
  refine ⟨fun hc => hgone (h.context (hcontext hc)), fun k hk => hgone (h.past k (hstoppers ▸ hk)),
    fun hr => hgone (h.off (hrunning hr)), fun u hu => hgone ?_⟩
  rw [hcallers] at hu
  by_cases hut : u = t
  · subst hut
    rw [Function.update_self] at hu
    exact hpc hu
  · rw [Function.update_of_ne hut] at hu
    exact h.starts u hu

/-- The stop thread moves on. -/
theorem stopper (h : GoneInv s) (hgone : s.Gone → s'.Gone) {k : ℕ} {pc : StopperPc}
    (hstoppers : s'.stoppers = Function.update s.stoppers k pc)
    (hcallers : s'.callers = s.callers)
    (hcontext : s'.contextStopped = true → s.Gone) (hrunning : s'.running = false → s.Gone)
    (hpc : pc.past = true → s.Gone) : GoneInv s' := by
  refine ⟨fun hc => hgone (hcontext hc), fun j hj => hgone ?_, fun hr => hgone (hrunning hr),
    fun t ht => hgone (h.starts t (hcallers ▸ ht))⟩
  rw [hstoppers] at hj
  by_cases hjk : j = k
  · subst hjk
    rw [Function.update_self] at hj
    exact hpc hj
  · rw [Function.update_of_ne hjk] at hj
    exact h.past j hj

/-- `start()` spawns the listeners of a server on which none of the conditions holds. -/
theorem spawns (hphase : s.control.Phase) {t : Tid} (hpc : s.callers t = .startSpawn)
    (hcallers : s'.callers = Function.update s.callers t .invokeStartedListening)
    (hcontext : s'.contextStopped = s.contextStopped) (hstoppers : s'.stoppers = s.stoppers)
    (hrunning : s'.running = s.running) : GoneInv s' := by
  obtain ⟨hstart, hplace⟩ := hphase.at hpc rfl
  refine ⟨fun hc => ?_, fun k hk => ?_, fun hr => ?_, fun u hu => ?_⟩
  · have hclear : s.contextStopped = false := hplace.2.2.2.1
    rw [hcontext, hclear] at hc
    cases hc
  · have hnone : (s.stoppers k).live = false := hstart.stoppers k
    rw [hstoppers] at hk
    rw [StopperPc.live_of_past hk] at hnone
    cases hnone
  · have hrun : s.running = true := hstart.running
    rw [hrunning, hrun] at hr
    cases hr
  · rw [hcallers] at hu
    by_cases hut : u = t
    · subst hut
      rw [Function.update_self] at hu
      cases hu
    · rw [Function.update_of_ne hut] at hu
      have hnone : (s.callers u).starting = false := hstart.callers u hut
      rw [CallPc.starting_of_unspawned hu] at hnone
      cases hnone

/-- A context without work has no listener left. -/
theorem gone_of_outOfWork (hn : NumberInv s) (hout : s.outOfWork = true) : s.Gone := by
  intro l
  rw [Bool.eq_false_iff]
  intro hl
  obtain ⟨hpool, hlive⟩ := listens_eq_true.mp hl
  have hlt : l < s.listenerCount := by
    by_contra hge
    rw [hn.listeners l (by omega)] at hlive
    cases hlive
  have hall := List.all_eq_true.mp (Bool.and_eq_true_iff.mp hout).1 l (List.mem_range.mpr hlt)
  have hwork : (s.listeners l).hasWork = true := by
    have hborn : (s.listeners l).pc ≠ .unborn := fun hno => by
      rw [hno] at hlive
      cases hlive
    have hleft : (s.listeners l).pc ≠ .finished := fun hno => by
      rw [hno] at hlive
      cases hlive
    simp [Listener.hasWork, hborn, hleft]
  rw [hwork, hpool] at hall
  simp at hall

theorem step (h : GoneInv s) (hcount : CountInv s) (hphase : s.control.Phase) (hp : PoolInv s)
    (hn : NumberInv s) (hm : Move o s a es s') : GoneInv s' := by
  have hlistens {l : ℕ} (hexec : s.executes (s.listeners l).pool = true)
      (hpc : (s.listeners l).pc.live = true) (hgone : s.Gone) : s'.Gone := by
    rw [hgone.not_live hexec] at hpc
    cases hpc
  have hdead {k : ℕ} {pc : StopperPc} (hpc : s.stoppers k = pc) (hlive : pc.live = true)
      (hdead : s.contextRunning = false) : s.Gone :=
    h.context (hphase.stopped_of_dead (by rw [hpc, hlive]) hdead)
  have hpast {k : ℕ} {pc : StopperPc} (hpc : s.stoppers k = pc) (hpast : pc.past = true) : s.Gone :=
    h.past k (by rw [hpc, hpast])
  cases hm with
  | startSpawns t hpc => exact spawns hphase hpc rfl rfl rfl rfl
  | startCreates t hpc hover =>
    exact h.caller (t := t) (fun _ => .creates hp rfl rfl) rfl nofun rfl id fun _ =>
      h.starts t (by rw [hpc]; rfl)
  | startTakes t eps hpc hrun =>
    exact h.caller (t := t) (·.keep rfl rfl) rfl id rfl (fun _ => hrun) fun _ => h.off hrun
  | callStart n eps hpc => exact h.caller (t := .user n) (·.keep rfl rfl) rfl id rfl id nofun
  | callStop n hpc => exact h.caller (t := .user n) (·.keep rfl rfl) rfl id rfl id nofun
  | startBusy t eps hpc hrun | startFails t ch hpc ha hch | startInvokes t hpc | startInvoked t hpc
  | startWorks t hpc | startReturns t hpc | stopIgnored t hpc hfree hstop
  | stopEnds t k hpc hjoin =>
    exact h.caller (t := t) (·.keep rfl rfl) rfl id rfl id nofun
  | startLocks t eps hpc hfree | startResets t eps hpc =>
    exact h.caller (t := t) (·.keep rfl rfl) rfl id rfl id fun _ => h.starts t (by rw [hpc]; rfl)
  | startBinds t eps hpc hlen =>
    exact h.caller (t := t) (·.closes rfl (fun _ => pc_ite rfl) fun _ => pool_ite rfl) rfl id rfl id
      fun _ => h.starts t (by rw [hpc]; rfl)
  | startIds t ch eps hpc ha hch =>
    exact h.caller (t := t) (·.keep rfl rfl) rfl id rfl id fun _ => h.starts t (by rw [hpc]; rfl)
  | startClears t hpc =>
    exact h.caller (t := t) (·.keep rfl rfl) rfl id rfl id fun _ => h.starts t (by rw [hpc]; rfl)
  | destroys t hpc hcontext hactive hlive =>
    rw [hphase.cycle_over hpc] at hactive
    cases hactive
  | workersFail t hpc ha => exact h.caller (t := t) (·.keep rfl rfl) rfl id rfl id nofun
  | monitorFails t hpc ha => exact h.caller (t := t) (·.keep rfl rfl) rfl id rfl id nofun
  | runStops t hpc => exact (hphase.at hpc rfl).2.elim
  | runJoins t hpc hidle => exact (hphase.at hpc rfl).2.elim
  | catchResets t hpc hover => exact (hphase.at hpc rfl).2.elim
  | catchStores t hpc => exact (hphase.at hpc rfl).2.elim
  | stopBegins t hpc hfree hstop =>
    have hcaller : GoneInv (s.setCaller t (.stopJoin s.stopperCount)) :=
      h.caller (t := t) (·.keep rfl rfl) rfl id rfl id nofun
    exact hcaller.stopper (k := s.stopperCount) (·.keep rfl rfl) rfl rfl h.context h.off nofun
  | stopperPosts k hpc hlive | stopperCloses k hpc hdead =>
    exact h.stopper (k := k) (·.closes rfl (fun _ => pc_ite rfl) fun _ => pool_ite rfl) rfl rfl
      h.context h.off nofun
  | stopperAwaits k hpc hlive =>
    exact h.stopper (k := k) (·.keep rfl rfl) rfl rfl h.context h.off nofun
  | stopperSkips k hpc hno =>
    exact h.stopper (k := k) (·.keep rfl rfl) rfl rfl h.context h.off fun _ => hdead hpc rfl hno
  | listenersGone k hpc hnone =>
    exact h.stopper (k := k) (·.keep rfl rfl) rfl rfl h.context h.off fun _ =>
      (hcount.zero_iff hn).mp hnone
  | stopperCopies k hpc | stopperStops k i todo hpc | stopperStopped k i todo hpc hret
  | stopperWaits k hpc | sessionsGone k hpc hnone | stopperNoContext k hpc hcontext
  | contextGone k hpc hover =>
    exact h.stopper (k := k) (·.keep rfl rfl) rfl rfl h.context h.off fun _ => hpast hpc rfl
  | stopperStopsContext k hpc hcontext =>
    exact h.stopper (k := k) (·.keep rfl rfl) rfl rfl (fun _ => hpast hpc rfl) h.off fun _ =>
      hpast hpc rfl
  | stopperEnds k hpc =>
    exact h.stopper (k := k) (·.keep rfl rfl) rfl rfl h.context (fun _ => hpast hpc rfl) nofun
  | listenerAdvance l pc hexec hpc => exact h.quiet (hlistens hexec hpc.live.1) rfl rfl rfl rfl
  | listenerReports l ec hexec hpc | listenerAccepts l hexec hpc | listenerDrops l hexec hpc
  | listenerCreates l hexec hpc | listenerStarted l i hexec hpc | listenerRecords l ec hexec hpc
  | listenerStopped l hexec hpc | listenerEnds l hexec hpc =>
    exact h.quiet (hlistens hexec (by rw [hpc]; rfl)) rfl rfl rfl rfl
  | listenerStops l hexec hpc =>
    exact h.caller (t := .listener l) (hlistens hexec (by rw [hpc]; rfl)) rfl id rfl id nofun
  | listenerResumes l L hexec hres =>
    exact h.quiet (hlistens (executes_of_takesHandlers hexec) hres.live.1) rfl rfl rfl rfl
  | acceptDone l r hexec hpc | timerDone l hexec hpc =>
    exact h.quiet (hlistens (executes_of_takesHandlers hexec) (by rw [hpc]; rfl)) rfl rfl rfl rfl
  | runClose l hexec hposted hpc =>
    exact h.quiet (·.listener (l := l) rfl rfl (closeAcceptor_live _).2 (closeAcceptor_live _).1) rfl
      rfl rfl rfl
  | drain ha hcontext hworkers hlive hout =>
    exact ⟨fun _ => (gone_of_outOfWork hn hout).keep rfl rfl, fun k hk => (h.past k hk).keep rfl rfl,
      fun hr => (h.off hr).keep rfl rfl, fun t ht => (h.starts t ht).keep rfl rfl⟩
  | _ => exact h.quiet (·.keep rfl rfl) rfl rfl rfl rfl

end GoneInv

namespace CountInv

theorem quiet (h : CountInv s) (hlisteners : s'.listeners = s.listeners) (hpool : s'.pool = s.pool)
    (hcount : s'.listenerCount = s.listenerCount) (htotal : s'.acceptorsRunning = s.acceptorsRunning)
    (hacceptors : s'.acceptors.Nodup) : CountInv s' := by
  refine ⟨?_, hacceptors⟩
  rw [htotal, hcount, h.total]
  apply count_congr_below
  intro l _
  rw [Server.listens, Server.listens, hlisteners, hpool]

/-- A listener moves on and stays. -/
theorem listener (h : CountInv s) {l : ℕ} {L : Listener}
    (hlisteners : s'.listeners = Function.update s.listeners l L) (hpool : s'.pool = s.pool)
    (hcount : s'.listenerCount = s.listenerCount) (htotal : s'.acceptorsRunning = s.acceptorsRunning)
    (hacceptors : s'.acceptors = s.acceptors) (hL : L.pool = (s.listeners l).pool)
    (hlive : L.pc.live = (s.listeners l).pc.live) : CountInv s' := by
  refine ⟨?_, hacceptors ▸ h.acceptors⟩
  rw [htotal, hcount, h.total]
  apply count_congr_below
  intro j _
  rw [Server.listens, Server.listens, hlisteners, hpool]
  by_cases hjl : j = l
  · rw [hjl, Function.update_self, hL, hlive]
  · rw [Function.update_of_ne hjl]

/-- The acceptors are closed, or told to. -/
theorem closes (h : CountInv s) (hpool : s'.pool = s.pool)
    (hcount : s'.listenerCount = s.listenerCount) (htotal : s'.acceptorsRunning = s.acceptorsRunning)
    (hacceptors : s'.acceptors = s.acceptors)
    (hpcs : ∀ l, (s'.listeners l).pc = (s.listeners l).pc)
    (hpools : ∀ l, (s'.listeners l).pool = (s.listeners l).pool) : CountInv s' := by
  refine ⟨?_, hacceptors ▸ h.acceptors⟩
  rw [htotal, hcount, h.total]
  apply count_congr_below
  intro l _
  rw [Server.listens, Server.listens, hpcs, hpools, hpool]

/-- Without a listener the count is zero. -/
theorem none (hgone : s.Gone) (htotal : s.acceptorsRunning = 0) (hacceptors : s.acceptors.Nodup) :
    CountInv s := by
  refine ⟨?_, hacceptors⟩
  rw [htotal, eq_comm, Nat.count_iff_forall_not]
  intro l _
  exact Bool.eq_false_iff.mp (hgone l)

/-- A listener leaves. -/
theorem leaves (h : CountInv s) (hn : NumberInv s) {l : ℕ}
    (hexec : s.executes (s.listeners l).pool = true) (hpc : (s.listeners l).pc = .decrement)
    (hlisteners : s'.listeners =
      Function.update s.listeners l { s.listeners l with pc := .finished })
    (hpool : s'.pool = s.pool) (hcount : s'.listenerCount = s.listenerCount)
    (htotal : s'.acceptorsRunning = fetchSub s.acceptorsRunning)
    (hacceptors : s'.acceptors = s.acceptors) : CountInv s' := by
  refine ⟨?_, hacceptors ▸ h.acceptors⟩
  have hlt : l < s.listenerCount := by
    by_contra hge
    have hborn := hn.listeners l (by omega)
    rw [hpc] at hborn
    cases hborn
  have hgain : Nat.count (fun j => s.listens j = true) s.listenerCount =
      Nat.count (fun j => s'.listens j = true) s.listenerCount + 1 := by
    refine count_gain hlt ?_ ?_ fun j hj => ?_
    · rw [Server.listens, hlisteners, Function.update_self]
      simp [ListenerPc.live]
    · exact listens_eq_true.mpr ⟨(pool_of_executes hexec).2.2, by rw [hpc]; rfl⟩
    · rw [Server.listens, Server.listens, hlisteners, Function.update_of_ne hj, hpool]
  rw [htotal, hcount, h.total, hgain]
  rfl

/-- `start()` numbers listeners it has not spawned. -/
theorem binds (h : CountInv s) (hn : NumberInv s) {n : ℕ} (hpool : s'.pool = s.pool)
    (hcount : s'.listenerCount = s.listenerCount + n)
    (htotal : s'.acceptorsRunning = s.acceptorsRunning) (hacceptors : s'.acceptors.Nodup)
    (hpcs : ∀ l, (s'.listeners l).pc = (s.listeners l).pc)
    (hpools : ∀ l, (s'.listeners l).pool = (s.listeners l).pool) : CountInv s' := by
  have hlistens : ∀ l, s'.listens l = s.listens l := fun l => by
    rw [Server.listens, Server.listens, hpcs, hpools, hpool]
  refine ⟨?_, hacceptors⟩
  simp only [hlistens]
  rw [htotal, hcount, h.total, count_extend]
  intro l hl
  rw [Server.listens, hn.listeners l hl]
  simp [ListenerPc.live]

/-- `start()` spawns one listener for each acceptor. -/
theorem spawns (h : CountInv s) (hgone : s.Gone) (hn : NumberInv s)
    (hlisteners : ∀ l, s'.listeners l = if l ∈ s.acceptors
      then { s.listeners l with pc := .queued, pool := s.pool } else s.listeners l)
    (hpool : s'.pool = s.pool) (hcount : s'.listenerCount = s.listenerCount)
    (htotal : s'.acceptorsRunning = s.acceptors.length) (hacceptors : s'.acceptors = s.acceptors) :
    CountInv s' := by
  refine ⟨?_, hacceptors ▸ h.acceptors⟩
  rw [htotal, hcount, eq_comm]
  refine count_eq_length h.acceptors hn.acceptors fun l _ => ?_
  rw [listens_eq_true, hlisteners, hpool]
  by_cases hl : l ∈ s.acceptors
  · rw [if_pos hl]
    exact ⟨fun _ => hl, fun _ => ⟨rfl, rfl⟩⟩
  · rw [if_neg hl, ← listens_eq_true, hgone l]
    exact ⟨nofun, fun hmem => absurd hmem hl⟩

theorem step (h : CountInv s) (hgone : GoneInv s) (hphase : s.control.Phase) (hp : PoolInv s)
    (hn : NumberInv s) (hm : Move o s a es s') : CountInv s' := by
  cases hm with
  | startClears t hpc => exact h.quiet rfl rfl rfl rfl List.nodup_nil
  | startCreates t hpc hover =>
    -- the listeners of the pool before have all left
    have hnone := (h.zero_iff hn).mpr (hgone.starts t (by rw [hpc]; rfl))
    exact .none (.creates hp rfl rfl) hnone h.acceptors
  | startBinds t eps hpc hlen =>
    exact h.binds hn rfl rfl rfl List.nodup_range' (fun _ => pc_ite rfl) fun _ => pool_ite rfl
  | startSpawns t hpc =>
    exact h.spawns (hgone.starts t (by rw [hpc]; rfl)) hn (fun _ => rfl) rfl rfl rfl rfl
  | catchResets t hpc hover => exact (hphase.at hpc rfl).2.elim
  | catchStores t hpc => exact (hphase.at hpc rfl).2.elim
  | stopperPosts k hpc hlive | stopperCloses k hpc hdead =>
    exact h.closes rfl rfl rfl rfl (fun _ => pc_ite rfl) fun _ => pool_ite rfl
  | stopperSkips k hpc hdead =>
    have hstopped := hphase.stopped_of_dead (k := k) (by rw [hpc]; rfl) hdead
    exact .none ((hgone.context hstopped).keep rfl rfl) rfl h.acceptors
  | listenerAdvance l pc hexec hpc =>
    exact h.listener (l := l) rfl rfl rfl rfl rfl rfl (hpc.live.2.trans hpc.live.1.symm)
  | listenerReports l ec hexec hpc | listenerAccepts l hexec hpc | listenerDrops l hexec hpc
  | listenerCreates l hexec hpc | listenerStarted l i hexec hpc | listenerRecords l ec hexec hpc
  | listenerStops l hexec hpc | listenerStopped l hexec hpc | acceptDone l r hexec hpc
  | timerDone l hexec hpc =>
    exact h.listener (l := l) rfl rfl rfl rfl rfl rfl (by rw [hpc]; rfl)
  | listenerEnds l hexec hpc => exact h.leaves hn hexec hpc rfl rfl rfl rfl rfl
  | listenerResumes l L hexec hres =>
    exact h.listener (l := l) rfl rfl rfl rfl rfl hres.live.2.2
      (hres.live.2.1.trans hres.live.1.symm)
  | runClose l hexec hposted hpc =>
    exact h.listener (l := l) rfl rfl rfl rfl rfl (closeAcceptor_live _).2 (closeAcceptor_live _).1
  | _ => exact h.quiet rfl rfl rfl rfl h.acceptors

end CountInv

namespace CurrentInv

theorem quiet (h : CurrentInv s) (hpool : s'.pool = s.pool)
    (hpcs : ∀ l, (s'.listeners l).pc = (s.listeners l).pc)
    (hpools : ∀ l, (s'.listeners l).pool = (s.listeners l).pool) : CurrentInv s' := by
  intro l hl
  rw [hpcs] at hl
  rw [hpools, hpool]
  exact h l hl

/-- A listener that a worker can execute moves on. -/
theorem listener (h : CurrentInv s) {l : ℕ} {L : Listener}
    (hexec : s.executes (s.listeners l).pool = true) (hpool : s'.pool = s.pool)
    (hlisteners : s'.listeners = Function.update s.listeners l L)
    (hL : L.pool = (s.listeners l).pool) : CurrentInv s' := by
  intro j hj
  rw [hlisteners] at hj ⊢
  rw [hpool]
  by_cases hjl : j = l
  · rw [hjl, Function.update_self, hL]
    exact (pool_of_executes hexec).2.2
  · rw [Function.update_of_ne hjl] at hj ⊢
    exact h j hj

theorem step (h : CurrentInv s) (hgone : GoneInv s) (hm : Move o s a es s') : CurrentInv s' := by
  cases hm with
  | startCreates t hpc hover =>
    -- nobody is left of the pool before
    intro l hl
    have hl' : (s.listeners l).pc.live = true := hl
    have hleft := hgone.starts t (by rw [hpc]; rfl) l
    rw [listens_eq_true.mpr ⟨h l hl', hl'⟩] at hleft
    cases hleft
  | startSpawns t hpc =>
    intro l hl
    by_cases hmem : l ∈ s.acceptors
    · simp [Server.setCaller, hmem]
    · simp only [Server.setCaller, if_neg hmem] at hl ⊢
      exact h l hl
  | startBinds t eps hpc hlen | stopperPosts k hpc hlive | stopperCloses k hpc hdead =>
    exact h.quiet rfl (fun _ => pc_ite rfl) fun _ => pool_ite rfl
  | listenerAdvance l pc hexec hpc => exact h.listener hexec rfl rfl rfl
  | listenerReports l ec hexec hpc | listenerAccepts l hexec hpc | listenerDrops l hexec hpc
  | listenerCreates l hexec hpc | listenerStarted l i hexec hpc | listenerRecords l ec hexec hpc
  | listenerStops l hexec hpc | listenerStopped l hexec hpc | listenerEnds l hexec hpc =>
    exact h.listener hexec rfl rfl rfl
  | acceptDone l r hexec hpc => exact h.listener (executes_of_takesHandlers hexec) rfl rfl rfl
  | timerDone l hexec hpc => exact h.listener (executes_of_takesHandlers hexec) rfl rfl rfl
  | listenerResumes l L hexec hres =>
    exact h.listener (executes_of_takesHandlers hexec) rfl rfl hres.live.2.2
  | runClose l hexec hposted hpc =>
    exact h.listener (executes_of_takesHandlers hexec) rfl rfl (closeAcceptor_live _).2
  | _ => exact h.quiet rfl (fun _ => rfl) fun _ => rfl

end CurrentInv

end Step

/-! ## Runs -/

section Runs

variable {C : Server → Action → Prop} {o : TcpSession.Options} {tr : List Event} {s : Server}

theorem goneInv_countInv (hC : ∀ s a, C s a → startsSucceed s a) (h : (system o).Run C tr s) :
    GoneInv s ∧ CountInv s := by
  refine invariant_of_moves (I := fun _ s => GoneInv s ∧ CountInv s) ?_ ?_ h
  · have hgone : Server.Gone {} := fun l => rfl
    exact ⟨⟨fun _ => hgone, fun _ _ => hgone, fun _ => hgone, fun _ _ => hgone⟩, rfl, List.nodup_nil⟩
  · rintro tr s a es s' hrun hCa hm ⟨hgone, hcount⟩
    have hphase := phase hC hrun
    exact ⟨hgone.step hcount hphase (poolInv hrun) (numberInv hrun) hm,
      hcount.step hgone hphase (poolInv hrun) (numberInv hrun) hm⟩

theorem currentInv (hC : ∀ s a, C s a → startsSucceed s a) (h : (system o).Run C tr s) :
    CurrentInv s := by
  refine invariant_of_moves (I := fun _ s => CurrentInv s) (fun _ => nofun) ?_ h
  intro tr s a es s' hrun _ hm ih
  exact ih.step (goneInv_countInv hC hrun).1 hm

end Runs

end TcpServer
