/-
# When the acceptors of a `tcp_server` are closed

A stop thread that closes the acceptors of the run it was created for finds
`m_stop_in_operation` set, and nothing clears it before the next run (`ClosingInv`).  So no
listener begins to accept on an acceptor that has been closed, or that the stop thread is
about to close.  The stop thread of a `start()` that has failed can come into a later run,
whose `start()` has cleared the flag; `closesInTime` says that it does not.
-/
import Libsg.TcpServerFailedStart
import Libsg.TcpServerShutdown

open TransitionSystem

namespace TcpServer

/-! ## Closing in time -/

/-- A stop thread closes acceptors while `m_stop_in_operation` is clear, or `start()` clears it
while workers of an earlier pool are running. -/
def Server.closesLate (s : Server) : Action → Bool
  | .stopper k =>
    decide (s.stoppers k = .closeAcceptors) && !s.acceptors.isEmpty && !s.stopInOperation
  | .caller t _ => (match s.callers t with
    | .startReset _ => true
    | _ => false) && s.workers
  | _ => false

def closesInTime (s : Server) (a : Action) : Prop := s.closesLate a = false

instance (s : Server) (a : Action) : Decidable (closesInTime s a) :=
  inferInstanceAs (Decidable (_ = _))

/-- Closed, or about to be. -/
def Listener.closing (L : Listener) : Bool := L.closePosted || !L.acceptorOpen

/-- `start()` has cleared `m_stop_in_operation`, and has no workers yet. -/
def CallPc.early : CallPc → Bool
  | .startId _ | .startClear | .startContext => true
  | pc => pc.creating

theorem CallPc.cleared_of_early {pc : CallPc} (h : pc.early = true) : pc.cleared = true := by
  cases pc <;> first | rfl | cases h

theorem CallPc.early_of_creating {pc : CallPc} (h : pc.creating = true) : pc.early = true := by
  cases pc <;> first | rfl | cases h

/-- Nothing runs before `start()` has created its workers. -/
def EarlyInv (s : Server) : Prop := ∀ t, (s.callers t).early = true → s.workers = false

/-- A new run begins with open acceptors. -/
structure SpawnInv (s : Server) : Prop where
  unborn : ∀ l, s.listenerCount ≤ l → (s.listeners l).closePosted = false
  bound : ∀ t, s.callers t = .startSpawn → ∀ l ∈ s.acceptors, (s.listeners l).closing = false
  spawned : ∀ t, (s.callers t).creating = true → ∀ l, s.listens l = true →
    (s.listeners l).pc = .queued ∧ (s.listeners l).closing = false

/-- Workers run within a cycle of the pool, and have been joined once its monitor goes on. -/
structure CycleInv (s : Server) : Prop where
  active : s.workers = true → s.cycleActive = true
  joined : s.monitor.joined = true → s.workers = false

/-- While an acceptor is closing whose listener can go on, `m_stop_in_operation` is set; and
whoever waits in `async_accept` of a context that goes on has an open acceptor. -/
structure ClosingInv (s : Server) : Prop where
  closing : ∀ l, s.executes (s.listeners l).pool = true → (s.listeners l).pc.live = true →
    (s.listeners l).closing = true → s.stopInOperation = true
  accepting : ∀ l, s.takesHandlers (s.listeners l).pool = true → (s.listeners l).pc = .accepting →
    (s.listeners l).acceptorOpen = true

section Step

variable {o : TcpSession.Options} {s s' : Server} {a : Action} {es : List Event}

/-- A `start()` that clears `m_stop_in_operation` in time finds no workers. -/
theorem workers_of_reset {t : Tid} {ch : StartChoice} {eps : List EndPoint}
    (hC : closesInTime s (.caller t ch)) (hpc : s.callers t = .startReset eps) :
    s.workers = false := by
  have hlate : s.closesLate (.caller t ch) = false := hC
  simpa [Server.closesLate, hpc] using hlate

namespace EarlyInv

theorem quiet (h : EarlyInv s) (hcallers : s'.callers = s.callers)
    (hworkers : s'.workers = true → s.workers = true) : EarlyInv s' := by
  intro t ht
  rw [hcallers] at ht
  have hnone := h t ht
  rw [Bool.eq_false_iff] at hnone ⊢
  exact fun hw => hnone (hworkers hw)

/-- A call moves on. -/
theorem caller (h : EarlyInv s) {t : Tid} {pc : CallPc}
    (hcallers : s'.callers = Function.update s.callers t pc) (hworkers : s'.workers = s.workers)
    (hpc : pc.early = true → (s.callers t).early = true ∨ s.workers = false) : EarlyInv s' := by
  intro u hu
  rw [hcallers] at hu
  rw [hworkers]
  by_cases hut : u = t
  · subst hut
    rw [Function.update_self] at hu
    rcases hpc hu with hearly | hnone
    · exact h u hearly
    · exact hnone
  · rw [Function.update_of_ne hut] at hu
    exact h u hu

theorem step (h : EarlyInv s) (hl : LockInv s) (hC : closesInTime s a) (hm : Move o s a es s') :
    EarlyInv s' := by
  cases hm with
  | callStart n eps hpc | callStop n hpc => exact h.caller (t := .user n) rfl rfl nofun
  | startResets t eps hpc ha =>
    obtain ⟨ch, rfl⟩ := ha
    exact h.caller (t := t) rfl rfl fun _ => .inr (workers_of_reset hC hpc)
  | startIds t ch eps hpc ha hch =>
    exact h.caller (t := t) rfl rfl fun _ => .inl (by rw [hpc]; rfl)
  | startCreates t hpc hover => exact fun _ _ => rfl
  | startClears t hpc | startBinds t eps hpc hlen | startSpawns t hpc | startInvokes t hpc
  | startInvoked t hpc =>
    exact h.caller (t := t) rfl rfl fun _ => .inl (by rw [hpc]; rfl)
  | startWorks t hpc =>
    -- nobody else is inside `start()`
    intro u hu
    have hu' : (Function.update s.callers t .startMonitor u).early = true := hu
    by_cases hut : u = t
    · rw [hut, Function.update_self] at hu'
      cases hu'
    · rw [Function.update_of_ne hut] at hu'
      have hlocked := CallPc.locked_of_cleared (CallPc.cleared_of_early hu')
      exact absurd (hl.unique hlocked (by rw [hpc]; rfl)) hut
  | runJoins t hpc hidle => exact fun _ _ => rfl
  | startBusy t eps hpc hrun | startTakes t eps hpc hrun | startLocks t eps hpc hfree
  | startReturns t hpc | runStops t hpc | catchResets t hpc hover | catchStores t hpc
  | stopIgnored t hpc hfree hstop | stopBegins t hpc hfree hstop | stopEnds t k hpc hjoin =>
    exact h.caller (t := t) rfl rfl nofun
  | startFails t ch hpc ha hch | workersFail t hpc ha | monitorFails t hpc ha =>
    exact h.caller (t := t) rfl rfl nofun
  | listenerStops l hlive hpc => exact h.caller (t := .listener l) rfl rfl nofun
  | monitorJoins hpc hstop hidle => exact fun _ _ => rfl
  | _ => exact h.quiet rfl id

end EarlyInv

/-- A stop thread that closes acceptors in time does so while no `start()` is between its reset and
its return. -/
theorem acceptors_of_creating (hcleared : ClearedInv s) {k : ℕ} (hC : closesInTime s (.stopper k))
    (hpc : s.stoppers k = .closeAcceptors) {t : Tid} (ht : (s.callers t).creating = true) :
    s.acceptors = [] := by
  have hstop := hcleared t (CallPc.cleared_of_early (CallPc.early_of_creating ht))
  have hlate : s.closesLate (.stopper k) = false := hC
  simpa [Server.closesLate, hpc, hstop] using hlate

namespace SpawnInv

theorem start : SpawnInv {} where
  unborn _ _ := rfl
  bound _ h := by cases h
  spawned _ h := by cases h

/-- A call moves on. -/
theorem caller (h : SpawnInv s) {t : Tid} {pc : CallPc} (hlisteners : s'.listeners = s.listeners)
    (hcount : s'.listenerCount = s.listenerCount) (hpool : s'.pool = s.pool)
    (hacceptors : ∀ l ∈ s'.acceptors, l ∈ s.acceptors)
    (hcallers : s'.callers = Function.update s.callers t pc) (hspawn : pc ≠ .startSpawn)
    (hpc : pc.creating = true → (s.callers t).creating = true) : SpawnInv s' := by
  refine ⟨fun l hl => ?_, fun u hu l hl => ?_, fun u hu l hl => ?_⟩
  · rw [hlisteners]
    exact h.unborn l (hcount ▸ hl)
  · rw [hlisteners]
    rw [hcallers] at hu
    by_cases hut : u = t
    · rw [hut, Function.update_self] at hu
      exact absurd hu hspawn
    · rw [Function.update_of_ne hut] at hu
      exact h.bound u hu l (hacceptors l hl)
  · rw [Server.listens, hlisteners, hpool] at hl
    rw [hlisteners]
    rw [hcallers] at hu
    by_cases hut : u = t
    · subst hut
      rw [Function.update_self] at hu
      exact h.spawned u (hpc hu) l hl
    · rw [Function.update_of_ne hut] at hu
      exact h.spawned u hu l hl

theorem quiet (h : SpawnInv s) (hlisteners : s'.listeners = s.listeners)
    (hcount : s'.listenerCount = s.listenerCount) (hpool : s'.pool = s.pool)
    (hacceptors : s'.acceptors = s.acceptors) (hcallers : s'.callers = s.callers) :
    SpawnInv s' := by
  refine ⟨fun l hl => ?_, fun u hu l hl => ?_, fun u hu l hl => ?_⟩
  · rw [hlisteners]
    exact h.unborn l (hcount ▸ hl)
  · rw [hlisteners]
    exact h.bound u (hcallers ▸ hu) l (hacceptors ▸ hl)
  · rw [Server.listens, hlisteners, hpool] at hl
    rw [hlisteners]
    exact h.spawned u (hcallers ▸ hu) l hl

/-- A listener that a worker can execute moves on, so that no `start()` is under way. -/
theorem listener (h : SpawnInv s) (hearly : EarlyInv s) {l : ℕ} {L : Listener}
    (hexec : s.executes (s.listeners l).pool = true)
    (hlisteners : s'.listeners = Function.update s.listeners l L)
    (hposted : L.closePosted = true → (s.listeners l).closePosted = true)
    (hcount : s'.listenerCount = s.listenerCount)
    (hcallers : ∀ u, (s'.callers u).creating = true → (s.callers u).creating = true) :
    SpawnInv s' := by
  have hnone (u : Tid) : (s'.callers u).creating = false := by
    rw [Bool.eq_false_iff]
    intro hu
    have hidle := hearly u (CallPc.early_of_creating (hcallers u hu))
    rw [(pool_of_executes hexec).2.1] at hidle
    cases hidle
  refine ⟨fun j hj => ?_, fun u hu => ?_, fun u hu => ?_⟩
  · rw [hlisteners]
    rw [hcount] at hj
    by_cases hjl : j = l
    · subst hjl
      rw [Function.update_self, Bool.eq_false_iff]
      intro hL
      have hno := h.unborn j hj
      rw [hposted hL] at hno
      cases hno
    · rw [Function.update_of_ne hjl]
      exact h.unborn j hj
  · have hno := hnone u
    rw [hu] at hno
    cases hno
  · rw [hnone u] at hu
    cases hu

/-- The acceptors of a run that is not new are closed, or told to. -/
theorem closes (h : SpawnInv s) (hn : NumberInv s)
    (hlisteners : ∀ l, l ∉ s.acceptors → s'.listeners l = s.listeners l)
    (hcount : s'.listenerCount = s.listenerCount) (hpool : s'.pool = s.pool)
    (hacceptors : s'.acceptors = s.acceptors) (hcallers : s'.callers = s.callers)
    (hempty : ∀ t, (s.callers t).creating = true → s.acceptors = []) : SpawnInv s' := by
  have hsame {t : Tid} (ht : (s.callers t).creating = true) (l : ℕ) :
      s'.listeners l = s.listeners l := by
    apply hlisteners
    rw [hempty t ht]
    exact List.not_mem_nil
  refine ⟨fun l hl => ?_, fun t ht l hl => ?_, fun t ht l hl => ?_⟩
  · rw [hcount] at hl
    rw [hlisteners l fun hmem => absurd (hn.acceptors l hmem) (Nat.not_lt.mpr hl)]
    exact h.unborn l hl
  · rw [hcallers] at ht
    rw [hacceptors, hempty t (by rw [ht]; rfl)] at hl
    cases hl
  · rw [hcallers] at ht
    rw [Server.listens, hsame ht, hpool] at hl
    rw [hsame ht]
    exact h.spawned t ht l hl

/-- `start()` binds new acceptors. -/
theorem binds (h : SpawnInv s) (hl : LockInv s) (hn : NumberInv s) {t : Tid} {n : ℕ}
    (hpc : s.callers t = .startBind)
    (hlisteners : ∀ l, s'.listeners l = if l ∈ List.range' s.listenerCount n
      then { s.listeners l with acceptorOpen := true } else s.listeners l)
    (hcount : s'.listenerCount = s.listenerCount + n) (hpool : s'.pool = s.pool)
    (hacceptors : s'.acceptors = List.range' s.listenerCount n)
    (hcallers : s'.callers = Function.update s.callers t .startSpawn) : SpawnInv s' := by
  have hown {u : Tid} (hu : (s'.callers u).creating = true) : u = t := by
    rw [hcallers] at hu
    by_contra hut
    rw [Function.update_of_ne hut] at hu
    exact hut (hl.unique (CallPc.locked_of_creating hu) (by rw [hpc]; rfl))
  refine ⟨fun l hnew => ?_, fun u hu l hmem => ?_, fun u hu l hlive => ?_⟩
  · rw [hcount] at hnew
    rw [hlisteners, if_neg fun hmem => ?_]
    · exact h.unborn l (by omega)
    · rw [List.mem_range'_1] at hmem
      omega
  · rw [hacceptors] at hmem
    rw [hlisteners, if_pos hmem]
    rw [List.mem_range'_1] at hmem
    show ((s.listeners l).closePosted || !true) = false
    rw [h.unborn l hmem.1]
    rfl
  · obtain rfl := hown hu
    have hold : s.listens l = true := by
      rw [Server.listens, hlisteners, hpool] at hlive
      rw [Server.listens, ← hlive]
      split <;> rfl
    rw [hlisteners, if_neg fun hmem => ?_]
    · exact h.spawned u (by rw [hpc]; rfl) l hold
    · -- the new listeners are not there yet
      have hborn := (listens_eq_true.mp hold).2
      rw [hn.listeners l (List.mem_range'_1.mp hmem).1] at hborn
      cases hborn

/-- `start()` spawns the listeners of its acceptors. -/
theorem spawns (h : SpawnInv s) (hl : LockInv s) {t : Tid} (hpc : s.callers t = .startSpawn)
    (hlisteners : ∀ l, s'.listeners l = if l ∈ s.acceptors
      then { s.listeners l with pc := .queued, pool := s.pool } else s.listeners l)
    (hcount : s'.listenerCount = s.listenerCount) (hpool : s'.pool = s.pool)
    (hcallers : s'.callers = Function.update s.callers t .invokeStartedListening) :
    SpawnInv s' := by
  have hown {u : Tid} (hu : (s'.callers u).creating = true) : u = t := by
    rw [hcallers] at hu
    by_contra hut
    rw [Function.update_of_ne hut] at hu
    exact hut (hl.unique (CallPc.locked_of_creating hu) (by rw [hpc]; rfl))
  refine ⟨fun l hnew => ?_, fun u hu l hmem => ?_, fun u hu l hlive => ?_⟩
  · rw [hlisteners]
    split <;> exact h.unborn l (hcount ▸ hnew)
  · obtain rfl := hown (u := u) (by rw [hu]; rfl)
    rw [hcallers, Function.update_self] at hu
    cases hu
  · rw [Server.listens, hlisteners, hpool] at hlive
    rw [hlisteners]
    by_cases hmem : l ∈ s.acceptors
    · rw [if_pos hmem]
      exact ⟨rfl, h.bound t hpc l hmem⟩
    · rw [if_neg hmem] at hlive ⊢
      exact h.spawned t (by rw [hpc]; rfl) l hlive

theorem step (h : SpawnInv s) (hearly : EarlyInv s) (hcleared : ClearedInv s) (hl : LockInv s)
    (hn : NumberInv s) (hp : PoolInv s) (hC : closesInTime s a) (hm : Move o s a es s') :
    SpawnInv s' := by
  have hlistener {l : ℕ} {L : Listener} (hexec : s.executes (s.listeners l).pool = true)
      (hlisteners : s'.listeners = Function.update s.listeners l L)
      (hposted : L.closePosted = true → (s.listeners l).closePosted = true)
      (hcount : s'.listenerCount = s.listenerCount) (hcallers : s'.callers = s.callers) :
      SpawnInv s' :=
    h.listener hearly hexec hlisteners hposted hcount fun u hu => hcallers ▸ hu
  cases hm with
  | callStart n eps hpc | callStop n hpc =>
    exact h.caller (t := .user n) rfl rfl rfl (fun _ => id) rfl nofun nofun
  | startClears t hpc | catchResets t hpc hover =>
    exact h.caller (t := t) rfl rfl rfl (fun _ => nofun) rfl nofun nofun
  | startCreates t hpc hover =>
    have hgone : Server.Gone ({ s with
        hasContext := true, pool := s.pool + 1, contextStopped := false, workers := false,
        monitor := .unborn }.setCaller t .startBind) := .creates hp rfl rfl
    refine ⟨h.unborn, fun u hu => ?_, fun u hu l hlive => ?_⟩
    · have hu' : Function.update s.callers t .startBind u = .startSpawn := hu
      by_cases hut : u = t
      · rw [hut, Function.update_self] at hu'
        cases hu'
      · rw [Function.update_of_ne hut] at hu'
        exact h.bound u hu'
    · rw [hgone l] at hlive
      cases hlive
  | startBinds t eps hpc hlen => exact h.binds hl hn hpc (fun _ => rfl) rfl rfl rfl rfl
  | startSpawns t hpc => exact h.spawns hl hpc (fun _ => rfl) rfl rfl rfl
  | startInvokes t hpc | startInvoked t hpc =>
    exact h.caller (t := t) rfl rfl rfl (fun _ => id) rfl nofun fun _ => by rw [hpc]; rfl
  | startBusy t eps hpc hrun | startTakes t eps hpc hrun | startLocks t eps hpc hfree
  | startResets t eps hpc ha | startWorks t hpc | startReturns t hpc | runStops t hpc
  | runJoins t hpc hidle | catchStores t hpc | stopIgnored t hpc hfree hstop
  | stopBegins t hpc hfree hstop | stopEnds t k hpc hjoin =>
    exact h.caller (t := t) rfl rfl rfl (fun _ => id) rfl nofun nofun
  | startIds t ch eps hpc ha hch | startFails t ch hpc ha hch | workersFail t hpc ha
  | monitorFails t hpc ha =>
    exact h.caller (t := t) rfl rfl rfl (fun _ => id) rfl nofun nofun
  | stopperPosts k hpc hlive ha | stopperCloses k hpc hdead ha =>
    subst ha
    exact h.closes hn (fun l hl => if_neg hl) rfl rfl rfl rfl fun t ht =>
      acceptors_of_creating hcleared hC hpc ht
  | listenerAdvance l pc hexec hpc => exact hlistener hexec rfl id rfl rfl
  | listenerReports l ec hexec hpc | listenerAccepts l hexec hpc | listenerDrops l hexec hpc
  | listenerCreates l hexec hpc | listenerStarted l i hexec hpc | listenerRecords l ec hexec hpc
  | listenerStopped l hexec hpc | listenerEnds l hexec hpc => exact hlistener hexec rfl id rfl rfl
  | listenerStops l hexec hpc =>
    refine h.listener hearly hexec rfl id rfl fun u hu => ?_
    have hu' : (Function.update s.callers (.listener l) .stopLock u).creating = true := hu
    by_cases hul : u = .listener l
    · rw [hul, Function.update_self] at hu'
      cases hu'
    · rwa [Function.update_of_ne hul] at hu'
  | listenerResumes l L hexec hres =>
    exact hlistener (executes_of_takesHandlers hexec) rfl (by cases hres <;> exact id) rfl rfl
  | acceptDone l r hexec hpc | timerDone l hexec hpc =>
    exact hlistener (executes_of_takesHandlers hexec) rfl id rfl rfl
  | runClose l hexec hposted hpc =>
    exact hlistener (executes_of_takesHandlers hexec) rfl nofun rfl rfl
  | _ => exact h.quiet rfl rfl rfl rfl rfl

end SpawnInv

namespace CycleInv

theorem quiet (h : CycleInv s) (hworkers : s'.workers = s.workers)
    (hcycle : s'.cycleActive = s.cycleActive) (hmonitor : s'.monitor = s.monitor) :
    CycleInv s' := by
  refine ⟨fun hw => ?_, fun hj => ?_⟩
  · rw [hcycle]
    exact h.active (hworkers ▸ hw)
  · rw [hworkers]
    exact h.joined (hmonitor ▸ hj)

theorem step {tr : List Event} (h : CycleInv s) (hmonitor : MonitorInv tr s)
    (hm : Move o s a es s') : CycleInv s' := by
  cases hm with
  | startCreates t hpc hover => exact ⟨nofun, nofun⟩
  | startWorks t hpc =>
    refine ⟨fun _ => rfl, fun hj => ?_⟩
    have hj' : s.monitor.joined = true := hj
    rw [hmonitor.fresh t (by rw [hpc]; rfl)] at hj'
    cases hj'
  | startReturns t hpc => exact ⟨h.active, nofun⟩
  | workersFail t hpc ha => exact ⟨fun _ => rfl, h.joined⟩
  | runJoins t hpc hidle => exact ⟨nofun, fun _ => rfl⟩
  | monitorJoins hpc hstop hidle => exact ⟨nofun, fun _ => rfl⟩
  | monitorInvokes hpc | monitorInvoked hpc =>
    exact ⟨h.active, fun _ => h.joined (by rw [hpc]; rfl)⟩
  | monitorPublishes hpc =>
    have hnone := h.joined (by rw [hpc]; rfl)
    refine ⟨fun hw => ?_, fun _ => hnone⟩
    have hw' : s.workers = true := hw
    rw [hnone] at hw'
    cases hw'
  | _ => exact h.quiet rfl rfl rfl

/-- A context that takes handlers is running. -/
theorem contextRunning (h : CycleInv s) {p : ℕ} (htakes : s.takesHandlers p = true) :
    s.contextRunning = true := by
  obtain ⟨hcontext, hworkers, -⟩ := pool_of_executes (executes_of_takesHandlers htakes)
  rw [Server.contextRunning, hcontext, h.active hworkers]
  exact (Bool.and_eq_true_iff.mp htakes).2

end CycleInv

theorem closing_eq_false {L : Listener} (h : L.closing = false) : L.acceptorOpen = true := by
  simpa using (Bool.or_eq_false_iff.mp h).2

/-- A listener only begins to accept while `m_stop_in_operation` is clear. -/
theorem ListenerPc.Advance.accepting {stop : Bool} {pc : ListenerPc}
    (h : pc.Advance stop .accepting) : stop = false := by
  cases h with
  | accept h => exact h

namespace ClosingInv

theorem start : ClosingInv {} where
  closing _ h := by cases h
  accepting _ h := by cases h

/-- No workers are left, or none are there yet. -/
theorem still (hworkers : s'.workers = false) : ClosingInv s' := by
  have hnone {p : ℕ} : s'.executes p = true → False := fun hexec => by
    rw [(pool_of_executes hexec).2.1] at hworkers
    cases hworkers
  exact ⟨fun l hexec => (hnone hexec).elim,
    fun l htakes => (hnone (executes_of_takesHandlers htakes)).elim⟩

theorem quiet (h : ClosingInv s) (hlisteners : s'.listeners = s.listeners)
    (hexec : ∀ p, s'.executes p = true → s.executes p = true)
    (htakes : ∀ p, s'.takesHandlers p = true → s.takesHandlers p = true)
    (hstop : s.stopInOperation = true → s'.stopInOperation = true) : ClosingInv s' := by
  refine ⟨fun l hl => ?_, fun l hl => ?_⟩
  · rw [hlisteners] at hl ⊢
    exact fun hlive hclosing => hstop (h.closing l (hexec _ hl) hlive hclosing)
  · rw [hlisteners] at hl ⊢
    exact h.accepting l (htakes _ hl)

/-- One listener changes. -/
theorem listener (h : ClosingInv s) {l : ℕ} {L : Listener}
    (hlisteners : s'.listeners = Function.update s.listeners l L)
    (hexec : ∀ p, s'.executes p = s.executes p)
    (htakes : ∀ p, s'.takesHandlers p = s.takesHandlers p)
    (hstop : s'.stopInOperation = s.stopInOperation)
    (hclosing : L.pc.live = true → L.closing = true → s.stopInOperation = true)
    (haccepting : L.pc = .accepting → L.acceptorOpen = true) : ClosingInv s' := by
  refine ⟨fun j hj => ?_, fun j hj => ?_⟩
  · rw [hexec] at hj
    rw [hlisteners] at hj ⊢
    rw [hstop]
    by_cases hjl : j = l
    · rw [hjl, Function.update_self]
      exact hclosing
    · rw [Function.update_of_ne hjl] at hj ⊢
      exact h.closing j hj
  · rw [htakes] at hj
    rw [hlisteners] at hj ⊢
    by_cases hjl : j = l
    · rw [hjl, Function.update_self]
      exact haccepting
    · rw [Function.update_of_ne hjl] at hj ⊢
      exact h.accepting j hj

/-- A stop thread that closes acceptors in time finds `m_stop_in_operation` set. -/
theorem closes (h : ClosingInv s) {k : ℕ} (hC : closesInTime s (.stopper k))
    (hpc : s.stoppers k = .closeAcceptors)
    (hlisteners : ∀ l, l ∉ s.acceptors → s'.listeners l = s.listeners l)
    (hpcs : ∀ l, (s'.listeners l).pc = (s.listeners l).pc)
    (hpools : ∀ l, (s'.listeners l).pool = (s.listeners l).pool)
    (hopen : ∀ l, s.takesHandlers (s.listeners l).pool = true →
      (s'.listeners l).acceptorOpen = (s.listeners l).acceptorOpen)
    (hexec : ∀ p, s'.executes p = s.executes p)
    (htakes : ∀ p, s'.takesHandlers p = s.takesHandlers p)
    (hstop : s'.stopInOperation = s.stopInOperation) : ClosingInv s' := by
  refine ⟨fun l hl hlive hclosing => ?_, fun l hl hacc => ?_⟩
  · rw [hexec, hpools] at hl
    rw [hpcs] at hlive
    rw [hstop]
    by_contra hclear
    have hempty : s.acceptors = [] := by
      have hlate : s.closesLate (.stopper k) = false := hC
      simpa [Server.closesLate, hpc, hclear] using hlate
    rw [hlisteners l (by rw [hempty]; exact List.not_mem_nil)] at hclosing
    exact hclear (h.closing l hl hlive hclosing)
  · rw [htakes, hpools] at hl
    rw [hpcs] at hacc
    rw [hopen l hl]
    exact h.accepting l hl hacc

/-- `start()` creates workers for listeners that are all at their beginning. -/
theorem works (hspawn : SpawnInv s) {t : Tid} (hpc : s.callers t = .startWorkers)
    (hlisteners : s'.listeners = s.listeners) (hpool : s'.pool = s.pool) : ClosingInv s' := by
  have hnew {l : ℕ} (hexec : s'.executes (s.listeners l).pool = true)
      (hlive : (s.listeners l).pc.live = true) :
      (s.listeners l).pc = .queued ∧ (s.listeners l).closing = false := by
    refine hspawn.spawned t (by rw [hpc]; rfl) l (listens_eq_true.mpr ⟨?_, hlive⟩)
    rw [(pool_of_executes hexec).2.2, hpool]
  refine ⟨fun l hl hlive hclosing => ?_, fun l hl hacc => ?_⟩
  · rw [hlisteners] at hl hlive hclosing
    rw [(hnew hl hlive).2] at hclosing
    cases hclosing
  · rw [hlisteners] at hl hacc
    have hqueued := (hnew (executes_of_takesHandlers hl) (by rw [hacc]; rfl)).1
    rw [hacc] at hqueued
    cases hqueued

theorem step (h : ClosingInv s) (hearly : EarlyInv s) (hspawn : SpawnInv s) (hcycle : CycleInv s)
    (hC : closesInTime s a) (hm : Move o s a es s') : ClosingInv s' := by
  have hcreating {t : Tid} (ht : (s.callers t).creating = true) : s.workers = false :=
    hearly t (CallPc.early_of_creating ht)
  have hmoves {l : ℕ} {L : Listener} (hexec : s.executes (s.listeners l).pool = true)
      (hlive : (s.listeners l).pc.live = true)
      (hlisteners : s'.listeners = Function.update s.listeners l L)
      (hexec' : ∀ p, s'.executes p = s.executes p)
      (htakes : ∀ p, s'.takesHandlers p = s.takesHandlers p)
      (hstop : s'.stopInOperation = s.stopInOperation)
      (hclosing : L.closing = (s.listeners l).closing) (hacc : L.pc ≠ .accepting) :
      ClosingInv s' :=
    h.listener hlisteners hexec' htakes hstop
      (fun _ hL => h.closing l hexec hlive (hclosing ▸ hL)) fun hL => absurd hL hacc
  cases hm with
  | startResets t eps hpc ha =>
    obtain ⟨ch, rfl⟩ := ha
    have hnone : s.workers = false := workers_of_reset hC hpc
    exact still hnone
  | startCreates t hpc hover => exact still rfl
  | startBinds t eps hpc hlen => exact still (hcreating (by rw [hpc]; rfl))
  | startSpawns t hpc => exact still (hcreating (by rw [hpc]; rfl))
  | startWorks t hpc => exact works hspawn hpc rfl rfl
  | runJoins t hpc hidle => exact still rfl
  | monitorJoins hpc hstop hidle => exact still rfl
  | catchResets t hpc hover =>
    have hnone {p : ℕ} : ¬({ s with acceptors := [], hasContext := false }.setCaller t
        .catchStore).executes p = true := fun hexec => by
      have hcontext := (pool_of_executes hexec).1
      cases hcontext
    exact h.quiet rfl (fun p hp => absurd hp hnone)
      (fun p hp => absurd (executes_of_takesHandlers hp) hnone) id
  | stopBegins t hpc hfree hstop => exact h.quiet rfl (fun _ => id) (fun _ => id) fun _ => rfl
  | destroys t hpc hcontext hactive hlive | runStops t hpc
  | drain ha hcontext hworkers hlive hout =>
    refine h.quiet rfl (fun _ => id) (fun p hp => ?_) id
    rw [Server.takesHandlers, show Server.contextStopped _ = true from rfl] at hp
    simp at hp
  | stopperStopsContext k hpc hcontext =>
    refine h.quiet rfl (fun _ => id) (fun p hp => ?_) id
    simp only [Server.takesHandlers, Server.setStopper, Bool.and_eq_true, Bool.not_eq_true',
      Bool.or_eq_false_iff] at hp ⊢
    exact ⟨hp.1, hp.2.1⟩
  | stopperPosts k hpc hlive ha =>
    subst ha
    refine h.closes hC hpc (fun l hl => if_neg hl) (fun _ => pc_ite rfl) (fun _ => pool_ite rfl)
      (fun l _ => ?_) (fun _ => rfl) (fun _ => rfl) rfl
    simp only [Server.setStopper]
    split <;> rfl
  | stopperCloses k hpc hdead ha =>
    subst ha
    refine h.closes hC hpc (fun l hl => if_neg hl) (fun _ => pc_ite rfl) (fun _ => pool_ite rfl)
      (fun l hl => ?_) (fun _ => rfl) (fun _ => rfl) rfl
    -- the context would be running
    rw [hcycle.contextRunning hl] at hdead
    cases hdead
  | listenerAdvance l pc hexec hpc =>
    refine h.listener rfl (fun _ => rfl) (fun _ => rfl) rfl
      (fun _ hL => h.closing l hexec hpc.live.1 hL) fun (hL : pc = .accepting) => ?_
    rw [hL] at hpc
    have hclear := hpc.accepting
    by_contra hshut
    rw [h.closing l hexec hpc.live.1 (by
      show ((s.listeners l).closePosted || !(s.listeners l).acceptorOpen) = true
      rw [Bool.eq_false_iff.mpr hshut, Bool.not_false, Bool.or_true])] at hclear
    cases hclear
  | listenerReports l ec hexec hpc | listenerAccepts l hexec hpc | listenerDrops l hexec hpc
  | listenerCreates l hexec hpc | listenerStarted l i hexec hpc | listenerRecords l ec hexec hpc
  | listenerStops l hexec hpc | listenerStopped l hexec hpc | listenerEnds l hexec hpc =>
    exact hmoves hexec (by rw [hpc]; rfl) rfl (fun _ => rfl) (fun _ => rfl) rfl rfl (by simp)
  | listenerResumes l L hexec hres =>
    refine hmoves (executes_of_takesHandlers hexec) hres.live.1 rfl (fun _ => rfl) (fun _ => rfl)
      rfl ?_ ?_
    · cases hres <;> rfl
    · cases hres <;> simp
  | acceptDone l r hexec hpc | timerDone l hexec hpc =>
    exact hmoves (executes_of_takesHandlers hexec) (by rw [hpc]; rfl) rfl (fun _ => rfl)
      (fun _ => rfl) rfl rfl (by simp)
  | runClose l hexec hposted hpc =>
    refine h.listener rfl (fun _ => rfl) (fun _ => rfl) rfl (fun hlive _ => ?_) fun hL => ?_
    · rw [(closeAcceptor_live _).1] at hlive
      exact h.closing l (executes_of_takesHandlers hexec) hlive
        (by rw [Listener.closing, hposted, Bool.true_or])
    · unfold closeAcceptor at hL
      cases hpc' : (s.listeners l).pc <;> rw [hpc'] at hL <;> cases hL
  | _ => exact h.quiet rfl (fun _ => id) (fun _ => id) id

end ClosingInv

end Step

/-! ## Runs that close in time -/

section Runs

variable {C : Server → Action → Prop} {o : TcpSession.Options} {tr : List Event} {s : Server}

theorem earlyInv (hC : ∀ s a, C s a → closesInTime s a) (h : (system o).Run C tr s) :
    EarlyInv s := by
  refine invariant_of_moves (I := fun _ s => EarlyInv s) (fun _ => nofun) ?_ h
  intro tr s a es s' hrun hCa hm ih
  exact ih.step (lockInv hrun) (hC s a hCa) hm

theorem cycleInv (h : (system o).Run C tr s) : CycleInv s := by
  refine invariant_of_moves (I := fun _ s => CycleInv s) ⟨nofun, nofun⟩ ?_ h
  intro tr s a es s' hrun _ hm ih
  exact ih.step (monitorInv hrun) hm

theorem spawnInv (hC : ∀ s a, C s a → closesInTime s a) (h : (system o).Run C tr s) :
    SpawnInv s := by
  refine invariant_of_moves (I := fun _ s => SpawnInv s) .start ?_ h
  intro tr s a es s' hrun hCa hm ih
  exact ih.step (earlyInv hC hrun) (clearedInv hrun) (lockInv hrun) (numberInv hrun) (poolInv hrun)
    (hC s a hCa) hm

theorem closingInv (hC : ∀ s a, C s a → closesInTime s a) (h : (system o).Run C tr s) :
    ClosingInv s := by
  refine invariant_of_moves (I := fun _ s => ClosingInv s) .start ?_ h
  intro tr s a es s' hrun hCa hm ih
  exact ih.step (earlyInv hC hrun) (spawnInv hC hrun) (cycleInv hrun) (hC s a hCa) hm

end Runs

end TcpServer
