/-
# How a `tcp_server` shuts down

A stop sequence begins when `stop_async()` finds `m_stop_in_operation` not set, which is
once for every `start()` (`SequenceInv`).  The monitor of a pool invokes
`OnStoppedListening` once (`MonitorInv`), when the context has stopped; `m_running` falls
after that.

A context stops when the stop thread tells it to, which has waited for the sessions, or
when it runs out of work.  No listener is left then; but a session can be, whose
`close_impl()` has not been posted yet by the thread that closes it
(`stopped_before_disconnected`).  Everything is in order unless that happens
(`shutdown_order`).
-/
import Libsg.TcpServerAccount

open TransitionSystem

namespace TcpServer

open TcpSession (Session WriterInv)

/-! ## A context without work -/

/-- The context runs out of work while the teardown of one of its sessions waits for a thread
outside the pool. -/
def Server.abandons (s : Server) : Action → Bool
  | .drain => (List.range s.connCount).any fun i =>
      decide ((s.conns i).pool = s.pool) && (s.conns i).onConn.counted &&
        decide ((s.conns i).session.impls 0 ≠ .finished) && (s.conns i).session.inHands
  | _ => false

/-- No `start()` fails, and the context abandons no session. -/
def abandonsNone (s : Server) (a : Action) : Prop := startsSucceed s a ∧ s.abandons a = false

instance (s : Server) (a : Action) : Decidable (abandonsNone s a) :=
  inferInstanceAs (Decidable (_ ∧ _))

/-- No session is active when the context has stopped. -/
def StoppedInv (s : Server) : Prop := s.contextStopped = true → s.activeSessions = 0

/-- Nothing of a session without work is queued or executing on its strand, or pending. -/
theorem Conn.idle_of_hasWork {c : Conn} (h : c.hasWork = false) (hw : WriterInv c.session) :
    c.session.Idle := by
  simp only [Conn.hasWork, Bool.or_eq_false_iff, Bool.not_eq_false', List.isEmpty_iff,
    decide_eq_false_iff_not, List.any_eq_false, List.mem_range] at h
  obtain ⟨⟨⟨hqueue, hstack⟩, hreading⟩, hwriting⟩ := h
  refine ⟨hqueue, hstack, hreading, fun w b hpc => ?_⟩
  by_cases hlt : w < c.session.spawned
  · have hno := hwriting w hlt
    rw [hpc] at hno
    exact hno rfl
  · rw [hw.unborn w (by omega)] at hpc
    cases hpc

/-- `start()` of a session that has been counted has ended, unless it is going on. -/
theorem ConnInv.ended_of_counted {c : Conn} (h : ConnInv c) (hcounted : c.onConn.counted = true)
    (hover : c.session.startPc.live = false) :
    c.session.startPc = .returned ∨ c.session.startPc = .threw := by
  have hcaught (hpc : caught c.session.startPc = true) : c.session.startPc = .threw := by
    cases hstart : c.session.startPc <;>
      first
        | rfl
        | rw [hstart] at hover; cases hover; done
        | rw [hstart] at hpc; cases hpc
  have hlive {pc : TcpSession.StartPc} (hpc : c.session.startPc = pc) (hlive : pc.live = true) :
      c.session.startPc = .returned ∨ c.session.startPc = .threw := by
    rw [hpc, hlive] at hover
    cases hover
  cases hpc : c.onConn with
  | idle | counting =>
    rw [hpc] at hcounted
    cases hcounted
  | returned =>
    rcases h.abreast.returned hpc with hin | hspawn | hreturned | hcatch
    · exact hlive hin rfl
    · exact hlive hspawn rfl
    · exact .inl hreturned
    · exact .inr (hcaught hcatch)
  | emplaceThrew =>
    rcases h.abreast.failed (.inl hpc) with hin | hcatch
    · exact hlive hin rfl
    · exact .inr (hcaught hcatch)
  | threw =>
    rcases h.abreast.failed (.inr hpc) with hin | hcatch
    · exact hlive hin rfl
    · exact .inr (hcaught hcatch)
  | _ => exact hlive (h.abreast.inside (by rw [hpc]; rfl)) rfl

section Drain

variable {C : Server → Action → Prop} {o : TcpSession.Options} {tr : List Event} {s : Server}

/-- **A context runs out of work when its sessions are over**, but for those it abandons. -/
theorem over_of_outOfWork (h : (system o).Run C tr s) (hgone : s.Gone) (hout : s.outOfWork = true)
    (hkeep : s.abandons .drain = false) {i : ℕ} (hi : i < s.connCount)
    (hpool : (s.conns i).pool = s.pool) (hcounted : (s.conns i).onConn.counted = true) :
    (s.conns i).onStop = .returned := by
  have hconn := (connsInv h).conn i hi
  have hrun := session_run h i
  have hover : (s.conns i).session.startPc.live = false := by
    rw [Bool.eq_false_iff]
    intro hlive
    obtain ⟨hstarting, hsame⟩ := startingInv h i hi hlive
    have hlistens := hgone (s.conns i).listener
    rw [listens_eq_true.mpr ⟨hsame.trans hpool, by rw [hstarting]; rfl⟩] at hlistens
    cases hlistens
  have hwork : (s.conns i).hasWork = false := by
    have hall := List.all_eq_true.mp (Bool.and_eq_true_iff.mp hout).2 i (List.mem_range.mpr hi)
    rw [hpool] at hall
    simpa using hall
  have hended := hconn.ended_of_counted hcounted hover
  have hfinished : (s.conns i).session.impls 0 = .finished := by
    by_contra hne
    have hhands := List.any_eq_false.mp hkeep i (List.mem_range.mpr hi)
    rw [hcounted, decide_eq_true hpool, decide_eq_true hne] at hhands
    exact hne (TcpSession.finished_of_idle hrun hended
      (Conn.idle_of_hasWork hwork (TcpSession.writerInv hrun)) (Bool.eq_false_iff.mpr hhands))
  refine hconn.abreast.paired (.inr hfinished) (hconn.abreast.owed.mpr (.inl fun hno => ?_))
  rw [hno] at hcounted
  cases hcounted

end Drain

section Step

variable {o : TcpSession.Options} {s s' : Server} {a : Action} {es : List Event}

namespace StoppedInv

theorem quiet (h : StoppedInv s) (hcontext : s'.contextStopped = s.contextStopped)
    (htotal : s'.activeSessions = s.activeSessions) : StoppedInv s' := by
  unfold StoppedInv
  rw [hcontext, htotal]
  exact h

theorem step (h : StoppedInv s) (hacc : AccountInv s) (hgone : GoneInv s) (hidle : IdleInv s)
    (hphase : s.control.Phase) (hc : ConnsInv s) (hs : StartingInv s)
    (hdrain : a = .drain → s.outOfWork = true → s.activeSessions = 0) (hm : Move o s a es s') :
    StoppedInv s' := by
  cases hm with
  | startCreates t hpc hover => exact nofun
  | destroys t hpc hcontext hactive hlive =>
    rw [hphase.cycle_over hpc] at hactive
    cases hactive
  | runStops t hpc => exact (hphase.at hpc rfl).2.elim
  | stopperStopsContext k hpc hcontext => exact fun _ => hidle.drained k (by rw [hpc]; rfl)
  | drain ha hcontext hworkers hlive hout => exact fun _ => hdrain ha hout
  | counts i hlive hpc =>
    exact fun hstopped => absurd hpc (not_counting (hgone.context hstopped) hc hs hlive)
  | releases i hlive hpc =>
    intro hstopped
    have hsome := hacc.pos_of_releasing hc hpc
    rw [h hstopped] at hsome
    cases hsome
  | _ => exact h.quiet rfl rfl

end StoppedInv

end Step

/-! ## What a pool shows -/

/-- How many calls of `start()` have returned. -/
def starts (tr : List Event) : ℕ :=
  tr.countP fun
    | .started _ => true
    | _ => false

/-- How often `OnStoppedListening` has been invoked by pool `p`. -/
def stops (p : ℕ) (tr : List Event) : ℕ :=
  tr.countP fun
    | .stoppedListening q _ => decide (q = p)
    | _ => false

theorem starts_append (tr₁ tr₂ : List Event) : starts (tr₁ ++ tr₂) = starts tr₁ + starts tr₂ :=
  List.countP_append

theorem stops_append (p : ℕ) (tr₁ tr₂ : List Event) :
    stops p (tr₁ ++ tr₂) = stops p tr₁ + stops p tr₂ :=
  List.countP_append

theorem starts_session (i : ℕ) (es : List TcpSession.Event) : starts (es.map (.session i)) = 0 := by
  rw [starts, List.countP_map]
  exact List.countP_eq_zero.mpr fun _ _ => Bool.false_ne_true

theorem stops_session (p i : ℕ) (es : List TcpSession.Event) :
    stops p (es.map (.session i)) = 0 := by
  rw [stops, List.countP_map]
  exact List.countP_eq_zero.mpr fun _ _ => Bool.false_ne_true

/-- `OnStoppedListening` has been invoked. -/
def MonitorPc.invoked : MonitorPc → Bool
  | .inCallback | .publishing | .finished => true
  | _ => false

/-- `start()` has created its pool, which has no monitor yet. -/
def CallPc.fresh (pc : CallPc) : Bool := pc.creating || decide (pc = .startMonitor)

theorem CallPc.locked_of_fresh {pc : CallPc} (h : pc.fresh = true) : pc.locked = true := by
  rcases Bool.or_eq_true_iff.mp h with hcreating | hmonitor
  · exact CallPc.locked_of_creating hcreating
  · rw [of_decide_eq_true hmonitor]
    rfl

/-- The monitor of every pool invokes `OnStoppedListening` once. -/
structure MonitorInv (tr : List Event) (s : Server) : Prop where
  fresh : ∀ t, (s.callers t).fresh = true → s.monitor = .unborn
  later : ∀ p, s.pool < p → stops p tr = 0
  current : stops s.pool tr = if s.monitor.invoked then 1 else 0
  earlier : ∀ p, p < s.pool → stops p tr ≤ 1
  started : ∀ p, .started p ∈ tr → p ≤ s.pool ∧ (p = s.pool → s.monitor ≠ .unborn)

/-- The pools before the current one are over. -/
def OverInv (tr : List Event) (s : Server) : Prop :=
  ∀ p, .started p ∈ tr → p < s.pool → 0 < stops p tr

/-! ## Stop sequences -/

/-- `start()` has returned, and nobody has begun to stop the server. -/
def Server.Serving (s : Server) : Prop :=
  s.running = true ∧ s.stopInOperation = false ∧ ∀ t, (s.callers t).starting = false

/-- There has been a stop thread for every `start()` that has returned, but for the last of a
server that nobody has begun to stop. -/
structure SequenceInv (tr : List Event) (s : Server) : Prop where
  serving : s.Serving → starts tr = s.stopperCount + 1
  idle : ¬s.Serving → starts tr = s.stopperCount

section Step

variable {o : TcpSession.Options} {s s' : Server} {a : Action} {tr es : List Event}

namespace MonitorInv

/-- The pool stays, and shows what its monitor has done. -/
theorem keep (h : MonitorInv tr s) (hpool : s'.pool = s.pool)
    (hfresh : ∀ t, (s'.callers t).fresh = true → s'.monitor = .unborn)
    (hcurrent : (if s'.monitor.invoked then 1 else 0) =
      (if s.monitor.invoked then 1 else 0) + stops s.pool es)
    (hothers : ∀ p, p ≠ s.pool → stops p es = 0)
    (hborn : s.monitor ≠ .unborn → s'.monitor ≠ .unborn)
    (hstarted : ∀ p, .started p ∈ es → p = s.pool ∧ s'.monitor ≠ .unborn) :
    MonitorInv (tr ++ es) s' := by
  refine ⟨hfresh, fun p hp => ?_, ?_, fun p hp => ?_, fun p hp => ?_⟩
  · rw [hpool] at hp
    rw [stops_append, h.later p hp, hothers p (by omega)]
  · rw [hpool, stops_append, h.current, hcurrent]
  · rw [hpool] at hp
    rw [stops_append, hothers p (by omega)]
    exact h.earlier p hp
  · rw [hpool]
    rcases List.mem_append.mp hp with hold | hnew
    · exact ⟨(h.started p hold).1, fun heq => hborn ((h.started p hold).2 heq)⟩
    · obtain ⟨rfl, hmonitor⟩ := hstarted p hnew
      exact ⟨Nat.le_refl _, fun _ => hmonitor⟩

/-- Nothing of the pool changes. -/
theorem quiet (h : MonitorInv tr s) (hpool : s'.pool = s.pool) (hmonitor : s'.monitor = s.monitor)
    (hcallers : s'.callers = s.callers) (hes : ∀ p, stops p es = 0)
    (hstarted : ∀ p, .started p ∉ es) : MonitorInv (tr ++ es) s' := by
  refine h.keep hpool (fun t ht => ?_) ?_ (fun p _ => hes p) (fun hne => hmonitor ▸ hne)
    fun p hp => absurd hp (hstarted p)
  · rw [hmonitor]
    exact h.fresh t (hcallers ▸ ht)
  · rw [hmonitor, hes, Nat.add_zero]

/-- A call moves on. -/
theorem caller (h : MonitorInv tr s) {t : Tid} {pc : CallPc} (hpool : s'.pool = s.pool)
    (hmonitor : s'.monitor = s.monitor) (hcallers : s'.callers = Function.update s.callers t pc)
    (hes : ∀ p, stops p es = 0) (hstarted : ∀ p, .started p ∉ es)
    (hpc : pc.fresh = true → (s.callers t).fresh = true) : MonitorInv (tr ++ es) s' := by
  refine h.keep hpool (fun u hu => ?_) ?_ (fun p _ => hes p) (fun hne => hmonitor ▸ hne)
    fun p hp => absurd hp (hstarted p)
  · rw [hmonitor]
    rw [hcallers] at hu
    by_cases hut : u = t
    · rw [hut, Function.update_self] at hu
      exact h.fresh t (hpc hu)
    · rw [Function.update_of_ne hut] at hu
      exact h.fresh u hu
  · rw [hmonitor, hes, Nat.add_zero]

/-- The monitor moves on. -/
theorem monitor (h : MonitorInv tr s) (hpool : s'.pool = s.pool) (hcallers : s'.callers = s.callers)
    (hborn : s.monitor ≠ .unborn) (hborn' : s'.monitor ≠ .unborn)
    (hcurrent : (if s'.monitor.invoked then 1 else 0) =
      (if s.monitor.invoked then 1 else 0) + stops s.pool es)
    (hothers : ∀ p, p ≠ s.pool → stops p es = 0) (hstarted : ∀ p, .started p ∉ es) :
    MonitorInv (tr ++ es) s' :=
  h.keep hpool (fun t ht => absurd (h.fresh t (hcallers ▸ ht)) hborn) hcurrent hothers
    (fun _ => hborn') fun p hp => absurd hp (hstarted p)

theorem step (h : MonitorInv tr s) (hl : LockInv s) (hm : Move o s a es s') :
    MonitorInv (tr ++ es) s' := by
  cases hm with
  | callStart n eps hpc | callStop n hpc =>
    exact h.caller (t := .user n) rfl rfl rfl (fun _ => rfl) (fun _ => List.not_mem_nil) nofun
  | startBusy t eps hpc hrun | catchStores t hpc =>
    exact h.caller (t := t) rfl rfl rfl (fun _ => rfl) (fun _ => by simp) nofun
  | startTakes t eps hpc hrun | startLocks t eps hpc hfree | startResets t eps hpc
  | startClears t hpc | runStops t hpc | runJoins t hpc hidle | catchResets t hpc hover
  | stopIgnored t hpc hfree hstop | stopBegins t hpc hfree hstop | stopEnds t k hpc hjoin =>
    exact h.caller (t := t) rfl rfl rfl (fun _ => rfl) (fun _ => List.not_mem_nil) nofun
  | startIds t ch eps hpc ha hch | startFails t ch hpc ha hch | workersFail t hpc ha
  | monitorFails t hpc ha =>
    exact h.caller (t := t) rfl rfl rfl (fun _ => rfl) (fun _ => List.not_mem_nil) nofun
  | startBinds t eps hpc hlen | startSpawns t hpc | startInvoked t hpc | startWorks t hpc =>
    exact h.caller (t := t) rfl rfl rfl (fun _ => rfl) (fun _ => List.not_mem_nil)
      fun _ => by rw [hpc]; rfl
  | startInvokes t hpc =>
    exact h.caller (t := t) rfl rfl rfl (fun _ => rfl) (fun _ => by simp) fun _ => by rw [hpc]; rfl
  | startCreates t hpc hover =>
    rw [List.append_nil]
    refine ⟨fun _ _ => rfl, fun p hp => h.later p (Nat.lt_of_succ_lt hp), h.later _ (Nat.lt_succ_self _),
      fun p hp => ?_, fun p hp => ?_⟩
    · rcases Nat.lt_succ_iff_lt_or_eq.mp hp with hlt | rfl
      · exact h.earlier p hlt
      · rw [h.current]
        split <;> omega
    · have hle := (h.started p hp).1
      exact ⟨Nat.le_succ_of_le hle, fun heq => absurd (heq ▸ hle) (Nat.not_succ_le_self _)⟩
  | startReturns t hpc =>
    have hborn := h.fresh t (by rw [hpc]; rfl)
    refine h.keep rfl (fun u hu => ?_) ?_ (fun _ _ => rfl) (fun _ => nofun) fun p hp => ?_
    · -- nobody else is inside `start()`
      have hu' : (Function.update s.callers t .idle u).fresh = true := hu
      by_cases hut : u = t
      · rw [hut, Function.update_self] at hu'
        cases hu'
      · rw [Function.update_of_ne hut] at hu'
        exact absurd (hl.unique (CallPc.locked_of_fresh hu') (by rw [hpc]; rfl)) hut
    · rw [hborn]
      rfl
    · cases List.mem_singleton.mp hp
      exact ⟨rfl, nofun⟩
  | listenerStops l hlive hpc =>
    exact h.caller (t := .listener l) rfl rfl rfl (fun _ => rfl) (fun _ => List.not_mem_nil) nofun
  | monitorJoins hpc hstop hidle =>
    exact h.monitor rfl rfl (by rw [hpc]; nofun) nofun (by rw [hpc]; rfl) (fun _ _ => rfl)
      fun _ => List.not_mem_nil
  | monitorInvokes hpc =>
    refine h.monitor rfl rfl (by rw [hpc]; nofun) nofun ?_ (fun p hp => ?_) fun _ => by simp
    · simp [hpc, MonitorPc.invoked, stops]
    · simp [stops, Ne.symm hp]
  | monitorInvoked hpc | monitorPublishes hpc =>
    exact h.monitor rfl rfl (by rw [hpc]; nofun) nofun (by rw [hpc]; rfl) (fun _ _ => rfl)
      fun _ => List.not_mem_nil
  | session j b sess es ha hj hallow hstep =>
    exact h.quiet rfl rfl rfl (fun p => stops_session p j es) fun p hp => by simp at hp
  | _ => exact h.quiet rfl rfl rfl (fun _ => rfl) fun _ => by simp

end MonitorInv

theorem OverInv.step (h : OverInv tr s) (hmonitor : MonitorInv tr s) (hphase : s.control.Phase)
    (hm : Move o s a es s') : OverInv (tr ++ es) s' := by
  have hkeep (hpool : s'.pool = s.pool) (hstarted : ∀ p, .started p ∈ es → p = s.pool) :
      OverInv (tr ++ es) s' := by
    intro p hp hlt
    rw [hpool] at hlt
    rw [stops_append]
    rcases List.mem_append.mp hp with hold | hnew
    · exact Nat.lt_add_right _ (h p hold hlt)
    · exact absurd (hstarted p hnew) (Nat.ne_of_lt hlt)
  cases hm with
  | startCreates t hpc hover =>
    intro p hp hlt
    rw [List.append_nil] at hp ⊢
    rcases Nat.lt_succ_iff_lt_or_eq.mp hlt with hold | rfl
    · exact h p hp hold
    · -- the cycle of the pool before is over
      have hresting : s.control.Resting := (hphase.at hpc rfl).2.2
      have hfinished : s.monitor = .finished :=
        hresting.monitor.resolve_left ((hmonitor.started _ hp).2 rfl)
      rw [hmonitor.current, hfinished]
      exact Nat.one_pos
  | startReturns t hpc =>
    exact hkeep rfl fun p hp => by
      cases List.mem_singleton.mp hp
      rfl
  | session j b sess es ha hj hallow hstep => exact hkeep rfl fun p hp => by simp at hp
  | _ => exact hkeep rfl fun p hp => by simp at hp

namespace SequenceInv

theorem not_serving {t : Tid} (h : (s.callers t).starting = true) : ¬s.Serving := by
  rintro ⟨-, -, hcallers⟩
  rw [hcallers t] at h
  cases h

/-- Neither is a `start()` over nor has a stop begun. -/
theorem keep (h : SequenceInv tr s) (hserving : s'.Serving ↔ s.Serving)
    (hcount : s'.stopperCount = s.stopperCount) (hes : starts es = 0) :
    SequenceInv (tr ++ es) s' := by
  refine ⟨fun hup => ?_, fun hdown => ?_⟩
  · rw [starts_append, hes, hcount]
    exact h.serving (hserving.mp hup)
  · rw [starts_append, hes, hcount]
    exact h.idle fun hup => hdown (hserving.mpr hup)

theorem quiet (h : SequenceInv tr s) (hrunning : s'.running = s.running)
    (hstop : s'.stopInOperation = s.stopInOperation) (hcallers : s'.callers = s.callers)
    (hcount : s'.stopperCount = s.stopperCount) (hes : starts es = 0) :
    SequenceInv (tr ++ es) s' := by
  refine h.keep ?_ hcount hes
  rw [Server.Serving, Server.Serving, hrunning, hstop, hcallers]

/-- A call moves on that is as much inside `start()` as before. -/
theorem caller (h : SequenceInv tr s) {t : Tid} {pc : CallPc} (hrunning : s'.running = s.running)
    (hstop : s'.stopInOperation = s.stopInOperation)
    (hcallers : s'.callers = Function.update s.callers t pc)
    (hcount : s'.stopperCount = s.stopperCount) (hes : starts es = 0)
    (hpc : pc.starting = (s.callers t).starting) : SequenceInv (tr ++ es) s' := by
  refine h.keep ?_ hcount hes
  have hsame (u : Tid) : (s'.callers u).starting = (s.callers u).starting := by
    rw [hcallers]
    by_cases hut : u = t
    · rw [hut, Function.update_self, hpc]
    · rw [Function.update_of_ne hut]
  simp only [Server.Serving, hrunning, hstop, hsame]

/-- Nobody serves, before and after. -/
theorem down (h : SequenceInv tr s) (hold : ¬s.Serving) (hnew : ¬s'.Serving)
    (hcount : s'.stopperCount = s.stopperCount) (hes : starts es = 0) :
    SequenceInv (tr ++ es) s' :=
  h.keep ⟨fun hup => absurd hup hnew, fun hup => absurd hup hold⟩ hcount hes

theorem step (h : SequenceInv tr s) (hphase : s.control.Phase) (hl : LockInv s) (hw : WaitInv s)
    (hm : Move o s a es s') : SequenceInv (tr ++ es) s' := by
  cases hm with
  | callStart n eps hpc | callStop n hpc =>
    exact h.caller (t := .user n) rfl rfl rfl rfl rfl (by rw [hpc]; rfl)
  | startTakes t eps hpc hrun =>
    refine h.down (fun hup => ?_) (not_serving (t := t) ?_) rfl rfl
    · rw [hup.1] at hrun
      cases hrun
    · simp [Server.setCaller, CallPc.starting]
  | startResets t eps hpc =>
    refine h.down (not_serving (t := t) (by rw [hpc]; rfl)) (not_serving (t := t) ?_) rfl rfl
    simp [Server.setCaller, CallPc.starting]
  | startBusy t eps hpc hrun | startLocks t eps hpc hfree | startClears t hpc
  | startCreates t hpc hover | startBinds t eps hpc hlen | startSpawns t hpc
  | startInvokes t hpc | startInvoked t hpc | startWorks t hpc
  | stopIgnored t hpc hfree hstop | stopEnds t k hpc hjoin =>
    exact h.caller (t := t) rfl rfl rfl rfl rfl (by rw [hpc]; rfl)
  | startIds t ch eps hpc ha hch =>
    exact h.caller (t := t) rfl rfl rfl rfl rfl (by rw [hpc]; rfl)
  | startFails t ch hpc ha hch =>
    refine h.caller (t := t) rfl rfl rfl rfl rfl ?_
    cases hcaller : s.callers t <;> rw [hcaller] at hpc <;> first | rfl | cases hpc
  | workersFail t hpc ha | monitorFails t hpc ha =>
    exact h.caller (t := t) rfl rfl rfl rfl rfl (by rw [hpc]; rfl)
  | startReturns t hpc =>
    obtain ⟨hstart, hplace⟩ := hphase.at hpc rfl
    refine ⟨fun _ => ?_, fun hdown => ?_⟩
    · have hidle := h.idle (not_serving (t := t) (by rw [hpc]; rfl))
      rw [starts_append, hidle]
      rfl
    · refine absurd ⟨hstart.running, hplace.1, fun u => ?_⟩ hdown
      show (Function.update s.callers t .idle u).starting = false
      by_cases hut : u = t
      · rw [hut, Function.update_self]
        rfl
      · rw [Function.update_of_ne hut]
        exact hstart.callers u hut
  | runStops t hpc => exact (hphase.at hpc rfl).2.elim
  | runJoins t hpc hidle => exact (hphase.at hpc rfl).2.elim
  | catchResets t hpc hover => exact (hphase.at hpc rfl).2.elim
  | catchStores t hpc => exact (hphase.at hpc rfl).2.elim
  | stopBegins t hpc hfree hstop =>
    have hup := hphase.up_of_free hl hfree hstop
    refine ⟨fun hserving => ?_, fun _ => ?_⟩
    · cases hserving.2.1
    · rw [List.append_nil]
      exact h.serving ⟨hup.running, hstop, hup.callers⟩
  | stopperEnds k hpc =>
    have hstopping : s.control.Stopping k :=
      hphase.of_live (by show (s.stoppers k).live = true; rw [hpc]; rfl)
    refine h.down (fun hup => ?_) (fun hup => ?_) rfl rfl
    · have hset : s.stopInOperation = true := hstopping.stop
      rw [hup.2.1] at hset
      cases hset
    · cases hup.1
  | listenerStops l hlive hpc =>
    exact h.caller (t := .listener l) rfl rfl rfl rfl rfl
      (hw.not_starting (by simp [hpc])).symm
  | session j b sess es ha hj hallow hstep => exact h.quiet rfl rfl rfl rfl (starts_session j es)
  | _ => exact h.quiet rfl rfl rfl rfl rfl

end SequenceInv

/-- When the monitor has invoked `OnStoppedListening`, the listeners have left and no session is
active. -/
theorem Control.Phase.over_of_invoked (h : s.control.Phase) (hinvoked : s.monitor.invoked = true)
    (hgone : GoneInv s) (hidle : IdleInv s) (hstopped : StoppedInv s) :
    s.Gone ∧ s.activeSessions = 0 := by
  have hready (hr : s.control.Ready) : s.Gone ∧ s.activeSessions = 0 := by
    have hjoined : s.monitor.joined = true := by
      cases hpc : s.monitor <;> rw [hpc] at hinvoked <;> first | rfl | cases hinvoked
    have hcontext : s.contextStopped = true := (hr.joined hjoined).1
    exact ⟨hgone.context hcontext, hstopped hcontext⟩
  have hborn (hno : s.monitor = .unborn) : s.Gone ∧ s.activeSessions = 0 := by
    rw [hno] at hinvoked
    cases hinvoked
  cases h with
  | off h => exact ⟨hgone.off h.running, hidle.off h.running⟩
  | starting t h =>
    have hplace : s.control.At (s.callers t) := h.place
    cases hpc : s.callers t with
    | startLock eps | startReset eps | startId eps | startClear | startContext =>
      exact ⟨hgone.starts t (by rw [hpc]; rfl), hidle.starts t (by rw [hpc]; rfl) (by rw [hpc]; nofun)⟩
    | startBind | startSpawn | invokeStartedListening | inStartedListening | startWorkers =>
      rw [hpc] at hplace
      exact hborn hplace.2.2.2.2
    | startMonitor =>
      rw [hpc] at hplace
      exact hborn hplace.2.2.1
    | _ =>
      rw [hpc] at hplace
      exact hplace.elim
  | up h => exact hready h.ready
  | stopping k h => exact hready h.ready

end Step

/-! ## Runs -/

section Runs

variable {C : Server → Action → Prop} {o : TcpSession.Options} {tr : List Event} {s : Server}

theorem monitorInv (h : (system o).Run C tr s) : MonitorInv tr s := by
  refine invariant_of_moves (I := MonitorInv) ?_ ?_ h
  · exact ⟨fun _ => nofun, fun _ _ => rfl, rfl, fun _ => nofun, fun _ => nofun⟩
  · intro tr s a es s' hrun _ hm ih
    exact ih.step (lockInv hrun) hm

theorem overInv (hC : ∀ s a, C s a → startsSucceed s a) (h : (system o).Run C tr s) :
    OverInv tr s := by
  refine invariant_of_moves (I := OverInv) (fun _ => nofun) ?_ h
  intro tr s a es s' hrun _ hm ih
  exact ih.step (monitorInv hrun) (phase hC hrun) hm

theorem sequenceInv (hC : ∀ s a, C s a → startsSucceed s a) (h : (system o).Run C tr s) :
    SequenceInv tr s := by
  refine invariant_of_moves (I := SequenceInv) ⟨fun hup => ?_, fun _ => rfl⟩ ?_ h
  · cases hup.1
  · intro tr s a es s' hrun _ hm ih
    exact ih.step (phase hC hrun) (lockInv hrun) (waitInv hrun) hm

theorem stoppedInv (h : (system o).Run abandonsNone tr s) : StoppedInv s := by
  have hC (s : Server) (a : Action) (h : abandonsNone s a) : startsSucceed s a := h.1
  refine invariant_of_moves (I := fun _ s => StoppedInv s) nofun ?_ h
  intro tr s a es s' hrun hCa hm ih
  have hgone := (goneInv_countInv hC hrun).1
  have hidle := idleInv hC hrun
  have hconns := connsInv hrun
  refine ih.step (accountInv hrun) hgone hidle (phase hC hrun) hconns (startingInv hrun) ?_ hm
  rintro rfl hout
  rw [(accountInv hrun).total, Nat.count_iff_forall_not]
  intro i hi hactive
  have hcounted : (s.conns i).onConn.counted = true := (Bool.and_eq_true_iff.mp hactive).1
  have hreturned := over_of_outOfWork hrun (GoneInv.gone_of_outOfWork (numberInv hrun) hout) hout
    hCa.2 hi (hidle.current i hactive) hcounted
  rw [Conn.active, hreturned] at hactive
  simp at hactive

/-- Whatever the server does, a pool invokes `OnStoppedListening` at most once. -/
theorem stops_le_one (h : (system o).Run C tr s) (p : ℕ) : stops p tr ≤ 1 := by
  have hmonitor := monitorInv h
  rcases Nat.lt_trichotomy p s.pool with hlt | rfl | hgt
  · exact hmonitor.earlier p hlt
  · rw [hmonitor.current]
    split <;> omega
  · rw [hmonitor.later p hgt]
    omega

/-- When `OnStoppedListening` has been invoked for a pool, its listeners have left, and its sessions
are over. -/
theorem over_of_stops (h : (system o).Run abandonsNone tr s) {p : ℕ} (hp : 0 < stops p tr) :
    (∀ l, (s.listeners l).pool = p → (s.listeners l).pc.live = false) ∧
      ∀ i, (s.conns i).pool = p → (s.conns i).active = false := by
  have hC (s : Server) (a : Action) (h : abandonsNone s a) : startsSucceed s a := h.1
  have hidle := idleInv hC h
  -- whatever is left is of the current pool
  have hnone (heq : p = s.pool) : s.Gone ∧ s.activeSessions = 0 := by
    refine (phase hC h).over_of_invoked ?_ (goneInv_countInv hC h).1 hidle (stoppedInv h)
    by_contra hno
    rw [heq, (monitorInv h).current, if_neg hno] at hp
    cases hp
  refine ⟨fun l hl => ?_, fun i hi => ?_⟩
  · rw [Bool.eq_false_iff]
    intro hlive
    have hcurrent := currentInv hC h l hlive
    have hgone := (hnone (hl.symm.trans hcurrent)).1 l
    rw [listens_eq_true.mpr ⟨hcurrent, hlive⟩] at hgone
    cases hgone
  · rw [Bool.eq_false_iff]
    intro hactive
    have htotal := (hnone (hi.symm.trans (hidle.current i hactive))).2
    exact Bool.eq_false_iff.mp ((accountInv h).not_active (connsInv h) htotal i) hactive

/-- **The order of a shutdown.**  While no `start()` fails and the context abandons no session,
every `start()` has had one stop sequence when the server is stopped, and no two are at work.
Every pool invokes `OnStoppedListening` at most once, whatever happens later, and only when
its listeners have left and its sessions are over; when the server is stopped, every pool that was
started has invoked it, and the monitor of the last has ended. -/
theorem shutdown_order (h : (system o).Run abandonsNone tr s) :
    (s.stopperCount ≤ starts tr ∧ starts tr ≤ s.stopperCount + 1 ∧
      (s.running = false → starts tr = s.stopperCount) ∧
      ∀ j k, (s.stoppers j).live = true → (s.stoppers k).live = true → j = k ∧ s.running = true) ∧
    (∀ tr' t, (system o).RunFrom anyStep s tr' t → ∀ p, stops p (tr ++ tr') ≤ 1) ∧
    (∀ p, 0 < stops p tr → (∀ l, (s.listeners l).pool = p → (s.listeners l).pc.live = false) ∧
      ∀ i, (s.conns i).pool = p → (s.conns i).onConn.counted = true →
        (s.conns i).onStop = .returned) ∧
      (s.running = false → ∀ p, .started p ∈ tr →
        stops p tr = 1 ∧ (p = s.pool → s.monitor = .finished)) := by
  have hC (s : Server) (a : Action) (h : abandonsNone s a) : startsSucceed s a := h.1
  have hphase := phase hC h
  have hsequence := sequenceInv hC h
  have hmonitor := monitorInv h
  refine ⟨?_, fun tr' t hrest p => ?_, fun p hp => ?_, fun hrun p hp => ?_⟩
  · have hcount : starts tr = s.stopperCount ∨ starts tr = s.stopperCount + 1 := by
      by_cases hup : s.Serving
      · exact .inr (hsequence.serving hup)
      · exact .inl (hsequence.idle hup)
    refine ⟨by omega, by omega, fun hrun => hsequence.idle fun hup => ?_, fun j k hj hk => ?_⟩
    · rw [hup.1] at hrun
      cases hrun
    · have hstopping : s.control.Stopping k := hphase.of_live hk
      refine ⟨?_, hstopping.running⟩
      by_contra hne
      have hdead : (s.stoppers j).live = false := hstopping.stoppers j hne
      rw [hj] at hdead
      cases hdead
  · exact stops_le_one (h.reachable.append hrest) p
  · obtain ⟨hlisteners, hconns⟩ := over_of_stops h hp
    refine ⟨hlisteners, fun i hi hcounted => ?_⟩
    have hover := hconns i hi
    rw [Conn.active, hcounted, Bool.true_and] at hover
    exact not_not.mp (of_decide_eq_false hover)
  · obtain ⟨hle, hborn⟩ := hmonitor.started p hp
    have hresting : s.control.Resting := (hphase.of_not_running hrun).resting
    have hfinished (heq : p = s.pool) : s.monitor = .finished :=
      hresting.monitor.resolve_left (hborn heq)
    refine ⟨Nat.le_antisymm (stops_le_one h p) ?_, hfinished⟩
    rcases Nat.lt_or_eq_of_le hle with hlt | heq
    · exact overInv hC h p hp hlt
    · rw [heq, hmonitor.current, hfinished heq]
      exact Nat.le_refl _

end Runs

section Sample

/-- A session comes and goes, and the server is stopped; the pool runs out of work before the stop
thread tells it to stop. -/
def finishedRun : List Action :=
  readRun ++ disconnectRun ++ closeRun ++ shutdownRun ++ Action.drain :: finishRun

theorem shutdown_order_finishedRun : ∃ tr s, (system {}).Run abandonsNone tr s ∧
    s.running = false ∧ starts tr = s.stopperCount ∧ .started 1 ∈ tr ∧ stops 1 tr = 1 ∧
      (1 = s.pool → s.monitor = .finished) := by
  have hrun := run_exec (by decide +kernel : (system {}).execMeets abandonsNone _ finishedRun = true)
    (by decide +kernel)
  have hoff : (((system {}).exec finishedRun).get (by decide +kernel)).1.running = false := by
    decide +kernel
  have hstarted : Event.started 1 ∈ (((system {}).exec finishedRun).get (by decide +kernel)).2 := by
    decide +kernel
  obtain ⟨hsequence, -, -, hover⟩ := shutdown_order hrun
  exact ⟨_, _, hrun, hoff, hsequence.2.2.1 hoff, hstarted, hover hoff 1 hstarted⟩

/-- User thread 1 stops the server while a session is connected.  The stop thread has set the state
of the session to `stopping`, and has not posted `close_impl()`, when the peer closes the
connection and the reader ends: the pool runs out of work. -/
def abandonRun : List Action :=
  readRun ++ ([.listener 0 .ok, .callStop 1] : List Action)
    ++ List.replicate 2 (Action.caller (.user 1) .ok) ++ List.replicate 2 (Action.stopper 0)
    ++ ([.runClose 0] : List Action) ++ List.replicate 3 (Action.listener 0 .ok)
    ++ ([.caller (.listener 0) .ok] : List Action) ++ List.replicate 2 (Action.listener 0 .ok)
    ++ List.replicate 3 (Action.stopper 0)
    ++ List.replicate 3 (Action.session 0 (.step (.thread (.stopper 0)) .ok))
    ++ ([.session 0 (.readDone (.error .eof)), .session 0 .runHandler] : List Action)
    ++ List.replicate 5 (Action.session 0 (.step .strand .ok))
    ++ ([.drain, .monitor, .monitor] : List Action)

/-- `OnStoppedListening` is invoked, and `OnDisconnected` has not been for a session that is in
`m_sessions`. -/
theorem stopped_before_disconnected : ∃ tr s, (system {}).Run startsSucceed tr s ∧
    .started 1 ∈ tr ∧ .created 0 ∈ tr ∧ .stoppedListening 1 none ∈ tr ∧
      (∀ ex, .disconnected 0 ex ∉ tr) ∧ s.sessions = [(0, 0)] ∧ (s.conns 0).pool = 1 := by
  have hrun := run_exec (by decide +kernel : (system {}).execMeets startsSucceed _ abandonRun = true)
    (by decide +kernel)
  have htr : (((system {}).exec abandonRun).get (by decide +kernel)).2 =
      [.startedListening, .started 1, .session 0 (.moved .running), .session 0 .connected,
        .created 0, .session 0 (.moved .stopRequested), .session 0 (.closeCalled .stopAsync),
        .session 0 (.moved .stopping), .session 0 (.closeCalled .reader),
        .stoppedListening 1 none] := by
    decide +kernel
  rw [htr] at hrun
  exact ⟨_, _, hrun, by simp, by simp, by simp, by simp, by decide +kernel, by decide +kernel⟩

end Sample

end TcpServer
