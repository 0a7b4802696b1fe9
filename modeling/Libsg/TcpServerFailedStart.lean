/-
# A `start()` that throws

The catch block of `start()` does not put `m_stop_in_operation` back, which `start()` has
cleared: the next `stop_async()` creates a stop thread for the run that has failed, and
that may go on while a later run is up.  Only the `start()` that refuses an empty list
of endpoints leaves the server as it was.
-/
import Libsg.TcpServerCallbacks

open TransitionSystem

namespace TcpServer

/-! ## Between the reset and the end of `start()` -/

/-- `start()` has cleared `m_stop_in_operation` and has not returned or thrown. -/
def CallPc.cleared : CallPc → Bool
  | .startId _ | .startClear | .startContext | .startBind | .startSpawn | .invokeStartedListening
  | .inStartedListening | .startWorkers | .startMonitor | .runStop | .runJoin | .catchReset
  | .catchStore => true
  | _ => false

theorem CallPc.locked_of_cleared {pc : CallPc} (h : pc.cleared = true) : pc.locked = true := by
  cases pc <;> first | rfl | cases h

/-- No `stop_async()` comes between. -/
def ClearedInv (s : Server) : Prop :=
  ∀ t, (s.callers t).cleared = true → s.stopInOperation = false

section Step

variable {o : TcpSession.Options} {s s' : Server} {a : Action} {es : List Event}

theorem ClearedInv.caller (h : ClearedInv s) {t : Tid} {pc : CallPc}
    (hcallers : s'.callers = Function.update s.callers t pc)
    (hstop : s'.stopInOperation = s.stopInOperation)
    (hpc : pc.cleared = true → (s.callers t).cleared = true) : ClearedInv s' := by
  intro u hu
  rw [hcallers] at hu
  rw [hstop]
  by_cases hut : u = t
  · subst hut
    rw [Function.update_self] at hu
    exact h u (hpc hu)
  · rw [Function.update_of_ne hut] at hu
    exact h u hu

theorem CallPc.cleared_of_canFail {pc : CallPc} (h : pc.canFail = true) : pc.cleared = true := by
  cases pc <;> first | rfl | cases h

theorem ClearedInv.step (h : ClearedInv s) (hl : LockInv s) (hm : Move o s a es s') :
    ClearedInv s' := by
  cases hm with
  | callStart n eps hpc => exact h.caller (t := .user n) rfl rfl nofun
  | callStop n hpc => exact h.caller (t := .user n) rfl rfl nofun
  | startBusy t eps hpc hrun => exact h.caller (t := t) rfl rfl nofun
  | startTakes t eps hpc hrun => exact h.caller (t := t) rfl rfl nofun
  | startLocks t eps hpc hfree => exact h.caller (t := t) rfl rfl nofun
  | startResets t eps hpc => exact fun _ _ => rfl
  | startIds t ch eps hpc ha hch => exact h.caller (t := t) rfl rfl fun _ => by rw [hpc]; rfl
  | startFails t ch hpc ha hch =>
    exact h.caller (t := t) rfl rfl fun _ => CallPc.cleared_of_canFail hpc
  | startBinds t eps hpc hlen => exact h.caller (t := t) rfl rfl fun _ => by rw [hpc]; rfl
  | startClears t hpc | startSpawns t hpc | startInvokes t hpc | startInvoked t hpc
  | startWorks t hpc | runStops t hpc =>
    exact h.caller (t := t) rfl rfl fun _ => by rw [hpc]; rfl
  | startCreates t hpc hover | workersFail t hpc ha | monitorFails t hpc ha
  | runJoins t hpc hidle | catchResets t hpc hover =>
    exact h.caller (t := t) rfl rfl fun _ => by rw [hpc]; rfl
  | startReturns t hpc | catchStores t hpc => exact h.caller (t := t) rfl rfl nofun
  | stopIgnored t hpc hfree hstop => exact h.caller (t := t) rfl rfl nofun
  | stopBegins t hpc hfree hstop =>
    -- `start()` would hold the lock
    intro u hu
    have hfreeu := hl.free hfree u
    by_cases hut : u = t
    · subst hut
      simp [Server.setCaller, CallPc.cleared] at hu
    · have hold : (s.callers u).cleared = true := by
        simpa [Server.setCaller, Server.setStopper, hut] using hu
      rw [CallPc.locked_of_cleared hold] at hfreeu
      cases hfreeu
  | stopEnds t k hpc hjoin => exact h.caller (t := t) rfl rfl nofun
  | listenerStops l hlive hpc => exact h.caller (t := .listener l) rfl rfl nofun
  | _ => exact h

end Step

theorem clearedInv {o : TcpSession.Options} {C : Server → Action → Prop} {tr : List Event}
    {s : Server} (h : (system o).Run C tr s) : ClearedInv s := by
  refine invariant_of_moves (I := fun _ s => ClearedInv s) ?_ ?_ h
  · intro t ht
    cases ht
  · intro tr s a es s' hrun _ hm ih
    exact ih.step (lockInv hrun) hm

/-! ## The steps that throw -/

/-- What a server shows that was never started; `stop_async()` does nothing to it. -/
def Server.AsNew (s : Server) : Prop :=
  s.running = false ∧ s.localEndpoints = [] ∧ s.sessions = [] ∧ s.activeSessions = 0 ∧
    s.acceptorsRunning = 0 ∧ s.stopInOperation = true

instance (s : Server) : Decidable s.AsNew := inferInstanceAs (Decidable (_ ∧ _))

/-- A `stop_async()` on such a server only takes the lock and releases it. -/
theorem Server.AsNew.stop_async {o : TcpSession.Options} {s s' : Server} {es : List Event} {t : Tid}
    {ch : StartChoice} (h : s.AsNew) (hpc : s.callers t = .stopLock)
    (hstep : step o s (.caller t ch) = some (s', es)) : s' = s.setCaller t .idle ∧ es = [] := by
  have hstep' : caller s t ch = some (s', es) := hstep
  simp only [caller, hpc] at hstep'
  split at hstep'
  · cases hstep'
  · rw [if_pos h.2.2.2.2.2] at hstep'
    cases hstep'
    exact ⟨rfl, rfl⟩

section Throws

variable {o : TcpSession.Options} {s s' : Server} {a : Action} {es : List Event}

/-- `start()` throws at the exchange of `m_running` and at the end of its catch block. -/
theorem caller_threw {t : Tid} {ch : StartChoice} (h : caller s t ch = some (s', es))
    (hthrew : .startThrew ∈ es) :
    (s.running = true ∧ s' = s.setCaller t .idle) ∨
      (s.callers t = .catchStore ∧ s'.stopInOperation = s.stopInOperation) := by
  cases hpc : s.callers t with
  | startExchange eps =>
    simp only [caller, hpc] at h
    split at h
    · next hrun =>
      cases h
      exact .inl ⟨hrun, rfl⟩
    · cases h
      cases hthrew
  | catchStore =>
    simp only [caller, hpc] at h
    cases h
    exact .inr ⟨rfl, rfl⟩
  | _ =>
    -- no other place shows the event
    simp only [caller, hpc, Server.destroyContext] at h
    repeat' split at h
    all_goals
      cases h
      try cases List.mem_singleton.mp hthrew
      try cases hthrew

/-- A `start()` throws where it refuses an empty list, or in a step of the call. -/
theorem threw_cases (h : step o s a = some (s', es)) (hthrew : .startThrew ∈ es) :
    (∃ n, a = .callStart n [] ∧ s' = s) ∨
      ∃ t ch, a = .caller t ch ∧ caller s t ch = some (s', es) := by
  cases a with
  | callStart n eps =>
    simp only [step] at h
    split at h
    · cases h
    · split at h
      · next heps =>
        cases h
        exact .inl ⟨n, by rw [heps], rfl⟩
      · cases h
        cases hthrew
  | caller t ch => exact .inr ⟨t, ch, rfl, h⟩
  | session i b =>
    exfalso
    simp only [step, session] at h
    split at h
    · obtain ⟨r, -, hr⟩ := Option.map_eq_some_iff.mp h
      cases hr
      obtain ⟨e, -, he⟩ := List.mem_map.mp hthrew
      cases he
    · cases h
  | _ =>
    exfalso
    simp only [step, stopper, listener, runListener, monitor, onConn, onStop] at h
    repeat' split at h
    all_goals
      cases h
      try cases List.mem_singleton.mp hthrew
      try cases hthrew

/-- **After an exception of `start()` the server is as new if and only if the exception was the
refusal of an empty list, and the server was as new before.** -/
theorem failed_start_asNew {tr : List Event} (h : (system o).Reachable tr s)
    (hstep : step o s a = some (s', es)) (hthrew : .startThrew ∈ es) :
    s'.AsNew ↔ (∃ n, a = .callStart n []) ∧ s.AsNew := by
  constructor
  · intro hnew
    rcases threw_cases hstep hthrew with ⟨n, rfl, rfl⟩ | ⟨t, ch, -, hcaller⟩
    · exact ⟨⟨n, rfl⟩, hnew⟩
    · exfalso
      rcases caller_threw hcaller hthrew with ⟨hrun, rfl⟩ | ⟨hpc, hstop⟩
      · have hrun' : s.running = false := hnew.1
        rw [hrun] at hrun'
        cases hrun'
      · have hcleared := clearedInv h t (by rw [hpc]; rfl)
        have hset := hnew.2.2.2.2.2
        rw [hstop, hcleared] at hset
        cases hset
  · rintro ⟨⟨n, rfl⟩, hnew⟩
    rcases threw_cases hstep hthrew with ⟨_, -, rfl⟩ | ⟨t, ch, ha, -⟩
    · exact hnew
    · cases ha

end Throws

section Sample

/-- `OnStartedListening` throws. -/
def failRun : List Action :=
  startRun.take 10 ++ .caller (.user 0) .fail :: List.replicate 2 (Action.caller (.user 0) .ok)

/-- An empty list is refused by a server that was never started, and the same server is not as new
when `OnStartedListening` has thrown. -/
theorem failed_start_asNew_empty :
    (∃ s' es, step {} ({} : Server) (.callStart 0 []) = some (s', es) ∧ .startThrew ∈ es ∧
      s'.AsNew) ∧
    ∃ tr s s' es, (system {}).Reachable tr s ∧
      step {} s (.caller (.user 0) .ok) = some (s', es) ∧ .startThrew ∈ es ∧ ¬s'.AsNew := by
  have hrefused : step {} ({} : Server) (.callStart 0 []) = some ({}, [.startThrew]) := by
    simp [step]
  have hrun := reachable_exec (M := system {}) (l := failRun.take 12) (by decide)
  have hthrows := Option.some_get (show (step {} (((system {}).exec (failRun.take 12)).get
    (by decide)).1 (.caller (.user 0) .ok)).isSome = true by decide)
  refine ⟨⟨_, _, hrefused, by decide,
    (failed_start_asNew .nil hrefused (by decide)).mpr ⟨⟨0, rfl⟩, by decide⟩⟩,
    _, _, _, _, hrun, hthrows.symm, by decide, fun hnew => ?_⟩
  obtain ⟨⟨n, hcall⟩, -⟩ := (failed_start_asNew hrun hthrows.symm (by decide)).mp hnew
  cases hcall

/-- User thread 1 calls `stop_async()`, whose stop thread finds nothing to stop; before its last
step the server is started again. -/
def lateStopRun : List Action :=
  .callStop 1 :: List.replicate 2 (Action.caller (.user 1) .ok)
    ++ List.replicate 6 (Action.stopper 0) ++ startRun ++ ([.stopper 0] : List Action)

/-- After a `start()` that threw, the server is not as new: the next `stop_async()` creates a stop
thread, which declares the run of a later `start()` stopped, while that is up. -/
theorem failed_start_late_stop :
    (∃ s, (system {}).Reachable [.startedListening, .startThrew] s ∧ ¬s.AsNew) ∧
    ∃ s, (system {}).Reachable
      [.startedListening, .startThrew, .startedListening, .started 2, .stopped 0] s ∧
      s.running = false ∧ s.cycleActive = true ∧ s.stopInOperation = false := by
  have hfailed : (system {}).Reachable _ _ :=
    reachable_exec (by decide : ((system {}).exec failRun).isSome = true)
  have hlate : (system {}).Reachable _ _ :=
    reachable_exec (by decide : ((system {}).exec (failRun ++ lateStopRun)).isSome = true)
  rw [show (((system {}).exec failRun).get (by decide)).2 = [.startedListening, .startThrew] by
    decide] at hfailed
  rw [show (((system {}).exec (failRun ++ lateStopRun)).get (by decide)).2 =
    [.startedListening, .startThrew, .startedListening, .started 2, .stopped 0] by decide] at hlate
  exact ⟨⟨_, hfailed, by decide⟩, _, hlate, by decide, by decide, by decide⟩

end Sample

end TcpServer
