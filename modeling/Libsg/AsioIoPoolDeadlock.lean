/-
# The pool and its mutex

`run()` waits for the cycle before it with `m_mutex` held, and for the workers of a
cycle it cannot finish building.  A thread of the pool that is in `stop_async()` by
then waits for `m_mutex`, and neither can go on (`Deadlocked.step`).  `apart` says when
a step keeps the two apart.
-/
import Libsg.AsioIoPoolTrace

open TransitionSystem

namespace AsioIoPool

/-! ## The two waits -/

/-- A thread the pool owns. -/
def Tid.ofPool : Tid → Bool
  | .user _ => false
  | .worker _ | .monitor _ => true

/-- In `stop_async()`, before the lock. -/
def CallPc.stopping : CallPc → Bool
  | .stopLock _ => true
  | _ => false

/-- In `run()`, where it waits for a cycle to finish. -/
def CallPc.waits : CallPc → Bool
  | .runWait | .catchJoin => true
  | _ => false

/-- A thread of the pool waits for the lock, held by a `run()` that waits for the cycle. -/
def Deadlocked (s : State) : Prop :=
  ∃ p u, p.ofPool = true ∧ (s.callers p).stopping = true ∧ s.mutex = some u ∧
    (s.callers u).waits = true

/-- The threads of the pool that there are or were. -/
def State.poolThreads (s : State) : List Tid :=
  s.workers.map .worker ++ (List.range s.monitorCount).map .monitor

/-- A thread of the pool is in `stop_async()`, before the lock. -/
def State.stopping (s : State) : Bool := s.poolThreads.any fun p => (s.callers p).stopping

/-- The lock is held by a `run()` that waits for a cycle to finish. -/
def State.waiting (s : State) : Bool :=
  match s.mutex with
  | some u => (s.callers u).waits
  | none => false

/-- The next step of the call may be one to a wait for a cycle. -/
def CallPc.toWait (stopped : Bool) : CallPc → Bool
  | .runStopped => stopped
  | .catchStop => true
  | _ => false

def Call.stops : Call → Bool
  | .stopAsync | .restart => true
  | .run | .waitForStop => false

/-- A thread of the pool does not call `stop_async()` while a `run()` waits for the cycle, and no
`run()` starts to wait while a thread of the pool is in `stop_async()`, before the lock. -/
def apart (s : State) : Action → Prop
  | .call p c => ¬(p.ofPool = true ∧ c.stops = true ∧ s.waiting = true)
  | .caller u _ => ¬((s.callers u).toWait s.stopped = true ∧ s.stopping = true)
  | _ => True

instance (s : State) (a : Action) : Decidable (apart s a) := by
  cases a <;> unfold apart <;> infer_instance

/-! ## Who makes calls -/

/-- A worker makes calls inside a handler only. -/
structure HandlerInv (s : State) : Prop where
  unborn : ∀ w, s.workerCount ≤ w → s.workerPc w = .unborn
  inside : ∀ w, s.callers (.worker w) ≠ .idle → s.workerPc w = .inHandler

section Step

variable {C : Config} {s s' : State} {a : Action} {es : List Event}

theorem CallPc.Locks.ne_idle {pc pc' : CallPc} (h : pc.Locks pc') : pc ≠ .idle := by
  cases h <;> nofun

theorem CallPc.Unlocks.ne_idle {t : Tid} {pc pc' : CallPc} (h : pc.Unlocks t pc' es) :
    pc ≠ .idle := by
  cases h <;> nofun

namespace HandlerInv

/-- A call that was there moves on. -/
theorem caller (h : HandlerInv s) {t : Tid} {pc : CallPc}
    (hcallers : s'.callers = Function.update s.callers t pc) (hworker : s'.workerPc = s.workerPc)
    (hcount : s'.workerCount = s.workerCount)
    (hcall : s.callers t ≠ .idle ∨ ∀ w, t = .worker w → s.workerPc w = .inHandler) :
    HandlerInv s' := by
  refine ⟨?_, fun w hw => ?_⟩
  · rw [hcount, hworker]
    exact h.unborn
  · rw [hworker]
    by_cases hwt : t = .worker w
    · subst hwt
      rcases hcall with hold | hnew
      · exact h.inside w hold
      · exact hnew w rfl
    · rw [hcallers, Function.update_of_ne (Ne.symm hwt)] at hw
      exact h.inside w hw

theorem idle (h : HandlerInv s) {w : ℕ} (hpc : s.workerPc w ≠ .inHandler) :
    s.callers (.worker w) = .idle := by
  by_contra hcall
  exact hpc (h.inside w hcall)

/-- A worker moves on that makes no call. -/
theorem worker (h : HandlerInv s) {w : ℕ} {pc : WorkerPc}
    (hworker : s'.workerPc = Function.update s.workerPc w pc) (hcallers : s'.callers = s.callers)
    (hcount : w < s'.workerCount) (hle : s.workerCount ≤ s'.workerCount)
    (hidle : s.callers (.worker w) = .idle) : HandlerInv s' := by
  refine ⟨fun v hv => ?_, fun v hv => ?_⟩
  · rw [hworker, Function.update_of_ne (by omega)]
    exact h.unborn v (by omega)
  · rw [hcallers] at hv
    rw [hworker]
    by_cases hvw : v = w
    · subst hvw
      exact absurd hidle hv
    · rw [Function.update_of_ne hvw]
      exact h.inside v hv

theorem step (h : HandlerInv s) (hm : Move C s a es s') : HandlerInv s' := by
  cases hm with
  | enters t c hpc hmay =>
    refine h.caller (t := t) rfl rfl rfl (.inr fun w hw => ?_)
    subst hw
    simpa [State.mayCall] using hmay
  | advances t ok pc g b hpc => exact h.caller (t := t) rfl rfl rfl (.inl hpc.ne_idle)
  | locks t pc hpc hfree => exact h.caller (t := t) rfl rfl rfl (.inl hpc.ne_idle)
  | unlocks t pc hpc => exact h.caller (t := t) rfl rfl rfl (.inl hpc.ne_idle)
  | restarts t hpc | activates t hpc | creates t hpc | stops t r hpc | catchStops t ok hpc
  | catchJoins t hpc hall | catchDeactivates t hpc =>
    exact h.caller (t := t) rfl rfl rfl (.inl (by simp [hpc]))
  | spawns t i hpc hlt =>
    have hcaller : HandlerInv (s.setCaller t (.runSpawn (i + 1))) :=
      h.caller (t := t) rfl rfl rfl (.inl (by simp [hpc]))
    refine hcaller.worker (w := s.workerCount) rfl rfl (Nat.lt_succ_self _) (Nat.le_succ _)
      (hcaller.idle ?_)
    show s.workerPc s.workerCount ≠ .inHandler
    rw [h.unborn _ (Nat.le_refl _)]
    simp
  | workerMoves w pc hpc =>
    refine h.worker (w := w) rfl rfl ?_ (Nat.le_refl _) ?_
    · show w < s.workerCount
      by_contra hge
      rw [h.unborn w (by omega)] at hpc
      cases hpc
    · cases hpc' : s.workerPc w <;> rw [hpc'] at hpc <;> cases hpc
      case inHandler.handlerEnds hidle => exact hidle
      all_goals exact h.idle (by simp [hpc'])
  | joins | monitorMoves | deactivates | contextStops => exact ⟨h.unborn, h.inside⟩

end HandlerInv

end Step

/-- What holds along every run. -/
structure PoolInv (s : State) : Prop where
  lock : LockInv s
  cycle : CycleInv s
  newest : NewestInv s
  workers : WorkerInv s
  callback : CallbackInv s
  handler : HandlerInv s

section Step

variable {C : Config} {tr : List Event} {s s' : State} {a : Action} {es : List Event}

theorem PoolInv.step (h : PoolInv s) (hm : Move C s a es s') : PoolInv s' :=
  ⟨h.lock.step hm, h.cycle.step h.lock hm, h.newest.step h.cycle hm,
    h.workers.step h.lock h.cycle hm, h.callback.step h.newest hm, h.handler.step hm⟩

theorem poolInv (h : (system C).Reachable tr s) : PoolInv s := by
  have htrace := traceInv h
  refine ⟨htrace.lock, htrace.cycle, htrace.newest, htrace.workers, htrace.callback, ?_⟩
  refine Run.invariant (I := fun _ => HandlerInv) ?_ ?_ h
  · exact ⟨fun _ _ => rfl, fun _ hcall => absurd rfl hcall⟩
  · exact fun tr s a s' es _ _ hstep ih => ih.step (step_move hstep)

/-! ## The deadlock -/

/-- A thread of the pool makes a call only while its cycle is active. -/
theorem PoolInv.active (h : PoolInv s) {p : Tid} (hpool : p.ofPool = true)
    (hcall : s.callers p ≠ .idle) : s.cycleActive = true ∧ p ∈ s.poolThreads := by
  cases p with
  | user n => cases hpool
  | worker w =>
    have hmem := h.workers.listed w (by rw [h.handler.inside w hcall]; rfl)
    refine ⟨?_, List.mem_append_left _ (List.mem_map_of_mem hmem)⟩
    by_contra hno
    rw [h.workers.inactive (Bool.eq_false_iff.mpr hno)] at hmem
    cases hmem
  | monitor k =>
    have hruns : (s.monitorPc k).runs = true := by rw [h.callback.inside k hcall]; rfl
    have hlt := h.newest.newest hruns
    exact ⟨h.cycle.own.flagged (.monitor k) hruns, List.mem_append_right _
      (List.mem_map_of_mem (List.mem_range.mpr (by omega)))⟩

theorem ofPool_of_mem {p : Tid} (h : p ∈ s.poolThreads) : p.ofPool = true := by
  rcases List.mem_append.mp h with hw | hk
  · obtain ⟨w, -, rfl⟩ := List.mem_map.mp hw
    rfl
  · obtain ⟨k, -, rfl⟩ := List.mem_map.mp hk
    rfl

theorem CallPc.ne_idle_of_stopping {pc : CallPc} (h : pc.stopping = true) : pc ≠ .idle := by
  rintro rfl
  cases h

theorem State.waiting_iff : s.waiting = true ↔ ∃ u, s.mutex = some u ∧ (s.callers u).waits = true := by
  unfold State.waiting
  split
  · next u hmutex =>
    constructor
    · intro hu
      exact ⟨u, hmutex, hu⟩
    · rintro ⟨v, hv, hwaits⟩
      rw [hmutex] at hv
      cases hv
      exact hwaits
  · next hmutex =>
    constructor
    · nofun
    · rintro ⟨v, hv, -⟩
      rw [hmutex] at hv
      cases hv

/-- The deadlock is the two waits at once. -/
theorem PoolInv.deadlocked_iff (h : PoolInv s) :
    Deadlocked s ↔ s.stopping = true ∧ s.waiting = true := by
  rw [State.waiting_iff]
  constructor
  · rintro ⟨p, u, hpool, hp, hmutex, hu⟩
    refine ⟨List.any_eq_true.mpr ⟨p, ?_, hp⟩, u, hmutex, hu⟩
    exact (h.active hpool (CallPc.ne_idle_of_stopping hp)).2
  · rintro ⟨hstopping, u, hmutex, hu⟩
    obtain ⟨p, hmem, hp⟩ := List.any_eq_true.mp hstopping
    exact ⟨p, u, ofPool_of_mem hmem, hp, hmutex, hu⟩

/-- Neither side can go on: the cycle does not end before the handler or the callback does, and
the lock is not released before the cycle ends. -/
theorem Deadlocked.step (h : Deadlocked s) (hinv : PoolInv s) (hm : Move C s a es s') :
    Deadlocked s' := by
  obtain ⟨p, u, hpool, hp, hmutex, hu⟩ := h
  have hlocked : (s.callers u).locked = true := by
    cases hpc : s.callers u <;> rw [hpc] at hu <;> first | rfl | cases hu
  have hactive := (hinv.active hpool (CallPc.ne_idle_of_stopping hp)).1
  -- a call that moves on is neither of the two
  have hothers {t : Tid} {pc : CallPc} (hcallers : s'.callers = Function.update s.callers t pc)
      (hkeeps : s'.mutex = s.mutex) (hstopping : (s.callers t).stopping = false)
      (hwaits : (s.callers t).waits = false) : Deadlocked s' := by
    refine ⟨p, u, hpool, ?_, hkeeps.trans hmutex, ?_⟩
    · rw [hcallers, Function.update_of_ne]
      · exact hp
      · rintro rfl
        rw [hp] at hstopping
        cases hstopping
    · rw [hcallers, Function.update_of_ne]
      · exact hu
      · rintro rfl
        rw [hu] at hwaits
        cases hwaits
  cases hm with
  | enters t c hpc hmay => exact hothers (t := t) rfl rfl (by rw [hpc]; rfl) (by rw [hpc]; rfl)
  | advances t ok pc g b hpc =>
    refine hothers (t := t) rfl rfl ?_ ?_ <;> cases hpc' : s.callers t <;> rw [hpc'] at hpc <;>
      cases hpc <;> try rfl
    next hinactive =>
      rw [hactive] at hinactive
      cases hinactive
  | locks t pc hpc hfree =>
    rw [hmutex] at hfree
    cases hfree
  | unlocks t pc hpc =>
    have htu : t = u := by
      refine hinv.lock.unique ?_ hlocked
      cases hpc' : s.callers t <;> rw [hpc'] at hpc <;> cases hpc <;> rfl
    subst htu
    cases hpc' : s.callers t <;> rw [hpc'] at hpc hu <;> cases hpc <;> cases hu
  | restarts t hpc | activates t hpc | spawns t i hpc hlt | creates t hpc | stops t r hpc
  | catchStops t ok hpc | catchDeactivates t hpc =>
    exact hothers (t := t) rfl rfl (by rw [hpc]; rfl) (by rw [hpc]; rfl)
  | catchJoins t hpc hall =>
    -- the workers have not all left, and no monitor is there yet
    exfalso
    cases p with
    | user n => cases hpool
    | worker w =>
      have hpc := hinv.handler.inside w (CallPc.ne_idle_of_stopping hp)
      rw [hall w (hinv.workers.listed w (by rw [hpc]; rfl))] at hpc
      cases hpc
    | monitor k =>
      have hruns : (s.monitorPc k).runs = true := by
        rw [hinv.callback.inside k (CallPc.ne_idle_of_stopping hp)]
        rfl
      have hbuilds : s.owns (.caller t) = true := by
        show (s.callers t).builds = true
        rw [hpc]
        rfl
      cases hinv.cycle.own.unique (.monitor k) (.caller t) hruns hbuilds
  | workerMoves | joins | monitorMoves | deactivates | contextStops =>
    exact ⟨p, u, hpool, hp, hmutex, hu⟩

theorem CallPc.Advance.toWait {t : Tid} {pc pc' : CallPc} (h : pc.Advance C s t pc' es) :
    pc'.stopping = false ∧ (pc'.waits = true → pc.toWait s.stopped = true) := by
  cases h with
  | winding hstopped => exact ⟨rfl, fun _ => hstopped⟩
  | _ => exact ⟨rfl, nofun⟩

theorem Call.entry_waits (c : Call) : c.entry.waits = false := by
  cases c <;> rfl

/-- Who gets into the deadlock. -/
theorem Deadlocked.entered (h : Deadlocked s') (hm : Move C s a es s') :
    Deadlocked s ∨ (∃ p c, a = .call p c ∧ p.ofPool = true ∧ c.stops = true ∧
        ∃ u, s.mutex = some u ∧ (s.callers u).waits = true) ∨
      ∃ u ok, a = .caller u ok ∧ (s.callers u).toWait s.stopped = true ∧
        ∃ p, p.ofPool = true ∧ (s.callers p).stopping = true := by
  obtain ⟨p, u, hpool, hp, hmutex, hu⟩ := h
  -- a call that comes to neither wait
  have hkeep {t : Tid} {pc : CallPc} (hcallers : s'.callers = Function.update s.callers t pc)
      (hsame : s'.mutex = s.mutex) (hstopping : pc.stopping = false) (hwaits : pc.waits = false) :
      Deadlocked s := by
    rw [hcallers] at hp hu
    refine ⟨p, u, hpool, ?_, hsame ▸ hmutex, ?_⟩
    · by_cases hpt : p = t
      · rw [hpt, Function.update_self, hstopping] at hp
        cases hp
      · rwa [Function.update_of_ne hpt] at hp
    · by_cases hut : u = t
      · rw [hut, Function.update_self, hwaits] at hu
        cases hu
      · rwa [Function.update_of_ne hut] at hu
  -- a call that comes to the wait of `run()`
  have hwait {t : Tid} {pc : CallPc} (hcallers : s'.callers = Function.update s.callers t pc)
      (hstopping : pc.stopping = false) : ∃ p, p.ofPool = true ∧ (s.callers p).stopping = true := by
    refine ⟨p, hpool, ?_⟩
    rw [hcallers] at hp
    by_cases hpt : p = t
    · rw [hpt, Function.update_self, hstopping] at hp
      cases hp
    · rwa [Function.update_of_ne hpt] at hp
  cases hm with
  | enters t c hpc hmay =>
    by_cases hstops : c.stops = true
    · have hut : u ≠ t := by
        rintro rfl
        rw [show (s.setCaller u c.entry).callers u = c.entry from Function.update_self _ _ _,
          c.entry_waits] at hu
        cases hu
      have hu' : (s.callers u).waits = true := by
        simpa [State.setCaller, hut] using hu
      by_cases hpt : p = t
      · exact .inr (.inl ⟨t, c, rfl, hpt ▸ hpool, hstops, u, hmutex, hu'⟩)
      · exact .inl ⟨p, u, hpool, by simpa [State.setCaller, hpt] using hp, hmutex, hu'⟩
    · refine .inl (hkeep (t := t) rfl rfl ?_ c.entry_waits)
      cases c <;> first | rfl | exact absurd rfl hstops
  | advances t ok pc g b hpc =>
    obtain ⟨hstopping, hwaits⟩ := hpc.toWait
    by_cases hpcwaits : pc.waits = true
    · exact .inr (.inr ⟨t, ok, rfl, hwaits hpcwaits, hwait (t := t) rfl hstopping⟩)
    · exact .inl (hkeep (t := t) rfl rfl hstopping (Bool.eq_false_iff.mpr hpcwaits))
  | locks t pc hpc hfree =>
    have hut : t = u := Option.some.inj hmutex
    subst hut
    have hwaits : pc.waits = true := by simpa [State.setCaller] using hu
    cases hpc' : s.callers t <;> rw [hpc'] at hpc <;> cases hpc <;> cases hwaits
  | unlocks t pc hpc => cases hmutex
  | restarts t hpc | activates t hpc | spawns t i hpc hlt | creates t hpc | stops t r hpc
  | catchJoins t hpc hall | catchDeactivates t hpc =>
    exact .inl (hkeep (t := t) rfl rfl rfl rfl)
  | catchStops t ok hpc =>
    exact .inr (.inr ⟨t, ok, rfl, by rw [hpc]; rfl, hwait (t := t) rfl rfl⟩)
  | workerMoves | joins | monitorMoves | deactivates | contextStops =>
    exact .inl ⟨p, u, hpool, hp, hmutex, hu⟩

/-- A thread of the pool that calls `stop_async()` while a `run()` waits for the cycle. -/
theorem deadlocked_of_call {p : Tid} {c : Call} (hstep : step C s (.call p c) = some (s', es))
    (hpool : p.ofPool = true) (hstops : c.stops = true) (hwaiting : s.waiting = true) :
    Deadlocked s' := by
  obtain ⟨u, hmutex, hu⟩ := State.waiting_iff.mp hwaiting
  unfold step at hstep
  simp only at hstep
  split at hstep
  · next hcond =>
    cases hstep
    have hup : u ≠ p := by
      rintro rfl
      rw [hcond.1] at hu
      cases hu
    refine ⟨p, u, hpool, ?_, hmutex, ?_⟩
    · cases c <;> first | (simp [State.setCaller, Call.entry, CallPc.stopping]; done) | cases hstops
    · simpa [State.setCaller, hup] using hu
  · cases hstep

/-- A `run()` that starts to wait while a thread of the pool is in `stop_async()`. -/
theorem deadlocked_of_caller (hinv : PoolInv s) {u : Tid} {ok : Bool}
    (hstep : step C s (.caller u ok) = some (s', es))
    (htoWait : (s.callers u).toWait s.stopped = true) (hstopping : s.stopping = true) :
    Deadlocked s' := by
  obtain ⟨p, hmem, hp⟩ := List.any_eq_true.mp hstopping
  have hup : p ≠ u := by
    rintro rfl
    cases hpc : s.callers p <;> rw [hpc] at hp htoWait <;> first | (cases hp; done) | cases htoWait
  have hlocked : (s.callers u).locked = true := by
    cases hpc : s.callers u <;> rw [hpc] at htoWait <;> first | rfl | cases htoWait
  have hmutex := hinv.lock u hlocked
  have hwaits : ∃ pc, s'.callers = Function.update s.callers u pc ∧ s'.mutex = s.mutex ∧
      pc.waits = true := by
    have hstep' : callerStep C s u ok = some (s', es) := hstep
    unfold callerStep at hstep'
    cases hpc : s.callers u <;> rw [hpc] at htoWait <;> simp only [hpc] at hstep' <;>
      first | cases htoWait | skip
    case runStopped =>
      have hstopped : s.stopped = true := htoWait
      rw [if_pos hstopped] at hstep'
      cases hstep'
      exact ⟨_, rfl, rfl, rfl⟩
    case catchStop =>
      cases hstep'
      exact ⟨_, rfl, rfl, rfl⟩
  obtain ⟨pc, hcallers, hsame, hpc⟩ := hwaits
  refine ⟨p, u, ofPool_of_mem hmem, ?_, hsame.trans hmutex, ?_⟩
  · rw [hcallers, Function.update_of_ne hup]
    exact hp
  · rw [hcallers, Function.update_self]
    exact hpc

end Step

/-! ## The result -/

variable {C : Config} {tr : List Event} {s : State}

/-- **A thread of the pool in `stop_async()` never waits for a `run()` that waits for its
cycle**, in a run whose steps keep the two apart; and a step leads into the deadlock exactly
when it does not. -/
theorem stop_async_apart (h : (system C).Run apart tr s) :
    ¬Deadlocked s ∧ ∀ a s' es, step C s a = some (s', es) → (Deadlocked s' ↔ ¬apart s a) := by
  have hapart (s : State) (hinv : PoolInv s) (hs : ¬Deadlocked s) (a : Action) (s' : State)
      (es : List Event) (hstep : step C s a = some (s', es)) : Deadlocked s' ↔ ¬apart s a := by
    constructor
    · intro hdead
      rcases hdead.entered (step_move hstep) with hold | ⟨p, c, rfl, hpool, hstops, hwaiting⟩ |
        ⟨u, ok, rfl, htoWait, p, hpool, hp⟩
      · exact absurd hold hs
      · exact not_not_intro ⟨hpool, hstops, State.waiting_iff.mpr hwaiting⟩
      · refine not_not_intro ⟨htoWait, List.any_eq_true.mpr ⟨p, ?_, hp⟩⟩
        exact (hinv.active hpool (CallPc.ne_idle_of_stopping hp)).2
    · intro hnot
      cases a with
      | call p c =>
        obtain ⟨hpool, hstops, hwaiting⟩ := not_not.mp hnot
        exact deadlocked_of_call hstep hpool hstops hwaiting
      | caller u ok =>
        obtain ⟨htoWait, hstopping⟩ := not_not.mp hnot
        exact deadlocked_of_caller hinv hstep htoWait hstopping
      | _ => exact absurd trivial hnot
  have hnever : ¬Deadlocked s := by
    refine Run.invariant (I := fun _ s => ¬Deadlocked s) ?_ ?_ h
    · rintro ⟨p, u, -, hp, -⟩
      cases hp
    · intro tr s a s' es hrun hC hstep ih hdead
      exact (hapart s (poolInv hrun.reachable) ih a s' es hstep).mp hdead hC
  exact ⟨hnever, hapart s (poolInv h.reachable) hnever⟩

/-- A `run()` that comes when the stopped callback is over, and the callback has called
`stop_async()`. -/
theorem stop_async_apart_callback : ∃ tr s, (system guarded).Run apart tr s ∧ ¬Deadlocked s := by
  have hrun := run_exec (M := system guarded) (C := apart)
    (l := calls (.user 0) .run 11 ++ calls (.user 1) .stopAsync 5 ++ [.workerExits 0] ++
      List.replicate 3 (.monitor 0) ++ calls (.monitor 0) .stopAsync 5 ++
      List.replicate 4 (.monitor 0) ++ calls (.user 1) .run 11)
    (by decide +kernel) (by decide +kernel)
  exact ⟨_, _, hrun, (stop_async_apart hrun).1⟩

theorem Deadlocked.forever {es : List Event} {s' : State} (hinv : PoolInv s) (hdead : Deadlocked s)
    (h : (system C).RunFrom anyStep s es s') : Deadlocked s' := by
  have hboth : PoolInv s' ∧ Deadlocked s' := by
    refine h.invariant (I := fun _ t => PoolInv t ∧ Deadlocked t) ⟨hinv, hdead⟩ ?_
    intro es t a u es' _ _ hstep ih
    exact ⟨ih.1.step (step_move hstep), ih.2.step ih.1 (step_move hstep)⟩
  exact hboth.2

/-- During the stopped callback another thread calls `run()`, which waits for the cycle; then the
callback calls `stop_async()`.  Nothing that follows ends it. -/
theorem stop_async_deadlock : ∃ tr s, (system guarded).Reachable tr s ∧ Deadlocked s ∧
    ∀ es s', (system guarded).RunFrom anyStep s es s' → Deadlocked s' := by
  have hrun := reachable_exec (M := system guarded)
    (l := calls (.user 0) .run 11 ++ calls (.user 1) .stopAsync 5 ++ [.workerExits 0] ++
      List.replicate 3 (.monitor 0) ++ calls (.user 1) .run 4 ++ [.call (.monitor 0) .stopAsync])
    (by decide +kernel)
  have hdead := (poolInv hrun).deadlocked_iff.mpr (by decide +kernel)
  exact ⟨_, _, hrun, hdead, fun es s' => hdead.forever (poolInv hrun)⟩

end AsioIoPool
