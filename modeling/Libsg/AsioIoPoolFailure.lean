/-
# A `run()` that fails

The catch block of `asio_io_pool::run()`: the guard is dropped, the context stopped, the
workers that did start are joined, and the cycle is over before the exception leaves.  An
attempt can fail at every worker and at the monitor; `m_workers.reserve()` fails where the
first worker does.

* `GuardInv`, `AttemptInv` : what holds at each place of an attempt and of its catch block;
* `BirthInv` : the threads that `m_workers` and `m_cb_thread` own have been started;
* `throws_next` : the catch block comes to its end, unless a handler is inside a call;
* `starts_next` : the next `run()` that does not fail starts a cycle;
* `run_throws_atomic` : the result.
-/
import Libsg.AsioIoPoolDeadlock

open TransitionSystem

namespace AsioIoPool

/-- `asio_io_pool::state_t` -/
inductive PoolState
  | stopped
  | running
  | stopping
  deriving DecidableEq, Repr

/-- `state()` -/
def State.state (s : State) : PoolState :=
  if !s.cycleActive then .stopped else if s.stopped then .stopping else .running

/-! ## The guard and `m_cb_thread` -/

/-- What a `run()` knows of the guard: installed if it is enabled, from `m_guard.emplace()` on,
and dropped in the catch block. -/
def CallPc.guardIs (C : Config) : CallPc → Option Bool
  | .runActivate | .runSpawn _ | .runMonitor | .runAssign _ | .runReturn _ => some C.guardEnabled
  | .catchStop | .catchJoin | .catchDeactivate | .catchThrow => some false
  | _ => none

/-- What a step of a call makes of the guard, and of `m_cb_thread`. -/
def CallPc.guardAfter (C : Config) (guard : Bool) : CallPc → Bool
  | .runGuard => guard || C.guardEnabled
  | .catchGuard | .stopGuard _ => false
  | _ => guard

def CallPc.cbThreadAfter (cbThread : Option ℕ) : CallPc → Option ℕ
  | .runAssign k => some k
  | _ => cbThread

/-- What a call learns of the guard on its way from one place to the next. -/
def CallPc.GuardNext (C : Config) (pc pc' : CallPc) : Prop :=
  pc'.guardIs C = none ∨ pc'.guardIs C = pc.guardIs C ∨ (pc = .runGuard ∧ pc' = .runActivate) ∨
    (pc = .catchGuard ∧ pc' = .catchStop)

theorem CallPc.locked_of_guardIs {C : Config} {pc : CallPc} {g : Bool}
    (h : pc.guardIs C = some g) : pc.locked = true := by
  cases pc <;> first | rfl | cases h

theorem CallPc.guardIs_entry (C : Config) (c : Call) : c.entry.guardIs C = none := by
  cases c <;> rfl

theorem CallPc.guardIs_ite (C : Config) (r : Bool) :
    (if r then CallPc.runCheck else .idle).guardIs C = none := by
  cases r <;> rfl

section Guard

variable {C : Config} {s s' : State} {a : Action} {es : List Event}

/-- What a step of a call does to the guard and to `m_cb_thread`. -/
theorem callerStep_guard {t : Tid} {ok : Bool} (h : callerStep C s t ok = some (s', es)) :
    s'.guard = (s.callers t).guardAfter C s.guard ∧
      s'.cbThread = (s.callers t).cbThreadAfter s.cbThread ∧
      ∃ pc, s'.callers = Function.update s.callers t pc ∧ (s.callers t).GuardNext C pc := by
  unfold callerStep at h
  split at h <;> rename_i hpc <;> rw [hpc] <;>
    try (cases h <;> exact ⟨rfl, rfl, _, rfl, by simp [CallPc.GuardNext, CallPc.guardIs]⟩)
  all_goals
    split at h <;>
      try (cases h <;> first
        | exact ⟨rfl, rfl, _, rfl, .inl (CallPc.guardIs_ite C _)⟩
        | exact ⟨rfl, rfl, _, rfl, by simp [CallPc.GuardNext, CallPc.guardIs]⟩)
  all_goals
    split at h <;> cases h <;>
      exact ⟨rfl, rfl, _, rfl, by simp [CallPc.GuardNext, CallPc.guardIs]⟩

theorem monitorStep_guard {k : ℕ} (h : monitorStep s k = some (s', es)) :
    s'.guard = s.guard ∧ s'.cbThread = s.cbThread ∧ s'.callers = s.callers := by
  unfold monitorStep at h
  split at h <;> try (cases h <;> exact ⟨rfl, rfl, rfl⟩)
  all_goals
    split at h
    · cases h
      exact ⟨rfl, rfl, rfl⟩
    · cases h

/-- **Who changes the guard and `m_cb_thread`.** -/
theorem step_guard (h : step C s a = some (s', es)) :
    (∃ t pc, s'.callers = Function.update s.callers t pc ∧ (s.callers t).GuardNext C pc ∧
      s'.guard = (s.callers t).guardAfter C s.guard ∧
      s'.cbThread = (s.callers t).cbThreadAfter s.cbThread) ∨
    (s'.guard = s.guard ∧ s'.cbThread = s.cbThread ∧ s'.callers = s.callers) := by
  cases a with
  | caller t ok =>
    obtain ⟨hguard, hcb, pc, hcallers, hnext⟩ := callerStep_guard h
    exact .inl ⟨t, pc, hcallers, hnext, hguard, hcb⟩
  | monitor k => exact .inr (monitorStep_guard h)
  | call t c =>
    rw [step] at h
    split at h
    · rename_i hcond
      cases h
      refine .inl ⟨t, _, rfl, .inl (CallPc.guardIs_entry C c), ?_, ?_⟩ <;> rw [hcond.1] <;> rfl
    · cases h
  | contextStops =>
    cases h
    exact .inr ⟨rfl, rfl, rfl⟩
  | _ =>
    rw [step] at h
    split at h
    · cases h
      exact .inr ⟨rfl, rfl, rfl⟩
    · cases h

/-- The guard is there only if it is enabled, and a `run()` that knows of it is right. -/
structure GuardInv (C : Config) (s : State) : Prop where
  enabled : s.guard = true → C.guardEnabled = true
  known : ∀ t g, (s.callers t).guardIs C = some g → s.guard = g

theorem CallPc.guardAfter_of_known {pc : CallPc} {g guard : Bool}
    (h : pc.guardIs C = some g) : pc.guardAfter C guard = guard := by
  cases pc <;> first | rfl | cases h

/-- Only a call that holds the lock changes the guard. -/
theorem CallPc.guardAfter_of_unlocked {pc : CallPc} {guard : Bool} (h : pc.locked = false) :
    pc.guardAfter C guard = guard := by
  cases pc <;> first | rfl | cases h

theorem CallPc.guardAfter_enabled {pc : CallPc} {guard : Bool}
    (h : guard = true → C.guardEnabled = true) (hafter : pc.guardAfter C guard = true) :
    C.guardEnabled = true := by
  cases pc with
  | runGuard =>
    rcases (Bool.or_eq_true _ _).mp hafter with hold | hnew
    · exact h hold
    · exact hnew
  | catchGuard | stopGuard => cases hafter
  | _ => exact h hafter

theorem GuardInv.step (h : GuardInv C s) (hl : LockInv s) (hstep : step C s a = some (s', es)) :
    GuardInv C s' := by
  rcases step_guard hstep with ⟨t, pc, hcallers, hnext, hguard, -⟩ | ⟨hguard, -, hcallers⟩
  · refine ⟨fun hset => ?_, fun u g hu => ?_⟩
    · rw [hguard] at hset
      exact CallPc.guardAfter_enabled h.enabled hset
    · rw [hcallers] at hu
      rw [hguard]
      by_cases hut : u = t
      · subst hut
        rw [Function.update_self] at hu
        rcases hnext with hnone | hsame | ⟨hpc, rfl⟩ | ⟨hpc, rfl⟩
        · rw [hnone] at hu
          cases hu
        · rw [hsame] at hu
          rw [CallPc.guardAfter_of_known hu, h.known u g hu]
        · cases hu
          rw [hpc]
          show (s.guard || C.guardEnabled) = C.guardEnabled
          cases hg : s.guard with
          | false => rfl
          | true => rw [h.enabled hg]; rfl
        · cases hu
          rw [hpc]
          rfl
      · rw [Function.update_of_ne hut] at hu
        -- the step is not that of the holder of the lock
        have hlocked := CallPc.locked_of_guardIs hu
        have hfree : (s.callers t).locked = false :=
          Bool.eq_false_iff.mpr fun ht => hut (hl.unique hlocked ht)
        rw [CallPc.guardAfter_of_unlocked hfree, h.known u g hu]
  · refine ⟨fun hset => h.enabled (hguard ▸ hset), fun u g hu => ?_⟩
    rw [hguard]
    exact h.known u g (hcallers ▸ hu)

end Guard

/-! ## Attempts -/

/-- A `run()` that has activated a cycle and created no monitor. -/
def CallPc.attempts (pc : CallPc) : Bool := pc.builds || pc = .catchThrow

/-- The events of a monitor. -/
def Event.ofMonitor : Event → Bool
  | .spawned _ | .callback _ | .callbackEnded _ | .ended _ => true
  | _ => false

/-- The events since a cycle was last activated. -/
def sinceBegan (tr : List Event) : List Event :=
  tr.foldl (fun since e => if e = .began then [] else since ++ [e]) []

theorem sinceBegan_append {tr es : List Event} (h : .began ∉ es) :
    sinceBegan (tr ++ es) = sinceBegan tr ++ es := by
  induction es using List.reverseRecOn with
  | nil => rw [List.append_nil, List.append_nil]
  | append_singleton es e ih =>
    rw [List.mem_append, List.mem_singleton, not_or] at h
    rw [← List.append_assoc, sinceBegan, List.foldl_concat, if_neg (Ne.symm h.2), ← sinceBegan,
      ih h.1, List.append_assoc]

theorem sinceBegan_began (tr : List Event) : sinceBegan (tr ++ [.began]) = [] := by
  rw [sinceBegan, List.foldl_concat, if_pos rfl]

theorem CallPc.locked_of_attempts {pc : CallPc} (h : pc.attempts = true) : pc.locked = true := by
  cases pc <;> first | rfl | cases h

/-- No monitor has done anything in an attempt, and where it throws the cycle is over and the
context stopped. -/
structure AttemptInv (tr : List Event) (s : State) : Prop where
  threw : ∀ t, s.callers t = .catchThrow → s.cycleActive = false ∧ s.stopped = true
  quiet : ∀ t, (s.callers t).attempts = true → ∀ e ∈ sinceBegan tr, e.ofMonitor = false

section Attempt

variable {C : Config} {tr : List Event} {s s' : State} {a : Action} {es : List Event}

theorem CallPc.Advance.attempts {t : Tid} {pc pc' : CallPc} (h : pc.Advance C s t pc' es) :
    (pc'.attempts = true → pc.attempts = true) ∧ pc' ≠ .catchThrow ∧
      ∀ e ∈ es, e ≠ .began ∧ e.ofMonitor = false := by
  cases h <;> exact ⟨by simp [CallPc.attempts, CallPc.builds], nofun, by simp [Event.ofMonitor]⟩

theorem CallPc.Unlocks.attempts {t : Tid} {pc pc' : CallPc} (h : pc.Unlocks t pc' es) :
    pc'.attempts = false ∧ ∀ e ∈ es, e ≠ .began ∧ e.ofMonitor = false := by
  cases h <;> exact ⟨rfl, by simp [Event.ofMonitor]⟩

namespace AttemptInv

/-- There is no monitor beside an attempt. -/
theorem no_monitor (h : AttemptInv tr s) (hc : CycleInv s) {t : Tid}
    (ht : (s.callers t).attempts = true) (k : ℕ) : (s.monitorPc k).runs = false := by
  rw [Bool.eq_false_iff]
  intro hruns
  rcases (Bool.or_eq_true _ _).mp ht with hbuilds | hthrow
  · cases hc.own.unique (.monitor k) (.caller t) hruns hbuilds
  · have hactive := hc.own.flagged (.monitor k) hruns
    rw [(h.threw t (of_decide_eq_true hthrow)).1] at hactive
    cases hactive

/-- What is added to the events of the attempt is not of a monitor. -/
theorem quiet_append (hquiet : ∀ e ∈ sinceBegan tr, e.ofMonitor = false)
    (hes : ∀ e ∈ es, e ≠ .began ∧ e.ofMonitor = false) :
    ∀ e ∈ sinceBegan (tr ++ es), e.ofMonitor = false := by
  intro e he
  rw [sinceBegan_append fun hb => (hes _ hb).1 rfl] at he
  rcases List.mem_append.mp he with hold | hnew
  · exact hquiet e hold
  · exact (hes e hnew).2

/-- A call moves on, and what it shows is not of a monitor. -/
theorem caller (h : AttemptInv tr s) {t : Tid} {pc : CallPc}
    (hcallers : s'.callers = Function.update s.callers t pc)
    (hes : ∀ e ∈ es, e ≠ .began ∧ e.ofMonitor = false)
    (hactive : s'.cycleActive = s.cycleActive) (hstopped : s.stopped = true → s'.stopped = true)
    (hpc : pc.attempts = true → (s.callers t).attempts = true) (hthrow : pc ≠ .catchThrow) :
    AttemptInv (tr ++ es) s' := by
  refine ⟨fun u hu => ?_, fun u hu => ?_⟩
  · rw [hcallers] at hu
    by_cases hut : u = t
    · subst hut
      rw [Function.update_self] at hu
      exact absurd hu hthrow
    · rw [Function.update_of_ne hut] at hu
      exact ⟨hactive.trans (h.threw u hu).1, hstopped (h.threw u hu).2⟩
  · rw [hcallers] at hu
    refine quiet_append (h.quiet u ?_) hes
    by_cases hut : u = t
    · subst hut
      rw [Function.update_self] at hu
      exact hpc hu
    · rwa [Function.update_of_ne hut] at hu

/-- The holder of the lock moves on, to where there is no attempt, or a new one. -/
theorem holder (hl : LockInv s) {t : Tid} {pc : CallPc}
    (hlocked : (s.callers t).locked = true)
    (hcallers : s'.callers = Function.update s.callers t pc)
    (hpc : pc.attempts = true → pc ≠ .catchThrow ∧ sinceBegan (tr ++ es) = []) :
    AttemptInv (tr ++ es) s' := by
  have hself {u : Tid} (hu : (s'.callers u).attempts = true) : u = t := by
    by_contra hut
    rw [hcallers, Function.update_of_ne hut] at hu
    exact hut (hl.unique (CallPc.locked_of_attempts hu) hlocked)
  refine ⟨fun u hu => ?_, fun u hu => ?_⟩
  · have hut := hself (u := u) (by rw [hu]; rfl)
    rw [hut, hcallers, Function.update_self] at hu
    exact absurd hu (hpc (by rw [hu]; rfl)).1
  · have hut := hself hu
    rw [hut, hcallers, Function.update_self] at hu
    rw [(hpc hu).2]
    nofun

/-- Somebody else moves on, and shows nothing unless he is a monitor that runs a cycle. -/
theorem others (h : AttemptInv tr s) (hc : CycleInv s) (hcallers : s'.callers = s.callers)
    (hactive : s'.cycleActive = true → s.cycleActive = true)
    (hstopped : s.stopped = true → s'.stopped = true)
    (hes : es = [] ∨ ∃ k, (s.monitorPc k).runs = true) : AttemptInv (tr ++ es) s' := by
  refine ⟨fun u hu => ?_, fun u hu => ?_⟩
  · obtain ⟨hover, hstop⟩ := h.threw u (hcallers ▸ hu)
    refine ⟨Bool.eq_false_iff.mpr fun hnew => ?_, hstopped hstop⟩
    rw [hactive hnew] at hover
    cases hover
  · rw [hcallers] at hu
    rcases hes with rfl | ⟨k, hruns⟩
    · rw [List.append_nil]
      exact h.quiet u hu
    · rw [h.no_monitor hc hu k] at hruns
      cases hruns

theorem step (h : AttemptInv tr s) (hl : LockInv s) (hc : CycleInv s) (hw : WorkerInv s)
    (hm : Move C s a es s') : AttemptInv (tr ++ es) s' := by
  cases hm with
  | enters t c hpc hmay =>
    exact h.caller (t := t) rfl nofun rfl id (by cases c <;> nofun) (by cases c <;> nofun)
  | advances t ok pc g b hpc =>
    obtain ⟨hattempts, hthrow, hes⟩ := hpc.attempts
    exact h.caller (t := t) rfl hes rfl id hattempts hthrow
  | locks t pc hpc hfree =>
    refine h.caller (t := t) rfl nofun rfl id ?_ ?_ <;>
      cases hpc' : s.callers t <;> rw [hpc'] at hpc <;> cases hpc <;> nofun
  | unlocks t pc hpc =>
    refine h.caller (t := t) rfl hpc.attempts.2 rfl id ?_ ?_
    · rw [hpc.attempts.1]
      nofun
    · rintro rfl
      cases hpc.attempts.1
  | restarts t hpc => exact holder hl (t := t) (by rw [hpc]; rfl) rfl nofun
  | activates t hpc =>
    exact holder hl (t := t) (by rw [hpc]; rfl) rfl fun _ => ⟨nofun, sinceBegan_began tr⟩
  | spawns t i hpc hlt =>
    exact h.caller (t := t) rfl nofun rfl id (fun _ => by rw [hpc]; rfl) nofun
  | creates t hpc => exact holder hl (t := t) (by rw [hpc]; rfl) rfl nofun
  | stops t r hpc => exact h.caller (t := t) rfl nofun rfl (fun _ => rfl) nofun nofun
  | catchStops t ok hpc =>
    exact h.caller (t := t) rfl nofun rfl (fun _ => rfl) (fun _ => by rw [hpc]; rfl) nofun
  | catchJoins t hpc hall =>
    exact h.caller (t := t) rfl nofun rfl id (fun _ => by rw [hpc]; rfl) nofun
  | catchDeactivates t hpc =>
    have hattempts : (s.callers t).attempts = true := by rw [hpc]; rfl
    have hsound := hw.callers t
    rw [hpc] at hsound
    have hes : ∀ e ∈ [Event.failed], e ≠ .began ∧ e.ofMonitor = false := by
      simp [Event.ofMonitor]
    exact ⟨fun u hu => ⟨rfl, hsound.2⟩, fun u hu => quiet_append (h.quiet t hattempts) hes⟩
  | workerMoves w pc hpc => exact h.others hc rfl id id (.inl rfl)
  | joins k hpc hall => exact h.others hc rfl id id (.inl rfl)
  | monitorMoves k pc i hpc =>
    refine h.others hc rfl id id ?_
    cases hpc' : s.monitorPc k <;> rw [hpc'] at hpc <;> cases hpc
    case ended.exit => exact .inl rfl
    all_goals exact .inr ⟨k, by rw [hpc']; rfl⟩
  | deactivates k hpc =>
    exact h.others hc rfl (fun hnew => nomatch hnew) id (.inr ⟨k, by rw [hpc]; rfl⟩)
  | contextStops => exact h.others hc rfl id (fun _ => rfl) (.inl rfl)

end AttemptInv

end Attempt

/-! ## The threads that are owned -/

/-- Threads in `m_workers` and `m_cb_thread` have been started. -/
structure BirthInv (s : State) : Prop where
  workers : ∀ w ∈ s.workers, s.workerPc w ≠ .unborn
  monitors : ∀ k, k < s.monitorCount → s.monitorPc k ≠ .unborn
  assigned : ∀ j, s.cbThread = some j → j < s.monitorCount

section Birth

variable {C : Config} {tr : List Event} {s s' : State} {a : Action} {es : List Event}

theorem update_ne {β : Type} {f : ℕ → β} {i j : ℕ} {x y : β} (hx : x ≠ y)
    (hf : j ≠ i → f j ≠ y) : Function.update f i x j ≠ y := by
  by_cases hji : j = i
  · subst hji
    rwa [Function.update_self]
  · rw [Function.update_of_ne hji]
    exact hf hji

/-- The threads that a step leaves in `m_workers`, and the monitors that it leaves, are started. -/
theorem Move.started (hm : Move C s a es s') (h : BirthInv s) :
    (∀ w ∈ s'.workers, s'.workerPc w ≠ .unborn) ∧
      (∀ k, k < s'.monitorCount → s'.monitorPc k ≠ .unborn) ∧ s.monitorCount ≤ s'.monitorCount := by
  have hmonitor {k : ℕ} {pc : MonitorPc} (hpc : pc ≠ .unborn) (j : ℕ) (hj : j < s.monitorCount) :
      Function.update s.monitorPc k pc j ≠ .unborn := update_ne hpc fun _ => h.monitors j hj
  cases hm with
  | spawns t i hpc hlt =>
    refine ⟨fun w hw => update_ne nofun fun hne => ?_, h.monitors, Nat.le_refl _⟩
    rcases List.mem_append.mp hw with hold | hnew
    · exact h.workers w hold
    · exact absurd (List.mem_singleton.mp hnew) hne
  | creates t hpc =>
    refine ⟨h.workers, fun k hk => update_ne nofun fun hne => h.monitors k ?_, Nat.le_succ _⟩
    exact Nat.lt_of_le_of_ne (Nat.le_of_lt_succ hk) hne
  | catchJoins => exact ⟨nofun, h.monitors, Nat.le_refl _⟩
  | joins => exact ⟨nofun, hmonitor nofun, Nat.le_refl _⟩
  | workerMoves w pc hpc =>
    refine ⟨fun v hv => update_ne ?_ fun _ => h.workers v hv, h.monitors, Nat.le_refl _⟩
    cases hpc' : s.workerPc w <;> rw [hpc'] at hpc <;> cases hpc <;> nofun
  | monitorMoves k pc i hpc =>
    refine ⟨h.workers, hmonitor ?_, Nat.le_refl _⟩
    cases hpc' : s.monitorPc k <;> rw [hpc'] at hpc <;> cases hpc <;> nofun
  | deactivates => exact ⟨h.workers, hmonitor nofun, Nat.le_refl _⟩
  | _ => exact ⟨h.workers, h.monitors, Nat.le_refl _⟩

theorem BirthInv.step (h : BirthInv s) (hr : ReturnInv tr s)
    (hstep : step C s a = some (s', es)) : BirthInv s' := by
  obtain ⟨hworkers, hmonitors, hle⟩ := (step_move hstep).started h
  refine ⟨hworkers, hmonitors, fun j hj => Nat.lt_of_lt_of_le ?_ hle⟩
  rcases step_guard hstep with ⟨t, pc, -, -, -, hcb⟩ | ⟨-, hcb, -⟩
  · rw [hcb] at hj
    cases hpc : s.callers t with
    | runAssign k =>
      rw [hpc] at hj
      cases hj
      exact (hr.pending t j (by rw [hpc]; rfl)).1
    | _ =>
      rw [hpc] at hj
      exact h.assigned j hj
  · exact h.assigned j (hcb ▸ hj)

end Birth

/-! ## The workers of an attempt -/

/-- A `run()` spawns no more workers than it shall, and all of them before the monitor. -/
def CallPc.Size (C : Config) (s : State) : CallPc → Prop
  | .runSpawn i => i ≤ C.noWorkers
  | .runMonitor => s.workers.length = C.noWorkers
  | _ => True

def SizeInv (C : Config) (s : State) : Prop := ∀ t, (s.callers t).Size C s

section Size

variable {C : Config} {tr : List Event} {s s' : State} {a : Action} {es : List Event}

theorem CallPc.Size.of_not_builds {pc : CallPc} (h : pc.builds = false) : pc.Size C s := by
  cases pc <;> trivial

theorem CallPc.Size.congr {pc : CallPc} (h : pc.Size C s) (hworkers : s'.workers = s.workers) :
    pc.Size C s' := by
  cases pc with
  | runSpawn i => exact h
  | runMonitor => exact (congrArg List.length hworkers).trans h
  | _ => trivial

theorem CallPc.Advance.size {t : Tid} {pc pc' : CallPc} (h : pc.Advance C s t pc' es)
    (hsound : pc.Sound s) (hsize : pc.Size C s) : pc'.Size C s := by
  cases h with
  | spawned i hi =>
    have hlength : s.workers.length = i := hsound
    have hle : i ≤ C.noWorkers := hsize
    show s.workers.length = C.noWorkers
    omega
  | _ => trivial

namespace SizeInv

/-- A call moves on, and the workers stay. -/
theorem caller (h : SizeInv C s) {t : Tid} {pc : CallPc}
    (hcallers : s'.callers = Function.update s.callers t pc) (hworkers : s'.workers = s.workers)
    (hpc : pc.Size C s) : SizeInv C s' := by
  intro u
  rw [hcallers]
  by_cases hut : u = t
  · subst hut
    rw [Function.update_self]
    exact hpc.congr hworkers
  · rw [Function.update_of_ne hut]
    exact (h u).congr hworkers

/-- The `run()` that has the cycle moves on. -/
theorem runner (hc : CycleInv s) {t : Tid} {pc : CallPc} (hbuilds : (s.callers t).builds = true)
    (hcallers : s'.callers = Function.update s.callers t pc) (hpc : pc.Size C s') :
    SizeInv C s' := by
  intro u
  rw [hcallers]
  by_cases hut : u = t
  · subst hut
    rwa [Function.update_self]
  · rw [Function.update_of_ne hut]
    refine .of_not_builds (Bool.eq_false_iff.mpr fun hu => hut ?_)
    injection hc.own.unique (.caller u) (.caller t) hu hbuilds

theorem step (h : SizeInv C s) (hc : CycleInv s) (hw : WorkerInv s) (hm : Move C s a es s') :
    SizeInv C s' := by
  cases hm with
  | enters t c hpc hmay => exact h.caller (t := t) rfl rfl (by cases c <;> trivial)
  | advances t ok pc g b hpc => exact h.caller (t := t) rfl rfl (hpc.size (hw.callers t) (h t))
  | locks t pc hpc hfree =>
    refine h.caller (t := t) rfl rfl ?_
    cases hpc' : s.callers t <;> rw [hpc'] at hpc <;> cases hpc <;> trivial
  | unlocks t pc hpc =>
    refine h.caller (t := t) rfl rfl ?_
    cases hpc' : s.callers t <;> rw [hpc'] at hpc <;> cases hpc <;> trivial
  | activates t hpc => exact h.caller (t := t) rfl rfl (Nat.zero_le _)
  | restarts t | creates t | stops t | catchStops t | catchDeactivates t =>
    exact h.caller (t := t) rfl rfl trivial
  | spawns t i hpc hlt => exact runner hc (t := t) (by rw [hpc]; rfl) rfl hlt
  | catchJoins t hpc hall => exact runner hc (t := t) (by rw [hpc]; rfl) rfl trivial
  | joins k hpc hall =>
    have hruns : (s.monitorPc k).runs = true := by rw [hpc]; rfl
    refine fun u => .of_not_builds (Bool.eq_false_iff.mpr fun hu => ?_)
    cases hc.own.unique (.caller u) (.monitor k) hu hruns
  | workerMoves | monitorMoves | deactivates | contextStops => exact h

end SizeInv

end Size

/-! ## Together -/

section Together

variable {C : Config} {tr : List Event} {s s' : State} {a : Action} {es : List Event}

/-- What holds along every run, of attempts and of the threads that are there. -/
structure FailInv (C : Config) (tr : List Event) (s : State) : Prop where
  pool : PoolInv s
  guard : GuardInv C s
  attempt : AttemptInv tr s
  birth : BirthInv s
  size : SizeInv C s

theorem failInv (h : (system C).Reachable tr s) : FailInv C tr s := by
  refine Run.invariant (I := FailInv C) ?_ ?_ h
  · exact ⟨poolInv .nil, ⟨nofun, nofun⟩, ⟨nofun, nofun⟩, ⟨nofun, nofun, nofun⟩, fun _ => trivial⟩
  · rintro tr s a s' es hrun - hstep ih
    have hm := step_move hstep
    have hp := ih.pool
    exact ⟨hp.step hm, ih.guard.step hp.lock hstep,
      ih.attempt.step hp.lock hp.cycle hp.workers hm,
      ih.birth.step (traceInv hrun).returns hstep, ih.size.step hp.cycle hp.workers hm⟩

end Together

/-! ## The catch block comes to its end -/

/-- The steps of the call of `t`, and those with which workers leave. -/
def cleans (t : Tid) (_ : State) : Action → Prop
  | .caller u _ => u = t
  | .handlerEnds _ | .workerExits _ => True
  | _ => False

section Cleanup

variable {C : Config} {t : Tid} {s s' : State} {es : List Event}

/-- A worker that is there leaves a stopped context. -/
theorem worker_leaves (hstopped : s.stopped = true) {w : ℕ}
    (hidle : s.callers (.worker w) = .idle) (hborn : s.workerPc w ≠ .unborn) :
    (system C).RunFrom (cleans t) s [] (s.setWorker w .finished) := by
  have hexits {u : State} (hu : u.workerPc w = .inRun) (hstop : u.stopped = true) :
      (system C).RunFrom (cleans t) u [] (u.setWorker w .finished) :=
    .single (a := .workerExits w) trivial (if_pos ⟨hu, hstop⟩)
  cases hpc : s.workerPc w with
  | unborn => exact absurd hpc hborn
  | inRun => exact hexits hpc hstopped
  | inHandler =>
    have hends : (system C).RunFrom (cleans t) s [] (s.setWorker w .inRun) :=
      .single (a := .handlerEnds w) trivial (if_pos ⟨hpc, hidle⟩)
    have hrun := hends.append (hexits (Function.update_self w _ s.workerPc) hstopped)
    rw [State.setWorker, State.setWorker, Function.update_idem] at hrun
    exact hrun
  | finished =>
    rw [State.setWorker, ← hpc, Function.update_eq_self]
    exact .nil

/-- All workers of a list leave. -/
theorem workers_leave (ws : List ℕ) (hstopped : s.stopped = true)
    (hidle : ∀ w, s.callers (.worker w) = .idle) (hborn : ∀ w ∈ ws, s.workerPc w ≠ .unborn) :
    ∃ f, (system C).RunFrom (cleans t) s [] { s with workerPc := f } ∧
      (∀ w ∈ ws, f w = .finished) ∧ ∀ w, s.workerPc w = .finished → f w = .finished := by
  induction ws generalizing s with
  | nil => exact ⟨s.workerPc, .nil, nofun, fun _ => id⟩
  | cons w ws ih =>
    have hone : (system C).RunFrom (cleans t) s [] (s.setWorker w .finished) :=
      worker_leaves hstopped (hidle w) (hborn w List.mem_cons_self)
    obtain ⟨f, hrest, hall, hstay⟩ := ih (s := s.setWorker w .finished) hstopped hidle
      fun v hv => update_ne nofun fun _ => hborn v (List.mem_cons_of_mem w hv)
    refine ⟨f, hone.append hrest, fun v hv => ?_, fun v hv => hstay v ?_⟩
    · rcases List.mem_cons.mp hv with rfl | hv
      · exact hstay v (Function.update_self v _ s.workerPc)
      · exact hall v hv
    · show Function.update s.workerPc w .finished v = .finished
      by_cases hvw : v = w
      · rw [hvw, Function.update_self]
      · rw [Function.update_of_ne hvw, hv]

/-- Nobody that the catch block waits for is inside a call. -/
structure Free (t : Tid) (s : State) : Prop where
  idle : ∀ w, s.callers (.worker w) = .idle
  apart : ∀ w, t ≠ .worker w
  born : ∀ w ∈ s.workers, s.workerPc w ≠ .unborn

theorem Free.moves (h : Free t s) {pc : CallPc}
    (hcallers : s'.callers = Function.update s.callers t pc)
    (hworker : s'.workerPc = s.workerPc) (hworkers : s'.workers = s.workers) : Free t s' := by
  refine ⟨fun w => ?_, h.apart, ?_⟩
  · rw [hcallers, Function.update_of_ne (Ne.symm (h.apart w))]
    exact h.idle w
  · rw [hworker, hworkers]
    exact h.born

/-- Steps of `t` and of the workers lead to the exception. -/
def Throws (C : Config) (t : Tid) (s : State) : Prop :=
  ∃ tr' s', (system C).RunFrom (cleans t) s (tr' ++ [.threw t]) s'

theorem Throws.of_run {tr : List Event} (h : Throws C t s')
    (hrun : (system C).RunFrom (cleans t) s tr s') : Throws C t s := by
  obtain ⟨tr', u, hrest⟩ := h
  refine ⟨tr ++ tr', u, ?_⟩
  rw [List.append_assoc]
  exact hrun.append hrest

theorem Throws.of_step {ok : Bool} (hstep : callerStep C s t ok = some (s', es))
    (h : Throws C t s') : Throws C t s :=
  h.of_run (.single (a := .caller t ok) rfl hstep)

theorem throws_catchThrow (hpc : s.callers t = .catchThrow) : Throws C t s := by
  have hstep : callerStep C s t true =
      some ({ s with mutex := none }.setCaller t .idle, [.threw t]) := by
    rw [callerStep, hpc]
  exact ⟨[], _, .single (a := .caller t true) rfl hstep⟩

theorem throws_catchDeactivate (hpc : s.callers t = .catchDeactivate) : Throws C t s := by
  have hstep : callerStep C s t true =
      some ({ s with cycleActive := false }.setCaller t .catchThrow, [.failed]) := by
    rw [callerStep, hpc]
  exact .of_step hstep (throws_catchThrow (Function.update_self ..))

theorem throws_catchJoin (hpc : s.callers t = .catchJoin) (hstopped : s.stopped = true)
    (hfree : Free t s) : Throws C t s := by
  have hjoins {u : State} (hu : u.callers t = .catchJoin)
      (hall : ∀ w ∈ u.workers, u.workerPc w = .finished) :
      callerStep C u t true = some ({ u with workers := [] }.setCaller t .catchDeactivate, []) := by
    rw [callerStep, hu]
    exact if_pos hall
  obtain ⟨f, hrun, hall, -⟩ := workers_leave (C := C) (t := t) s.workers hstopped hfree.idle
    hfree.born
  have hjoined := hjoins (u := { s with workerPc := f }) hpc hall
  exact (Throws.of_step hjoined (throws_catchDeactivate (Function.update_self ..))).of_run hrun

theorem throws_catchStop (hpc : s.callers t = .catchStop) (hfree : Free t s) : Throws C t s := by
  have hstep : callerStep C s t true =
      some ({ s with stopped := true }.setCaller t .catchJoin, []) := by
    rw [callerStep, hpc]
  exact .of_step hstep (throws_catchJoin (Function.update_self ..) rfl (hfree.moves rfl rfl rfl))

theorem throws_catchGuard (hpc : s.callers t = .catchGuard) (hfree : Free t s) : Throws C t s := by
  have hstep : callerStep C s t true =
      some ({ s with guard := false }.setCaller t .catchStop, []) := by
    rw [callerStep, hpc]
  exact .of_step hstep (throws_catchStop (Function.update_self ..) (hfree.moves rfl rfl rfl))

theorem throws_runMonitor (hpc : s.callers t = .runMonitor) (hfree : Free t s) :
    Throws C t s := by
  have hfails : callerStep C s t false = some (s.setCaller t .catchGuard, []) := by
    rw [callerStep, hpc]
    rfl
  exact .of_step hfails (throws_catchGuard (Function.update_self ..) (hfree.moves rfl rfl rfl))

theorem throws_runSpawn {i : ℕ} (hpc : s.callers t = .runSpawn i) (hfree : Free t s) :
    Throws C t s := by
  by_cases hi : i < C.noWorkers
  · have hfails : callerStep C s t false = some (s.setCaller t .catchGuard, []) := by
      rw [callerStep, hpc]
      exact if_pos hi
    exact .of_step hfails (throws_catchGuard (Function.update_self ..) (hfree.moves rfl rfl rfl))
  · have hspawned : callerStep C s t true = some (s.setCaller t .runMonitor, []) := by
      rw [callerStep, hpc]
      exact if_neg hi
    exact .of_step hspawned
      (throws_runMonitor (Function.update_self ..) (hfree.moves rfl rfl rfl))

/-- **The exception comes** wherever the attempt fails, while no handler is inside a call of the
pool. -/
theorem throws_next {tr : List Event} (h : FailInv C tr s)
    (hattempts : (s.callers t).attempts = true) (hidle : ∀ w, s.callers (.worker w) = .idle) :
    Throws C t s := by
  have hfree : Free t s := by
    refine ⟨hidle, ?_, h.birth.workers⟩
    rintro w rfl
    rw [hidle w] at hattempts
    cases hattempts
  cases hpc : s.callers t with
  | runSpawn i => exact throws_runSpawn hpc hfree
  | runMonitor => exact throws_runMonitor hpc hfree
  | catchGuard => exact throws_catchGuard hpc hfree
  | catchStop => exact throws_catchStop hpc hfree
  | catchJoin =>
    have hsound := h.pool.workers.callers t
    rw [hpc] at hsound
    exact throws_catchJoin hpc hsound hfree
  | catchDeactivate => exact throws_catchDeactivate hpc
  | catchThrow => exact throws_catchThrow hpc
  | _ =>
    rw [hpc] at hattempts
    cases hattempts

end Cleanup

/-! ## The next cycle -/

section Next

variable {C : Config} {tr : List Event} {s s' : State} {es : List Event}

/-- The cycle `k`, as `run()` hands it over: its workers are in `io_context::run()`, and its
monitor is there to join them. -/
structure Started (C : Config) (k : ℕ) (s : State) : Prop where
  state : s.state = .running
  unlocked : s.mutex = none
  guard : s.guard = C.guardEnabled
  count : s.workers.length = C.noWorkers
  workers : ∀ w ∈ s.workers, s.workerPc w = .inRun
  monitor : s.monitorPc k = .joining
  owned : s.cbThread = some k

/-- A `run()` of `t` that has spawned `i` workers, with `k` monitors there before. -/
structure Building (C : Config) (t : Tid) (k i : ℕ) (s : State) : Prop where
  pc : s.callers t = .runSpawn i
  active : s.cycleActive = true
  running : s.stopped = false
  guard : s.guard = C.guardEnabled
  count : s.workers.length = i
  workers : ∀ w ∈ s.workers, s.workerPc w = .inRun
  monitors : s.monitorCount = k
  owned : ∀ j, s.cbThread = some j → s.monitorPc j = .finished ∧ j < k

/-- One more worker. -/
theorem Building.spawns {t : Tid} {k i : ℕ} (h : Building C t k i s) (hi : i < C.noWorkers) :
    ∃ s', (system C).RunFrom anyStep s [] s' ∧ Building C t k (i + 1) s' := by
  have hstep : callerStep C s t true =
      some (({ s with workers := s.workers ++ [s.workerCount],
                      workerCount := s.workerCount + 1 }.setWorker s.workerCount .inRun).setCaller
        t (.runSpawn (i + 1)), []) := by
    rw [callerStep, h.pc]
    exact if_pos hi
  refine ⟨_, .single (a := .caller t true) trivial hstep, Function.update_self .., h.active,
    h.running, h.guard, ?_, fun w hw => ?_, h.monitors, h.owned⟩
  · show (s.workers ++ [s.workerCount]).length = i + 1
    rw [List.length_append, h.count]
    rfl
  · show Function.update s.workerPc s.workerCount .inRun w = .inRun
    by_cases hwn : w = s.workerCount
    · rw [hwn, Function.update_self]
    · rw [Function.update_of_ne hwn]
      rcases List.mem_append.mp hw with hold | hnew
      · exact h.workers w hold
      · exact absurd (List.mem_singleton.mp hnew) hwn

/-- All workers that are missing. -/
theorem Building.spawns_all {t : Tid} {k i : ℕ} (h : Building C t k i s) (hi : i ≤ C.noWorkers) :
    ∃ s', (system C).RunFrom anyStep s [] s' ∧ Building C t k C.noWorkers s' := by
  induction hn : C.noWorkers - i generalizing i s with
  | zero => exact ⟨s, .nil, by rwa [show C.noWorkers = i by omega]⟩
  | succ n ih =>
    obtain ⟨u, hone, hu⟩ := h.spawns (by omega)
    obtain ⟨v, hrest, hv⟩ := ih hu (by omega) (by omega)
    exact ⟨v, hone.append hrest, hv⟩

/-- With all workers there, the monitor is created and the call returns. -/
theorem Building.returns {t : Tid} {k : ℕ} (h : Building C t k C.noWorkers s) :
    ∃ s', (system C).RunFrom anyStep s [.spawned k, .ran t k] s' ∧ Started C k s' := by
  let s₁ := s.setCaller t .runMonitor
  let s₂ := ({ s₁ with monitorCount := k + 1 }.setMonitor k .joining).setCaller t (.runAssign k)
  let s₃ := { s₂ with cbThread := some k }.setCaller t (.runReturn k)
  let s₄ := { s₃ with mutex := none }.setCaller t .idle
  have hspawned : callerStep C s t true = some (s₁, []) := by
    rw [callerStep, h.pc]
    exact if_neg (Nat.lt_irrefl _)
  have hcreates : callerStep C s₁ t true = some (s₂, [.spawned k]) := by
    have hcount : s₁.monitorCount = k := h.monitors
    rw [callerStep, show s₁.callers t = .runMonitor from Function.update_self ..]
    simp only [if_true, hcount]
    rfl
  have hassigns : callerStep C s₂ t true = some (s₃, []) := by
    rw [callerStep, show s₂.callers t = .runAssign k from Function.update_self ..]
    cases hcb : s₂.cbThread with
    | none => rfl
    | some j =>
      obtain ⟨hfinished, hlt⟩ := h.owned j hcb
      refine if_pos ?_
      show Function.update s.monitorPc k .joining j = .finished
      rw [Function.update_of_ne (Nat.ne_of_lt hlt), hfinished]
  have hreturns : callerStep C s₃ t true = some (s₄, [.ran t k]) := by
    rw [callerStep, show s₃.callers t = .runReturn k from Function.update_self ..]
  have hrun {u u' : State} {es : List Event} (hu : callerStep C u t true = some (u', es)) :
      (system C).RunFrom anyStep u es u' := .single (a := .caller t true) trivial hu
  refine ⟨s₄, (((hrun hspawned).append (hrun hcreates)).append (hrun hassigns)).append
    (hrun hreturns), ?_, rfl, h.guard, h.count, h.workers, Function.update_self .., rfl⟩
  show (if !s.cycleActive then .stopped else if s.stopped then .stopping else .running) =
    PoolState.running
  rw [h.active, h.running]
  rfl

/-- The monitor of the cycle before, if there is one, ends. -/
theorem monitor_ends (h : FailInv C tr s) (hover : s.cycleActive = false) :
    ∃ f, (system C).RunFrom anyStep s [] { s with monitorPc := f } ∧
      ∀ j, s.cbThread = some j → f j = .finished := by
  obtain hcb | ⟨j, hcb⟩ := Option.eq_none_or_eq_some s.cbThread
  · refine ⟨s.monitorPc, .nil, fun j hj => ?_⟩
    rw [hcb] at hj
    cases hj
  have hborn := h.birth.monitors j (h.birth.assigned j hcb)
  have hruns : (s.monitorPc j).runs = false := by
    rw [Bool.eq_false_iff]
    intro hruns
    have hactive := h.pool.cycle.own.flagged (.monitor j) hruns
    rw [hover] at hactive
    cases hactive
  have honly {i : ℕ} (hi : s.cbThread = some i) : i = j := Option.some.inj (hi.symm.trans hcb)
  cases hpc : s.monitorPc j with
  | unborn => exact absurd hpc hborn
  | finished => exact ⟨s.monitorPc, .nil, fun i hi => honly hi ▸ hpc⟩
  | ended =>
    refine ⟨Function.update s.monitorPc j .finished, ?_, fun i hi => ?_⟩
    · refine .single (a := .monitor j) trivial ?_
      show monitorStep s j = _
      rw [monitorStep, hpc]
      rfl
    · rw [honly hi]
      exact Function.update_self ..
  | _ =>
    rw [hpc] at hruns
    cases hruns

/-- **A `run()` that does not fail starts a cycle** in a pool that is stopped: the events that it
shows are those of the cycle that begins. -/
theorem starts_next (h : FailInv C tr s) (hover : s.cycleActive = false) (hfree : s.mutex = none)
    {n : ℕ} (hidle : s.callers (.user n) = .idle) :
    ∃ s', (system C).RunFrom anyStep s
      [.began, .spawned s.monitorCount, .ran (.user n) s.monitorCount] s' ∧
      Started C s.monitorCount s' := by
  obtain ⟨f, hends, hfinished⟩ := monitor_ends h hover
  have hid : s.cbThreadId ≠ some (.user n) := by
    intro hid
    obtain ⟨k, hk, -⟩ := h.pool.callback.marked _ hid
    cases hk
  let t := Tid.user n
  let s₀ := { s with monitorPc := f }
  let s₁ := s₀.setCaller t .runCheck
  let s₂ := s₁.setCaller t .runLock
  let s₃ := { s₂ with mutex := some t }.setCaller t .runLoad
  let s₄ := s₃.setCaller t .runRestart
  let s₅ := { s₄ with stopped := false }.setCaller t .runGuard
  let s₆ := { s₅ with guard := s.guard || C.guardEnabled }.setCaller t .runActivate
  let s₇ := { s₆ with cycleActive := true }.setCaller t (.runSpawn 0)
  have hcall : step C s₀ (.call t .run) = some (s₁, []) := if_pos ⟨hidle, rfl⟩
  have hcheck : callerStep C s₁ t true = some (s₂, []) := by
    rw [callerStep, show s₁.callers t = .runCheck from Function.update_self ..]
    exact if_neg hid
  have hlock : callerStep C s₂ t true = some (s₃, []) := by
    rw [callerStep, show s₂.callers t = .runLock from Function.update_self ..]
    exact if_pos hfree
  have hload : callerStep C s₃ t true = some (s₄, []) := by
    rw [callerStep, show s₃.callers t = .runLoad from Function.update_self ..]
    exact if_neg (by rw [show s₃.cycleActive = false from hover]; nofun)
  have hrestart : callerStep C s₄ t true = some (s₅, []) := by
    rw [callerStep, show s₄.callers t = .runRestart from Function.update_self ..]
  have hguard : callerStep C s₅ t true = some (s₆, []) := by
    rw [callerStep, show s₅.callers t = .runGuard from Function.update_self ..]
    rfl
  have hactivate : callerStep C s₆ t true = some (s₇, [.began]) := by
    rw [callerStep, show s₆.callers t = .runActivate from Function.update_self ..]
  have hrun {u u' : State} {es : List Event} (hu : callerStep C u t true = some (u', es)) :
      (system C).RunFrom anyStep u es u' := .single (a := .caller t true) trivial hu
  have hbegun : (system C).RunFrom anyStep s [.began] s₇ :=
    ((((((hends.append (.single (a := .call t .run) trivial hcall)).append (hrun hcheck)).append
      (hrun hlock)).append (hrun hload)).append (hrun hrestart)).append (hrun hguard)).append
      (hrun hactivate)
  have hbuilding : Building C t s.monitorCount 0 s₇ := by
    have hworkers := h.pool.workers.inactive hover
    refine ⟨Function.update_self .., rfl, rfl, ?_, ?_, ?_, rfl, fun j hj =>
      ⟨hfinished j hj, h.birth.assigned j hj⟩⟩
    · show (s.guard || C.guardEnabled) = C.guardEnabled
      cases hg : s.guard with
      | false => rfl
      | true => rw [h.guard.enabled hg]; rfl
    · exact (congrArg List.length hworkers).trans rfl
    · rw [show s₇.workers = [] from hworkers]
      nofun
  obtain ⟨u, hspawns, hu⟩ := hbuilding.spawns_all (Nat.zero_le _)
  obtain ⟨s', hreturns, hstarted⟩ := hu.returns
  exact ⟨s', (hbegun.append hspawns).append hreturns, hstarted⟩

/-- A monitor is created when all workers have been, with the guard installed if it is enabled. -/
theorem Move.of_spawned {a : Action} {k : ℕ} (hm : Move C s a es s') (h : FailInv C tr s)
    (he : .spawned k ∈ es) :
    s'.workers.length = C.noWorkers ∧ s'.guard = C.guardEnabled ∧ s'.cycleActive = true ∧
      s'.monitorPc k = .joining := by
  cases hm with
  | creates t hpc =>
    have hsize := h.size t
    rw [hpc] at hsize
    have howns : s.owns (.caller t) = true := by
      show (s.callers t).builds = true
      rw [hpc]
      rfl
    cases List.mem_singleton.mp he
    exact ⟨hsize, h.guard.known t _ (by rw [hpc]; rfl), h.pool.cycle.own.flagged _ howns,
      Function.update_self ..⟩
  | advances t ok pc g b hpc => cases (hpc.attempts.2.2 _ he).2
  | unlocks t pc hpc => cases (hpc.attempts.2 _ he).2
  | activates | catchDeactivates | deactivates => cases List.mem_singleton.mp he
  | monitorMoves j pc i hpc =>
    cases hpc' : s.monitorPc j <;> rw [hpc'] at hpc <;> cases hpc <;>
      first | cases List.mem_singleton.mp he | cases he
  | _ => cases he

end Next

/-! ## The result -/

section Atomic

variable {C : Config} {tr : List Event} {s s' : State} {es : List Event}

/-- What a failed attempt leaves, where `tr` are the events up to its exception. -/
structure FailedCleanly (tr : List Event) (s : State) : Prop where
  joined : s.workers = []
  left : ∀ w, (s.workerPc w).alive = false
  guard : s.guard = false
  stopped : s.stopped = true
  state : s.state = .stopped
  unlocked : s.mutex = none
  quiet : ∀ e ∈ sinceBegan tr, e.ofMonitor = false

/-- A pool can be run: where it is stopped a `run()` starts a cycle, and no cycle gets its monitor
without all its workers and its guard. -/
structure Runnable (C : Config) (s : State) : Prop where
  starts : ∀ n, s.state = .stopped → s.mutex = none → s.callers (.user n) = .idle →
    ∃ s', (system C).RunFrom anyStep s
      [.began, .spawned s.monitorCount, .ran (.user n) s.monitorCount] s' ∧
      Started C s.monitorCount s'
  whole : ∀ a s' es k, step C s a = some (s', es) → .spawned k ∈ es →
    s'.workers.length = C.noWorkers ∧ s'.guard = C.guardEnabled ∧ s'.cycleActive = true ∧
      s'.monitorPc k = .joining

theorem State.state_stopped : s.state = .stopped ↔ s.cycleActive = false := by
  rw [State.state]
  cases s.cycleActive <;> cases s.stopped <;> decide

theorem runnable (h : (system C).Reachable tr s) : Runnable C s := by
  have hinv := failInv h
  exact ⟨fun n hstate hfree => starts_next hinv (State.state_stopped.mp hstate) hfree,
    fun a s' es k hstep => (step_move hstep).of_spawned hinv⟩

theorem failedCleanly (h : FailInv C tr s) {t : Tid} {ok : Bool} (hpc : s.callers t = .catchThrow)
    (hstep : step C s (.caller t ok) = some (s', es)) :
    es = [.threw t] ∧ FailedCleanly tr s' := by
  obtain ⟨hover, hstopped⟩ := h.attempt.threw t hpc
  have hworkers := h.pool.workers.inactive hover
  have hthrows : callerStep C s t ok = some (s', es) := hstep
  rw [callerStep, hpc] at hthrows
  cases hthrows
  refine ⟨rfl, hworkers, fun w => ?_, h.guard.known t _ (by rw [hpc]; rfl), hstopped,
    State.state_stopped.mpr hover, rfl, h.attempt.quiet t (by rw [hpc]; rfl)⟩
  rw [Bool.eq_false_iff]
  intro halive
  have hlisted := h.pool.workers.listed w halive
  rw [hworkers] at hlisted
  cases hlisted

end Atomic

/-- **A `run()` that throws is atomic.**  Wherever the attempt fails the exception comes, unless
a handler is inside a call of this pool; where it leaves, all workers have been joined, no
guard is installed, the context and the pool are stopped, and neither a monitor nor the
callback has had a part in the attempt; and in whatever follows the pool can be run. -/
theorem run_throws_atomic {C : Config} {tr : List Event} {s : State}
    (h : (system C).Reachable tr s) (t : Tid) :
    ((s.callers t).attempts = true → (∀ w, s.callers (.worker w) = .idle) → Throws C t s) ∧
      ∀ ok s' es, s.callers t = .catchThrow → step C s (.caller t ok) = some (s', es) →
        es = [.threw t] ∧ FailedCleanly tr s' ∧
          ∀ tr' s'', (system C).RunFrom anyStep s' tr' s'' → Runnable C s'' := by
  have hinv := failInv h
  refine ⟨throws_next hinv, fun ok s' es hpc hstep => ?_⟩
  obtain ⟨hes, hclean⟩ := failedCleanly hinv hpc hstep
  refine ⟨hes, hclean, fun tr' s'' hrun => ?_⟩
  have hthrew : (system C).Reachable (tr ++ es) s' := h.snoc (a := .caller t ok) trivial hstep
  exact runnable (hthrew.append hrun)

/-- Two workers and a guard. -/
def twoWorkers : Config := ⟨2, true, Nat.two_pos⟩

/-- The second worker cannot be created while the first is in a handler. -/
def failedRun : List Action :=
  List.flatten [calls (.user 0) .run 7,
    [.handlerBegins 0, .caller (.user 0) false, .caller (.user 0) true, .caller (.user 0) true,
      .handlerEnds 0, .workerExits 0, .caller (.user 0) true, .caller (.user 0) true]]

/-- The exception leaves a pool that is stopped, and another `run()` starts its first cycle. -/
theorem run_throws_atomic_failedRun :
    ∃ tr s s', (system twoWorkers).Reachable tr s ∧
      step twoWorkers s (.caller (.user 0) true) = some (s', [.threw (.user 0)]) ∧
      FailedCleanly tr s' ∧
      ∃ s'', (system twoWorkers).RunFrom anyStep s' [.began, .spawned 0, .ran (.user 1) 0] s'' ∧
        Started twoWorkers 0 s'' := by
  have hrun := reachable_exec (M := system twoWorkers) (l := failedRun) (by decide +kernel)
  obtain ⟨-, hthrows⟩ := run_throws_atomic hrun (.user 0)
  obtain ⟨-, hclean, hnext⟩ := hthrows true _ [.threw (.user 0)] rfl rfl
  exact ⟨_, _, _, hrun, rfl, hclean, (hnext [] _ .nil).starts 1 hclean.state hclean.unlocked rfl⟩

end AsioIoPool
