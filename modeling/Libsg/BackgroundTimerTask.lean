/-
# What the task may call on its timer

The loop of the background timer holds `m_sleeper_mutex` shared while the task runs.  `interval()`,
`set_interval()` and `correct_for_task_delay()` take that mutex, so the task must not call them:
it would wait for itself, or take a second time a lock that may be taken once (`Stuck`).

* `reacquires_iff` : no other thread is about to take a mutex that it holds;
* `stuck_step` : how a task gets there, which it never leaves;
* `call_returns` : whatever else the task calls returns, once those who hold the mutex it waits
  for have released it.
-/
import Libsg.BackgroundTimerLock

open TransitionSystem SharedMutex

namespace BackgroundTimer

/-! ## Waiting for oneself -/

def CallPc.awaited : CallPc → Option Mutex
  | .within f .lock => some f.section.mutex
  | _ => none

def ThreadPc.awaited : ThreadPc → Option Mutex
  | .within f .lock => some f.section.mutex
  | .lockSleeper => some .sleeper
  | _ => none

/-- The mutex that a thread is about to take. -/
def State.awaited (s : State) : Tid → Option Mutex
  | .user n => (s.callers (.user n)).awaited
  | .timer w => ((s.callers (.timer w)).awaited).or (s.threads w).awaited

/-- The thread `t` is about to take a mutex that it holds. -/
def State.Reacquires (s : State) (t : Tid) : Prop :=
  ∃ m, s.awaited t = some m ∧ t ∈ (s.shared.locks m).holders

/-- The task of the timer thread `w` is about to take the mutex of the loop. -/
def Stuck (s : State) (w : ℕ) : Prop :=
  (s.threads w).inTask = true ∧
    ∃ f : CallSection, s.callers (.timer w) = .within f .lock ∧ f.section.mutex = .sleeper

theorem CallPc.awaited_eq {pc : CallPc} {m : Mutex} (h : pc.awaited = some m) :
    ∃ f : CallSection, pc = .within f .lock ∧ f.section.mutex = m := by
  rw [CallPc.awaited.eq_def] at h
  split at h
  · next f => exact ⟨f, rfl, Option.some.inj h⟩
  · cases h

theorem ThreadPc.inCallback_of_inTask {pc : ThreadPc} (h : pc.inTask = true) :
    pc.inCallback = true := by
  cases pc <;> first | rfl | cases h

/-- In code of the user the timer thread holds the lock of the loop or nothing. -/
theorem ThreadPc.held_of_inCallback {pc : ThreadPc} (h : pc.inCallback = true) (m : Mutex) :
    pc.held m = if pc.inTask = true ∧ m = .sleeper then some .shared else none := by
  cases pc <;> first | rfl | cases h

/-- **Only the task waits for itself**, and only for the mutex of the loop. -/
theorem reacquires_iff {s : State} (hl : LockInv s) (ht : ThreadInv s) (t : Tid) :
    s.Reacquires t ↔ ∃ w, t = .timer w ∧ Stuck s w := by
  constructor
  · rintro ⟨m, hawaited, hholder⟩
    rw [(hl.locks m).mem_holders] at hholder
    have hlock (f : CallSection) : (CallPc.within f .lock).held m = none := Place.held_lock _ m
    cases t with
    | user n =>
      obtain ⟨f, hpc, -⟩ := CallPc.awaited_eq hawaited
      rw [State.held, hpc, hlock] at hholder
      exact absurd rfl hholder
    | timer w =>
      refine ⟨w, rfl, ?_⟩
      cases hcall : (s.callers (.timer w)).awaited with
      | some x =>
        obtain ⟨f, hpc, hmutex⟩ := CallPc.awaited_eq hcall
        rw [State.awaited, hcall] at hawaited
        cases hawaited
        have hin := ht.inside w (by simp [hpc])
        rw [State.held, hpc, hlock, Option.none_or] at hholder
        change (s.threads w).held m ≠ none at hholder
        rw [ThreadPc.held_of_inCallback hin] at hholder
        obtain ⟨htask, rfl⟩ := ite_ne_right_iff.mp hholder |>.1
        exact ⟨htask, f, hpc, hmutex⟩
      | none =>
        rw [State.awaited, hcall, Option.none_or] at hawaited
        have hnot : (s.threads w).inCallback = false ∧ (s.threads w).held m = none := by
          rw [ThreadPc.awaited.eq_def] at hawaited
          split at hawaited
          · next f hpc =>
            cases hawaited
            rw [hpc]
            cases f <;> exact ⟨rfl, rfl⟩
          · next hpc =>
            rw [hpc]
            exact ⟨rfl, rfl⟩
          · cases hawaited
        rw [State.held, ht.idle hnot.1] at hholder
        exact absurd hnot.2 hholder
  · rintro ⟨w, rfl, htask, f, hpc, hmutex⟩
    refine ⟨.sleeper, ?_, ?_⟩
    · rw [State.awaited, hpc, CallPc.awaited, hmutex]
      rfl
    · rw [(hl.locks .sleeper).mem_holders, State.held, hpc]
      have hlock : (CallPc.within f .lock).held .sleeper = none := Place.held_lock _ _
      rw [hlock, Option.none_or]
      show (s.threads w).held .sleeper ≠ none
      rw [ThreadPc.held_of_inCallback (ThreadPc.inCallback_of_inTask htask), if_pos ⟨htask, rfl⟩]
      simp

/-! ## How a task gets to wait for itself -/

/-- The task calls none of the members about the interval. -/
def keepsOff (s : State) : Action → Prop
  | .call (.timer w) c => (s.threads w).inTask = true → c.reconfigures = false
  | _ => True

section Stuck

variable {cbs : Callbacks} {s s' : State} {a : Action} {es : List Event}

theorem Call.reconfigures_iff (c : Call) :
    c.reconfigures = true ↔
      ∃ f : CallSection, c.entry = .within f .lock ∧ f.section.mutex = .sleeper := by
  cases c with
  | waitForStop => exact ⟨nofun, nofun⟩
  | start =>
    refine ⟨nofun, ?_⟩
    rintro ⟨f, hf, hmutex⟩
    cases hf
    cases hmutex
  | requestStop | isRunning | isStopRequested | getException | hasException =>
    refine ⟨nofun, ?_⟩
    rintro ⟨f, hf, hmutex⟩
    cases hf
    cases hmutex
  | interval | setInterval | correctForTaskDelay => exact ⟨fun _ => ⟨_, rfl, rfl⟩, fun _ => rfl⟩

/-- No section leads to one that takes the mutex of the loop. -/
theorem CallSection.resume_awaited {f : CallSection} {t : Tid} {ok : Bool} {shared shared' : Shared}
    {p : Place} {outcome : Outcome}
    (h : f.section.step t ok shared p = some (outcome, shared')) :
    (f.resume outcome).awaited ≠ some .sleeper := by
  cases p with
  | lock =>
    obtain ⟨l, -, heq⟩ := Option.map_eq_some_iff.mp h
    cases heq
    nofun
  | body =>
    cases h
    nofun
  | unlock result =>
    cases h
    cases f with
    | own k => nofun
    | startIsRunning =>
      show (if result = .flag true then CallPc.idle else .join true).awaited ≠ _
      split <;> nofun
    | startException => nofun
    | startRunning => nofun

/-- What has no lock to take is not stuck. -/
theorem not_stuck {w : ℕ} (h : (s.callers (.timer w)).awaited ≠ some .sleeper) : ¬ Stuck s w := by
  rintro ⟨-, f, hpc, hmutex⟩
  rw [hpc] at h
  exact h (congrArg some hmutex)

/-- Whether a thread is stuck depends on where it is. -/
theorem stuck_congr {w : ℕ} (hthread : s'.threads w = s.threads w)
    (hcaller : s'.callers (.timer w) = s.callers (.timer w)) : Stuck s' w ↔ Stuck s w := by
  rw [Stuck, Stuck, hthread, hcaller]

/-- **A task is stuck** when it was, or when it calls one of the members about the interval. -/
theorem stuck_step (hl : LockInv s) (ht : ThreadInv s) (hm : Move cbs s a es s') (w : ℕ) :
    Stuck s' w ↔ Stuck s w ∨ ∃ c, .taskCalls w c ∈ es ∧ c.reconfigures = true := by
  have hquiet (hes : es = []) (hiff : Stuck s' w ↔ Stuck s w) :
      Stuck s' w ↔ Stuck s w ∨ ∃ c, .taskCalls w c ∈ es ∧ c.reconfigures = true := by
    rw [hes, hiff]
    refine (or_iff_left ?_).symm
    rintro ⟨_, hmem, -⟩
    exact List.not_mem_nil hmem
  -- a call that is somewhere else, or was not stuck and does not get stuck
  have hcaller {t : Tid} {pc : CallPc} (hcallers : s'.callers = Function.update s.callers t pc)
      (hthreads : s'.threads w = s.threads w)
      (hnot : t = .timer w → ¬ Stuck s w ∧ pc.awaited ≠ some .sleeper) : Stuck s' w ↔ Stuck s w := by
    by_cases hw : .timer w = t
    · obtain ⟨hold, hnew⟩ := hnot hw.symm
      refine iff_of_false (not_stuck ?_) hold
      rw [hcallers, hw, Function.update_self]
      exact hnew
    · refine stuck_congr hthreads ?_
      rw [hcallers, Function.update_of_ne hw]
  -- a call that neither was about to lock `m_sleeper_mutex` nor is
  have hplain {t : Tid} {pc old : CallPc} (hcallers : s'.callers = Function.update s.callers t pc)
      (hthreads : s'.threads w = s.threads w) (hpc : s.callers t = old)
      (hold : old.awaited ≠ some .sleeper) (hnew : pc.awaited ≠ some .sleeper) :
      Stuck s' w ↔ Stuck s w := by
    refine hcaller hcallers hthreads fun htw => ⟨not_stuck ?_, hnew⟩
    rw [← htw, hpc]
    exact hold
  have hthread {v : ℕ} {pc : ThreadPc} (hthreads : s'.threads = Function.update s.threads v pc)
      (hcallers : s'.callers = s.callers) (hidle : s.callers (.timer v) = .idle) :
      Stuck s' w ↔ Stuck s w := by
    by_cases hw : w = v
    · subst hw
      refine iff_of_false (not_stuck ?_) (not_stuck ?_)
      · simp [hcallers, hidle, CallPc.awaited]
      · simp [hidle, CallPc.awaited]
    · refine stuck_congr ?_ (congrFun hcallers _)
      rw [hthreads, Function.update_of_ne hw]
  cases hm with
  | calls t c hidle hmay =>
    cases t with
    | user n => exact hquiet rfl (hcaller (t := .user n) rfl rfl (by simp))
    | timer v =>
      by_cases hvw : v = w
      · subst hvw
        have hnot : ¬ Stuck s v := not_stuck (by simp [hidle, CallPc.awaited])
        rw [or_iff_right hnot]
        have hentry : (s.setCaller (.timer v) c.entry).callers (.timer v) = c.entry :=
          Function.update_self ..
        rw [Stuck, hentry, ← c.reconfigures_iff]
        show (s.threads v).inTask = true ∧ _ ↔ ∃ d,
          Event.taskCalls v d ∈ (if (s.threads v).inTask then [.taskCalls v c] else []) ∧
            d.reconfigures = true
        by_cases htask : (s.threads v).inTask = true
        · rw [if_pos htask]
          simp [htask]
        · rw [if_neg htask]
          simp [htask]
      · have hes : ¬ ∃ d, Event.taskCalls w d ∈ s.callEvents c (.timer v) ∧
            d.reconfigures = true := by
          rintro ⟨d, hmem, -⟩
          rw [State.callEvents] at hmem
          split at hmem
          · rw [List.mem_singleton] at hmem
            cases hmem
            exact hvw rfl
          · cases hmem
        rw [or_iff_left hes]
        exact hcaller (t := .timer v) rfl rfl fun h => absurd (Tid.timer.inj h) hvw
  | within t ok f p outcome shared hpc hstep =>
    refine hquiet rfl (hcaller (t := t) rfl rfl fun htw => ⟨?_, CallSection.resume_awaited hstep⟩)
    -- a mutex that is held is not got
    subst htw
    intro hstuck
    obtain ⟨m, hawaited, hholder⟩ := (reacquires_iff hl ht _).mpr ⟨w, rfl, hstuck⟩
    obtain ⟨-, g, hpc', hmutex⟩ := hstuck
    rw [hpc] at hpc'
    cases hpc'
    obtain ⟨l, hlock, -⟩ := Option.map_eq_some_iff.mp hstep
    rw [State.awaited, hpc, CallPc.awaited, Option.some_or, Option.some.injEq] at hawaited
    rw [← hawaited, (hl.locks _).mem_holders] at hholder
    rw [(hl.locks _).not_served hholder] at hlock
    cases hlock
  | passes t ok starting hpc hthread =>
    refine hquiet rfl (hplain (t := t) rfl rfl hpc ?_ ?_)
    all_goals cases starting <;> decide
  | refused v ok starting hpc hthread =>
    refine hquiet rfl (hplain (t := .timer v) rfl rfl hpc ?_ (by decide))
    cases starting <;> decide
  | joins t ok starting v hpc hthread hother hover =>
    refine hquiet rfl (hplain (t := t) rfl rfl hpc ?_ ?_)
    all_goals cases starting <;> decide
  | resets t ok hpc => exact hquiet rfl (hplain (t := t) rfl rfl hpc (by decide) (by decide))
  | creates t hpc hthread =>
    by_cases hw : w = s.threadCount
    · -- the thread was not there
      refine hquiet rfl (iff_of_false ?_ ?_)
      · rintro ⟨htask, -⟩
        change ((Function.update s.threads s.threadCount .spawned) w).inTask = true at htask
        rw [hw, Function.update_self] at htask
        cases htask
      · rintro ⟨htask, -⟩
        rw [ht.unborn w (Nat.le_of_eq hw.symm)] at htask
        cases htask
    · have hthreads := Function.update_of_ne hw ThreadPc.spawned s.threads
      exact hquiet rfl (hplain (t := t) rfl hthreads hpc (by decide) (by decide))
  | fails t hpc => exact hquiet rfl (hplain (t := t) rfl rfl hpc (by decide) (by decide))
  | terminates t ok hpc => exact hquiet rfl Iff.rfl
  | advances v ok pc hpc hidle =>
    refine hquiet rfl (hthread (v := v) rfl rfl ?_)
    by_cases hin : (s.threads v).inCallback = true
    · exact hidle hin
    · exact ht.idle (Bool.eq_false_iff.mpr hin)
  | acts v ok f p outcome shared hpc hstep =>
    exact hquiet rfl (hthread (v := v) rfl rfl (ht.idle (by rw [hpc]; rfl)))
  | locks v ok l hpc hlock =>
    exact hquiet rfl (hthread (v := v) rfl rfl (ht.idle (by rw [hpc]; rfl)))
  | unlocks v ok again l hpc hl =>
    exact hquiet rfl (hthread (v := v) rfl rfl (ht.idle (by rw [hpc]; rfl)))

end Stuck

/-! ## Calls that return -/

section Returns

variable {cbs : Callbacks} {s s' : State} {tr : List Event}

/-- A run that goes on and shows nothing. -/
abbrev GoesOn (cbs : Callbacks) (s s' : State) : Prop := (system cbs).RunFrom keepsOff s [] s'

theorem GoesOn.step {a : Action} (ha : keepsOff s a)
    (h : (system cbs).step s a = some (s', [])) : GoesOn cbs s s' :=
  RunFrom.single ha h

theorem GoesOn.trans {s'' : State} (h : GoesOn cbs s s') (h' : GoesOn cbs s' s'') :
    GoesOn cbs s s'' :=
  RunFrom.append h h'

theorem GoesOn.run (hrun : (system cbs).Run keepsOff tr s) (h : GoesOn cbs s s') :
    (system cbs).Run keepsOff tr s' := by
  have happend := Run.append hrun h
  rwa [List.append_nil] at happend

theorem step_caller (hterminated : s.terminated = false) {t : Tid} {ok : Bool}
    (h : callerStep s t ok = some s') : (system cbs).step s (.caller t ok) = some (s', []) := by
  show step cbs s (.caller t ok) = _
  unfold step
  rw [if_neg (by rw [hterminated]; exact Bool.false_ne_true)]
  exact Option.map_eq_some_iff.mpr ⟨s', h, rfl⟩

theorem step_thread (hterminated : s.terminated = false) {w : ℕ} {ok : Bool}
    (h : threadStep cbs s w ok = some s') : (system cbs).step s (.thread w ok) = some (s', []) := by
  show step cbs s (.thread w ok) = _
  unfold step
  rw [if_neg (by rw [hterminated]; exact Bool.false_ne_true)]
  exact Option.map_eq_some_iff.mpr ⟨s', h, rfl⟩

/-- A step of the section of a call. -/
theorem GoesOn.within (hterminated : s.terminated = false) {t : Tid} {f : CallSection} {p : Place}
    {outcome : Outcome} {shared : Shared} (hpc : s.callers t = .within f p)
    (hstep : f.section.step t true s.shared p = some (outcome, shared)) :
    GoesOn cbs s ({ s with shared }.setCaller t (f.resume outcome)) := by
  refine .step (a := .caller t true) trivial (step_caller hterminated ?_)
  rw [callerStep, hpc]
  exact Option.map_eq_some_iff.mpr ⟨_, hstep, rfl⟩

/-- A step of a section of a timer thread. -/
theorem GoesOn.acts (hterminated : s.terminated = false) {w : ℕ} {f : ThreadSection} {p : Place}
    {outcome : Outcome} {shared : Shared} (hpc : s.threads w = .within f p)
    (hstep : f.section.step (.timer w) true s.shared p = some (outcome, shared)) :
    GoesOn cbs s ({ s with shared }.setThread w (f.resume cbs outcome)) := by
  refine .step (a := .thread w true) trivial (step_thread hterminated ?_)
  rw [threadStep, hpc]
  exact Option.map_eq_some_iff.mpr ⟨_, hstep, rfl⟩

variable (cbs) in
/-- **A call that holds a mutex can release it.** -/
theorem caller_leaves (hterminated : s.terminated = false) {t : Tid} {f : CallSection} {p : Place}
    (hpc : s.callers t = .within f p) (hp : p.holding = true) :
    ∃ s' result, GoesOn cbs s s' ∧ s'.callers = Function.update s.callers t (f.after result) ∧
      s'.threads = s.threads ∧ s'.terminated = false ∧
      s'.shared.locks f.section.mutex =
        (s.shared.locks f.section.mutex).release t f.section.mode := by
  have hunlock {s : State} (hterminated : s.terminated = false) {result : Value}
      (hpc : s.callers t = .within f (.unlock result)) :
      ∃ s', GoesOn cbs s s' ∧ s'.callers = Function.update s.callers t (f.after result) ∧
        s'.threads = s.threads ∧ s'.terminated = false ∧
        s'.shared.locks f.section.mutex =
          (s.shared.locks f.section.mutex).release t f.section.mode :=
    ⟨_, GoesOn.within hterminated hpc rfl, rfl, rfl, hterminated, Shared.setLock_self ..⟩
  cases p with
  | lock => cases hp
  | body =>
    let result := (f.section.effect true s.shared.data).2
    let s₁ : State := { s with shared.data := (f.section.effect true s.shared.data).1 }.setCaller t
      (.within f (.unlock result))
    have hbody : GoesOn cbs s s₁ := GoesOn.within hterminated hpc rfl
    obtain ⟨s', hgoes, hcallers, hrest⟩ := hunlock (s := s₁) hterminated (Function.update_self ..)
    refine ⟨s', result, hbody.trans hgoes, ?_, hrest⟩
    rw [hcallers]
    exact Function.update_idem ..
  | unlock result =>
    obtain ⟨s', hgoes, hrest⟩ := hunlock hterminated hpc
    exact ⟨s', result, hgoes, hrest⟩

variable (cbs) in
/-- **A timer thread that holds a mutex for a section can release it.** -/
theorem thread_leaves (hterminated : s.terminated = false) {w : ℕ} {f : ThreadSection} {p : Place}
    (hpc : s.threads w = .within f p) (hp : p.holding = true) :
    ∃ s' result, GoesOn cbs s s' ∧
      s'.threads = Function.update s.threads w (f.after cbs result) ∧
      s'.callers = s.callers ∧ s'.terminated = false ∧
      s'.shared.locks f.section.mutex =
        (s.shared.locks f.section.mutex).release (.timer w) f.section.mode := by
  have hunlock {s : State} (hterminated : s.terminated = false) {result : Value}
      (hpc : s.threads w = .within f (.unlock result)) :
      ∃ s', GoesOn cbs s s' ∧ s'.threads = Function.update s.threads w (f.after cbs result) ∧
        s'.callers = s.callers ∧ s'.terminated = false ∧
        s'.shared.locks f.section.mutex =
          (s.shared.locks f.section.mutex).release (.timer w) f.section.mode :=
    ⟨_, GoesOn.acts hterminated hpc rfl, rfl, rfl, hterminated, Shared.setLock_self ..⟩
  cases p with
  | lock => cases hp
  | body =>
    let result := (f.section.effect true s.shared.data).2
    let s₁ : State := { s with shared.data := (f.section.effect true s.shared.data).1 }.setThread w
      (.within f (.unlock result))
    have hbody : GoesOn cbs s s₁ := GoesOn.acts hterminated hpc rfl
    obtain ⟨s', hgoes, hthreads, hrest⟩ := hunlock (s := s₁) hterminated (Function.update_self ..)
    refine ⟨s', result, hbody.trans hgoes, ?_, hrest⟩
    rw [hthreads]
    exact Function.update_idem ..
  | unlock result =>
    obtain ⟨s', hgoes, hrest⟩ := hunlock hterminated hpc
    exact ⟨s', result, hgoes, hrest⟩

theorem Place.holding_of_held {k : Section} {p : Place} {m : Mutex} {mode : Mode}
    (h : p.held k m = some mode) : p.holding = true ∧ k.mutex = m ∧ k.mode = mode := by
  obtain ⟨⟨hp, hm⟩, hmode⟩ := Option.ite_none_right_eq_some.mp h
  exact ⟨hp, hm, Option.some.inj hmode⟩

theorem CallPc.held_eq {pc : CallPc} {m : Mutex} {mode : Mode} (h : pc.held m = some mode) :
    ∃ f p, pc = .within f p ∧ p.held f.section m = some mode := by
  rw [CallPc.held.eq_def] at h
  split at h
  · next f p => exact ⟨f, p, rfl, h⟩
  · cases h

theorem ThreadPc.sectionHeld_eq {pc : ThreadPc} {m : Mutex} {mode : Mode}
    (h : pc.sectionHeld m = some mode) :
    ∃ f p, pc = .within f p ∧ p.held f.section m = some mode := by
  rw [ThreadPc.sectionHeld.eq_def] at h
  split at h
  · next f p => exact ⟨f, p, rfl, h⟩
  · cases h

variable (cbs) in
/-- Any thread but the task `w` that holds another mutex than that of the loop can release it. -/
theorem holder_leaves (hl : LockInv s) (hterminated : s.terminated = false) {m : Mutex}
    (hm : m ≠ .sleeper) {t : Tid} (ht : t ∈ (s.shared.locks m).holders) {w : ℕ}
    (hw : t ≠ .timer w) :
    ∃ s', GoesOn cbs s s' ∧ s'.terminated = false ∧ s'.threads w = s.threads w ∧
      s'.callers (.timer w) = s.callers (.timer w) ∧
      (s'.shared.locks m).holders.length + 1 = (s.shared.locks m).holders.length := by
  have hheld := ((hl.locks m).mem_holders).mp ht
  obtain ⟨mode, hmode⟩ := Option.ne_none_iff_exists'.mp hheld
  have hrelease := (hl.locks m).holders_release hmode
  cases hcall : (s.callers t).held m with
  | some mode' =>
    obtain ⟨f, p, hpc, hheld⟩ := CallPc.held_eq hcall
    rw [State.held, hcall, Option.some_or, Option.some.injEq] at hmode
    obtain ⟨hp, rfl, rfl⟩ := Place.holding_of_held hheld
    obtain ⟨s', result, hgoes, hcallers, hthreads, hterminated', hlock⟩ :=
      caller_leaves cbs hterminated hpc hp
    refine ⟨s', hgoes, hterminated', congrFun hthreads w, ?_, ?_⟩
    · rw [hcallers, Function.update_of_ne hw.symm]
    · rw [hlock, hmode]
      exact hrelease
  | none =>
    rw [State.held, hcall, Option.none_or] at hmode
    cases t with
    | user n => cases hmode
    | timer v =>
      change (s.threads v).held m = some mode at hmode
      rw [ThreadPc.held, ThreadPc.loopHeld, if_neg fun h => hm h.2, Option.or_none] at hmode
      obtain ⟨f, p, hpc, hheld⟩ := ThreadPc.sectionHeld_eq hmode
      obtain ⟨hp, rfl, rfl⟩ := Place.holding_of_held hheld
      obtain ⟨s', result, hgoes, hthreads, hcallers, hterminated', hlock⟩ :=
        thread_leaves cbs hterminated hpc hp
      have hvw : w ≠ v := fun h => hw (by rw [h])
      refine ⟨s', hgoes, hterminated', ?_, congrFun hcallers _, ?_⟩
      · rw [hthreads, Function.update_of_ne hvw]
      · rw [hlock]
        exact hrelease

variable (cbs) in
/-- **All who hold a mutex that the task waits for can release it.** -/
theorem holders_leave {m : Mutex} (hm : m ≠ .sleeper) {w : ℕ} (n : ℕ)
    (hrun : (system cbs).Run keepsOff tr s) (hterminated : s.terminated = false)
    (hnot : s.held m (.timer w) = none) (hn : (s.shared.locks m).holders.length = n) :
    ∃ s', GoesOn cbs s s' ∧ s'.terminated = false ∧ s'.threads w = s.threads w ∧
      s'.callers (.timer w) = s.callers (.timer w) ∧ (s'.shared.locks m).holders = [] := by
  induction n generalizing s with
  | zero =>
    exact ⟨s, .nil, hterminated, rfl, rfl, List.length_eq_zero_iff.mp hn⟩
  | succ n ih =>
    have hl := lockInv hrun.reachable
    obtain ⟨t, ht⟩ := List.exists_mem_of_length_pos (by omega : 0 < (s.shared.locks m).holders.length)
    have hw : t ≠ .timer w := by
      rintro rfl
      exact (hl.locks m).mem_holders.mp ht hnot
    obtain ⟨s₁, hgoes, hterminated₁, hthread, hcaller, hlength⟩ :=
      holder_leaves cbs hl hterminated hm ht hw
    have hnot₁ : s₁.held m (.timer w) = none := by
      rw [← hnot]
      show ((s₁.callers (.timer w)).held m).or ((s₁.threads w).held m) = _
      rw [hthread, hcaller]
      rfl
    obtain ⟨s', hgoes', hterminated', hthread', hcaller', hempty⟩ :=
      ih (hgoes.run hrun) hterminated₁ hnot₁ (by omega)
    exact ⟨s', hgoes.trans hgoes', hterminated', hthread'.trans hthread, hcaller'.trans hcaller,
      hempty⟩

/-- Who waits for the thread of the timer on that thread is refused. -/
theorem join_returns (hrun : (system cbs).Run keepsOff tr s) (hterminated : s.terminated = false)
    {w : ℕ} {starting : Bool} (hpc : s.callers (.timer w) = .join starting) :
    ∃ s', GoesOn cbs s s' ∧ s'.callers (.timer w) = .idle ∧ s'.threads w = s.threads w := by
  have hthread := (threadInv hrun.reachable).own hpc
  refine ⟨s.setCaller (.timer w) .idle, ?_, Function.update_self .., rfl⟩
  refine .step (a := .caller (.timer w) true) trivial (step_caller hterminated ?_)
  simp only [callerStep, hpc, hthread]
  rfl

/-- A call with its lock returns. -/
theorem section_returns (hrun : (system cbs).Run keepsOff tr s) (hterminated : s.terminated = false)
    {w : ℕ} {f : CallSection} {p : Place} (hpc : s.callers (.timer w) = .within f p)
    (hp : p.holding = true) :
    ∃ s', GoesOn cbs s s' ∧ s'.callers (.timer w) = .idle ∧ s'.threads w = s.threads w := by
  obtain ⟨s₁, result, hgoes, hcallers, hthreads, hterminated₁, -⟩ :=
    caller_leaves cbs hterminated hpc hp
  have hafter : s₁.callers (.timer w) = f.after result := by
    rw [hcallers, Function.update_self]
  have hearly := (threadInv hrun.reachable).early w
  rw [hpc] at hearly
  cases f with
  | own k => exact ⟨s₁, hgoes, hafter, congrFun hthreads w⟩
  | startIsRunning =>
    by_cases hrunning : result = .flag true
    · exact ⟨s₁, hgoes, hafter.trans (if_pos hrunning), congrFun hthreads w⟩
    · obtain ⟨s', hgoes', hidle, hthread⟩ := join_returns (hgoes.run hrun) hterminated₁
        (hafter.trans (if_neg hrunning))
      exact ⟨s', hgoes.trans hgoes', hidle, hthread.trans (congrFun hthreads w)⟩
  | startException => cases hearly
  | startRunning => cases hearly

/-- A call that waits for another mutex than that of the loop gets it, and returns. -/
theorem lock_returns (hrun : (system cbs).Run keepsOff tr s) (hterminated : s.terminated = false)
    {w : ℕ} (htask : (s.threads w).inTask = true) {f : CallSection}
    (hpc : s.callers (.timer w) = .within f .lock) (hm : f.section.mutex ≠ .sleeper) :
    ∃ s', GoesOn cbs s s' ∧ s'.callers (.timer w) = .idle ∧ s'.threads w = s.threads w := by
  have hnot : s.held f.section.mutex (.timer w) = none := by
    have hlock : (CallPc.within f .lock).held f.section.mutex = none := Place.held_lock _ _
    rw [State.held, hpc, hlock, Option.none_or]
    show (s.threads w).held _ = none
    rw [ThreadPc.held_of_inCallback (ThreadPc.inCallback_of_inTask htask)]
    exact if_neg fun h => hm h.2
  obtain ⟨s₁, hgoes, hterminated₁, hthread, hcaller, hempty⟩ :=
    holders_leave cbs hm _ hrun hterminated hnot rfl
  obtain ⟨l, hl⟩ := served hempty (.timer w) f.section.mode
  let shared := s₁.shared.setLock f.section.mutex l
  let s₂ := { s₁ with shared }.setCaller (.timer w) (.within f .body)
  have hgoes₂ : GoesOn cbs s₁ s₂ :=
    GoesOn.within hterminated₁ (hcaller.trans hpc) (Option.map_eq_some_iff.mpr ⟨l, hl, rfl⟩)
  have hgoes' := hgoes.trans hgoes₂
  obtain ⟨s', hreturns, hidle, hthread'⟩ :=
    section_returns (hgoes'.run hrun) (s := s₂) hterminated₁ (Function.update_self ..) rfl
  exact ⟨s', hgoes'.trans hreturns, hidle, hthread'.trans hthread⟩

end Returns

/-! ## Runs -/

section Runs

variable {cbs : Callbacks} {tr : List Event} {s : State}

theorem stuck_iff (h : (system cbs).Reachable tr s) (w : ℕ) :
    Stuck s w ↔ ∃ c, .taskCalls w c ∈ tr ∧ c.reconfigures = true := by
  refine Run.invariant
    (I := fun tr s => Stuck s w ↔ ∃ c, .taskCalls w c ∈ tr ∧ c.reconfigures = true) ?_ ?_ h
  · refine iff_of_false (fun hstuck => Bool.false_ne_true hstuck.1) ?_
    rintro ⟨c, hmem, -⟩
    cases hmem
  · intro tr s a s' es hrun _ hst hs
    rw [stuck_step (lockInv hrun) (threadInv hrun) (step_move hst).2 w, hs, ← exists_or]
    simp only [List.mem_append, or_and_right]

theorem reacquires_forever (h : (system cbs).Reachable tr s) {t : Tid} (ht : s.Reacquires t)
    {tr' : List Event} {s' : State} (h' : (system cbs).RunFrom anyStep s tr' s') :
    s'.Reacquires t := by
  obtain ⟨w, rfl, hstuck⟩ := (reacquires_iff (lockInv h) (threadInv h) t).mp ht
  have hrun' : (system cbs).Reachable (tr ++ tr') s' := Run.append h h'
  refine (reacquires_iff (lockInv hrun') (threadInv hrun') _).mpr ⟨w, rfl, ?_⟩
  obtain ⟨c, hmem, hc⟩ := (stuck_iff h w).mp hstuck
  exact (stuck_iff hrun' w).mpr ⟨c, List.mem_append_left _ hmem, hc⟩

/-- The task of a run that keeps off the mutex of the loop is not stuck. -/
theorem not_stuck_of_keepsOff (h : (system cbs).Run keepsOff tr s) (w : ℕ) : ¬ Stuck s w := by
  have hcalls : ∀ c, .taskCalls w c ∈ tr → c.reconfigures = false := by
    refine Run.invariant (I := fun tr _ => ∀ c, .taskCalls w c ∈ tr → c.reconfigures = false)
      nofun ?_ h
    intro tr s a s' es _ hC hst hs c hmem
    rcases List.mem_append.mp hmem with hmem | hmem
    · exact hs c hmem
    · cases (step_move hst).2 with
      | calls t d hidle hmay =>
        cases t with
        | user n => cases hmem
        | timer v =>
          rw [State.callEvents] at hmem
          split at hmem
          · next htask =>
            rw [List.mem_singleton] at hmem
            cases hmem
            exact hC htask
          · cases hmem
      | within | passes | refused | joins | resets | creates | fails | terminates | advances | acts
      | locks | unlocks => cases hmem
  intro hstuck
  obtain ⟨c, hmem, hc⟩ := (stuck_iff h.reachable w).mp hstuck
  rw [hcalls c hmem] at hc
  cases hc

theorem call_returns (h : (system cbs).Run keepsOff tr s) (hterminated : s.terminated = false)
    {w : ℕ} (htask : (s.threads w).inTask = true) :
    ∃ s', GoesOn cbs s s' ∧ s'.callers (.timer w) = .idle ∧ s'.threads w = s.threads w := by
  have hearly := (threadInv h.reachable).early w
  cases hpc : s.callers (.timer w) with
  | idle => exact ⟨s, .nil, hpc, rfl⟩
  | within f p =>
    by_cases hp : p.holding = true
    · exact section_returns h hterminated hpc hp
    · have hlock : p = .lock := by
        cases p <;> first | rfl | exact absurd rfl hp
      subst hlock
      refine lock_returns h hterminated htask hpc fun hm => ?_
      exact not_stuck_of_keepsOff h w ⟨htask, f, hpc, hm⟩
  | join starting => exact join_returns h hterminated hpc
  | resetStop =>
    rw [hpc] at hearly
    cases hearly
  | create =>
    rw [hpc] at hearly
    cases hearly

end Runs

/-- **What the task may call.**  In every run a thread is about to take a mutex that it holds if
and only if the task has called `interval()`, `set_interval()` or `correct_for_task_delay()`, and
then it is so for ever.  As long as the task calls none of them, no thread ever is, and whatever
call the task is in can return. -/
theorem task_reacquires_iff (cbs : Callbacks) :
    (∀ tr s, (system cbs).Reachable tr s →
      ((∃ t, s.Reacquires t) ↔ ∃ w c, .taskCalls w c ∈ tr ∧ c.reconfigures = true) ∧
      ∀ t, s.Reacquires t → ∀ tr' s', (system cbs).RunFrom anyStep s tr' s' → s'.Reacquires t) ∧
    ∀ tr s, (system cbs).Run keepsOff tr s →
      (∀ t, ¬ s.Reacquires t) ∧
      ∀ w, (s.threads w).inTask = true → s.terminated = false →
        ∃ tr' s', (system cbs).RunFrom keepsOff s tr' s' ∧ s'.callers (.timer w) = .idle ∧
          s'.threads w = s.threads w := by
  refine ⟨fun tr s h => ⟨?_, fun t ht tr' s' h' => reacquires_forever h ht h'⟩,
    fun tr s h => ⟨fun t ht => ?_, fun w htask hterminated => ?_⟩⟩
  · have hstuck := reacquires_iff (lockInv h) (threadInv h)
    constructor
    · rintro ⟨t, ht⟩
      obtain ⟨w, -, hw⟩ := (hstuck t).mp ht
      exact ⟨w, (stuck_iff h w).mp hw⟩
    · rintro ⟨w, hw⟩
      exact ⟨.timer w, (hstuck _).mpr ⟨w, rfl, (stuck_iff h w).mpr hw⟩⟩
  · obtain ⟨w, -, hw⟩ := (reacquires_iff (lockInv h.reachable) (threadInv h.reachable) t).mp ht
    exact not_stuck_of_keepsOff h w hw
  · obtain ⟨s', hgoes, hidle, hthread⟩ := call_returns h hterminated htask
    exact ⟨[], s', hgoes, hidle, hthread⟩

/-- A timer is started, and its task sets the interval. -/
def setIntervalRun : List Action :=
  .call (.user 0) .start :: List.replicate 12 (.caller (.user 0) true) ++
    List.replicate 6 (.thread 0 true) ++ [.call (.timer 0) (.setInterval 500 .auto)]

/-- The task waits for itself, and goes on to do so whatever happens. -/
theorem set_interval_in_task : ∃ tr s, (system ⟨false, false⟩).Reachable tr s ∧
    s.Reacquires (.timer 0) ∧
    ∀ tr' s', (system ⟨false, false⟩).RunFrom anyStep s tr' s' → s'.Reacquires (.timer 0) := by
  have hexec : (((system ⟨false, false⟩).exec setIntervalRun).map fun r =>
      (r.1.awaited (.timer 0), (r.1.shared.locks .sleeper).holders)) =
      some (some .sleeper, [.timer 0]) := by decide +kernel
  obtain ⟨⟨s, tr⟩, hrun, hs⟩ := Option.map_eq_some_iff.mp hexec
  have hreachable : (system ⟨false, false⟩).Reachable tr s :=
    runFrom_of_execFrom (execMeets_anyStep ..) hrun
  have hwaits : s.Reacquires (.timer 0) := by
    refine ⟨.sleeper, (Prod.mk.inj hs).1, ?_⟩
    rw [(Prod.mk.inj hs).2]
    exact List.mem_singleton_self _
  exact ⟨tr, s, hreachable, hwaits, fun tr' s' h' => reacquires_forever hreachable hwaits h'⟩

end BackgroundTimer
