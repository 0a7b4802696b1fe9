/-
# The iterations of a worker

`m_iterations_done` and `m_stop_at_iteration`, which the callers and the loop share, and
the arithmetic of the target that `request_stop_after_iterations()` stores.

* `State.stores` : what a step stores into the request, the counter and the target;
* `Frame` : what a step leaves alone, by who makes it;
* `CountInv` : the counter is the number of ticks of the thread in its loop, one more from
  `fetch_add` to the call of `on_tick`, and it never wraps.
-/
import Libsg.WorkerTrace

open TransitionSystem

namespace Worker

/-! ## The target -/

/-- `MAX_ITERATION_COUNT`, with which nothing stops. -/
def maxIterationCount64 : UInt64 := 0xFFFFFFFFFFFFFFFF

/-- The target as `request_stop_after_iterations()` calculates it. -/
def targetAfter64 (done iterationCount : UInt64) : UInt64 :=
  if maxIterationCount64 - done ≤ iterationCount then maxIterationCount64 - 1
  else done + iterationCount

theorem targetAfter_eq (done iterationCount : ℕ) :
    targetAfter done iterationCount = min (done + iterationCount) (maxIterationCount - 1) := by
  unfold targetAfter
  have hpos : 0 < maxIterationCount := by decide
  split <;> omega

/-- The machine's arithmetic does not wrap. -/
theorem targetAfter64_toNat (done iterationCount : UInt64) :
    (targetAfter64 done iterationCount).toNat = targetAfter done.toNat iterationCount.toNat := by
  have hmax : maxIterationCount64.toNat = maxIterationCount := by decide
  have hdone : done.toNat ≤ maxIterationCount := Nat.le_of_lt_succ done.toNat_lt
  have hsub : (maxIterationCount64 - done).toNat = maxIterationCount - done.toNat := by
    rw [UInt64.toNat_sub_of_le _ _ (by rwa [UInt64.le_iff_toNat_le, hmax]), hmax]
  have hle : maxIterationCount64 - done ≤ iterationCount ↔
      maxIterationCount - done.toNat ≤ iterationCount.toNat := by
    rw [UInt64.le_iff_toNat_le, hsub]
  unfold targetAfter64 targetAfter
  by_cases hbig : maxIterationCount64 - done ≤ iterationCount
  · rw [if_pos hbig, if_pos (hle.mp hbig)]
    decide
  · have hsmall : done.toNat + iterationCount.toNat < 2 ^ 64 := by
      have hnot := mt hle.mpr hbig
      unfold maxIterationCount at hnot hdone
      omega
    rw [if_neg hbig, if_neg (mt hle.mpr hbig), UInt64.toNat_add, Nat.mod_eq_of_lt hsmall]

/-! ## What a step stores -/

/-- What the step of a call at this place stores. -/
def CallPc.stores (c : Control) : CallPc → Control
  | .resetStop _ => { c with stopRequested := false }
  | .resetIterations _ => { c with iterationsDone := 0 }
  | .setTarget n | .storeTarget n => { c with stopAtIteration := n }
  | .storeStop => { c with stopRequested := true }
  | _ => c

/-- What a step stores into the request, the counter and the target. -/
def State.stores (s : State) : Action → Control
  | .caller t _ => (s.callers t).stores s.control
  | .loop w _ =>
    if s.threads w = .looping .counting then
      { s.control with iterationsDone := (s.control.iterationsDone + 1) % 2 ^ 64 }
    else s.control
  | _ => s.control

/-- Who makes a step. -/
def Action.maker : Action → Owner
  | .call t _ | .caller t _ => .caller t
  | .thread w _ | .loop w _ | .startWithId w => .thread w

section StepStores

variable {correctForTaskDelay : Bool} {s s' : State} {a : Action} {es : List Event}

theorem step_call {t : ℕ} {c : Call} (h : step correctForTaskDelay s (.call t c) = some (s', es)) :
    s.callers t = .idle ∧ s' = (callStep s t c).1 ∧ es = (callStep s t c).2 := by
  unfold step at h
  split at h
  · cases h
  · dsimp only at h
    split at h
    · next hidle =>
      have heq := Option.some.inj h
      exact ⟨hidle, (congrArg Prod.fst heq).symm, (congrArg Prod.snd heq).symm⟩
    · cases h

theorem step_caller {t : ℕ} {ok : Bool}
    (h : step correctForTaskDelay s (.caller t ok) = some (s', es)) :
    callerStep s t ok = some (s', es) := by
  unfold step at h
  split at h
  · cases h
  · exact h

theorem step_thread {w : ℕ} {ok : Bool}
    (h : step correctForTaskDelay s (.thread w ok) = some (s', es)) :
    threadStep s w ok = some (s', es) := by
  unfold step at h
  split at h
  · cases h
  · exact h

theorem step_loop {w : ℕ} {la : LoopAction}
    (h : step correctForTaskDelay s (.loop w la) = some (s', es)) :
    ∃ pc c pc' les, s.threads w = .looping pc ∧
      loopStep correctForTaskDelay s.control pc la = some (c, pc', les) ∧
      s' = { s with control := c }.setThread w (.looping pc') ∧ es = les.map (.loop w) := by
  unfold step at h
  split at h
  · cases h
  · dsimp only at h
    split at h
    · next pc hpc =>
      obtain ⟨⟨c, pc', les⟩, hloop, heq⟩ := Option.map_eq_some_iff.mp h
      cases heq
      exact ⟨pc, c, pc', les, hpc, hloop, rfl, rfl⟩
    · cases h

theorem step_startWithId {w : ℕ}
    (h : step correctForTaskDelay s (.startWithId w) = some (s', es)) :
    s' = s ∧ es = [] ∨ s' = { s with running := true } ∧ es = [.began, .startThrew] := by
  unfold step at h
  split at h
  · cases h
  · dsimp only at h
    split at h
    · split at h
      · cases h
        exact .inl ⟨rfl, rfl⟩
      · cases h
        exact .inr ⟨rfl, rfl⟩
    · cases h

theorem callStep_control (s : State) (t : ℕ) (c : Call) :
    ∃ i n, (callStep s t c).1.control = { s.control with interval := i, notifySem := n } := by
  cases c with
  | start n | requestStopAfterIterations n =>
    simp only [callStep]
    split <;> exact ⟨_, _, rfl⟩
  | waitForStop | requestStop | notify | setInterval | isRunning => exact ⟨_, _, rfl⟩

theorem callerStep_control {t : ℕ} {ok : Bool} (h : callerStep s t ok = some (s', es)) :
    ∃ i n, s'.control = { (s.callers t).stores s.control with interval := i, notifySem := n } := by
  unfold callerStep at h
  split at h
  all_goals
    next hpc =>
    rw [hpc]
    repeat' (split at h)
    all_goals cases h <;> exact ⟨_, _, rfl⟩

theorem threadStep_control {w : ℕ} {ok : Bool} (h : threadStep s w ok = some (s', es)) :
    s'.control = s.control := by
  unfold threadStep at h
  split at h
  all_goals
    repeat' (split at h)
    all_goals cases h <;> rfl

/-- In the loop only `fetch_add` changes the counter. -/
theorem loopStep_control {c c' : Control} {pc pc' : LoopPc} {la : LoopAction}
    {les : List LoopEvent} (h : loopStep correctForTaskDelay c pc la = some (c', pc', les)) :
    ∃ n, c' = { c with
      iterationsDone := if pc = .counting then (c.iterationsDone + 1) % 2 ^ 64 else c.iterationsDone
      notifySem := n } := by
  unfold loopStep at h
  split at h
  all_goals
    repeat' (split at h)
    all_goals cases h <;> exact ⟨_, rfl⟩

/-- Only the steps that `State.stores` names change the request, the counter and the target. -/
theorem step_control (h : step correctForTaskDelay s a = some (s', es)) :
    ∃ i n, s'.control = { s.stores a with interval := i, notifySem := n } := by
  cases a with
  | call t c =>
    obtain ⟨-, rfl, rfl⟩ := step_call h
    exact callStep_control s t c
  | caller t ok => exact callerStep_control (step_caller h)
  | thread w ok => exact ⟨_, _, threadStep_control (step_thread h)⟩
  | loop w la =>
    obtain ⟨pc, c, pc', les, hpc, hloop, rfl, rfl⟩ := step_loop h
    obtain ⟨n, hc⟩ := loopStep_control hloop
    refine ⟨s.control.interval, n, ?_⟩
    show c = _
    rw [hc]
    by_cases hcounting : pc = .counting
    · simp [State.stores, hpc, hcounting]
    · simp [State.stores, hpc, hcounting]
  | startWithId w =>
    rcases step_startWithId h with ⟨rfl, -⟩ | ⟨rfl, -⟩ <;> exact ⟨_, _, rfl⟩

/-- The counter rises by one at most. -/
theorem iterationsDone_step (h : step correctForTaskDelay s a = some (s', es)) :
    s'.control.iterationsDone ≤ s.control.iterationsDone + 1 := by
  obtain ⟨i, n, hcontrol⟩ := step_control h
  rw [hcontrol]
  show (s.stores a).iterationsDone ≤ _
  cases a with
  | caller t ok =>
    show ((s.callers t).stores s.control).iterationsDone ≤ _
    cases s.callers t <;> first | exact Nat.zero_le _ | exact Nat.le_succ _
  | loop w a =>
    simp only [State.stores]
    split
    · exact Nat.mod_le _ _
    · exact Nat.le_succ _
  | call | thread | startWithId => exact Nat.le_succ _

end StepStores

/-! ## What a step leaves alone -/

/-- What a step of `x` leaves alone: the places and the ticks of the others, but for a thread
that it creates. -/
structure Frame (s : State) (x : Owner) (es : List Event) (s' : State) : Prop where
  callers : ∀ t, .caller t ≠ x → s'.callers t = s.callers t
  threads : ∀ w, .thread w ≠ x → s'.threads w = s.threads w ∨
    w = s.threadCount ∧ s'.threads w = .spawned ∧ ∃ t, x = .caller t ∧ s.callers t = .create
  ticks : ∀ w, .thread w ≠ x → es.count (.loop w .tick) = 0

section StepFrame

variable {correctForTaskDelay : Bool} {s s' : State} {a : Action} {es : List Event}

/-- A step of a call that creates no thread. -/
theorem Frame.caller {t : ℕ} (hcallers : ∀ u, u ≠ t → s'.callers u = s.callers u)
    (hthreads : s'.threads = s.threads) (hticks : ∀ w, es.count (.loop w .tick) = 0) :
    Frame s (.caller t) es s' where
  callers u hu := hcallers u fun heq => hu (congrArg Owner.caller heq)
  threads w _ := .inl (congrFun hthreads w)
  ticks w _ := hticks w

/-- A step of a thread. -/
theorem Frame.thread {w : ℕ} (hcallers : s'.callers = s.callers)
    (hthreads : ∀ v, v ≠ w → s'.threads v = s.threads v)
    (hticks : ∀ v, v ≠ w → es.count (.loop v .tick) = 0) : Frame s (.thread w) es s' where
  callers t _ := congrFun hcallers t
  threads v hv := .inl (hthreads v fun heq => hv (congrArg Owner.thread heq))
  ticks v hv := hticks v fun heq => hv (congrArg Owner.thread heq)

theorem callStep_frame (s : State) (t : ℕ) (c : Call) :
    Frame s (.caller t) (callStep s t c).2 (callStep s t c).1 := by
  have hothers (u : ℕ) (hu : u ≠ t) (s₀ : State) (pc : CallPc) :
      (s₀.setCaller t pc).callers u = s₀.callers u := Function.update_of_ne hu ..
  cases c with
  | start n | requestStopAfterIterations n =>
    simp only [callStep]
    split
    · exact .caller (fun u hu => by first | rfl | exact hothers u hu s _) rfl fun _ => rfl
    · exact .caller (fun u hu => hothers u hu _ _) rfl fun _ => rfl
  | waitForStop | requestStop =>
    exact .caller (fun u hu => hothers u hu s _) rfl fun _ => rfl
  | notify | setInterval | isRunning => exact .caller (fun _ _ => rfl) rfl fun _ => rfl

theorem callerStep_frame {t : ℕ} {ok : Bool} (h : callerStep s t ok = some (s', es)) :
    Frame s (.caller t) es s' := by
  have hcreates (hpc : s.callers t = .create) (s₀ : State) (hcallers : s₀.callers = s.callers)
      (hthreads : s₀.threads = s.threads) : Frame s (.caller t) []
        ((s₀.setThread s.threadCount .spawned).setCaller t (.created s.threadCount)) := by
    refine ⟨fun u hu => ?_, fun w _ => ?_, fun _ _ => rfl⟩
    · rw [← hcallers]
      exact Function.update_of_ne (fun heq => hu (congrArg Owner.caller heq)) ..
    · by_cases hw : w = s.threadCount
      · exact .inr ⟨hw, by simp [State.setCaller, State.setThread, hw], t, rfl, hpc⟩
      · rw [← hthreads]
        exact .inl (Function.update_of_ne hw ..)
  unfold callerStep at h
  split at h
  all_goals
    next hpc =>
    repeat' (split at h)
    all_goals
      cases h <;> first
        | exact .caller (fun u hu => by simp [State.setCaller, hu]) rfl fun _ => rfl
        | exact hcreates hpc _ rfl rfl

theorem threadStep_frame {w : ℕ} {ok : Bool} (h : threadStep s w ok = some (s', es)) :
    Frame s (.thread w) es s' := by
  unfold threadStep at h
  split at h
  all_goals
    repeat' (split at h)
    all_goals
      cases h <;>
        exact .thread rfl (fun v hv => by simp [State.setThread, State.setPromise, hv]) fun _ _ => rfl

/-- **A step leaves the others alone.** -/
theorem step_frame (h : step correctForTaskDelay s a = some (s', es)) : Frame s a.maker es s' := by
  cases a with
  | call t c =>
    obtain ⟨-, rfl, rfl⟩ := step_call h
    exact callStep_frame s t c
  | caller t ok => exact callerStep_frame (step_caller h)
  | thread w ok => exact threadStep_frame (step_thread h)
  | loop w la =>
    obtain ⟨pc, c, pc', les, hpc, hloop, rfl, rfl⟩ := step_loop h
    refine .thread rfl (fun v hv => Function.update_of_ne hv ..) fun v hv => ?_
    rw [List.count_eq_zero]
    intro hmem
    obtain ⟨e, -, he⟩ := List.mem_map.mp hmem
    exact hv (Event.loop.inj he).1.symm
  | startWithId w =>
    rcases step_startWithId h with ⟨rfl, rfl⟩ | ⟨rfl, rfl⟩
    · exact .thread rfl (fun _ _ => rfl) fun _ _ => rfl
    · exact .thread rfl (fun _ _ => rfl) fun _ _ => rfl

end StepFrame

/-! ## The counter and the ticks -/

/-- The arguments are values of `size_t`. -/
def fits : Action → Prop
  | .call _ (.start n) | .call _ (.requestStopAfterIterations n) => n ≤ maxIterationCount
  | _ => True

instance (a : Action) : Decidable (fits a) := by
  unfold fits
  split <;> infer_instance

def After.Counted : After → Prop
  | .starting n => n ≤ maxIterationCount
  | .waiting => True

/-- A call's argument is in range; from the reset to the creation nothing is counted. -/
def CallPc.Counted (done : ℕ) : CallPc → Prop
  | .lockJoin k | .joining k | .joined k | .unlocking k => k.Counted
  | .prepare n | .resetStop n | .resetIterations n => n ≤ maxIterationCount
  | .setTarget n => n ≤ maxIterationCount ∧ done = 0
  | .drainLeftover | .lockThread | .create => done = 0
  | .loadDone n => 1 ≤ n
  | .storeTarget n => n < maxIterationCount
  | _ => True

/-- A call's argument is in range. -/
def CallPc.Fits : CallPc → Prop
  | .lockJoin k | .joining k | .joined k | .unlocking k => k.Counted
  | .prepare n | .resetStop n | .resetIterations n | .setTarget n => n ≤ maxIterationCount
  | .loadDone n => 1 ≤ n
  | .storeTarget n => n < maxIterationCount
  | _ => True

theorem CallPc.Counted.fits {pc : CallPc} {done : ℕ} (h : pc.Counted done) : pc.Fits := by
  cases pc with
  | setTarget n => exact h.1
  | drainLeftover | lockThread | create => trivial
  | _ => exact h

/-- The counter in the loop of a thread that has made these ticks. -/
def LoopPc.Counted (done ticks : ℕ) : LoopPc → Prop
  | .check | .counting | .timing | .waiting | .draining => ticks = done ∧ done < maxIterationCount
  | .calling i => i = done ∧ ticks + 1 = done ∧ done ≤ maxIterationCount
  | .ticking i | .ticked i => i = done ∧ ticks = done ∧ done ≤ maxIterationCount
  | .left _ => ticks = done

def ThreadPc.Counted (done ticks : ℕ) : ThreadPc → Prop
  | .unborn => ticks = 0
  | .spawned | .entered | .inStart | .started => done = 0 ∧ ticks = 0
  | .looping pc => pc.Counted done ticks
  | _ => True

/-- Who does not own a run knows nothing of the counter. -/
theorem CallPc.Counted.of_not_owns {done : ℕ} {pc : CallPc} (h : pc.Counted done)
    (hpc : pc.owns = false) (done' : ℕ) : pc.Counted done' := by
  cases pc with
  | lockJoin k | joining k | joined k | unlocking k => exact h
  | prepare | resetStop | resetIterations | setTarget | drainLeftover | lockThread | create =>
    cases hpc
  | _ => exact h

theorem ThreadPc.Counted.of_not_owns {done ticks : ℕ} {pc : ThreadPc} (h : pc.Counted done ticks)
    (hpc : pc.owns = false) (done' : ℕ) : pc.Counted done' ticks := by
  cases pc with
  | spawned | entered | inStart | started | looping => cases hpc
  | _ => exact h

structure CountInv (tr : List Event) (s : State) : Prop where
  target : s.control.stopAtIteration ≤ maxIterationCount
  callers : ∀ t, (s.callers t).Counted s.control.iterationsDone
  threads : ∀ w, (s.threads w).Counted s.control.iterationsDone (tr.count (.loop w .tick))

section StepCounted

variable {correctForTaskDelay : Bool} {s s' : State} {a : Action} {es : List Event}

theorem targetAfter_lt (done iterationCount : ℕ) :
    targetAfter done iterationCount < maxIterationCount := by
  rw [targetAfter_eq]
  have hpos : 0 < maxIterationCount := by decide
  omega

/-- A call begins. -/
theorem callStep_counted {t : ℕ} {c : Call} (hfits : fits (.call t c)) (done : ℕ)
    (hidle : s.callers t = .idle) : ((callStep s t c).1.callers t).Counted done := by
  cases c with
  | start n =>
    simp only [callStep]
    split
    · rw [hidle]
      trivial
    · simpa [State.setCaller, CallPc.Counted, After.Counted, fits] using hfits
  | requestStopAfterIterations n =>
    simp only [callStep]
    split
    · simp [State.setCaller, CallPc.Counted]
    · next hn =>
      simp only [State.setCaller, Function.update_self, CallPc.Counted]
      omega
  | waitForStop | requestStop => simp [callStep, State.setCaller, CallPc.Counted, After.Counted]
  | notify | setInterval | isRunning => simp [callStep, hidle, CallPc.Counted]

/-- A call moves on. -/
theorem callerStep_counted {t : ℕ} {ok : Bool} (h : callerStep s t ok = some (s', es))
    (hcounted : (s.callers t).Counted s.control.iterationsDone) :
    (s'.callers t).Counted s'.control.iterationsDone := by
  unfold callerStep at h
  split at h
  all_goals
    next hpc =>
    rw [hpc] at hcounted
    repeat' (split at h)
    all_goals
      cases h <;>
        simp [State.setCaller, State.setThread, CallPc.Counted, hpc, targetAfter_lt] <;>
        first | exact hcounted | exact hcounted.2

/-- A thread moves on outside its loop; nothing is counted when the loop begins. -/
theorem threadStep_counted {w : ℕ} {ok : Bool} {ticks : ℕ} (h : threadStep s w ok = some (s', es))
    (hcounted : (s.threads w).Counted s.control.iterationsDone ticks) :
    (s'.threads w).Counted s'.control.iterationsDone (ticks + es.count (.loop w .tick)) := by
  have hbegins (done : ℕ) (h : done = 0 ∧ ticks = 0) : LoopPc.check.Counted done ticks := by
    rw [h.1, h.2]
    exact ⟨rfl, by decide⟩
  unfold threadStep at h
  split at h
  all_goals
    next hpc =>
    first | rw [hpc] at hcounted | cases h
    repeat' (split at h)
    all_goals
      cases h
      all_goals
        simp [State.setThread, State.setPromise, ThreadPc.Counted] <;>
          first | exact hcounted | exact hbegins _ hcounted

/-- The loop moves on: `fetch_add` counts, and a tick begins for what has been counted. -/
theorem loopStep_counted {c c' : Control} {pc pc' : LoopPc} {la : LoopAction} {ticks : ℕ}
    {les : List LoopEvent} (h : loopStep correctForTaskDelay c pc la = some (c', pc', les))
    (htarget : c.stopAtIteration ≤ maxIterationCount) (hcounted : pc.Counted c.iterationsDone ticks) :
    pc'.Counted c'.iterationsDone (ticks + les.count .tick) := by
  unfold loopStep at h
  unfold maxIterationCount at htarget
  split at h
  all_goals
    repeat' (split at h)
    all_goals
      cases h <;> simp [LoopPc.Counted, maxIterationCount] at hcounted ⊢ <;> omega

/-- The counter changes only by who owns the run. -/
theorem stores_iterationsDone (s : State) (a : Action) :
    (s.stores a).iterationsDone = s.control.iterationsDone ∨ s.owns a.maker = true := by
  cases a with
  | caller t ok =>
    show ((s.callers t).stores s.control).iterationsDone = _ ∨ (s.callers t).owns = true
    cases s.callers t <;> first | exact .inl rfl | exact .inr rfl
  | loop w la =>
    simp only [State.stores]
    split
    · next hpc =>
      right
      show (s.threads w).owns = true
      rw [hpc]
      rfl
    · exact .inl rfl
  | call | thread | startWithId => exact .inl rfl

/-- The target stays in range. -/
theorem stores_stopAtIteration (htarget : s.control.stopAtIteration ≤ maxIterationCount)
    (hcallers : ∀ t, (s.callers t).Fits) (a : Action) :
    (s.stores a).stopAtIteration ≤ maxIterationCount := by
  cases a with
  | caller t ok =>
    have hfits := hcallers t
    show ((s.callers t).stores s.control).stopAtIteration ≤ _
    cases hpc : s.callers t with
    | setTarget n =>
      rw [hpc] at hfits
      exact hfits
    | storeTarget n =>
      rw [hpc] at hfits
      exact Nat.le_of_lt hfits
    | _ => exact htarget
  | loop w la =>
    simp only [State.stores]
    split <;> exact htarget
  | call | thread | startWithId => exact htarget

/-- **The counter counts the ticks**, step by step. -/
theorem CountInv.step {tr : List Event} (h : CountInv tr s) (hown : OwnInv s) (hjoin : JoinInv s)
    (hfits : fits a) (hstep : step correctForTaskDelay s a = some (s', es)) :
    CountInv (tr ++ es) s' := by
  have hframe := step_frame hstep
  obtain ⟨i, n, hcontrol⟩ := step_control hstep
  have hdone : s'.control.iterationsDone = (s.stores a).iterationsDone := by rw [hcontrol]
  -- who owns the run and makes no step finds the counter as it was
  have hsame (x : Owner) (hx : x ≠ a.maker) (hxown : s.owns x = true) :
      s'.control.iterationsDone = s.control.iterationsDone := by
    rw [hdone]
    exact (stores_iterationsDone s a).resolve_right fun hmaker =>
      hx (hown.unique x a.maker hxown hmaker)
  refine ⟨?_, fun t => ?_, fun w => ?_⟩
  · rw [hcontrol]
    exact stores_stopAtIteration h.target (fun t => (h.callers t).fits) a
  · by_cases ht : .caller t = a.maker
    · cases a with
      | call u c =>
        obtain ⟨hidle, rfl, rfl⟩ := step_call hstep
        cases ht
        exact callStep_counted hfits _ hidle
      | caller u ok =>
        cases ht
        exact callerStep_counted (step_caller hstep) (h.callers t)
      | thread | loop | startWithId => cases ht
    · rw [hframe.callers t ht]
      by_cases htown : (s.callers t).owns = true
      · rw [hsame (.caller t) ht htown]
        exact h.callers t
      · exact (h.callers t).of_not_owns (by simpa using htown) _
  · rw [List.count_append]
    by_cases hw : .thread w = a.maker
    · cases a with
      | thread v ok =>
        cases hw
        exact threadStep_counted (step_thread hstep) (h.threads w)
      | loop v la =>
        cases hw
        obtain ⟨pc, c, pc', les, hpc, hloop, rfl, rfl⟩ := step_loop hstep
        have hcounted := h.threads w
        rw [hpc] at hcounted
        rw [List.count_map_of_injective _ _ (fun _ _ he => (Event.loop.inj he).2)]
        show (Function.update s.threads w (.looping pc') w).Counted _ _
        rw [Function.update_self]
        exact loopStep_counted hloop h.target hcounted
      | startWithId v =>
        cases hw
        rcases step_startWithId hstep with ⟨rfl, rfl⟩ | ⟨rfl, rfl⟩
        · exact h.threads w
        · exact h.threads w
      | call | caller => cases hw
    · rw [hframe.ticks w hw, Nat.add_zero]
      rcases hframe.threads w hw with hkept | ⟨hnew, hspawned, t, hmaker, hpc⟩
      · rw [hkept]
        by_cases hwown : (s.threads w).owns = true
        · rw [hsame (.thread w) hw hwown]
          exact h.threads w
        · exact (h.threads w).of_not_owns (by simpa using hwown) _
      · -- a thread is created when nothing has been counted
        have hzero := h.callers t
        rw [hpc] at hzero
        have hticks := h.threads w
        rw [hnew, hjoin.unborn _ (Nat.le_refl _)] at hticks
        have hstores : (s.stores a).iterationsDone = s.control.iterationsDone := by
          cases a with
          | caller u ok =>
            cases hmaker
            simp [State.stores, hpc, CallPc.stores]
          | call u c => rfl
          | thread | loop | startWithId => cases hmaker
        rw [hspawned, hdone, hstores]
        rw [hnew]
        exact ⟨hzero, hticks⟩

end StepCounted

/-! ## What holds along a run -/

/-- No handler of a failed `start()` is late, and the arguments are values of `size_t`. -/
def regular (s : State) (a : Action) : Prop := timely s a ∧ fits a

instance (s : State) (a : Action) : Decidable (regular s a) := inferInstanceAs (Decidable (_ ∧ _))

/-- What holds along a regular run; the program is not terminated by an assignment over a thread. -/
structure RegularInv (tr : List Event) (s : State) : Prop where
  own : OwnInv s
  join : JoinInv s
  count : CountInv tr s
  alive : s.terminated = false

section Regular

variable {correctForTaskDelay : Bool} {interval : ℤ} {s s' : State} {a : Action}
  {tr es : List Event}

theorem JoinInv.alive (h : JoinInv s) (hm : Move correctForTaskDelay s a es s')
    (halive : s.terminated = false) : s'.terminated = false := by
  cases hm with
  | overwrites t w hpc hthread =>
    have hnone := h.past t (by rw [hpc]; rfl)
    rw [hthread] at hnone
    cases hnone
  | _ => exact halive

theorem RegularInv.step (h : RegularInv tr s) (hC : regular s a)
    (hstep : step correctForTaskDelay s a = some (s', es)) : RegularInv (tr ++ es) s' := by
  have hm := (step_move hstep).2
  exact ⟨h.own.step hC.1 hm, h.join.step h.own hm, h.count.step h.own h.join hC.2 hstep,
    h.join.alive hm h.alive⟩

/-- Along a run that goes on from a state in which it holds. -/
theorem RegularInv.runFrom {C : State → Action → Prop} (hC : ∀ s a, C s a → regular s a)
    {tr₂ : List Event} (h : RegularInv tr s)
    (hrun : (system correctForTaskDelay interval).RunFrom C s tr₂ s') :
    RegularInv (tr ++ tr₂) s' := by
  refine hrun.invariant (I := fun tr₂ s' => RegularInv (tr ++ tr₂) s') ?_ ?_
  · simpa using h
  · intro tr₂ t a u es _ hCa hstep ih
    rw [← List.append_assoc]
    exact ih.step (hC t a hCa) hstep

end Regular

/-! ## Runs that are regular from some moment on -/

/-- What holds along every run, whatever its handlers store. -/
structure FitsInv (tr : List Event) (s : State) : Prop where
  held : HeldInv s
  target : s.control.stopAtIteration ≤ maxIterationCount
  callers : ∀ t, (s.callers t).Fits
  ticks : ∀ w, s.threads w = .unborn → tr.count (.loop w .tick) = 0

section Fits

variable {correctForTaskDelay : Bool} {interval : ℤ} {s s' : State} {a : Action}
  {tr es : List Event}

theorem CallPc.Fits.counted {pc : CallPc} (h : pc.Fits) (hpc : pc.owns = false) (done : ℕ) :
    pc.Counted done := by
  cases pc with
  | prepare | resetStop | resetIterations | setTarget | drainLeftover | lockThread | create =>
    cases hpc
  | _ => exact h

theorem callerStep_fits {t : ℕ} {ok : Bool} (h : callerStep s t ok = some (s', es))
    (hfits : (s.callers t).Fits) : (s'.callers t).Fits := by
  unfold callerStep at h
  split at h
  all_goals
    next hpc =>
    rw [hpc] at hfits
    repeat' (split at h)
    all_goals
      cases h <;> simp [State.setCaller, State.setThread, CallPc.Fits, hpc, targetAfter_lt] <;>
        exact hfits

/-- A thread that is not there makes no step. -/
theorem threadStep_born {w : ℕ} {ok : Bool} (h : threadStep s w ok = some (s', es)) :
    s'.threads w ≠ .unborn := by
  unfold threadStep at h
  split at h
  all_goals
    repeat' (split at h)
    all_goals cases h <;> simp [State.setThread, State.setPromise]

theorem FitsInv.step (h : FitsInv tr s) (hfits : fits a)
    (hstep : step correctForTaskDelay s a = some (s', es)) : FitsInv (tr ++ es) s' where
  held := h.held.step (step_move hstep).2
  target := by
    obtain ⟨i, n, hcontrol⟩ := step_control hstep
    rw [hcontrol]
    exact stores_stopAtIteration h.target h.callers a
  callers t := by
    by_cases hmaker : .caller t = a.maker
    · cases a with
      | call u c =>
        cases hmaker
        obtain ⟨hidle, rfl, -⟩ := step_call hstep
        exact (callStep_counted hfits 0 hidle).fits
      | caller u ok =>
        cases hmaker
        exact callerStep_fits (step_caller hstep) (h.callers t)
      | thread | loop | startWithId => cases hmaker
    · rw [(step_frame hstep).callers t hmaker]
      exact h.callers t
  ticks w hunborn := by
    rw [List.count_append]
    by_cases hmaker : .thread w = a.maker
    · cases a with
      | thread v ok =>
        cases hmaker
        exact absurd hunborn (threadStep_born (step_thread hstep))
      | loop v la =>
        cases hmaker
        obtain ⟨pc, c, pc', les, -, -, rfl, -⟩ := step_loop hstep
        simp [State.setThread] at hunborn
      | startWithId v =>
        rcases step_startWithId hstep with ⟨rfl, rfl⟩ | ⟨rfl, rfl⟩ <;> exact h.ticks w hunborn
      | call | caller => cases hmaker
    · rw [(step_frame hstep).ticks w hmaker]
      rcases (step_frame hstep).threads w hmaker with hkept | ⟨-, hspawned, -⟩
      · exact h.ticks w (hkept ▸ hunborn)
      · rw [hspawned] at hunborn
        cases hunborn

theorem fitsInv (h : (system correctForTaskDelay interval).Run (fun _ a => fits a) tr s) :
    FitsInv tr s := by
  refine Run.invariant (I := FitsInv) ?_ ?_ h
  · exact ⟨(JoinInv.start _ _).toHeldInv, Nat.le_refl _, fun _ => trivial, fun _ _ => rfl⟩
  · intro tr s a s' es _ hfits hstep ih
    exact ih.step hfits hstep

/-- **Where nobody owns a run, everything is in order again.** -/
theorem FitsInv.regular (h : FitsInv tr s) (hfree : ∀ x, s.owns x = false)
    (halive : s.terminated = false) : RegularInv tr s where
  own := .of_nobody hfree _
  join :=
    { toHeldInv := h.held
      past := fun t hpast => by
        have hnot : (s.callers t).owns = false := hfree (.caller t)
        rw [CallPc.owns_of_past hpast] at hnot
        cases hnot }
  count :=
    { target := h.target
      callers := fun t => (h.callers t).counted (hfree (.caller t)) _
      threads := fun w => by
        have hnot : (s.threads w).owns = false := hfree (.thread w)
        cases hpc : s.threads w with
        | unborn => exact h.ticks w hpc
        | spawned | entered | inStart | started | looping =>
          rw [hpc] at hnot
          cases hnot
        | _ => trivial }
  alive := halive

/-- A run that is regular from a moment on at which no run of the worker is under way. -/
inductive RegularSince (correctForTaskDelay : Bool) (interval : ℤ) : List Event → State → Prop
  | intro {tr₀ tr : List Event} {s₀ s : State}
      (before : (system correctForTaskDelay interval).Run (fun _ a => fits a) tr₀ s₀)
      (free : ∀ x, s₀.owns x = false) (alive : s₀.terminated = false)
      (since : (system correctForTaskDelay interval).RunFrom regular s₀ tr s) :
      RegularSince correctForTaskDelay interval (tr₀ ++ tr) s

theorem regularInv_since (h : RegularSince correctForTaskDelay interval tr s) :
    RegularInv tr s := by
  obtain ⟨before, free, alive, since⟩ := h
  exact ((fitsInv before).regular free alive).runFrom (fun _ _ hC => hC) since

/-- So is a run that is regular from the start. -/
theorem RegularSince.of_run (h : (system correctForTaskDelay interval).Run regular tr s) :
    RegularSince correctForTaskDelay interval tr s := by
  rw [← List.nil_append tr]
  exact .intro .nil (fun x => by cases x <;> rfl) rfl h

end Fits

end Worker
