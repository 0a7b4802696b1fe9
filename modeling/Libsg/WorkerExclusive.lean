/-
# One run at a time

Who has announced a run owns it: first the call of `start()`, from the thread's creation
on the worker thread, until one of them stores that the worker is stopped.  There is one
owner at most, and while there is one the worker is marked as running (`OwnInv`), as
long as the handler of a failed `start()` finds the worker stopped already.  A request
to stop is kept unless a `start()` is between its announcement and its reset.
-/
import Libsg.Exclusive
import Libsg.Worker

open TransitionSystem

namespace Worker

/-! ## Ownership -/

/-- The places of a `start()` whose run is announced and whose thread is not there yet. -/
def CallPc.owns : CallPc → Bool
  | .lockJoin (.starting _) | .joining (.starting _) | .joined (.starting _)
  | .unlocking (.starting _) | .prepare _ | .resetStop _ | .resetIterations _ | .setTarget _
  | .drainLeftover | .lockThread | .create | .handler none => true
  | _ => false

/-- The places of a worker thread that has not stored that the worker is stopped. -/
def ThreadPc.owns : ThreadPc → Bool
  | .spawned | .entered | .inStart | .started | .startThrew | .looping _ => true
  | _ => false

/-- The thread has completed `on_start` and has not left its tick loop. -/
def ThreadPc.active : ThreadPc → Bool
  | .started => true
  | .looping (.left _) => false
  | .looping _ => true
  | _ => false

theorem ThreadPc.owns_of_active {pc : ThreadPc} (h : pc.active = true) : pc.owns = true := by
  cases pc <;> first | rfl | cases h

/-- Who can own a run. -/
inductive Owner
  | caller (t : ℕ)
  | thread (w : ℕ)
  deriving DecidableEq

def State.owns (s : State) : Owner → Bool
  | .caller t => (s.callers t).owns
  | .thread w => (s.threads w).owns

theorem State.owns_setCaller (s : State) (t : ℕ) (pc : CallPc) (x : Owner) :
    (s.setCaller t pc).owns x = if x = .caller t then pc.owns else s.owns x := by
  cases x with
  | caller u =>
    by_cases hu : u = t
    · subst hu
      simp [State.owns, State.setCaller]
    · simp [State.owns, State.setCaller, hu]
  | thread w => simp [State.owns, State.setCaller]

theorem State.owns_setThread (s : State) (w : ℕ) (pc : ThreadPc) (x : Owner) :
    (s.setThread w pc).owns x = if x = .thread w then pc.owns else s.owns x := by
  cases x with
  | caller u => simp [State.owns, State.setThread]
  | thread v =>
    by_cases hv : v = w
    · subst hv
      simp [State.owns, State.setThread]
    · simp [State.owns, State.setThread, hv]

/-- There is one owner at most, and the worker is marked as running for it. -/
def OwnInv (s : State) : Prop := Exclusive s.owns s.running

/-- The handler of a `start()` whose start callback threw stores `stopped` over `stopped`. -/
def timely (s : State) : Action → Prop
  | .caller t _ => match s.callers t with
    | .handler (some _) => s.running = false
    | _ => True
  | _ => True

instance (s : State) (a : Action) : Decidable (timely s a) := by
  unfold timely
  split
  · split <;> infer_instance
  · infer_instance

theorem OwnInv.start (correctForTaskDelay : Bool) (interval : ℤ) :
    OwnInv (system correctForTaskDelay interval).start :=
  .of_nobody (fun x => by cases x <;> rfl) _

theorem CallPc.Advance.owns {s : State} {pc pc' : CallPc} (h : pc.Advance s pc')
    (hpc : pc'.owns = true) : pc.owns = true := by
  cases h with
  | lockJoin k | nothingToJoin k | joined k => cases k <;> first | rfl | cases hpc
  | unlock | prepare | prepareFails | resetIterations | setTarget | drain | drained | lockThread
  | createFails => rfl
  | created | failed | loadDone | storeTarget | notifies => cases hpc

section Step

variable {correctForTaskDelay : Bool} {s s' : State} {a : Action} {es : List Event}

/-- One call moves on without becoming an owner. -/
theorem OwnInv.caller (h : OwnInv s) {t : ℕ} {p : CallPc}
    (hpc : p.owns = true → (s.callers t).owns = true)
    (howns : ∀ y, s'.owns y = (s.setCaller t p).owns y) (hrunning : s'.running = s.running) :
    OwnInv s' := by
  refine Exclusive.keep h (fun y hy => ?_) hrunning
  rw [howns, State.owns_setCaller] at hy
  split at hy
  · next hyt =>
    subst hyt
    exact hpc hy
  · exact hy

/-- One thread moves on without becoming an owner. -/
theorem OwnInv.thread (h : OwnInv s) {w : ℕ} {p : ThreadPc}
    (hpc : p.owns = true → (s.threads w).owns = true)
    (howns : ∀ y, s'.owns y = (s.setThread w p).owns y) (hrunning : s'.running = s.running) :
    OwnInv s' := by
  refine Exclusive.keep h (fun y hy => ?_) hrunning
  rw [howns, State.owns_setThread] at hy
  split at hy
  · next hyw =>
    subst hyw
    exact hpc hy
  · exact hy

/-- One thread stores that the worker is stopped. -/
theorem OwnInv.threadEnds (h : OwnInv s) {w : ℕ} {p : ThreadPc}
    (hold : (s.threads w).owns = true) (hnew : p.owns = false)
    (howns : ∀ y, s'.owns y = (s.setThread w p).owns y) : OwnInv s' := by
  refine Exclusive.release h (x := .thread w) hold (fun y hy => ?_) _
  rw [howns, State.owns_setThread] at hy
  split at hy
  · rw [hnew] at hy
    cases hy
  · next hyw => exact ⟨hy, hyw⟩

theorem OwnInv.step (h : OwnInv s) (hC : timely s a) (hm : Move correctForTaskDelay s a es s') :
    OwnInv s' := by
  cases hm with
  | refused | observes | refusedWithId => exact h
  | begins t n hpc hrun =>
    refine Exclusive.acquire h hrun (.caller t) (fun y hy => ?_) rfl
    rw [State.owns_setCaller] at hy
    split at hy
    · next hyt => exact .inl hyt
    · exact .inr hy
  | enters t pc hpc hentry =>
    refine h.caller (t := t) (p := pc) (fun howns => ?_) (fun _ => rfl) rfl
    cases hentry <;> cases howns
  | controls | overwrites => exact Exclusive.keep h (fun y hy => hy) rfl
  | advances t pc c m i hpc hstop =>
    exact h.caller (t := t) hpc.owns (fun y => by cases y <;> rfl) rfl
  | joins t k w hpc hthread hfinished =>
    refine h.caller (t := t) (p := .joined k) (fun howns => ?_) (fun y => by cases y <;> rfl) rfl
    rw [hpc]
    cases k <;> first | rfl | cases howns
  | waited t hpc =>
    exact h.caller (t := t) (p := .idle) nofun (fun y => by cases y <;> rfl) rfl
  | resets t n hpc =>
    exact h.caller (t := t) (p := .resetIterations n) (fun _ => by rw [hpc]; rfl)
      (fun y => by cases y <;> rfl) rfl
  | creates t hpc hthread =>
    have hold : s.owns (.caller t) = true := by
      show (s.callers t).owns = true
      rw [hpc]
      rfl
    refine Exclusive.pass h hold (.thread s.threadCount) (fun y hy => ?_) rfl
    rw [State.owns_setCaller, State.owns_setThread] at hy
    split at hy
    · cases hy
    · next hyt =>
      split at hy
      · next hyw => exact .inl hyw
      · exact .inr ⟨hy, hyt⟩
  | returns t w hpc hvalue =>
    exact h.caller (t := t) (p := .idle) nofun (fun _ => rfl) rfl
  | undoes t ok failed hpc =>
    cases failed with
    | none =>
      have hold : s.owns (.caller t) = true := by
        show (s.callers t).owns = true
        rw [hpc]
        rfl
      refine Exclusive.release h hold (fun y hy => ?_) _
      rw [State.owns_setCaller] at hy
      split at hy
      · cases hy
      · next hyt => exact ⟨hy, hyt⟩
    | some w =>
      -- the worker is stopped already
      simp only [timely, hpc] at hC
      exact h.caller (t := t) (p := .idle) nofun (fun y => by cases y <;> rfl) hC.symm
  | storesStop t hpc =>
    exact h.caller (t := t) (p := .notifies) nofun (fun y => by cases y <;> rfl) rfl
  | runs w hpc =>
    exact h.thread (w := w) (p := .entered) (fun _ => by rw [hpc]; rfl)
      (fun y => by cases y <;> rfl) rfl
  | starts w hpc =>
    exact h.thread (w := w) (p := .inStart) (fun _ => by rw [hpc]; rfl) (fun _ => rfl) rfl
  | startReturns w hpc =>
    exact h.thread (w := w) (p := .started) (fun _ => by rw [hpc]; rfl) (fun _ => rfl) rfl
  | startThrows w hpc =>
    exact h.thread (w := w) (p := .startThrew) (fun _ => by rw [hpc]; rfl) (fun _ => rfl) rfl
  | fulfils w hpc =>
    exact h.thread (w := w) (p := .looping .check) (fun _ => by rw [hpc]; rfl)
      (fun y => by cases y <;> rfl) rfl
  | fails w hpc =>
    exact h.threadEnds (w := w) (p := .startStored) (by rw [hpc]; rfl) rfl
      (fun y => by cases y <;> rfl)
  | breaks w hpc =>
    exact h.thread (w := w) (p := .finished) nofun (fun y => by cases y <;> rfl) rfl
  | loops w pc pc' c es hpc hloop =>
    exact h.thread (w := w) (p := .looping pc') (fun _ => by rw [hpc]; rfl)
      (fun y => by cases y <;> rfl) rfl
  | leaves w threw hpc =>
    exact h.threadEnds (w := w) (p := .toStop threw) (by rw [hpc]; rfl) rfl
      (fun y => by cases y <;> rfl)
  | stops w threw hpc =>
    exact h.thread (w := w) (p := .inStop) nofun (fun _ => rfl) rfl
  | stopped w hpc =>
    exact h.thread (w := w) (p := .finished) nofun (fun _ => rfl) rfl
  | beginsWithId w hpc hrun =>
    exact Exclusive.acquire h hrun (.thread w) (fun y hy => .inr hy) rfl

end Step

theorem ownInv {correctForTaskDelay : Bool} {interval : ℤ} {tr : List Event} {s : State}
    (h : (system correctForTaskDelay interval).Run timely tr s) : OwnInv s := by
  refine Run.invariant (I := fun _ s => OwnInv s) (OwnInv.start _ _) ?_ h
  intro tr s a s' es _ hC hstep ih
  exact ih.step hC (step_move hstep).2

/-- **Runs exclude each other**, while every handler of a `start()` whose start callback
threw finds the worker stopped: one thread at most has completed `on_start` and not left
its tick loop, and while there is one the worker is marked as running. -/
theorem run_exclusive {correctForTaskDelay : Bool} {interval : ℤ} {tr : List Event} {s : State}
    (h : (system correctForTaskDelay interval).Run timely tr s) :
    (∀ v w, (s.threads v).active = true → (s.threads w).active = true → v = w) ∧
    (∀ w, (s.threads w).active = true → s.running = true) := by
  have hown := ownInv h
  refine ⟨fun v w hv hw => ?_, fun w hw => ?_⟩
  · exact Owner.thread.inj (hown.unique (.thread v) (.thread w) (ThreadPc.owns_of_active hv)
      (ThreadPc.owns_of_active hw))
  · exact hown.flagged (.thread w) (ThreadPc.owns_of_active hw)

/-- Caller `t` starts: up to the thread's creation and the wait for its promise. -/
def startUp (t : ℕ) : List Action :=
  [.call t (.start maxIterationCount), .caller t true, .caller t true, .caller t true,
   .caller t true, .caller t true, .caller t true, .caller t true, .caller t true,
   .caller t true, .caller t true, .caller t true]

/-- Thread `w` runs its start callback and enters its loop. -/
def loopUp (w : ℕ) : List Action :=
  [.thread w true, .thread w true, .thread w true, .thread w true]

/-- A start that returns, and a worker that ticks. -/
def plainRun : List Action := startUp 0 ++ loopUp 0 ++ [.caller 0 true, .loop 0 .proceed]

theorem run_exclusive_plain : ∃ tr s, (system false 10).Run timely tr s ∧
    (s.threads 0).active = true ∧ s.running = true := by
  have hrun := run_exec (M := system false 10) (C := timely) (l := plainRun)
    (by decide) (by decide)
  exact ⟨_, _, hrun, by decide, (run_exclusive hrun).2 0 (by decide)⟩

/-- The start callback of the first run throws; before the handler of its `start()` comes
to store that the worker is stopped, another `start()` has joined the failed thread and
started a second run. -/
def lateHandlerRun : List Action :=
  startUp 0 ++ [.thread 0 true, .thread 0 true, .thread 0 false, .thread 0 true, .thread 0 true] ++
  [.call 1 (.start maxIterationCount), .caller 1 true, .caller 1 true] ++
  List.replicate 10 (Action.caller 1 true) ++ loopUp 1 ++
  [.caller 0 true, .caller 0 true]

/-- A worker thread is in its loop and the worker is not marked as running. -/
theorem active_not_running : ∃ tr s, (system false 10).Reachable tr s ∧
    (s.threads 1).active = true ∧ s.running = false :=
  ⟨_, _, reachable_exec (M := system false 10) (l := lateHandlerRun) (by decide), by decide,
    by decide⟩

/-! ## Requests to stop -/

/-- The places of a `start()` between its announcement and its reset of `m_stop_requested`. -/
def CallPc.beforeReset : CallPc → Bool
  | .lockJoin (.starting _) | .joining (.starting _) | .joined (.starting _)
  | .unlocking (.starting _) | .prepare _ | .resetStop _ => true
  | _ => false

/-- No `start()` is between its announcement and its reset of `m_stop_requested`. -/
def State.Quiet (s : State) : Prop := ∀ t, (s.callers t).beforeReset = false

/-- The loop of the thread is past its check and has not begun the tick. -/
def ThreadPc.pastCheck : ThreadPc → Bool
  | .looping .counting | .looping (.calling _) => true
  | _ => false

theorem CallPc.Advance.beforeReset {s : State} {pc pc' : CallPc} (h : pc.Advance s pc')
    (hpc : pc.beforeReset = false) : pc'.beforeReset = false := by
  cases h with
  | lockJoin k | nothingToJoin k | joined k => cases k <;> first | rfl | cases hpc
  | unlock | prepare => cases hpc
  | prepareFails | resetIterations | setTarget | drain | drained | lockThread | createFails
  | created | failed | loadDone | storeTarget | notifies => rfl

/-- The request stands, and no `start()` is there that would take it back. -/
structure RequestedInv (s : State) : Prop where
  requested : s.control.stopRequested = true
  quiet : s.Quiet

theorem State.Quiet.setCaller {s : State} (h : s.Quiet) {t : ℕ} {p : CallPc}
    (hpc : p.beforeReset = false) : (s.setCaller t p).Quiet := by
  intro u
  by_cases hu : u = t
  · subst hu
    simpa [State.setCaller] using hpc
  · simpa [State.setCaller, hu] using h u

section Requests

variable {correctForTaskDelay : Bool} {s s' : State} {a : Action} {es : List Event}

theorem RequestedInv.step (h : RequestedInv s) (hm : Move correctForTaskDelay s a es s')
    (hbegan : .began ∉ es) : RequestedInv s' := by
  obtain ⟨hrequested, hquiet⟩ := h
  cases hm with
  | begins | beginsWithId => simp at hbegan
  | refused | observes | refusedWithId | overwrites | runs | starts | startReturns | startThrows
  | fulfils | fails | breaks | leaves | stops | stopped => exact ⟨hrequested, hquiet⟩
  | enters t pc hpc hentry =>
    exact ⟨hrequested, hquiet.setCaller (by cases hentry <;> rfl)⟩
  | controls c hstop => exact ⟨hstop.trans hrequested, hquiet⟩
  | advances t pc c m i hpc hstop =>
    have hq := hquiet.setCaller (t := t) (hpc.beforeReset (hquiet t))
    exact ⟨hstop.trans hrequested, hq⟩
  | joins t k w hpc hthread hfinished =>
    have hk := hquiet t
    rw [hpc] at hk
    have hq := hquiet.setCaller (t := t) (p := .joined k)
      (by cases k <;> first | rfl | cases hk)
    exact ⟨hrequested, hq⟩
  | resets t n hpc =>
    -- only a `start()` in the middle resets the flag
    have hreset := hquiet t
    rw [hpc] at hreset
    cases hreset
  | storesStop t hpc =>
    have hq := hquiet.setCaller (t := t) (p := .notifies) rfl
    exact ⟨rfl, hq⟩
  | waited t hpc =>
    have hq := hquiet.setCaller (t := t) (p := .idle) rfl
    exact ⟨hrequested, hq⟩
  | returns t w hpc hvalue => exact ⟨hrequested, hquiet.setCaller rfl⟩
  | undoes t ok failed hpc =>
    have hq := hquiet.setCaller (t := t) (p := .idle) rfl
    exact ⟨hrequested, hq⟩
  | creates t hpc hthread =>
    have hq := hquiet.setCaller (t := t) (p := .created s.threadCount) rfl
    exact ⟨hrequested, hq⟩
  | loops w pc pc' c es hpc hloop =>
    refine ⟨?_, hquiet⟩
    cases hloop <;> exact hrequested

/-- The ticks thread `w` has begun, and one more when it is past its check. -/
def ticksDue (w : ℕ) (tr : List Event) (s : State) : ℕ :=
  tr.count (.loop w .tick) + (s.threads w).pastCheck.toNat

theorem ticksDue_setThread (s : State) (w v : ℕ) (pc : ThreadPc) (tr : List Event) :
    ticksDue w tr (s.setThread v pc) =
      tr.count (.loop w .tick) +
        if w = v then pc.pastCheck.toNat else (s.threads w).pastCheck.toNat := by
  by_cases hv : w = v
  · subst hv
    simp [ticksDue, State.setThread]
  · simp [ticksDue, State.setThread, hv]

/-- Once a stop is requested no check is passed any more. -/
theorem ticksDue_step {w : ℕ} {tr : List Event} (hrequested : s.control.stopRequested = true)
    (hm : Move correctForTaskDelay s a es s') : ticksDue w (tr ++ es) s' ≤ ticksDue w tr s := by
  cases hm with
  | loops v pc pc' c es hpc hloop =>
    show ticksDue w _ (State.setThread _ v _) ≤ _
    rw [ticksDue_setThread, ticksDue, List.count_append]
    by_cases hv : w = v
    · subst hv
      rw [if_pos rfl, hpc]
      cases hloop with
      | goOn hgo =>
        rw [hrequested] at hgo
        cases hgo
      | stop | count | call | tickReturns | tickThrows | target | again | sleep | late | wake
      | timeout | drain | drained => simp [ThreadPc.pastCheck]
    · rw [if_neg hv]
      have hother : (es.map (Event.loop v)).count (.loop w .tick) = 0 := by
        rw [List.count_eq_zero]
        intro hmem
        obtain ⟨e, _, he⟩ := List.mem_map.mp hmem
        exact hv (Event.loop.inj he).1.symm
      show _ + _ + ((s.threads w).pastCheck).toNat ≤ _
      omega
  | creates t hpc hthread =>
    show ticksDue w _ (State.setThread _ _ _) ≤ _
    rw [ticksDue_setThread, ticksDue, List.append_nil]
    split
    · simp [ThreadPc.pastCheck]
    · exact Nat.le_refl _
  | runs v | starts v | startReturns v | startThrows v | fulfils v | fails v | breaks v | leaves v
  | stops v | stopped v =>
    show ticksDue w _ (State.setThread _ v _) ≤ _
    rw [ticksDue_setThread, ticksDue, List.count_append]
    split
    · simp [ThreadPc.pastCheck]
    · simp [State.setPromise]
  | refused | begins | enters | controls | observes | advances | joins | waited | resets
  | overwrites | returns | undoes | storesStop | refusedWithId | beginsWithId =>
    simp [ticksDue, State.setCaller]

end Requests

/-- **A request to stop is kept** when it is stored while no `start()` is between its
announcement and its reset of `m_stop_requested`: as long as no later `start()` announces
a run the request stands, and a thread begins a tick only if it was past its loop check,
and then one. -/
theorem stop_request_kept {correctForTaskDelay : Bool} {interval : ℤ} {tr : List Event}
    {s s₁ : State} {t : ℕ} {ok : Bool} {es : List Event}
    (_h : (system correctForTaskDelay interval).Reachable tr s)
    (hpc : s.callers t = .storeStop)
    (hstep : (system correctForTaskDelay interval).step s (.caller t ok) = some (s₁, es))
    (hquiet : s.Quiet) {tr₂ : List Event} {s₂ : State}
    (hrun : (system correctForTaskDelay interval).RunFrom anyStep s₁ tr₂ s₂)
    (hbegan : .began ∉ tr₂) :
    s₂.control.stopRequested = true ∧
      ∀ w, tr₂.count (.loop w .tick) ≤ (s.threads w).pastCheck.toNat := by
  have hs₁ : s₁ = { s with control := { s.control with stopRequested := true } }.setCaller t
      .notifies := by
    change step correctForTaskDelay s (.caller t ok) = some (s₁, es) at hstep
    have hlive := (step_move hstep).1
    rw [step, if_neg (by simp [hlive])] at hstep
    simp only [callerStep, hpc] at hstep
    exact (congrArg Prod.fst (Option.some.inj hstep)).symm
  -- no `start()` is in the middle, so only a later one can take the request back
  have hstart : RequestedInv s₁ := by
    rw [hs₁]
    exact ⟨rfl, hquiet.setCaller (s := { s with control := _ }) rfl⟩
  have hkept := hrun.invariant (I := fun tr s => .began ∉ tr →
      RequestedInv s ∧ ∀ w, ticksDue w tr s ≤ ticksDue w [] s₁)
    (fun _ => ⟨hstart, fun w => Nat.le_refl _⟩) fun tr u a v es _ _ hstep ih hno => by
      rw [List.mem_append, not_or] at hno
      obtain ⟨hrequested, hticks⟩ := ih hno.1
      have hm := (step_move hstep).2
      exact ⟨hrequested.step hm hno.2,
        fun w => Nat.le_trans (ticksDue_step hrequested.requested hm) (hticks w)⟩
  obtain ⟨hrequested, hticks⟩ := hkept hbegan
  refine ⟨hrequested.requested, fun w => ?_⟩
  have hw := hticks w
  rw [hs₁] at hw
  simp only [ticksDue, State.setCaller, List.count_nil] at hw
  omega

/-- A worker that runs is told to stop while its loop is past its check. -/
def requestedRun : List Action := plainRun ++ [.call 1 .requestStop]

/-- The call returns, the tick begins and ends, and the loop is woken and leaves. -/
def leavingRun : List Action :=
  .caller 1 true :: [LoopAction.proceed, .proceed, .tickReturns, .proceed, .measure 0, .acquire,
    .proceed, .proceed].map (.loop 0)

theorem requestedRun_enabled : ((system false 10).exec requestedRun).isSome = true := by decide

def beforeRequest : State := (((system false 10).exec requestedRun).get requestedRun_enabled).1

theorem request_enabled : ((system false 10).step beforeRequest (.caller 1 true)).isSome = true := by
  decide

def afterRequest : State :=
  (((system false 10).step beforeRequest (.caller 1 true)).get request_enabled).1

theorem leavingRun_enabled : ((system false 10).execFrom afterRequest leavingRun).isSome = true := by
  decide +kernel

/-- The request stands when the loop has left, and one tick has been made since. -/
theorem stop_request_kept_plain : ∃ s s₁ es tr₂ s₂,
    (system false 10).step s (.caller 1 true) = some (s₁, es) ∧
    (system false 10).RunFrom anyStep s₁ tr₂ s₂ ∧
    s₂.callers 1 = .idle ∧ s₂.threads 0 = .looping (.left false) ∧ .loop 0 .tick ∈ tr₂ ∧
    s₂.control.stopRequested = true ∧ tr₂.count (.loop 0 .tick) ≤ 1 := by
  have hreach := reachable_exec (M := system false 10) requestedRun_enabled
  have hquiet : beforeRequest.Quiet
    | 0 => by decide
    | 1 => by decide
    | _ + 2 => rfl
  have hstep := (Option.some_get request_enabled).symm
  have hrun := runFrom_of_execFrom (execMeets_anyStep _ _) (Option.some_get leavingRun_enabled).symm
  obtain ⟨hkept, hticks⟩ :=
    stop_request_kept hreach (by decide) hstep hquiet hrun (by decide +kernel)
  exact ⟨_, _, _, _, _, hstep, hrun, by decide +kernel, by decide +kernel, by decide +kernel,
    hkept, hticks 0⟩

/-- `start()` has announced the run, and another thread that sees it running requests a stop; then
`start()` resets the request, discards the notification and starts the thread. -/
def lostRequestRun : List Action :=
  [.call 0 (.start maxIterationCount), .call 1 .isRunning, .call 1 .requestStop, .caller 1 true,
   .caller 1 true] ++ List.replicate 12 (Action.caller 0 true) ++ loopUp 0 ++
  [.caller 0 true, .loop 0 .proceed, .loop 0 .proceed, .loop 0 .proceed]

/-- A request made after `is_running()` has returned true is gone, with no later `start()`, and
the worker ticks. -/
theorem stop_request_lost : ∃ tr s, (system false 10).Reachable
      ([.began, .observed true, .requested 1] ++ tr) s ∧ .began ∉ tr ∧
      s.control.stopRequested = false ∧ .loop 0 .tick ∈ tr := by
  have hrun := reachable_exec (M := system false 10) (l := lostRequestRun) (by decide)
  exact ⟨_, _, hrun, by decide, by decide, by decide⟩

end Worker
