/-
# A `start()` that throws

`start()` announces a run before it does anything else, and takes the announcement back
where it throws: in the catch block, but not where its `wait_for_stop()` refuses to wait
for the calling thread.  That is the worker thread, in a callback, or a new thread with the
id of one that has been joined.  An observer notes for every caller what `m_state` was when
it called `start()`.

* `RunInv` : the worker is marked as running only while somebody has announced a run and
  not ended it;
* `Wedged` : it is marked as running for good, and nobody has;
* `start_throws_unchanged` : in runs in which a thread with the id in `m_thread_id` calls
  `start()` only while the worker is running;
* `start_in_stop_callback` : what a `start()` in the stop callback does.
-/
import Libsg.WorkerExclusive

open TransitionSystem

namespace Worker

/-! ## Runs that are announced -/

/-- The worker is marked as running for somebody. -/
def RunInv (s : State) : Prop := s.running = true → ∃ x, s.owns x = true

/-- A thread with the id in `m_thread_id` calls `start()` only while the worker is running. -/
def outside (s : State) : Action → Prop
  | .startWithId _ => s.running = true
  | _ => True

instance (s : State) : (a : Action) → Decidable (outside s a)
  | .startWithId _ => inferInstanceAs (Decidable (s.running = true))
  | .call .. | .caller .. | .thread .. | .loop .. => .isTrue trivial

theorem CallPc.Advance.owns_iff {s : State} {pc pc' : CallPc} (h : pc.Advance s pc') :
    pc'.owns = pc.owns := by
  cases h with
  | lockJoin k | nothingToJoin k | joined k => cases k <;> rfl
  | _ => rfl

namespace RunInv

variable {correctForTaskDelay : Bool} {s s' : State} {a : Action} {es : List Event}

/-- Who owned a run still does. -/
theorem keep (h : RunInv s) (howns : ∀ x, s.owns x = true → s'.owns x = true)
    (hrunning : s'.running = s.running) : RunInv s' := by
  intro hrun
  obtain ⟨x, hx⟩ := h (hrunning ▸ hrun)
  exact ⟨x, howns x hx⟩

/-- One call moves on, and owns the run that it owned. -/
theorem caller (h : RunInv s) {t : ℕ} {p : CallPc}
    (hpc : (s.callers t).owns = true → p.owns = true)
    (howns : ∀ y, s'.owns y = (s.setCaller t p).owns y) (hrunning : s'.running = s.running) :
    RunInv s' := by
  refine h.keep (fun y hy => ?_) hrunning
  rw [howns, State.owns_setCaller]
  split
  · next hyt =>
    subst hyt
    exact hpc hy
  · exact hy

/-- One thread moves on, and owns the run that it owned. -/
theorem thread (h : RunInv s) {w : ℕ} {p : ThreadPc}
    (hpc : (s.threads w).owns = true → p.owns = true)
    (howns : ∀ y, s'.owns y = (s.setThread w p).owns y) (hrunning : s'.running = s.running) :
    RunInv s' := by
  refine h.keep (fun y hy => ?_) hrunning
  rw [howns, State.owns_setThread]
  split
  · next hyw =>
    subst hyw
    exact hpc hy
  · exact hy

theorem step (h : RunInv s) (hC : outside s a) (hm : Move correctForTaskDelay s a es s') :
    RunInv s' := by
  cases hm with
  | refused | observes | refusedWithId => exact h
  | controls | overwrites => exact h.keep (fun _ hy => hy) rfl
  | begins t n hpc hrun =>
    refine fun _ => ⟨.caller t, ?_⟩
    show (Function.update s.callers t (.lockJoin (.starting n)) t).owns = true
    rw [Function.update_self]
    rfl
  | creates t hpc hthread =>
    refine fun _ => ⟨.thread s.threadCount, ?_⟩
    show (Function.update s.threads s.threadCount .spawned s.threadCount).owns = true
    rw [Function.update_self]
    rfl
  | enters t pc hpc hentry =>
    exact h.caller (t := t) (p := pc) (by rw [hpc]; nofun) (fun _ => rfl) rfl
  | advances t pc c m i hpc hstop =>
    exact h.caller (t := t) (p := pc) (fun hown => hpc.owns_iff.trans hown)
      (fun y => by cases y <;> rfl) rfl
  | joins t k w hpc hthread hfinished =>
    refine h.caller (t := t) (p := .joined k) (fun hown => ?_) (fun y => by cases y <;> rfl) rfl
    rw [hpc] at hown
    cases k <;> first | rfl | cases hown
  | waited t hpc =>
    exact h.caller (t := t) (p := .idle) (by rw [hpc]; nofun) (fun y => by cases y <;> rfl) rfl
  | resets t n hpc =>
    exact h.caller (t := t) (p := .resetIterations n) (fun _ => rfl)
      (fun y => by cases y <;> rfl) rfl
  | returns t w hpc hvalue =>
    exact h.caller (t := t) (p := .idle) (by rw [hpc]; nofun) (fun _ => rfl) rfl
  | storesStop t hpc =>
    exact h.caller (t := t) (p := .notifies) (by rw [hpc]; nofun)
      (fun y => by cases y <;> rfl) rfl
  | undoes | fails | leaves => nofun
  | runs w hpc =>
    exact h.thread (w := w) (p := .entered) (fun _ => rfl) (fun y => by cases y <;> rfl) rfl
  | starts w hpc => exact h.thread (w := w) (p := .inStart) (fun _ => rfl) (fun _ => rfl) rfl
  | startReturns w hpc => exact h.thread (w := w) (p := .started) (fun _ => rfl) (fun _ => rfl) rfl
  | startThrows w hpc => exact h.thread (w := w) (p := .startThrew) (fun _ => rfl) (fun _ => rfl) rfl
  | fulfils w hpc =>
    exact h.thread (w := w) (p := .looping .check) (fun _ => rfl) (fun y => by cases y <;> rfl) rfl
  | loops w pc pc' c es hpc hloop =>
    exact h.thread (w := w) (p := .looping pc') (fun _ => rfl) (fun y => by cases y <;> rfl) rfl
  | breaks w hpc =>
    exact h.thread (w := w) (p := .finished) (by rw [hpc]; nofun) (fun y => by cases y <;> rfl) rfl
  | stops w threw hpc =>
    exact h.thread (w := w) (p := .inStop) (by rw [hpc]; nofun) (fun _ => rfl) rfl
  | stopped w hpc =>
    exact h.thread (w := w) (p := .finished) (by rw [hpc]; nofun) (fun _ => rfl) rfl
  | beginsWithId w hpc hrun =>
    -- the condition excludes it
    have hrunning : s.running = true := hC
    rw [hrun] at hrunning
    cases hrunning

end RunInv

/-! ## What a `start()` found -/

/-- The places of a `start()` that has announced a run. -/
def CallPc.announced : CallPc → Bool
  | .created _ | .await _ | .handler (some _) => true
  | pc => pc.owns

/-- The observer notes what `m_state` is when `start()` is called. -/
def noteStart (found : ℕ → Bool) (s : State) : Action → ℕ → Bool
  | .call t (.start _) => Function.update found t s.running
  | _ => found

def startSystem (correctForTaskDelay : Bool) (interval : ℤ) :
    TransitionSystem (State × (ℕ → Bool)) Action Event :=
  (system correctForTaskDelay interval).observed (fun _ => false) noteStart

theorem startSystem_step {correctForTaskDelay : Bool} {interval : ℤ}
    {p p' : State × (ℕ → Bool)} {a : Action} {es : List Event}
    (h : (startSystem correctForTaskDelay interval).step p a = some (p', es)) :
    step correctForTaskDelay p.1 a = some (p'.1, es) ∧ p'.2 = noteStart p.2 p.1 a :=
  observed_step.mp h

/-- A `start()` that has announced a run found the worker stopped. -/
def FoundInv (p : State × (ℕ → Bool)) : Prop :=
  ∀ t, (p.1.callers t).announced = true → p.2 t = false

section Found

variable {correctForTaskDelay : Bool} {s s' : State} {a : Action} {es : List Event}

theorem CallPc.Advance.announced {pc pc' : CallPc} (h : pc.Advance s pc')
    (hpc : pc'.announced = true) : pc.announced = true := by
  rcases h with k | ⟨k, -⟩ | k | _ | _ | _ | _ | _ | _ | _ | _ | _ | _ | ⟨_, -⟩ | _ | _ | _
  case lockJoin | nothingToJoin | joined => rcases k <;> first | rfl | cases hpc
  all_goals first | rfl | cases hpc

/-- Only the call of `start()` announces a run, and of a worker that is stopped. -/
theorem Move.announced (hm : Move correctForTaskDelay s a es s') (u : ℕ)
    (hu : (s'.callers u).announced = true) :
    (s.callers u).announced = true ∨ s.running = false ∧ ∃ t n, a = .call t (.start n) := by
  have hmoves {t : ℕ} {pc : CallPc} (hcallers : s'.callers = Function.update s.callers t pc)
      (hpc : pc.announced = true → (s.callers t).announced = true) :
      (s.callers u).announced = true ∨ s.running = false ∧ ∃ t n, a = .call t (.start n) := by
    left
    rw [hcallers] at hu
    by_cases hut : u = t
    · subst hut
      rw [Function.update_self] at hu
      exact hpc hu
    · rwa [Function.update_of_ne hut] at hu
  cases hm with
  | begins t n hpc hrun => exact .inr ⟨hrun, t, n, rfl⟩
  | enters t pc hpc hentry =>
    apply hmoves (t := t) rfl
    intro hnew
    rcases hentry <;> cases hnew
  | advances t pc c m i hpc => exact hmoves (t := t) rfl hpc.announced
  | joins t k w hpc =>
    apply hmoves (t := t) rfl
    intro hnew
    rw [hpc]
    rcases k with n | _
    · rfl
    · cases hnew
  | resets t n hpc | creates t hpc =>
    apply hmoves (t := t) rfl
    intro _
    rw [hpc]
    rfl
  | waited t | returns t | undoes t | storesStop t => exact hmoves (t := t) rfl nofun
  | _ => exact .inl hu

/-- A call of `start()` goes on only if it found the worker stopped. -/
theorem callStart_found {t n : ℕ} (hidle : s.callers t = .idle) (u : ℕ)
    (hu : ((callStep s t (.start n)).1.callers u).announced = true) :
    (u = t ∧ s.running = false) ∨ (u ≠ t ∧ (s.callers u).announced = true) := by
  rw [callStep] at hu
  by_cases hut : u = t
  · subst hut
    left
    refine ⟨rfl, ?_⟩
    split at hu
    · rw [hidle] at hu
      cases hu
    · next hrun => exact Bool.eq_false_iff.mpr hrun
  · right
    refine ⟨hut, ?_⟩
    split at hu
    · exact hu
    · change (Function.update s.callers t (.lockJoin (.starting n)) u).announced = true at hu
      rwa [Function.update_of_ne hut] at hu

theorem FoundInv.step {p p' : State × (ℕ → Bool)} (h : FoundInv p)
    (hstep : step correctForTaskDelay p.1 a = some (p'.1, es))
    (hnote : p'.2 = noteStart p.2 p.1 a) : FoundInv p' := by
  intro u hu
  rw [hnote]
  by_cases hcall : ∃ t n, a = .call t (.start n)
  · obtain ⟨t, n, rfl⟩ := hcall
    have hlive := (step_move hstep).1
    rw [Worker.step, if_neg (by simp [hlive])] at hstep
    split at hstep
    · next hidle =>
      have heq : callStep p.1 t (.start n) = (p'.1, es) := Option.some.inj hstep
      have hnew : ((callStep p.1 t (.start n)).1.callers u).announced = true := by
        rw [heq]
        exact hu
      rcases callStart_found hidle u hnew with ⟨rfl, hstopped⟩ | ⟨hut, hold⟩
      · show Function.update p.2 u p.1.running u = false
        rw [Function.update_self, hstopped]
      · show Function.update p.2 t p.1.running u = false
        rw [Function.update_of_ne hut]
        exact h u hold
    · cases hstep
  · have hold := ((step_move hstep).2.announced u hu).resolve_right fun hnew => hcall hnew.2
    have hsame : noteStart p.2 p.1 a = p.2 := by
      rcases a with ⟨t, c⟩ | _ | _ | _ | _
      case call =>
        rcases c with n | _ | _ | _ | _ | _ | _
        case start => exact absurd ⟨t, n, rfl⟩ hcall
        all_goals rfl
      all_goals rfl
    rw [hsame]
    exact h u hold

end Found

/-! ## Exceptions -/

section Exceptions

variable {correctForTaskDelay : Bool} {interval : ℤ} {tr : List Event}

theorem runInv {s : State} (h : (system correctForTaskDelay interval).Run outside tr s) :
    RunInv s := by
  refine Run.invariant (I := fun _ s => RunInv s) ?_ ?_ h
  · intro hrun
    cases hrun
  · intro tr s a s' es _ hC hstep ih
    exact ih.step hC (step_move hstep).2

theorem foundInv {p : State × (ℕ → Bool)}
    (h : (startSystem correctForTaskDelay interval).Run (fun p a => outside p.1 a) tr p) :
    FoundInv p := by
  refine Run.invariant (I := fun _ p => FoundInv p) ?_ ?_ h
  · intro t ht
    cases ht
  · intro tr p a p' es _ _ hstep ih
    obtain ⟨hst, hnote⟩ := startSystem_step hstep
    exact ih.step hst hnote

variable {s s' : State} {es : List Event}

/-- The exception of a `start()` that has announced a run leaves the worker stopped. -/
theorem startThrew_stopped {t : ℕ} {ok : Bool}
    (hstep : step correctForTaskDelay s (.caller t ok) = some (s', es)) (hthrew : .startThrew ∈ es) :
    (s.callers t).announced = true ∧ s'.running = false := by
  have hm := (step_move hstep).2
  cases hm with
  | undoes t ok failed hpc =>
    rw [hpc]
    rcases failed with _ | w
    · exact ⟨rfl, rfl⟩
    · exact ⟨rfl, rfl⟩
  | loops w pc pc' c les =>
    obtain ⟨e, -, he⟩ := List.mem_map.mp hthrew
    cases he
  | refused | observes | waited | returns | storesStop | starts | startReturns | stops | stopped =>
    cases List.mem_singleton.mp hthrew
  | _ => cases hthrew

/-- A `start()` that is refused changes nothing. -/
theorem refused_unchanged {t n : ℕ}
    (hstep : step correctForTaskDelay s (.call t (.start n)) = some (s', es))
    (hrefused : .refused t ∈ es) : s' = s ∧ s.running = true := by
  have hm := (step_move hstep).2
  cases hm with
  | refused t hrun => exact ⟨rfl, hrun⟩
  | loops w pc pc' c les =>
    obtain ⟨e, -, he⟩ := List.mem_map.mp hrefused
    cases he
  | begins | observes | waited | returns | storesStop | starts | startReturns | stops | stopped =>
    cases List.mem_singleton.mp hrefused
  | _ => cases hrefused

/-- What a `start()` leaves that is made with the id in `m_thread_id`. -/
theorem startWithId_running {w : ℕ}
    (hstep : step correctForTaskDelay s (.startWithId w) = some (s', es)) :
    s'.running = true ∧ (s.running = true → s' = s) := by
  have hlive := (step_move hstep).1
  rw [step, if_neg (by simp [hlive])] at hstep
  split at hstep
  · split at hstep
    · next hrun =>
      cases hstep
      exact ⟨hrun, fun _ => rfl⟩
    · next hrun =>
      cases hstep
      exact ⟨rfl, fun hrun' => absurd hrun' hrun⟩
  · cases hstep

/-- Nobody else has announced a run, and the next `start()` announces one. -/
def Startable (correctForTaskDelay : Bool) (s : State) : Prop :=
  ∀ t n, s.callers t = .idle →
    ∃ s', step correctForTaskDelay s (.call t (.start n)) = some (s', [.began]) ∧
      s'.callers t = .lockJoin (.starting n)

theorem startable (hlive : s.terminated = false) (hstopped : s.running = false) :
    Startable correctForTaskDelay s := by
  intro t n hidle
  refine ⟨{ s with running := true }.setCaller t (.lockJoin (.starting n)), ?_,
    Function.update_self ..⟩
  rw [step, if_neg (by simp [hlive])]
  show (if s.callers t = .idle then some (callStep s t (.start n)) else none) = _
  rw [if_pos hidle, callStep, if_neg (by simp [hstopped])]

end Exceptions

/-- **When a `start()` that throws changes nothing.**  In runs in which a thread with the id in
`m_thread_id` calls `start()` only while the worker is running: the exception finds `m_state` as
the call did, be it refused, or made with that id, or undone; and the worker is marked as running
only while somebody has announced a run, so that a `start()` is not refused otherwise.  A call that
does not meet the condition leaves the worker running, which it was not. -/
theorem start_throws_unchanged {correctForTaskDelay : Bool} {interval : ℤ} {tr : List Event}
    {p : State × (ℕ → Bool)}
    (h : (startSystem correctForTaskDelay interval).Run (fun p a => outside p.1 a) tr p) :
    (∀ t ok p' es, (startSystem correctForTaskDelay interval).step p (.caller t ok) =
      some (p', es) → .startThrew ∈ es → p'.1.running = p'.2 t) ∧
    (∀ t n p' es, (startSystem correctForTaskDelay interval).step p (.call t (.start n)) =
      some (p', es) → .refused t ∈ es → p'.1 = p.1) ∧
    (∀ w p' es, (startSystem correctForTaskDelay interval).step p (.startWithId w) =
      some (p', es) → (p'.1.running = p.1.running ↔ outside p.1 (.startWithId w))) ∧
    (p.1.running = true → ∃ x, p.1.owns x = true) ∧
    (p.1.terminated = false → (∀ x, p.1.owns x = false) → Startable correctForTaskDelay p.1) := by
  have hrun := runInv h.unobserved
  have hfound := foundInv h
  refine ⟨?_, ?_, ?_, hrun, ?_⟩
  · intro t ok p' es hstep hthrew
    obtain ⟨hst, hnote⟩ := startSystem_step hstep
    obtain ⟨hannounced, hstopped⟩ := startThrew_stopped hst hthrew
    rw [hstopped, hnote]
    exact (hfound t hannounced).symm
  · intro t n p' es hstep hrefused
    exact (refused_unchanged (startSystem_step hstep).1 hrefused).1
  · intro w p' es hstep
    obtain ⟨hafter, hsame⟩ := startWithId_running (startSystem_step hstep).1
    rw [hafter]
    exact ⟨Eq.symm, Eq.symm⟩
  · intro hlive hnone
    apply startable hlive
    rw [Bool.eq_false_iff]
    intro hrunning
    obtain ⟨x, hx⟩ := hrun hrunning
    rw [hnone x] at hx
    cases hx

/-- A `start()` that fails for want of a thread, seen from another one. -/
def failedStart : List Action :=
  .call 0 (.start maxIterationCount) :: List.replicate 9 (.caller 0 true) ++
    [.caller 0 false]

/-- The worker is stopped again when the exception leaves. -/
theorem start_throws_unchanged_failedStart :
    ∃ tr p p', (startSystem false 10).Run (fun p a => outside p.1 a) tr p ∧
      (startSystem false 10).step p (.caller 0 true) = some (p', [.startThrew]) ∧
      p.1.running = true ∧ p'.1.running = p'.2 0 ∧ p'.1.running = false := by
  have hrun := run_exec (M := startSystem false 10) (C := fun p a => outside p.1 a)
    (l := failedStart) (by decide +kernel) (by decide +kernel)
  obtain ⟨hthrows, -⟩ := start_throws_unchanged hrun
  exact ⟨_, _, _, hrun, rfl, rfl, hthrows 0 true _ [.startThrew] rfl (List.mem_singleton.mpr rfl),
    rfl⟩

/-! ## In the stop callback -/

/-- The worker is marked as running, and nobody is there to take it back. -/
structure Wedged (s : State) : Prop where
  running : s.running = true
  threads : ∀ w, (s.threads w).owns = false
  callers : ∀ t, (s.callers t).announced = false
  live : s.terminated = false

section Stopping

variable {correctForTaskDelay : Bool} {interval : ℤ} {s s' : State} {a : Action} {es : List Event}

theorem Wedged.step (h : Wedged s) (hm : Move correctForTaskDelay s a es s') : Wedged s' := by
  have hcallers (u : ℕ) : (s'.callers u).announced = false := by
    rw [Bool.eq_false_iff]
    intro hu
    rcases hm.announced u hu with hold | ⟨hstopped, -⟩
    · rw [h.callers u] at hold
      cases hold
    · rw [h.running] at hstopped
      cases hstopped
  have hthreads {w : ℕ} {pc : ThreadPc} (hpc : pc.owns = false) (v : ℕ) :
      (Function.update s.threads w pc v).owns = false := by
    by_cases hvw : v = w
    · rw [hvw, Function.update_self]
      exact hpc
    · rw [Function.update_of_ne hvw]
      exact h.threads v
  -- what only an announced run can do does not happen
  have hcall {t : ℕ} {pc : CallPc} (hpc : s.callers t = pc) (hann : pc.announced = true) :
      Wedged s' := by
    have hnone := h.callers t
    rw [hpc, hann] at hnone
    cases hnone
  have hthread {w : ℕ} {pc : ThreadPc} (hpc : s.threads w = pc) (hown : pc.owns = true) :
      Wedged s' := by
    have hnone := h.threads w
    rw [hpc, hown] at hnone
    cases hnone
  cases hm with
  | begins t n hpc hrun =>
    rw [h.running] at hrun
    cases hrun
  | beginsWithId w hpc hrun =>
    rw [h.running] at hrun
    cases hrun
  | creates t hpc => exact hcall hpc rfl
  | overwrites t w hpc => exact hcall hpc rfl
  | returns t w hpc => exact hcall hpc rfl
  | undoes t ok failed hpc =>
    apply hcall hpc
    rcases failed with _ | w
    · rfl
    · rfl
  | runs w hpc => exact hthread hpc rfl
  | starts w hpc => exact hthread hpc rfl
  | startReturns w hpc => exact hthread hpc rfl
  | startThrows w hpc => exact hthread hpc rfl
  | fulfils w hpc => exact hthread hpc rfl
  | fails w hpc => exact hthread hpc rfl
  | loops w pc pc' c les hpc => exact hthread hpc rfl
  | leaves w threw hpc => exact hthread hpc rfl
  | breaks | stops | stopped => exact ⟨h.running, hthreads rfl, hcallers, h.live⟩
  | _ => exact ⟨h.running, h.threads, hcallers, h.live⟩

/-- **Every `start()` is refused from then on.** -/
theorem Wedged.forever (h : Wedged s) {tr : List Event}
    (hrun : (system correctForTaskDelay interval).RunFrom anyStep s tr s') :
    s'.running = true ∧ ∀ t n, s'.callers t = .idle →
      Worker.step correctForTaskDelay s' (.call t (.start n)) = some (s', [.refused t]) := by
  have hwedged : Wedged s' := by
    refine hrun.invariant (I := fun _ s => Wedged s) h ?_
    intro tr s a s' es _ _ hstep ih
    exact ih.step (step_move hstep).2
  refine ⟨hwedged.running, fun t n hidle => ?_⟩
  rw [Worker.step, if_neg (by simp [hwedged.live])]
  show (if s'.callers t = .idle then some (callStep s' t (.start n)) else none) = _
  rw [if_pos hidle, callStep, if_pos hwedged.running]

end Stopping

/-- A run that is stopped, up to the stop callback. -/
def stoppingRun : List Action :=
  List.flatten [plainRun, [.loop 0 .proceed, .loop 0 .proceed, .loop 0 .tickReturns],
    [.call 1 .requestStop, .caller 1 true, .caller 1 true],
    [.loop 0 .proceed, .loop 0 (.measure 0), .loop 0 .acquire, .loop 0 .proceed, .loop 0 .proceed,
      .thread 0 true, .thread 0 true]]

/-- A `start()` in the stop callback throws and leaves the worker marked as running, which it was
not; no `start()` of any thread is accepted again. -/
theorem start_in_stop_callback :
    ∃ tr s s', (system false 10).Reachable tr s ∧ s.threads 0 = .inStop ∧ s.running = false ∧
      step false s (.startWithId 0) = some (s', [.began, .startThrew]) ∧ s'.running = true ∧
      ∀ tr' s'', (system false 10).RunFrom anyStep s' tr' s'' →
        s''.running = true ∧ ∀ t n, s''.callers t = .idle →
          step false s'' (.call t (.start n)) = some (s'', [.refused t]) := by
  have hrun := reachable_exec (M := system false 10) (l := stoppingRun) (by decide +kernel)
  refine ⟨_, _, _, hrun, rfl, rfl, rfl, rfl, fun tr' s'' => Wedged.forever ⟨rfl, ?_, ?_, rfl⟩⟩
  · intro w
    rcases w with _ | w
    · rfl
    · rfl
  · intro t
    rcases t with _ | _ | t
    · rfl
    · rfl
    · rfl

/-- A new thread has the id of the thread that was joined when its `start()` comes, before
`m_thread_id` is reset: it throws, and the worker is marked as running. -/
example : (((system false 10).exec (stoppingRun ++ [.thread 0 true, .call 2 .waitForStop,
    .caller 2 true, .caller 2 true, .startWithId 0])).map fun r =>
      (r.1.running, r.2.getLast? == some .startThrew)) = some (true, true) := by
  decide +kernel

end Worker
