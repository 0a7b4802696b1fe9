/-
# Restarting a state machine

A thread calls `start()` again and again, among the steps of the worker threads it
creates.  `is_running()` turns false when the loop of a run is over, before
`worker_on_stop()` has begun; `start()` then stores the initial state first, and only
afterwards replaces the worker, whose destructor joins the thread of the last run.

So the store may come while `worker_on_stop()` is still to load the current state.  The
run that ends is left intact exactly when no store of another state comes before its
stop callbacks have finished.
-/
import Libsg.StateMachineLife

open TransitionSystem Worker

namespace StateMachine

variable {τ : Type}

/-! ## The model -/

/-- Where the call of `start()` is. -/
inductive StarterPc (τ : Type)
  | idle
  | storeCurrent (initial : τ) (interval : ℤ)
  | storeRequested (initial : τ) (interval : ℤ)
  /-- The new worker takes the place of the old one, which is destroyed. -/
  | requestStop (interval : ℤ)
  | notifies (interval : ℤ)
  | joins (interval : ℤ)
  | starts (interval : ℤ)
  | awaits
  deriving DecidableEq, Repr

structure Restart (τ : Type) where
  life : Life τ
  starter : StarterPc τ
  /-- The current state when a loop was over last. -/
  lastState : τ

inductive RestartAction (τ : Type)
  | life (a : LifeAction τ)
  | start (initial : τ) (interval : ℤ)
  /-- The next step of `start()`. -/
  | starter

/-- `is_running()`. -/
def Life.isRunning (l : Life τ) : Bool :=
  match l.machine.phase, l.stop with
  | .failed, _ => false
  | _, .notYet => true
  | _, _ => false

/-- The worker thread can be joined. -/
def Life.over (l : Life τ) : Bool :=
  match l.machine.phase, l.stop with
  | .failed, _ => true
  | _, .finished => true
  | _, _ => false

/-- The loop is over. -/
def Life.looped (l : Life τ) : Bool :=
  match l.machine.loop.pc with
  | .left _ => true
  | _ => false

/-- The members that `start()` and the new worker set anew. -/
def Life.restart (l : Life τ) (interval : ℤ) : Life τ :=
  { l with
    machine := { l.machine with
      phase := .starting
      loop := ⟨⟨false, 0, maxIterationCount, interval, noTokens⟩, .check⟩
      tick := .readCurrent }
    stop := .notYet }

/-- The next step of `start()`. -/
def starterStep (r : Restart τ) : Option (Restart τ) :=
  let m := r.life.machine
  match r.starter with
  | .idle => none
  | .storeCurrent initial interval =>
    some { r with life := { r.life with machine := { m with currentState := initial } },
                  starter := .storeRequested initial interval }
  | .storeRequested initial interval =>
    some { r with life := { r.life with machine := { m with requestedState := initial } },
                  starter := .requestStop interval }
  | .requestStop interval =>
    some { r with life := { r.life with machine := { m with loop := { m.loop with
                    control := { m.loop.control with stopRequested := true } } } },
                  starter := .notifies interval }
  | .notifies interval =>
    some { r with life := { r.life with machine := { m with loop := { m.loop with
                    control := m.loop.control.notify } } },
                  starter := .joins interval }
  | .joins interval => if r.life.over then some { r with starter := .starts interval } else none
  | .starts interval => some { r with life := r.life.restart interval, starter := .awaits }
  | .awaits =>
    if m.phase = .looping ∨ m.phase = .failed then some { r with starter := .idle } else none

def restartStep [DecidableEq τ] (r : Restart τ) :
    RestartAction τ → Option (Restart τ × List (Callback τ))
  | .life a => (lifeStep r.life a).map fun (l, es) =>
      ({ r with life := l,
                lastState := if r.life.looped then r.lastState else l.machine.currentState }, es)
  | .start initial interval =>
    if r.starter = .idle then
      if r.life.isRunning then some (r, [])
      else some ({ r with starter := .storeCurrent initial interval }, [])
    else none
  | .starter => (starterStep r).map fun r => (r, [])

/-- A machine whose first `start()` has stored the state `initial` and created the worker. -/
def restartSystem [DecidableEq τ] (initial : τ) (interval : ℤ) :
    TransitionSystem (Restart τ) (RestartAction τ) (Callback τ) where
  start :=
    { life := (lifeSystem initial interval).start
      starter := .awaits
      lastState := initial }
  step := restartStep

/-! ## The run that ends -/

/-- Until the stop callbacks of a run have finished, the current state is the one its loop ended in,
and so is the state `worker_on_stop()` leaves, with the details it makes. -/
def Intact (r : Restart τ) : Prop :=
  r.life.looped = true → r.life.stop ≠ .finished →
    r.life.machine.currentState = r.lastState ∧ r.life.stop.Agrees r.lastState

/-- `start()` stores the current state after the stop callbacks of the last run have finished, when
there are none to come, or it stores the state that is there. -/
def storesInTime (r : Restart τ) : RestartAction τ → Prop
  | .starter =>
    match r.starter with
    | .storeCurrent initial _ =>
      r.life.looped = false ∨ r.life.stop = .finished ∨ initial = r.life.machine.currentState
    | _ => True
  | _ => True

instance [DecidableEq τ] (r : Restart τ) (a : RestartAction τ) : Decidable (storesInTime r a) := by
  unfold storesInTime
  split
  · split <;> infer_instance
  · infer_instance

section Step

variable {l l' : Life τ} {r r' : Restart τ}

theorem looped_iff : l.looped = true ↔ ∃ threw, l.machine.loop.pc = .left threw := by
  unfold Life.looped
  cases hpc : l.machine.loop.pc <;> simp

/-- Once the loop is over it stays so, and the current state is left alone. -/
theorem looped_step [DecidableEq τ] {a : LifeAction τ} {es : List (Callback τ)}
    (hm : LifeMove l a l' es) (h : l.looped = true) :
    l'.looped = true ∧ l'.machine.currentState = l.machine.currentState := by
  obtain ⟨threw, hpc⟩ := looped_iff.mp h
  cases hm with
  | launches | storesStopped | onStopThrows => exact ⟨h, rfl⟩
  | ticks m hticking => exact absurd hpc (not_left_of_ticking hticking threw)
  | runs a m hlaunch htick hmove =>
    cases hmove with
    | discards | calls | controls | launches | startReturns | startThrows => exact ⟨h, rfl⟩
    | loops _ c pc es _ hmove =>
      rw [hpc] at hmove
      cases hmove
    | ticks => exact absurd rfl htick
    | throws => exact ⟨rfl, rfl⟩
  | onStop l' es hstep =>
    rw [Life.looped, onStopStep_machine hstep]
    exact ⟨h, rfl⟩

/-- `worker_on_stop()` begins when the loop is over. -/
theorem stop_step [DecidableEq τ] {a : LifeAction τ} {es : List (Callback τ)}
    (hm : LifeMove l a l' es) (h : l.stop ≠ .notYet → l.looped = true)
    (hstop : l'.stop ≠ .notYet) : l.looped = true := by
  cases hm with
  | launches | ticks | runs => exact h hstop
  | storesStopped threw hpc => exact looped_iff.mpr ⟨threw, hpc⟩
  | onStop l' es hstep =>
    refine h fun hnotYet => ?_
    rw [onStopStep, hnotYet] at hstep
    cases hstep
  | onStopThrows hne => exact h hne

/-- While the current state is `v`, so is what `worker_on_stop()` loads. -/
theorem onStopStep_agrees {es : List (Callback τ)} {v : τ} (hstep : onStopStep l = some (l', es))
    (hcurrent : l.machine.currentState = v) (h : l.stop.Agrees v) :
    l'.stop.Agrees v ∧
      ∀ state details, .exit state details ∈ es → state = v ∧ details = ⟨v, v, false⟩ := by
  subst hcurrent
  unfold onStopStep at hstep
  split at hstep
  · cases hstep
    exact ⟨rfl, nofun⟩
  · next hstop =>
    rw [hstop] at h
    cases hstep
    cases h
    exact ⟨rfl, nofun⟩
  · next hstop =>
    rw [hstop] at h
    cases hstep
    refine ⟨⟨rfl, h⟩, fun state details hmem => ?_⟩
    cases List.mem_singleton.mp hmem
    exact ⟨rfl, h⟩
  · cases hstep
    exact ⟨trivial, by simp⟩
  · cases hstep
    exact ⟨trivial, nofun⟩
  · cases hstep
  · cases hstep

/-- The worker thread leaves the run that ends intact. -/
theorem Intact.life [DecidableEq τ] (h : Intact r) (hended : r.life.stop ≠ .notYet → r.life.looped = true)
    {a : LifeAction τ} {l : Life τ} {es : List (Callback τ)} (hm : LifeMove r.life a l es) :
    Intact { r with life := l,
                    lastState := if r.life.looped then r.lastState else l.machine.currentState } := by
  intro hlooped hfinished
  cases hbefore : r.life.looped with
  | false =>
    rw [if_neg (by simp)]
    have hstop : l.stop = .notYet := by
      by_contra hne
      rw [stop_step hm hended hne] at hbefore
      cases hbefore
    refine ⟨rfl, ?_⟩
    dsimp only
    rw [hstop]
    trivial
  | true =>
    rw [if_pos rfl]
    obtain ⟨-, hcurrent⟩ := looped_step hm hbefore
    dsimp only at hfinished ⊢
    rw [hcurrent]
    cases hm with
    | launches | ticks | runs => exact h hbefore hfinished
    | storesStopped threw hpc hstop => exact ⟨(h hbefore (by rw [hstop]; nofun)).1, trivial⟩
    | onStop l es hstep =>
      have hunfinished : r.life.stop ≠ .finished := fun hdone => by
        rw [onStopStep, hdone] at hstep
        cases hstep
      obtain ⟨hlast, hagrees⟩ := h hbefore hunfinished
      exact ⟨hlast, (onStopStep_agrees hstep hlast hagrees).1⟩
    | onStopThrows => exact absurd rfl hfinished

/-- `start()` moves: nothing that matters to the run that ends, but for the store. -/
theorem starterStep_cases (hstep : starterStep r = some r') :
    (∃ initial interval, r.starter = .storeCurrent initial interval ∧
      r'.life.machine.currentState = initial ∧ r'.life.looped = r.life.looped ∧
      r'.life.stop = r.life.stop ∧ r'.lastState = r.lastState) ∨
    ((∀ initial interval, r.starter ≠ .storeCurrent initial interval) ∧
      (r'.life.looped = false ∧ r'.life.stop = .notYet ∨
        r'.life.machine.currentState = r.life.machine.currentState ∧
        r'.life.looped = r.life.looped ∧ r'.life.stop = r.life.stop ∧
        r'.lastState = r.lastState)) := by
  unfold starterStep at hstep
  cases hpc : r.starter with
  | idle =>
    rw [hpc] at hstep
    cases hstep
  | storeCurrent initial interval =>
    rw [hpc] at hstep
    cases hstep
    exact .inl ⟨initial, interval, rfl, rfl, rfl, rfl, rfl⟩
  | storeRequested | requestStop | notifies =>
    rw [hpc] at hstep
    cases hstep
    exact .inr ⟨nofun, .inr ⟨rfl, rfl, rfl, rfl⟩⟩
  | joins | awaits =>
    simp only [hpc] at hstep
    split at hstep
    · cases hstep
      exact .inr ⟨nofun, .inr ⟨rfl, rfl, rfl, rfl⟩⟩
    · cases hstep
  | starts =>
    rw [hpc] at hstep
    cases hstep
    exact .inr ⟨nofun, .inl ⟨rfl, rfl⟩⟩

/-- What the ending run has to itself is the same. -/
theorem Intact.congr (hcurrent : r'.life.machine.currentState = r.life.machine.currentState)
    (hlooped : r'.life.looped = r.life.looped) (hstop : r'.life.stop = r.life.stop)
    (hlast : r'.lastState = r.lastState) : Intact r' ↔ Intact r := by
  unfold Intact
  rw [hcurrent, hlooped, hstop, hlast]

/-- **A step leaves the run that ends intact exactly when it does not store too early.** -/
theorem Intact.step_iff [DecidableEq τ] (h : Intact r)
    (hended : r.life.stop ≠ .notYet → r.life.looped = true) {a : RestartAction τ}
    {es : List (Callback τ)} (hstep : restartStep r a = some (r', es)) :
    Intact r' ↔ storesInTime r a := by
  cases a with
  | life a =>
    obtain ⟨⟨l, les⟩, hlife, heq⟩ := Option.map_eq_some_iff.mp hstep
    cases heq
    exact iff_of_true (h.life hended (lifeStep_move hlife)) trivial
  | start initial interval =>
    simp only [restartStep] at hstep
    split at hstep
    · split at hstep
      · cases hstep
        exact iff_of_true h trivial
      · cases hstep
        exact iff_of_true h trivial
    · cases hstep
  | starter =>
    obtain ⟨u, hstarter, heq⟩ := Option.map_eq_some_iff.mp hstep
    cases heq
    rcases starterStep_cases hstarter with
      ⟨initial, interval, hpc, hcurrent, hlooped, hstop, hlast⟩ | ⟨hother, hrest⟩
    · simp only [storesInTime, hpc]
      unfold Intact
      rw [hcurrent, hlooped, hstop, hlast]
      constructor
      · intro hintact
        cases hover : r.life.looped with
        | false => exact .inl rfl
        | true =>
          by_cases hfinished : r.life.stop = .finished
          · exact .inr (.inl hfinished)
          · have hsame := (hintact hover hfinished).1
            exact .inr (.inr (hsame.trans (h hover hfinished).1.symm))
      · rintro (hno | hfinished | hsame) hyes hunfinished
        · rw [hno] at hyes
          cases hyes
        · exact absurd hfinished hunfinished
        · obtain ⟨hcurrent₀, hagrees⟩ := h hyes hunfinished
          exact ⟨hsame.trans hcurrent₀, hagrees⟩
    · have hcond : storesInTime r .starter := by
        unfold storesInTime
        cases hpc : r.starter with
        | storeCurrent initial interval => exact absurd hpc (hother initial interval)
        | _ => trivial
      refine iff_of_true ?_ hcond
      rcases hrest with ⟨hno, -⟩ | ⟨hcurrent, hlooped, hstop, hlast⟩
      · intro hyes
        rw [hno] at hyes
        cases hyes
      · exact (Intact.congr hcurrent hlooped hstop hlast).mpr h

theorem ended_step [DecidableEq τ] (hended : r.life.stop ≠ .notYet → r.life.looped = true)
    {a : RestartAction τ} {es : List (Callback τ)} (hstep : restartStep r a = some (r', es)) :
    r'.life.stop ≠ .notYet → r'.life.looped = true := by
  cases a with
  | life a =>
    obtain ⟨⟨l, les⟩, hlife, heq⟩ := Option.map_eq_some_iff.mp hstep
    cases heq
    have hm := lifeStep_move hlife
    exact fun hstop => (looped_step hm (stop_step hm hended hstop)).1
  | start initial interval =>
    simp only [restartStep] at hstep
    split at hstep
    · split at hstep
      · cases hstep
        exact hended
      · cases hstep
        exact hended
    · cases hstep
  | starter =>
    obtain ⟨u, hstarter, heq⟩ := Option.map_eq_some_iff.mp hstep
    cases heq
    rcases starterStep_cases hstarter with
      ⟨-, -, -, -, hlooped, hstop, -⟩ | ⟨-, ⟨-, hstop⟩ | ⟨-, hlooped, hstop, -⟩⟩
    · rw [hlooped, hstop]
      exact hended
    · exact fun hne => absurd hstop hne
    · rw [hlooped, hstop]
      exact hended

end Step

/-! ## The result -/

variable [DecidableEq τ] {initial : τ} {interval : ℤ}

theorem ended {tr : List (Callback τ)} {r : Restart τ}
    (h : (restartSystem initial interval).Reachable tr r) :
    r.life.stop ≠ .notYet → r.life.looped = true := by
  refine Run.invariant (I := fun _ r => r.life.stop ≠ .notYet → r.life.looped = true) ?_ ?_ h
  · exact fun hne => absurd rfl hne
  · intro tr r a r' es _ _ hstep ih
    exact ended_step ih hstep

theorem intact {tr : List (Callback τ)} {r : Restart τ}
    (h : (restartSystem initial interval).Run storesInTime tr r) : Intact r := by
  refine Run.invariant (I := fun _ r => Intact r) ?_ ?_ h
  · intro hlooped
    cases hlooped
  · intro tr r a r' es hrun hintime hstep ih
    exact (ih.step_iff (ended hrun.reachable) hstep).mpr hintime

/-- **A restart leaves the run that ends intact as long as `start()` does not store another state
before the stop callbacks of that run have finished**, and only then.  In every state of a
run that meets the condition, from the end of a loop until those callbacks have finished
the current state is the one the loop ended in; the exit callbacks `worker_on_stop()`
invokes are those of that state, with details that name it.  The first step that does not
meet the condition changes the current state of the run that ends. -/
theorem restart_intact (initial : τ) (interval : ℤ) :
    (∀ tr r, (restartSystem initial interval).Run storesInTime tr r →
      Intact r ∧
      ∀ r' es, (restartSystem initial interval).step r (.life .onStop) = some (r', es) →
        ∀ state details, .exit state details ∈ es →
          state = r.lastState ∧ details = ⟨r.lastState, r.lastState, false⟩) ∧
    (∀ tr r a r' es, (restartSystem initial interval).Run storesInTime tr r →
      (restartSystem initial interval).step r a = some (r', es) →
      (Intact r' ↔ storesInTime r a)) := by
  constructor
  · intro tr r hrun
    refine ⟨intact hrun, fun r' es hstep state details hexit => ?_⟩
    obtain ⟨⟨l, les⟩, hlife, heq⟩ := Option.map_eq_some_iff.mp hstep
    cases heq
    have honStop : onStopStep r.life = some (l, es) := hlife
    have hstop : r.life.stop ≠ .notYet ∧ r.life.stop ≠ .finished := by
      constructor
      · intro hpc
        rw [onStopStep, hpc] at honStop
        cases honStop
      · intro hpc
        rw [onStopStep, hpc] at honStop
        cases honStop
    obtain ⟨hcurrent, hagrees⟩ := intact hrun (ended hrun.reachable hstop.1) hstop.2
    exact (onStopStep_agrees honStop hcurrent hagrees).2 state details hexit
  · intro tr r a r' es hrun hstep
    exact (intact hrun).step_iff (ended hrun.reachable) hstep

/-- A run in the state `false` up to the end of its loop, and the call of `start()` for a run in the
state `true`. -/
def startedAgain : List (RestartAction Bool) :=
  [.life (.run .launch), .life (.run .onStartReturns), .starter, .life (.run (.loop .proceed)),
   .life (.run (.loop .proceed)), .life (.run (.loop .proceed)), .life (.run .tick),
   .life (.run .tick), .life (.run .tick), .life (.run .tick), .life (.run .tick),
   .life (.run .storeStop), .life (.run .notify), .life (.run .tick),
   .life (.run (.loop .tickReturns)), .life (.run (.loop .proceed)),
   .life (.run (.loop (.measure 0))), .life (.run (.loop .acquire)), .life (.run (.loop .proceed)),
   .life (.run (.loop .proceed)), .life .storeStopped, .start true 10]

/-- The exit callbacks of a state the machine was never in, when `start()` comes first. -/
theorem exits_next_state : ∃ tr r, (restartSystem false 10).Reachable tr r ∧
    tr = [.started, .entry false ⟨false, false, false⟩, .tick false,
      .exit true ⟨true, true, false⟩] ∧
    r.lastState = false ∧ ¬ Intact r := by
  have hexec : (restartSystem false 10).exec
      (List.flatten [startedAgain,
        [.starter, .life .onStop, .life .onStop, .life .onStop]]) = some
      (⟨⟨⟨.looping, ⟨⟨true, 1, maxIterationCount, 10, noTokens⟩,
        .left false⟩, .done, true, false, false,
        fun _ => .idle⟩, ⟨false, false, false⟩, .inExit true ⟨true, true, false⟩⟩,
        .storeRequested true 10, false⟩,
       [.started, .entry false ⟨false, false, false⟩, .tick false,
        .exit true ⟨true, true, false⟩]) := rfl
  refine ⟨_, _, runFrom_of_execFrom (execMeets_anyStep _ _) hexec, rfl, rfl, fun hintact => ?_⟩
  have hcurrent := (hintact rfl nofun).1
  cases hcurrent

/-- The state when the stop callbacks of that run have finished. -/
def stopFinished (current : Bool) (starter : StarterPc Bool) : Restart Bool :=
  ⟨⟨⟨.looping, ⟨⟨true, 1, maxIterationCount, 10, noTokens⟩,
    .left false⟩, .done, current, false, false,
    fun _ => .idle⟩, ⟨false, false, false⟩, .finished⟩, starter, false⟩

theorem restart_intact_afterStop : ∃ tr, (restartSystem false 10).Run storesInTime tr
      (stopFinished true (.storeRequested true 10)) ∧
    Intact (stopFinished false (.storeCurrent true 10)) ∧
    Intact (stopFinished true (.storeRequested true 10)) := by
  have hexec : (restartSystem false 10).exec
      (List.flatten [startedAgain, [.life .onStop, .life .onStop, .life .onStop, .life .onStop,
        .life .onStop]]) = some
      (stopFinished false (.storeCurrent true 10),
       [.started, .entry false ⟨false, false, false⟩, .tick false,
        .exit false ⟨false, false, false⟩, .stopped]) := rfl
  have hrun := runFrom_of_execFrom (C := storesInTime) (by decide +kernel) hexec
  have hstep : (restartSystem false 10).step (stopFinished false (.storeCurrent true 10)) .starter =
      some (stopFinished true (.storeRequested true 10), []) := rfl
  have hintime : storesInTime (stopFinished false (.storeCurrent true 10)) .starter :=
    .inr (.inl rfl)
  obtain ⟨hintact, hiff⟩ := restart_intact false 10
  exact ⟨_, RunFrom.snoc hrun hintime hstep, (hintact _ _ hrun).1,
    (hiff _ _ _ _ _ hrun hstep).mpr hintime⟩

end StateMachine
