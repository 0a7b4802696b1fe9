/-
# The state machine

`state_machine.h` over the tick loop of its worker, from `start()` on.  A call of
`set_state()` is a store and a `notify()`, made by any thread or from any callback;
`tick_action()` is taken apart into its loads, its stores and its groups of callbacks,
between which every caller may come.  A group of callbacks returns or throws; so does
the lookup of a state that was never added.

A requested state that a tick has not read leaves a token or a call of `set_state()`
that is about to release one (`SettledInv`), so the loop does not sleep on it.
-/
import Libsg.WorkerLoop

open TransitionSystem Worker

namespace StateMachine

variable {τ : Type}

/-! ## The model -/

/-- Where `tick_action()` is, with the two values it has cached. -/
inductive TickPc (τ : Type)
  | readCurrent
  | readRequested (current : τ)
  | exchangeStarted (current requested : τ)
  | inFirstEntry (current requested : τ)
  | compare (current requested : τ)
  | inExit (current requested : τ)
  | storeCurrent (requested : τ)
  | inEntry (requested : τ)
  | inTick (current : τ)
  | done
  deriving DecidableEq, Repr

/-- Where the run is: `worker::start()` discards what notifications there are, then the worker
thread calls `worker_on_start()`, then it loops. -/
inductive Phase
  | starting
  | onStart
  | looping
  | failed
  deriving DecidableEq, Repr

/-- Where a call of `set_state()` is. -/
inductive CallPc
  | idle
  | stored
  deriving DecidableEq, Repr

structure State (τ : Type) where
  phase : Phase
  loop : TickLoop.State
  tick : TickPc τ
  currentState : τ
  requestedState : τ
  justStarted : Bool
  callers : ℕ → CallPc

inductive Action (τ : Type)
  | discard
  | launch
  | onStartReturns
  | onStartThrows
  /-- A step of the loop outside `tick_action()`, or the return of `tick_action()`. -/
  | loop (a : LoopAction)
  /-- The next step of `tick_action()`; a group of callbacks returns. -/
  | tick
  /-- A callback throws. -/
  | throw
  | setState (t : ℕ) (state : τ)
  | setStateNotifies (t : ℕ)
  | notify
  | storeStop
  | setInterval (interval : ℤ)

/-- One step of `tick_action()`. -/
def tickStep [DecidableEq τ] (s : State τ) : Option (State τ) :=
  match s.tick with
  | .readCurrent => some { s with tick := .readRequested s.currentState }
  | .readRequested current => some { s with tick := .exchangeStarted current s.requestedState }
  | .exchangeStarted current requested =>
    if s.justStarted then
      some { s with justStarted := false, tick := .inFirstEntry current requested }
    else
      some { s with tick := .compare current requested }
  | .inFirstEntry current requested => some { s with tick := .compare current requested }
  | .compare current requested =>
    if current = requested then some { s with tick := .inTick current }
    else some { s with tick := .inExit current requested }
  | .inExit _ requested => some { s with tick := .storeCurrent requested }
  | .storeCurrent requested =>
    some { s with currentState := requested, tick := .inEntry requested }
  | .inEntry requested => some { s with tick := .inTick requested }
  | .inTick _ => some { s with tick := .done }
  | .done => none

/-- The groups of callbacks. -/
def TickPc.inCallback : TickPc τ → Bool
  | .inFirstEntry _ _ | .inExit _ _ | .inEntry _ | .inTick _ => true
  | _ => false

/-- The loop is inside `tick_action()`. -/
def State.ticking (s : State τ) : Bool :=
  match s.phase, s.loop.pc with
  | .looping, .ticking _ => true
  | _, _ => false

def step [DecidableEq τ] (s : State τ) : Action τ → Option (State τ × List LoopEvent)
  | .discard =>
    if s.phase = .starting ∧ 0 < s.loop.control.tokens then
      some ({ s with loop := { s.loop with control := s.loop.control.acquire } }, [])
    else none
  | .launch => if s.phase = .starting then some ({ s with phase := .onStart }, []) else none
  | .onStartReturns =>
    if s.phase = .onStart then some ({ s with phase := .looping, justStarted := true }, [])
    else none
  | .onStartThrows => if s.phase = .onStart then some ({ s with phase := .failed }, []) else none
  | .loop a =>
    if s.phase = .looping ∧ a ≠ .tickThrows ∧ (a = .tickReturns → s.tick = .done) then
      (loopStep false s.loop.control s.loop.pc a).map fun (c, pc, es) =>
        ({ s with loop := ⟨c, pc⟩,
                  tick := if .tick ∈ es then .readCurrent else s.tick }, es)
    else none
  | .tick => if s.ticking then (tickStep s).map fun s' => (s', []) else none
  | .throw =>
    if s.phase = .looping ∧ s.tick.inCallback then
      (loopStep false s.loop.control s.loop.pc .tickThrows).map fun (c, pc, es) =>
        ({ s with loop := ⟨c, pc⟩ }, es)
    else none
  | .setState t state =>
    if s.callers t = .idle then
      some ({ s with requestedState := state, callers := Function.update s.callers t .stored }, [])
    else none
  | .setStateNotifies t =>
    if s.callers t = .stored then
      some ({ s with loop := { s.loop with control := s.loop.control.notify },
                     callers := Function.update s.callers t .idle }, [])
    else none
  | .notify => some ({ s with loop := { s.loop with control := s.loop.control.notify } }, [])
  | .storeStop =>
    some ({ s with loop := { s.loop with
      control := { s.loop.control with stopRequested := true } } }, [])
  | .setInterval interval =>
    some ({ s with loop := { s.loop with
      control := { s.loop.control with interval := interval } } }, [])

/-- A machine started in the state `initial`, with a worker of its own. -/
def system [DecidableEq τ] (initial : τ) (interval : ℤ) :
    TransitionSystem (State τ) (Action τ) LoopEvent where
  start :=
    { phase := .starting
      loop := ⟨⟨false, 0, maxIterationCount, interval, noTokens⟩, .check⟩
      tick := .readCurrent
      currentState := initial
      requestedState := initial
      justStarted := false
      callers := fun _ => .idle }
  step := step

/-! ## What one step can do -/

/-- The steps that callers make, or the code of a callback. -/
def Action.byCaller : Action τ → Bool
  | .setState _ _ | .setStateNotifies _ | .notify | .storeStop | .setInterval _ => true
  | _ => false

/-- One step of the machine, with what it has checked. -/
inductive Move [DecidableEq τ] (s : State τ) : Action τ → State τ → Prop
  | discards (c : Control) (hphase : s.phase = .starting) :
      Move s .discard { s with loop := { s.loop with control := c } }
  | launches (hphase : s.phase = .starting) : Move s .launch { s with phase := .onStart }
  | startReturns (hphase : s.phase = .onStart) :
      Move s .onStartReturns { s with phase := .looping, justStarted := true }
  | startThrows (hphase : s.phase = .onStart) : Move s .onStartThrows { s with phase := .failed }
  | loops (a : LoopAction) (c : Control) (pc : LoopPc) (es : List LoopEvent)
      (hphase : s.phase = .looping) (hmove : LoopMove false s.loop.control s.loop.pc c pc es)
      (hthrows : es ≠ [.ticked true]) (hreturns : es = [.ticked false] → s.tick = .done) :
      Move s (.loop a)
        { s with loop := ⟨c, pc⟩, tick := if .tick ∈ es then .readCurrent else s.tick }
  | ticks (s' : State τ) (hticking : s.ticking = true) (hstep : tickStep s = some s') :
      Move s .tick s'
  | throws (hphase : s.phase = .looping) : Move s .throw
      { s with loop := ⟨s.loop.control, .left true⟩ }
  /-- A call stores a requested state, or releases a token. -/
  | calls (a : Action τ) (c : Control) (requested : τ) (callers : ℕ → CallPc)
      (ha : a.byCaller = true) (hsettled : 0 < c.tokens ∨ ∃ t, callers t = .stored) :
      Move s a { s with loop := { s.loop with control := c }, requestedState := requested,
                        callers := callers }
  | controls (a : Action τ) (c : Control) (ha : a.byCaller = true)
      (hsem : c.notifySem = s.loop.control.notifySem) :
      Move s a { s with loop := { s.loop with control := c } }

/-- Only the return and the throw of a tick show its end. -/
theorem loopStep_ticked {c c' : Control} {pc pc' : LoopPc} {a : LoopAction} {threw : Bool}
    (h : loopStep false c pc a = some (c', pc', [.ticked threw])) :
    a = if threw then .tickThrows else .tickReturns := by
  unfold loopStep at h
  split at h
  case h_4 =>
    cases h
    rfl
  case h_5 =>
    cases h
    rfl
  all_goals first | (split at h <;> cases h) | cases h

theorem step_move [DecidableEq τ] {s s' : State τ} {a : Action τ} {es : List LoopEvent}
    (h : step s a = some (s', es)) : Move s a s' := by
  cases a with
  | discard =>
    simp only [step] at h
    split at h
    · next hcond =>
      cases h
      exact .discards _ hcond.1
    · cases h
  | launch =>
    simp only [step] at h
    split at h
    · next hphase =>
      cases h
      exact .launches hphase
    · cases h
  | onStartReturns =>
    simp only [step] at h
    split at h
    · next hphase =>
      cases h
      exact .startReturns hphase
    · cases h
  | onStartThrows =>
    simp only [step] at h
    split at h
    · next hphase =>
      cases h
      exact .startThrows hphase
    · cases h
  | loop a =>
    simp only [step] at h
    split at h
    · next hcond =>
      obtain ⟨⟨c, pc, les⟩, hloop, heq⟩ := Option.map_eq_some_iff.mp h
      cases heq
      refine .loops a c pc les hcond.1 (loopStep_move hloop) ?_ ?_
      · rintro rfl
        exact hcond.2.1 (loopStep_ticked hloop)
      · rintro rfl
        exact hcond.2.2 (loopStep_ticked hloop)
    · cases h
  | tick =>
    simp only [step] at h
    split at h
    · next hticking =>
      obtain ⟨t, ht, heq⟩ := Option.map_eq_some_iff.mp h
      cases heq
      exact .ticks _ hticking ht
    · cases h
  | throw =>
    simp only [step] at h
    split at h
    · next hcond =>
      obtain ⟨⟨c, pc, les⟩, hloop, heq⟩ := Option.map_eq_some_iff.mp h
      cases heq
      cases hpc : s.loop.pc with
      | ticking n =>
        rw [hpc] at hloop
        cases hloop
        exact .throws hcond.1
      | _ =>
        rw [hpc] at hloop
        cases hloop
    · cases h
  | setState t v =>
    simp only [step] at h
    split at h
    · cases h
      exact .calls _ s.loop.control v _ rfl (.inr ⟨t, Function.update_self ..⟩)
    · cases h
  | setStateNotifies t =>
    simp only [step] at h
    split at h
    · cases h
      exact .calls _ s.loop.control.notify s.requestedState _ rfl (.inl (Nat.succ_pos _))
    · cases h
  | notify =>
    cases h
    exact .calls _ s.loop.control.notify s.requestedState s.callers rfl (.inl (Nat.succ_pos _))
  | storeStop | setInterval =>
    cases h
    exact .controls _ _ rfl rfl

/-! ## No requested state is forgotten -/

/-- The value `v` is the requested one, or the loop will be woken to read another. -/
def State.Settled (s : State τ) (v : τ) : Prop :=
  s.requestedState = v ∨ 0 < s.loop.control.tokens ∨ ∃ t, s.callers t = .stored

/-- The requested state that the tick has read and will have made the current one at its end. -/
def TickPc.seen (current : τ) : TickPc τ → Option τ
  | .readCurrent | .readRequested _ => none
  | .exchangeStarted _ requested | .inFirstEntry _ requested | .compare _ requested
  | .inExit _ requested | .storeCurrent requested => some requested
  | .inEntry _ | .inTick _ | .done => some current

/-- The current state that the tick has cached and not changed yet. -/
def TickPc.cached : TickPc τ → Option τ
  | .readRequested current | .exchangeStarted current _ | .inFirstEntry current _
  | .compare current _ => some current
  | _ => none

/-- The places from a tick to the end of the wait after it. -/
def afterTick : LoopPc → Bool
  | .ticked _ | .timing | .waiting => true
  | _ => false

/-- What the current tick has read, and what the last one has made current, is settled. -/
structure SettledInv (s : State τ) : Prop where
  cached : ∀ v, s.tick.cached = some v → s.currentState = v
  seen : s.ticking = true → ∀ v, s.tick.seen s.currentState = some v → s.Settled v
  current : afterTick s.loop.pc = true → s.Settled s.currentState
  fresh : s.phase ≠ .looping → s.loop.pc = .check

section Step

variable {s s' : State τ}

/-- Who asks less of the callers leaves settled what is. -/
theorem State.Settled.frame {v : τ} (h : s.Settled v)
    (hrequested : s'.requestedState = s.requestedState)
    (hsem : s.loop.control.tokens ≤ s'.loop.control.tokens)
    (hcallers : s'.callers = s.callers) : s'.Settled v := by
  rcases h with h | h | ⟨t, ht⟩
  · exact .inl (hrequested.trans h)
  · exact .inr (.inl (Nat.lt_of_lt_of_le h hsem))
  · exact .inr (.inr ⟨t, by rw [hcallers]; exact ht⟩)

/-- While everything is settled, only the places matter. -/
theorem SettledInv.of_settled (h : SettledInv s) (hphase : s'.phase = s.phase)
    (hpc : s'.loop.pc = s.loop.pc) (htick : s'.tick = s.tick)
    (hcurrent : s'.currentState = s.currentState)
    (hall : ∀ v, s.Settled v → s'.Settled v) : SettledInv s' where
  cached v hv := by
    rw [htick] at hv
    exact hcurrent.trans (h.cached v hv)
  seen hticking v hv := by
    have hsame : s'.ticking = s.ticking := by rw [State.ticking, State.ticking, hphase, hpc]
    rw [hsame] at hticking
    rw [htick, hcurrent] at hv
    exact hall v (h.seen hticking v hv)
  current hafter := by
    rw [hpc] at hafter
    rw [hcurrent]
    exact hall _ (h.current hafter)
  fresh hloop := by
    rw [hphase] at hloop
    exact hpc.trans (h.fresh hloop)

/-- A caller that has stored, or has released a token, settles everything. -/
theorem SettledInv.of_caller (h : SettledInv s) (hphase : s'.phase = s.phase)
    (hpc : s'.loop.pc = s.loop.pc) (htick : s'.tick = s.tick)
    (hcurrent : s'.currentState = s.currentState)
    (hall : 0 < s'.loop.control.tokens ∨ ∃ t, s'.callers t = .stored) : SettledInv s' :=
  h.of_settled hphase hpc htick hcurrent fun _ _ => .inr hall

/-- The steps outside the loop and between ticks, at a place that is not after a tick. -/
theorem SettledInv.of_elsewhere (h : SettledInv s) (htick : s'.tick = s.tick)
    (hcurrent : s'.currentState = s.currentState) (hticking : s'.ticking = false)
    (hafter : afterTick s'.loop.pc = false) (hfresh : s'.phase ≠ .looping → s'.loop.pc = .check) :
    SettledInv s' where
  cached v hv := by
    rw [htick] at hv
    exact hcurrent.trans (h.cached v hv)
  seen hyes := by
    rw [hticking] at hyes
    cases hyes
  current hyes := by
    rw [hafter] at hyes
    cases hyes
  fresh := hfresh

theorem ticking_of_phase (h : s.phase ≠ .looping) : s.ticking = false := by
  unfold State.ticking
  cases hphase : s.phase with
  | looping => exact absurd hphase h
  | _ => rfl

/-- The loop moves outside `tick_action()`. -/
theorem SettledInv.loop (h : SettledInv s) (hphase : s.phase = .looping) {c : Control} {pc : LoopPc}
    {es : List LoopEvent} (hm : LoopMove false s.loop.control s.loop.pc c pc es)
    (hreturns : es = [.ticked false] → s.tick = .done) :
    SettledInv { s with loop := ⟨c, pc⟩, tick := if .tick ∈ es then .readCurrent else s.tick } := by
  obtain ⟨phase, ⟨c₀, pc₀⟩, tick, current, requested, started, callers⟩ := s
  dsimp only at hm hphase hreturns
  subst hphase
  have hlooping : ∀ {pc : LoopPc}, Phase.looping ≠ .looping → pc = .check :=
    fun hne => absurd rfl hne
  cases hm with
  | call n => exact ⟨nofun, fun _ => nofun, nofun, hlooping⟩
  | tickReturns n =>
    have hdone : tick = .done := hreturns rfl
    subst hdone
    exact ⟨nofun, nofun, fun _ => h.seen rfl current rfl, hlooping⟩
  | again | sleep =>
    exact ⟨h.cached, nofun, fun _ => h.current rfl, hlooping⟩
  | stop | goOn | count | tickThrows | target | late | wake | timeout | drain | drained =>
    exact h.of_elsewhere rfl rfl rfl rfl hlooping

/-- `tick_action()` moves. -/
theorem SettledInv.tick [DecidableEq τ] (h : SettledInv s) (hticking : s.ticking = true)
    (hstep : tickStep s = some s') : SettledInv s' := by
  have hlooping : s.phase = .looping := by
    by_contra hne
    rw [ticking_of_phase hne] at hticking
    cases hticking
  have hafter : afterTick s.loop.pc = false := by
    unfold State.ticking at hticking
    rw [hlooping] at hticking
    cases hpc : s.loop.pc <;> rw [hpc] at hticking <;> first | rfl | cases hticking
  have hnever : ∀ {P : Prop}, afterTick s.loop.pc = true → P := fun hyes => by
    rw [hafter] at hyes
    cases hyes
  obtain ⟨phase, loop, tick, current, requested, started, callers⟩ := s
  have hseen := h.seen hticking
  have hcached := h.cached
  have hfresh := h.fresh
  unfold tickStep at hstep
  cases tick with
  | readCurrent =>
    cases hstep
    exact ⟨fun v hv => Option.some.inj hv, fun _ => nofun, hnever, hfresh⟩
  | readRequested v =>
    -- what is read now is the requested state
    cases hstep
    exact ⟨hcached, fun _ w hw => .inl (Option.some.inj hw), hnever, hfresh⟩
  | exchangeStarted v w =>
    dsimp only at hstep
    split at hstep
    · cases hstep
      exact ⟨hcached, fun _ => hseen, hnever, hfresh⟩
    · cases hstep
      exact ⟨hcached, fun _ => hseen, hnever, hfresh⟩
  | inFirstEntry v w =>
    cases hstep
    exact ⟨hcached, fun _ => hseen, hnever, hfresh⟩
  | compare v w =>
    dsimp only at hstep
    split at hstep
    · next hsame =>
      -- nothing to change: the cached current state is the requested one that was read
      subst hsame
      cases hstep
      have hcurrent : current = v := hcached v rfl
      subst hcurrent
      exact ⟨nofun, fun _ => hseen, hnever, hfresh⟩
    · cases hstep
      exact ⟨nofun, fun _ => hseen, hnever, hfresh⟩
  | inExit v w =>
    cases hstep
    exact ⟨nofun, fun _ => hseen, hnever, hfresh⟩
  | storeCurrent w =>
    cases hstep
    exact ⟨nofun, fun _ => hseen, hnever, hfresh⟩
  | inEntry w =>
    cases hstep
    exact ⟨nofun, fun _ => hseen, hnever, hfresh⟩
  | inTick w =>
    cases hstep
    exact ⟨nofun, fun _ => hseen, hnever, hfresh⟩
  | done => cases hstep

theorem SettledInv.step [DecidableEq τ] (h : SettledInv s) {a : Action τ} (hm : Move s a s') :
    SettledInv s' := by
  cases hm with
  | discards c hphase =>
    have hne : s.phase ≠ .looping := by
      rw [hphase]
      nofun
    have hpc := h.fresh hne
    exact h.of_elsewhere rfl rfl (ticking_of_phase hne) (by rw [hpc]; rfl) fun _ => hpc
  | launches hphase | startReturns hphase | startThrows hphase =>
    have hpc := h.fresh (by rw [hphase]; nofun)
    exact h.of_elsewhere rfl rfl (by simp [State.ticking, hpc]) (by rw [hpc]; rfl) fun _ => hpc
  | loops a c pc es hphase hmove hthrows hreturns => exact h.loop hphase hmove hreturns
  | ticks _ hticking hstep => exact h.tick hticking hstep
  | throws hphase =>
    refine h.of_elsewhere rfl rfl ?_ rfl fun hne => absurd hphase hne
    rw [State.ticking]
    dsimp only
    rw [hphase]
  | calls a c requested callers ha hsettled => exact h.of_caller rfl rfl rfl rfl hsettled
  | controls a c ha hsem =>
    have htokens : s.loop.control.tokens = c.tokens :=
      congrArg CountingSemaphore.counter hsem.symm
    exact h.of_settled rfl rfl rfl rfl fun v hv => hv.frame rfl (Nat.le_of_eq htokens) rfl

end Step

/-! ## The result -/

theorem settledInv [DecidableEq τ] {initial : τ} {interval : ℤ} {tr : List LoopEvent} {s : State τ}
    (h : (system initial interval).Reachable tr s) : SettledInv s := by
  refine Run.invariant (I := fun _ s => SettledInv s) ?_ ?_ h
  · exact ⟨nofun, fun _ => nofun, nofun, fun _ => rfl⟩
  · intro tr s a s' es _ _ hstep ih
    exact ih.step (step_move hstep)

/-- A machine whose state is set during its first tick, up to the sleep after the second. -/
def changeRun : List (Action Bool) :=
  [.launch, .onStartReturns, .loop .proceed, .loop .proceed, .loop .proceed,
   .tick, .tick, .tick, .setState 0 true, .tick, .tick, .tick, .setStateNotifies 0,
   .loop .tickReturns, .loop .proceed, .loop (.measure 0), .loop .acquire, .loop .proceed,
   .loop .proceed, .loop .proceed, .loop .proceed,
   .tick, .tick, .tick, .tick, .tick, .tick, .tick, .tick,
   .loop .tickReturns, .loop .proceed, .loop (.measure 0)]

end StateMachine
