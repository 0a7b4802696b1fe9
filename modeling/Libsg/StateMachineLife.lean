/-
# The callbacks of a state machine

A run of the machine from `start()` to the end of `worker_on_stop()`, with the callbacks
it invokes.  `worker_on_start()` invokes the started callback and sets `just_started`;
the first tick finds it set and invokes the entry callbacks of the initial state;
`worker_on_stop()`, once the loop is over, invokes the exit callbacks of the current
state and the stopped callback.

`Stage` says which sequences of callbacks have their entries and exits paired.  The
sequence a run shows is one of them as long as the loop does not end with `just_started`
set: then the initial state is left that was never entered (`LifeInv`).
-/
import Libsg.StateMachine
import Mathlib.Data.List.Induction

open TransitionSystem Worker

namespace StateMachine

variable {τ : Type}

/-! ## The model -/

structure StateChangeDetails (τ : Type) where
  newState : τ
  oldState : τ
  isStoppingState : Bool
  deriving DecidableEq, Repr

/-- A group of callbacks is invoked, those of a state with the state they were added to. -/
inductive Callback (τ : Type)
  | started
  | entry (state : τ) (details : StateChangeDetails τ)
  | tick (state : τ)
  | exit (state : τ) (details : StateChangeDetails τ)
  | stopped
  deriving DecidableEq, Repr

/-- Where `worker_on_stop()` is, which loads `m_current_state` three times. -/
inductive StopPc (τ : Type)
  | notYet
  | loadNew
  | loadOld (newState : τ)
  | lookUp (details : StateChangeDetails τ)
  | inExit (state : τ) (details : StateChangeDetails τ)
  | inStopped
  | finished
  deriving DecidableEq, Repr

structure Life (τ : Type) where
  machine : State τ
  /-- The details that `tick_action()` has made last. -/
  details : StateChangeDetails τ
  stop : StopPc τ

inductive LifeAction (τ : Type)
  /-- A step of the machine up to the end of its loop. -/
  | run (a : Action τ)
  /-- After the loop `m_state` becomes `stopped`. -/
  | storeStopped
  /-- The next step of `worker_on_stop()`; a group of callbacks returns. -/
  | onStop
  | onStopThrows

/-- The details `tick_action()` makes on its way to a place. -/
def TickPc.makeDetails (details : StateChangeDetails τ) : TickPc τ → StateChangeDetails τ
  | .inFirstEntry current _ => ⟨current, current, false⟩
  | .inExit current requested => ⟨requested, current, false⟩
  | _ => details

/-- The callbacks `tick_action()` invokes when it comes to a place. -/
def TickPc.invokes (details : StateChangeDetails τ) : TickPc τ → List (Callback τ)
  | .inFirstEntry current _ => [.entry current details]
  | .inExit current _ => [.exit current details]
  | .inEntry requested => [.entry requested details]
  | .inTick current => [.tick current]
  | _ => []

/-- One step of `worker_on_stop()`. -/
def onStopStep (l : Life τ) : Option (Life τ × List (Callback τ)) :=
  match l.stop with
  | .loadNew => some ({ l with stop := .loadOld l.machine.currentState }, [])
  | .loadOld newState =>
    some ({ l with stop := .lookUp ⟨newState, l.machine.currentState, false⟩ }, [])
  | .lookUp details =>
    some ({ l with stop := .inExit l.machine.currentState details },
      [.exit l.machine.currentState details])
  | .inExit _ _ => some ({ l with stop := .inStopped }, [.stopped])
  | .inStopped => some ({ l with stop := .finished }, [])
  | .notYet | .finished => none

def lifeStep [DecidableEq τ] (l : Life τ) : LifeAction τ → Option (Life τ × List (Callback τ))
  | .run .launch =>
    (step l.machine .launch).map fun (m, _) => ({ l with machine := m }, [.started])
  | .run .tick =>
    (step l.machine .tick).map fun (m, _) =>
      let details := m.tick.makeDetails l.details
      ({ l with machine := m, details := details }, m.tick.invokes details)
  | .run a => (step l.machine a).map fun (m, _) => ({ l with machine := m }, [])
  | .storeStopped =>
    match l.machine.loop.pc, l.stop with
    | .left _, .notYet => some ({ l with stop := .loadNew }, [])
    | _, _ => none
  | .onStop => onStopStep l
  | .onStopThrows =>
    match l.stop with
    | .lookUp _ | .inExit _ _ | .inStopped => some ({ l with stop := .finished }, [])
    | _ => none

/-- The life of a machine started in the state `initial`. -/
def lifeSystem [DecidableEq τ] (initial : τ) (interval : ℤ) :
    TransitionSystem (Life τ) (LifeAction τ) (Callback τ) where
  start :=
    { machine := (system initial interval).start
      details := ⟨initial, initial, false⟩
      stop := .notYet }
  step := lifeStep

/-! ## Paired entries and exits -/

/-- Where a sequence of callbacks is whose entries and exits are paired. -/
inductive Stage (τ : Type)
  | unstarted
  | started
  | inState (state : τ)
  | between (oldState newState : τ)
  | stopped
  deriving DecidableEq, Repr

/-- The callbacks that may come next: the started callback, the entry of the initial state, ticks of
the current state, its exit followed by the entry of another, its exit followed by the stopped
callback. -/
def Stage.next [DecidableEq τ] (initial : τ) : Stage τ → Callback τ → Option (Stage τ)
  | .unstarted, .started => some .started
  | .started, .entry state details =>
    if state = initial ∧ details = ⟨initial, initial, false⟩ then some (.inState initial) else none
  | .inState current, .tick state => if state = current then some (.inState current) else none
  | .inState current, .exit state details =>
    if state = current ∧ details.oldState = current then some (.between current details.newState)
    else none
  | .between oldState newState, .entry state details =>
    if newState ≠ oldState ∧ state = newState ∧ details = ⟨newState, oldState, false⟩ then
      some (.inState newState)
    else none
  | .between oldState newState, .stopped => if newState = oldState then some .stopped else none
  | _, _ => none

/-- The place of a trace that has its entries and exits paired. -/
def scan [DecidableEq τ] (initial : τ) (tr : List (Callback τ)) : Option (Stage τ) :=
  tr.foldlM (Stage.next initial) .unstarted

def Callback.enters [DecidableEq τ] (state : τ) : Callback τ → Bool
  | .entry s _ => s = state
  | _ => false

def Callback.exits [DecidableEq τ] (state : τ) : Callback τ → Bool
  | .exit s _ => s = state
  | _ => false

section Scan

variable [DecidableEq τ] {initial : τ}

theorem scan_append (tr es : List (Callback τ)) :
    scan initial (tr ++ es) = (scan initial tr).bind fun p => es.foldlM (Stage.next initial) p :=
  List.foldlM_append

/-- The states that have been entered and not left. -/
def Stage.inside (state : τ) : Stage τ → ℕ
  | .inState current => if current = state then 1 else 0
  | _ => 0

/-- What one callback adds to the entries and exits. -/
theorem Stage.next_counts {p q : Stage τ} {c : Callback τ} (h : p.next initial c = some q)
    (state : τ) :
    p.inside state + [c].countP (Callback.enters state) =
      q.inside state + [c].countP (Callback.exits state) := by
  unfold Stage.next at h
  split at h
  · cases h
    rfl
  · split at h
    · next hentry =>
      cases h
      obtain ⟨rfl, -⟩ := hentry
      simp [Stage.inside, Callback.enters, Callback.exits]
    · cases h
  · split at h
    · cases h
      simp [Stage.inside, Callback.enters, Callback.exits]
    · cases h
  · split at h
    · next hexit =>
      cases h
      obtain ⟨rfl, -⟩ := hexit
      simp [Stage.inside, Callback.enters, Callback.exits]
    · cases h
  · split at h
    · next hentry =>
      cases h
      obtain ⟨-, rfl, -⟩ := hentry
      simp [Stage.inside, Callback.enters, Callback.exits]
    · cases h
  · split at h
    · cases h
      simp [Stage.inside, Callback.enters, Callback.exits]
    · cases h
  · cases h

/-- In a paired trace a state has been left as often as entered, or once less when it is the
current one. -/
theorem scan_counts {tr : List (Callback τ)} {p : Stage τ} (h : scan initial tr = some p)
    (state : τ) :
    tr.countP (Callback.enters state) = tr.countP (Callback.exits state) + p.inside state := by
  induction tr using List.reverseRecOn generalizing p with
  | nil =>
    cases h
    rfl
  | append_singleton tr c ih =>
    rw [scan_append] at h
    obtain ⟨q, hq, hnext⟩ := Option.bind_eq_some_iff.mp h
    have hstep : q.next initial c = some p := by simpa using hnext
    have hbefore := ih hq
    have hadds := Stage.next_counts hstep state
    rw [List.countP_append, List.countP_append]
    omega

/-- A state that is left has been entered, and not been left since. -/
theorem enters_of_exit {tr tr₁ tr₂ : List (Callback τ)} {p : Stage τ} {state : τ}
    {details : StateChangeDetails τ} (h : scan initial tr = some p)
    (htr : tr = tr₁ ++ .exit state details :: tr₂) :
    tr₁.countP (Callback.enters state) = tr₁.countP (Callback.exits state) + 1 := by
  subst htr
  rw [scan_append] at h
  obtain ⟨q, hq, hrest⟩ := Option.bind_eq_some_iff.mp h
  have hcounts := scan_counts hq state
  rw [List.foldlM_cons] at hrest
  obtain ⟨r, hexit, -⟩ := Option.bind_eq_some_iff.mp hrest
  cases q with
  | inState current =>
    rw [Stage.next] at hexit
    split at hexit
    · next hsame =>
      rw [hcounts, Stage.inside, if_pos hsame.1.symm]
    · cases hexit
  | _ => cases hexit

end Scan

/-! ## Where a run is -/

/-- The exit callbacks of `worker_on_stop()` have been invoked. -/
def StopPc.exited : StopPc τ → Bool
  | .inExit _ _ | .inStopped | .finished => true
  | _ => false

/-- Where the loop and `tick_action()` are. -/
def Life.tickStage (l : Life τ) : Stage τ :=
  match l.machine.tick with
  | .inExit current requested => .between current requested
  | .storeCurrent requested => .between l.machine.currentState requested
  | _ => .inState l.machine.currentState

/-- The place of the callbacks of a life, if they are paired. -/
def Life.stage (l : Life τ) : Option (Stage τ) :=
  match l.machine.phase with
  | .starting => some .unstarted
  | .onStart | .failed => some .started
  | .looping =>
    if l.machine.justStarted then
      if l.stop.exited then none else some .started
    else match l.stop with
      | .inExit _ _ => some (.between l.machine.currentState l.machine.currentState)
      | .inStopped | .finished => some .stopped
      | _ => some l.tickStage

/-- The places of `tick_action()` while it does not run. -/
def TickPc.resting : TickPc τ → Bool
  | .readCurrent | .done => true
  | _ => false

/-- The places of `tick_action()` up to the one where it finds `just_started`. -/
def TickPc.early : TickPc τ → Bool
  | .readCurrent | .readRequested _ | .exchangeStarted _ _ => true
  | _ => false

/-- The places of the loop up to the end of its first tick, and after the loop. -/
def beforeTicked : LoopPc → Bool
  | .check | .counting | .calling _ | .ticking _ | .left _ => true
  | _ => false

/-- The place agrees with the current state and the details made. -/
def TickPc.Agrees (current : τ) (details : StateChangeDetails τ) : TickPc τ → Prop
  | .inExit state requested =>
    state = current ∧ requested ≠ current ∧ details = ⟨requested, current, false⟩
  | .storeCurrent requested => requested ≠ current ∧ details = ⟨requested, current, false⟩
  | .inEntry requested => requested = current
  | .inTick state => state = current
  | _ => True

/-- What `worker_on_stop()` has loaded is the current state. -/
def StopPc.Agrees (current : τ) : StopPc τ → Prop
  | .loadOld newState => newState = current
  | .lookUp details => details = ⟨current, current, false⟩
  | .inExit state details => state = current ∧ details = ⟨current, current, false⟩
  | _ => True

/-- What holds of a life in which no callback throws. -/
structure LifeInv (initial : τ) (l : Life τ) : Prop where
  settled : SettledInv l.machine
  resting : l.machine.ticking = false → l.machine.tick.resting = true
  unlooped : l.machine.phase ≠ .looping →
    l.machine.currentState = initial ∧ l.machine.tick = .readCurrent ∧ l.stop = .notYet
  unticked : l.machine.justStarted = true →
    l.machine.currentState = initial ∧ l.machine.tick.early = true ∧
      beforeTicked l.machine.loop.pc = true
  ended : l.stop ≠ .notYet → ∃ threw, l.machine.loop.pc = .left threw
  tick : l.machine.tick.Agrees l.machine.currentState l.details
  stop : l.stop.Agrees l.machine.currentState

/-! ## What one step does to it -/

/-- One step of a life. -/
inductive LifeMove [DecidableEq τ] (l : Life τ) :
    LifeAction τ → Life τ → List (Callback τ) → Prop
  | launches (hphase : l.machine.phase = .starting) : LifeMove l (.run .launch)
      { l with machine := { l.machine with phase := .onStart } } [.started]
  | ticks (m : State τ) (hticking : l.machine.ticking = true)
      (hstep : tickStep l.machine = some m) : LifeMove l (.run .tick)
      { l with machine := m, details := m.tick.makeDetails l.details }
      (m.tick.invokes (m.tick.makeDetails l.details))
  | runs (a : Action τ) (m : State τ) (hlaunch : a ≠ .launch) (htick : a ≠ .tick)
      (hmove : Move l.machine a m) : LifeMove l (.run a) { l with machine := m } []
  | storesStopped (threw : Bool) (hpc : l.machine.loop.pc = .left threw) (hstop : l.stop = .notYet) :
      LifeMove l .storeStopped { l with stop := .loadNew } []
  | onStop (l' : Life τ) (es : List (Callback τ)) (hstep : onStopStep l = some (l', es)) :
      LifeMove l .onStop l' es
  | onStopThrows (hstop : l.stop ≠ .notYet) :
      LifeMove l .onStopThrows { l with stop := .finished } []

theorem lifeStep_move [DecidableEq τ] {l l' : Life τ} {a : LifeAction τ} {es : List (Callback τ)}
    (h : lifeStep l a = some (l', es)) : LifeMove l a l' es := by
  unfold lifeStep at h
  split at h
  · obtain ⟨⟨m, les⟩, hstep, heq⟩ := Option.map_eq_some_iff.mp h
    cases heq
    have hm := step_move hstep
    cases hm with
    | launches hphase => exact .launches hphase
    | calls _ _ _ _ ha | controls _ _ ha => cases ha
  · obtain ⟨⟨m, les⟩, hstep, heq⟩ := Option.map_eq_some_iff.mp h
    cases heq
    have hm := step_move hstep
    cases hm with
    | ticks _ hticking hstep => exact .ticks _ hticking hstep
    | calls _ _ _ _ ha | controls _ _ ha => cases ha
  · next a hlaunch htick =>
    obtain ⟨⟨m, les⟩, hstep, heq⟩ := Option.map_eq_some_iff.mp h
    cases heq
    exact .runs a _ hlaunch htick (step_move hstep)
  · split at h
    · next hpc hstop =>
      cases h
      exact .storesStopped _ hpc hstop
    · cases h
  · exact .onStop _ _ h
  · split at h
    · next hstop =>
      cases h
      exact .onStopThrows (by rw [hstop]; nofun)
    · next hstop =>
      cases h
      exact .onStopThrows (by rw [hstop]; nofun)
    · next hstop =>
      cases h
      exact .onStopThrows (by rw [hstop]; nofun)
    · cases h

/-- No callback throws, and every state that is looked up has been added. -/
def nothingThrows (_ : Life τ) : LifeAction τ → Prop
  | .run .throw | .run .onStartThrows | .onStopThrows => False
  | _ => True

section Step

variable {initial : τ} {l l' : Life τ}

/-- Only what has to do with ticks, the current state and the end of the run matters. -/
theorem LifeInv.frame (h : LifeInv initial l) {m : State τ} (hsettled : SettledInv m)
    (hphase : m.phase = l.machine.phase) (hpc : m.loop.pc = l.machine.loop.pc)
    (htick : m.tick = l.machine.tick) (hcurrent : m.currentState = l.machine.currentState)
    (hstarted : m.justStarted = l.machine.justStarted) :
    LifeInv initial { l with machine := m } ∧ Life.stage { l with machine := m } = l.stage := by
  have hticking : m.ticking = l.machine.ticking := by
    rw [State.ticking, State.ticking, hphase, hpc]
  constructor
  · constructor
    · exact hsettled
    · rw [hticking, htick]
      exact h.resting
    · rw [hphase, hcurrent, htick]
      exact h.unlooped
    · rw [hstarted, hcurrent, htick, hpc]
      exact h.unticked
    · rw [hpc]
      exact h.ended
    · rw [htick, hcurrent]
      exact h.tick
    · rw [hcurrent]
      exact h.stop
  · simp only [Life.stage, Life.tickStage]
    rw [hphase, hcurrent, htick, hstarted]

/-- While `tick_action()` does not run, its place does not matter. -/
theorem tickStage_of_resting (h : l.machine.tick.resting = true) :
    l.tickStage = .inState l.machine.currentState := by
  unfold Life.tickStage
  cases htick : l.machine.tick with
  | inExit | storeCurrent =>
    rw [htick] at h
    cases h
  | _ => rfl

/-- The loop moves outside `tick_action()`. -/
theorem LifeInv.loop (h : LifeInv initial l) (hphase : l.machine.phase = .looping) {c : Control}
    {pc : LoopPc} {es : List LoopEvent}
    (hm : LoopMove false l.machine.loop.control l.machine.loop.pc c pc es)
    (hthrows : es ≠ [.ticked true]) (hreturns : es = [.ticked false] → l.machine.tick = .done)
    {m : State τ} (hsettled : SettledInv m) (hmachine : m = { l.machine with
      loop := ⟨c, pc⟩, tick := if .tick ∈ es then .readCurrent else l.machine.tick }) :
    LifeInv initial { l with machine := m } ∧ Life.stage { l with machine := m } = l.stage := by
  -- the loop is not over, so neither is the run
  have hstop : l.stop = .notYet := by
    by_contra hne
    obtain ⟨threw, hpc⟩ := h.ended hne
    rw [hpc] at hm
    cases hm
  obtain ⟨⟨phase, ⟨c₀, pc₀⟩, tick, current, requested, started, callers⟩, details, stop⟩ := l
  dsimp only at hphase hm hreturns hstop hmachine
  subst hphase hstop hmachine
  have hlooping : ∀ {P : Prop}, Phase.looping ≠ .looping → P := fun hne => absurd rfl hne
  have hnotYet : ∀ {P : Prop}, (.notYet : StopPc τ) ≠ .notYet → P := fun hne => absurd rfl hne
  cases hm with
  | call n =>
    constructor
    · exact ⟨hsettled, nofun, hlooping, fun hyes => ⟨(h.unticked hyes).1, rfl, rfl⟩, hnotYet,
        trivial, h.stop⟩
    · have hresting := h.resting rfl
      simp only [Life.stage, tickStage_of_resting hresting]
      rfl
  | tickReturns n =>
    have hdone : tick = .done := hreturns rfl
    subst hdone
    have hunticked : started ≠ true := fun hyes => by cases (h.unticked hyes).2.1
    exact ⟨⟨hsettled, fun _ => rfl, hlooping, fun hyes => absurd hyes hunticked, hnotYet, trivial,
      h.stop⟩, rfl⟩
  | tickThrows n => exact absurd rfl hthrows
  | stop | goOn | count =>
    have hresting := h.resting rfl
    exact ⟨⟨hsettled, fun _ => hresting, hlooping, h.unticked, hnotYet, h.tick, h.stop⟩, rfl⟩
  | target | again | sleep | late | wake | timeout | drain | drained =>
    have hresting := h.resting rfl
    have hunticked : started ≠ true := fun hyes => by cases (h.unticked hyes).2.2
    exact ⟨⟨hsettled, fun _ => hresting, hlooping, fun hyes => absurd hyes hunticked, hnotYet,
      h.tick, h.stop⟩, rfl⟩

/-- `tick_action()` moves. -/
theorem LifeInv.ticks [DecidableEq τ] (h : LifeInv initial l) {m : State τ}
    (hsettled : SettledInv m) (hticking : l.machine.ticking = true)
    (hstep : tickStep l.machine = some m) :
    LifeInv initial { l with machine := m, details := m.tick.makeDetails l.details } ∧
    Life.stage { l with machine := m, details := m.tick.makeDetails l.details } =
      l.stage.bind fun p =>
        (m.tick.invokes (m.tick.makeDetails l.details)).foldlM (Stage.next initial) p := by
  have hphase : l.machine.phase = .looping := by
    by_contra hne
    rw [ticking_of_phase hne] at hticking
    cases hticking
  have hstop : l.stop = .notYet := by
    by_contra hne
    obtain ⟨threw, hpc⟩ := h.ended hne
    rw [State.ticking, hphase, hpc] at hticking
    cases hticking
  have hsame : ∀ {m : State τ}, m.phase = .looping → m.loop = l.machine.loop → m.ticking = false →
      m.tick.resting = true := fun hp hl hno => by
    rw [State.ticking, hp, hl] at hno
    rw [State.ticking, hphase, hno] at hticking
    cases hticking
  have hcached := h.settled.cached
  have htick := h.tick
  have hunticked := h.unticked
  obtain ⟨⟨phase, loop, tick, current, requested, started, callers⟩, details, stop⟩ := l
  dsimp only at hphase hstop hstep hsame hcached htick hunticked
  subst hphase hstop
  have hlooping : ∀ {P : Prop}, Phase.looping ≠ .looping → P := fun hne => absurd rfl hne
  have hnotYet : ∀ {P : Prop}, (.notYet : StopPc τ) ≠ .notYet → P := fun hne => absurd rfl hne
  unfold tickStep at hstep
  cases tick with
  | readCurrent =>
    cases hstep
    constructor
    · exact ⟨hsettled, hsame rfl rfl, hlooping, hunticked, hnotYet, trivial, trivial⟩
    · cases started <;> rfl
  | readRequested v =>
    cases hstep
    constructor
    · exact ⟨hsettled, hsame rfl rfl, hlooping, hunticked, hnotYet, trivial, trivial⟩
    · cases started <;> rfl
  | exchangeStarted v w =>
    -- the flag decides, and what has been cached is the current state
    have hcurrent : current = v := hcached v rfl
    subst hcurrent
    cases started with
    | true =>
      cases hstep
      obtain ⟨hinitial, -⟩ := hunticked rfl
      constructor
      · exact ⟨hsettled, hsame rfl rfl, hlooping, by simp, hnotYet, trivial, trivial⟩
      · show _ = Stage.next initial .started (.entry current ⟨current, current, false⟩) >>= pure
        rw [Stage.next, hinitial, if_pos ⟨rfl, rfl⟩]
        rfl
    | false =>
      cases hstep
      exact ⟨⟨hsettled, hsame rfl rfl, hlooping, by simp, hnotYet, trivial, trivial⟩, rfl⟩
  | inFirstEntry v w =>
    cases hstep
    cases started with
    | true => cases (hunticked rfl).2.1
    | false => exact ⟨⟨hsettled, hsame rfl rfl, hlooping, by simp, hnotYet, trivial, trivial⟩, rfl⟩
  | compare v w =>
    have hcurrent : current = v := hcached v rfl
    subst hcurrent
    cases started with
    | true => cases (hunticked rfl).2.1
    | false =>
      dsimp only at hstep
      split at hstep
      · next heq =>
        cases hstep
        constructor
        · exact ⟨hsettled, hsame rfl rfl, hlooping, by simp, hnotYet, rfl, trivial⟩
        · show _ = Stage.next initial (.inState current) (.tick current) >>= pure
          rw [Stage.next, if_pos rfl]
          rfl
      · next hne =>
        cases hstep
        constructor
        · exact ⟨hsettled, hsame rfl rfl, hlooping, by simp, hnotYet, ⟨rfl, Ne.symm hne, rfl⟩,
            trivial⟩
        · show _ = Stage.next initial (.inState current) (.exit current ⟨w, current, false⟩) >>= pure
          rw [Stage.next, if_pos ⟨rfl, rfl⟩]
          rfl
  | inExit v w =>
    obtain ⟨rfl, hne, hdetails⟩ := htick
    cases hstep
    cases started with
    | true => cases (hunticked rfl).2.1
    | false =>
      exact ⟨⟨hsettled, hsame rfl rfl, hlooping, by simp, hnotYet, ⟨hne, hdetails⟩, trivial⟩, rfl⟩
  | storeCurrent w =>
    obtain ⟨hne, hdetails⟩ := htick
    cases hstep
    cases started with
    | true => cases (hunticked rfl).2.1
    | false =>
      constructor
      · exact ⟨hsettled, hsame rfl rfl, hlooping, by simp, hnotYet, rfl, trivial⟩
      · show _ = Stage.next initial (.between current w) (.entry w details) >>= pure
        rw [Stage.next, if_pos ⟨hne, rfl, hdetails⟩]
        rfl
  | inEntry w =>
    have hcurrent : w = current := htick
    subst hcurrent
    cases hstep
    cases started with
    | true => cases (hunticked rfl).2.1
    | false =>
      constructor
      · exact ⟨hsettled, hsame rfl rfl, hlooping, by simp, hnotYet, rfl, trivial⟩
      · show _ = Stage.next initial (.inState w) (.tick w) >>= pure
        rw [Stage.next, if_pos rfl]
        rfl
  | inTick w =>
    cases hstep
    cases started with
    | true => cases (hunticked rfl).2.1
    | false => exact ⟨⟨hsettled, hsame rfl rfl, hlooping, by simp, hnotYet, trivial, trivial⟩, rfl⟩
  | done => cases hstep

/-- `worker_on_stop()` moves. -/
theorem LifeInv.onStop [DecidableEq τ] (h : LifeInv initial l) {es : List (Callback τ)}
    (hstep : onStopStep l = some (l', es)) : LifeInv initial l' ∧
    l'.stage = l.stage.bind fun p => es.foldlM (Stage.next initial) p := by
  have hstop : l.stop ≠ .notYet := by
    intro hnotYet
    rw [onStopStep, hnotYet] at hstep
    cases hstep
  have hphase : l.machine.phase = .looping := by
    by_contra hne
    exact hstop (h.unlooped hne).2.2
  obtain ⟨threw, hpc⟩ := h.ended hstop
  have hresting : l.machine.tick.resting = true := h.resting (by rw [State.ticking, hphase, hpc])
  have hended : ∀ stop : StopPc τ, stop ≠ .notYet → ∃ threw, l.machine.loop.pc = .left threw :=
    fun _ _ => ⟨threw, hpc⟩
  have hstage := tickStage_of_resting hresting
  have hagrees := h.stop
  obtain ⟨⟨phase, loop, tick, current, requested, started, callers⟩, details, stop⟩ := l
  dsimp only at hphase hstop hended hresting hagrees
  subst hphase
  have hlooping : ∀ {P : Prop}, Phase.looping ≠ .looping → P := fun hne => absurd rfl hne
  have hkept : ∀ stop' : StopPc τ, stop'.Agrees current →
      LifeInv initial
        ⟨⟨.looping, loop, tick, current, requested, started, callers⟩, details, stop'⟩ :=
    fun stop' hstop' =>
      ⟨h.settled, h.resting, hlooping, h.unticked, hended stop', h.tick, hstop'⟩
  unfold onStopStep at hstep
  cases stop with
  | notYet => exact absurd rfl hstop
  | loadNew =>
    cases hstep
    refine ⟨hkept _ rfl, ?_⟩
    cases started <;> rfl
  | loadOld v =>
    have hv : v = current := hagrees
    subst hv
    cases hstep
    refine ⟨hkept _ rfl, ?_⟩
    cases started <;> rfl
  | lookUp d =>
    have hd : d = ⟨current, current, false⟩ := hagrees
    subst hd
    cases hstep
    refine ⟨hkept _ ⟨rfl, rfl⟩, ?_⟩
    cases started with
    | true => rfl
    | false =>
      show _ = (some (Life.tickStage _)).bind _
      rw [hstage]
      show _ = Stage.next initial (.inState current) (.exit current ⟨current, current, false⟩) >>= pure
      rw [Stage.next, if_pos ⟨rfl, rfl⟩]
      rfl
  | inExit v d =>
    cases hstep
    refine ⟨hkept _ trivial, ?_⟩
    cases started with
    | true => rfl
    | false =>
      show _ = Stage.next initial (.between current current) .stopped >>= pure
      rw [Stage.next, if_pos rfl]
      rfl
  | inStopped =>
    cases hstep
    refine ⟨hkept _ trivial, ?_⟩
    cases started <;> rfl
  | finished => cases hstep

/-- Where no callback is invoked, the place is kept. -/
theorem stage_bind_nil [DecidableEq τ] (p : Option (Stage τ)) :
    (p.bind fun p => ([] : List (Callback τ)).foldlM (Stage.next initial) p) = p :=
  Option.bind_fun_some p

theorem LifeInv.runs [DecidableEq τ] (h : LifeInv initial l) {a : Action τ} {m : State τ}
    (hm : Move l.machine a m) (hlaunch : a ≠ .launch) (htick : a ≠ .tick)
    (hquiet : nothingThrows l (.run a)) :
    LifeInv initial { l with machine := m } ∧ Life.stage { l with machine := m } = l.stage := by
  have hsettled := h.settled.step hm
  cases hm with
  | discards | calls | controls => exact h.frame hsettled rfl rfl rfl rfl rfl
  | launches => exact absurd rfl hlaunch
  | startReturns hphase =>
    have hne : l.machine.phase ≠ .looping := by
      rw [hphase]
      nofun
    obtain ⟨hinitial, hread, hstop⟩ := h.unlooped hne
    have hpc := h.settled.fresh hne
    constructor
    · refine ⟨hsettled, fun _ => ?_, fun hno => absurd rfl hno, fun _ => ⟨hinitial, ?_, ?_⟩,
        h.ended, h.tick, h.stop⟩
      · show l.machine.tick.resting = true
        rw [hread]
        rfl
      · show l.machine.tick.early = true
        rw [hread]
        rfl
      · show beforeTicked l.machine.loop.pc = true
        rw [hpc]
        rfl
    · simp only [Life.stage, hphase, hstop, StopPc.exited]
      rfl
  | startThrows => exact hquiet.elim
  | loops _ c pc es hphase hmove hthrows hreturns =>
    exact h.loop hphase hmove hthrows hreturns hsettled rfl
  | ticks => exact absurd rfl htick
  | throws => exact hquiet.elim

theorem LifeInv.step [DecidableEq τ] (h : LifeInv initial l) {a : LifeAction τ}
    {es : List (Callback τ)} (hm : LifeMove l a l' es) (hquiet : nothingThrows l a) :
    LifeInv initial l' ∧ l'.stage = l.stage.bind fun p => es.foldlM (Stage.next initial) p := by
  cases hm with
  | launches hphase =>
    have hne : l.machine.phase ≠ .looping := by
      rw [hphase]
      nofun
    have hsettled := h.settled.step (.launches hphase)
    constructor
    · exact ⟨hsettled, fun _ => by rw [(h.unlooped hne).2.1]; rfl, fun _ => h.unlooped hne,
        h.unticked, h.ended, h.tick, h.stop⟩
    · simp only [Life.stage, hphase]
      rfl
  | ticks m hticking hstep => exact h.ticks (h.settled.tick hticking hstep) hticking hstep
  | runs a m hlaunch htick hmove =>
    rw [stage_bind_nil]
    exact h.runs hmove hlaunch htick hquiet
  | storesStopped threw hpc hstop =>
    rw [stage_bind_nil]
    constructor
    · refine ⟨h.settled, h.resting, fun hne => ?_, h.unticked, fun _ => ⟨threw, hpc⟩, h.tick,
        trivial⟩
      have hcheck := h.settled.fresh hne
      rw [hpc] at hcheck
      cases hcheck
    · simp only [Life.stage, hstop]
      rfl
  | onStop l' es hstep => exact h.onStop hstep
  | onStopThrows => exact hquiet.elim

end Step

/-- **The callbacks follow the place of the run.** -/
theorem lifeInv [DecidableEq τ] {initial : τ} {interval : ℤ} {tr : List (Callback τ)} {l : Life τ}
    (h : (lifeSystem initial interval).Run nothingThrows tr l) :
    LifeInv initial l ∧ scan initial tr = l.stage := by
  refine Run.invariant (I := fun tr l => LifeInv initial l ∧ scan initial tr = l.stage) ?_ ?_ h
  · refine ⟨⟨?_, fun _ => rfl, fun _ => ⟨rfl, rfl, rfl⟩, nofun, fun hne => absurd rfl hne, trivial,
      trivial⟩, rfl⟩
    exact ⟨nofun, fun _ => nofun, nofun, fun _ => rfl⟩
  · intro tr l a l' es _ hquiet hstep ⟨ih, hscan⟩
    obtain ⟨hinv, hstage⟩ := ih.step (lifeStep_move hstep) hquiet
    refine ⟨hinv, ?_⟩
    rw [scan_append, hscan, hstage]

/-! ## The initial state is entered before it is left -/

/-- The loop finds the stop requested before its first tick. -/
def Life.leavesUnentered (l : Life τ) : LifeAction τ → Bool
  | .run (.loop _) => l.machine.loop.pc = .check ∧ l.machine.loop.control.stopRequested ∧
      l.machine.justStarted
  | _ => false

/-- No callback throws, and the loop does not find the stop requested before its first tick. -/
def entersFirst (l : Life τ) (a : LifeAction τ) : Prop :=
  nothingThrows l a ∧ l.leavesUnentered a = false

instance (l : Life τ) (a : LifeAction τ) : Decidable (nothingThrows l a) := by
  unfold nothingThrows
  split <;> infer_instance

instance (l : Life τ) (a : LifeAction τ) : Decidable (entersFirst l a) :=
  inferInstanceAs (Decidable (_ ∧ _))

/-- The loop is over, and `just_started` is as given. -/
def Life.Left (started : Bool) (l : Life τ) : Prop :=
  (∃ threw, l.machine.loop.pc = .left threw) ∧ l.machine.justStarted = started

section Left

variable {l l' : Life τ}

theorem tickStep_loop [DecidableEq τ] {s s' : State τ} (h : tickStep s = some s') :
    s'.loop = s.loop := by
  unfold tickStep at h
  split at h
  case h_3 | h_5 => split at h <;> cases h <;> rfl
  all_goals cases h <;> rfl

theorem onStopStep_machine {es : List (Callback τ)} (h : onStopStep l = some (l', es)) :
    l'.machine = l.machine := by
  unfold onStopStep at h
  split at h <;> cases h <;> rfl

theorem not_left_of_ticking {s : State τ} (h : s.ticking = true) (threw : Bool) :
    s.loop.pc ≠ .left threw := by
  intro hpc
  rw [State.ticking, hpc] at h
  cases hphase : s.phase <;> rw [hphase] at h <;> cases h

/-- Once the loop is over, `just_started` stays as it is. -/
theorem Life.Left.step [DecidableEq τ] {started : Bool} {initial : τ} {a : LifeAction τ}
    {es : List (Callback τ)} (h : l.Left started) (hinv : LifeInv initial l)
    (hm : LifeMove l a l' es) (hquiet : nothingThrows l a) : l'.Left started := by
  obtain ⟨⟨threw, hpc⟩, hstarted⟩ := h
  cases hm with
  | launches => exact ⟨⟨threw, hpc⟩, hstarted⟩
  | ticks m hticking => exact absurd hpc (not_left_of_ticking hticking threw)
  | runs a m hlaunch htick hmove =>
    cases hmove with
    | discards | calls | controls => exact ⟨⟨threw, hpc⟩, hstarted⟩
    | launches => exact absurd rfl hlaunch
    | startReturns hphase =>
      have hcheck := hinv.settled.fresh (by rw [hphase]; nofun)
      rw [hpc] at hcheck
      cases hcheck
    | startThrows | throws => exact hquiet.elim
    | loops _ c pc es _ hmove =>
      rw [hpc] at hmove
      cases hmove
    | ticks => exact absurd rfl htick
  | storesStopped => exact ⟨⟨threw, hpc⟩, hstarted⟩
  | onStop l' es hstep =>
    rw [Life.Left, onStopStep_machine hstep]
    exact ⟨⟨threw, hpc⟩, hstarted⟩
  | onStopThrows => exact hquiet.elim

/-- The loop ends after a first tick, unless it finds the stop requested before it. -/
theorem entered_step [DecidableEq τ] {initial : τ} {a : LifeAction τ} {es : List (Callback τ)}
    (hinv : LifeInv initial l) (hm : LifeMove l a l' es) (henters : entersFirst l a)
    {threw : Bool} (hpc' : l'.machine.loop.pc = .left threw)
    (hnot : ∀ threw, l.machine.loop.pc ≠ .left threw) : l'.machine.justStarted = false := by
  obtain ⟨hquiet, henters⟩ := henters
  cases hm with
  | launches | storesStopped => exact absurd hpc' (hnot threw)
  | ticks m hticking hstep =>
    rw [tickStep_loop hstep] at hpc'
    exact absurd hpc' (hnot threw)
  | runs a m hlaunch htick hmove =>
    cases hmove with
    | discards | calls | controls | startReturns => exact absurd hpc' (hnot threw)
    | launches => exact absurd rfl hlaunch
    | startThrows | throws => exact hquiet.elim
    | loops a c pc es _ hmove hthrows =>
      have hunticked := hinv.unticked
      obtain ⟨⟨phase, ⟨c₀, pc₀⟩, tick, current, requested, started, callers⟩, details, stop⟩ := l
      dsimp only at hmove hpc' hunticked ⊢
      subst hpc'
      cases hmove with
      | stop hstop => simpa [Life.leavesUnentered, hstop] using henters
      | tickThrows => exact absurd rfl hthrows
      | target n =>
        cases started with
        | true => cases (hunticked rfl).2.2
        | false => rfl
    | ticks => exact absurd rfl htick
  | onStop l' es hstep =>
    rw [onStopStep_machine hstep] at hpc'
    exact absurd hpc' (hnot threw)
  | onStopThrows => exact hquiet.elim

end Left

/-- Before the exit callbacks of `worker_on_stop()` the callbacks are paired. -/
theorem stage_isSome {l : Life τ} (h : l.stop.exited = false) : l.stage.isSome = true := by
  unfold Life.stage
  split
  · rfl
  · rfl
  · rfl
  · rw [h]
    split
    · rfl
    · split <;> rfl

variable [DecidableEq τ] {initial : τ} {interval : ℤ}

theorem entered {tr : List (Callback τ)} {l : Life τ}
    (h : (lifeSystem initial interval).Run entersFirst tr l) {threw : Bool}
    (hpc : l.machine.loop.pc = .left threw) : l.machine.justStarted = false := by
  refine Run.invariant (I := fun _ l => ∀ threw, l.machine.loop.pc = .left threw →
    l.machine.justStarted = false) ?_ ?_ h threw hpc
  · intro threw hpc
    cases hpc
  · intro tr l a l' es hrun henters hstep ih threw hpc'
    have hinv := (lifeInv (hrun.mono fun _ _ h => h.1)).1
    have hm := lifeStep_move hstep
    by_cases hleft : ∃ threw, l.machine.loop.pc = .left threw
    · obtain ⟨threw₀, hpc₀⟩ := hleft
      exact (Life.Left.step ⟨⟨threw₀, hpc₀⟩, ih threw₀ hpc₀⟩ hinv hm henters.1).2
    · exact entered_step hinv hm henters hpc' fun threw hpc => hleft ⟨threw, hpc⟩

/-- From the exit callbacks of `worker_on_stop()` on they are paired exactly when the first tick has been made. -/
theorem scan_isSome_iff {tr : List (Callback τ)} {l : Life τ}
    (h : (lifeSystem initial interval).Run nothingThrows tr l) (hexited : l.stop.exited = true) :
    (scan initial tr).isSome = true ↔ l.machine.justStarted = false := by
  obtain ⟨hinv, hscan⟩ := lifeInv h
  have hphase : l.machine.phase = .looping := by
    by_contra hne
    rw [(hinv.unlooped hne).2.2] at hexited
    cases hexited
  rw [hscan, Life.stage, hphase]
  cases hstarted : l.machine.justStarted with
  | true => simp [hexited]
  | false => cases hstop : l.stop <;> simp

/-- The callbacks of a run that enters its initial state are paired, and complete at its end. -/
theorem paired {tr : List (Callback τ)} {l : Life τ}
    (h : (lifeSystem initial interval).Run entersFirst tr l) :
    ∃ p, scan initial tr = some p ∧ (l.stop = .finished → p = .stopped) := by
  have hquiet : (lifeSystem initial interval).Run nothingThrows tr l := h.mono fun _ _ h => h.1
  obtain ⟨hinv, hscan⟩ := lifeInv hquiet
  cases hexited : l.stop.exited with
  | false =>
    obtain ⟨p, hp⟩ := Option.isSome_iff_exists.mp (stage_isSome hexited)
    refine ⟨p, hscan.trans hp, fun hfinished => ?_⟩
    rw [hfinished] at hexited
    cases hexited
  | true =>
    have hstop : l.stop ≠ .notYet := by
      intro hnotYet
      rw [hnotYet] at hexited
      cases hexited
    obtain ⟨threw, hpc⟩ := hinv.ended hstop
    have hstarted := entered h hpc
    obtain ⟨p, hp⟩ := Option.isSome_iff_exists.mp ((scan_isSome_iff hquiet hexited).mpr hstarted)
    refine ⟨p, hp, fun hfinished => ?_⟩
    have hphase : l.machine.phase = .looping := by
      by_contra hne
      exact hstop (hinv.unlooped hne).2.2
    rw [hscan, Life.stage, hphase, hstarted, hfinished] at hp
    exact (Option.some.inj hp).symm

/-- A loop that finds the stop requested before its first tick is over with `just_started` set. -/
theorem left_of_leavesUnentered {l l₁ : Life τ} {a : LifeAction τ} {es : List (Callback τ)}
    (h : l.leavesUnentered a = true) (hm : LifeMove l a l₁ es) : l₁.Left true := by
  cases hm with
  | runs a m hlaunch htick hmove =>
    cases hmove with
    | loops a c pc les _ hmove =>
      obtain ⟨⟨phase, ⟨c₀, pc₀⟩, tick, current, requested, started, callers⟩, details, stop⟩ := l
      simp only [Life.leavesUnentered, decide_eq_true_eq] at h
      obtain ⟨rfl, hrequested, rfl⟩ := h
      cases hmove with
      | stop => exact ⟨⟨false, rfl⟩, rfl⟩
      | goOn hno =>
        rw [hrequested] at hno
        cases hno
    | calls a c requested callers ha | controls a c ha =>
      cases a with
      | loop => cases ha
      | _ => cases h
    | _ => cases h
  | _ => cases h

/-- Its initial state is left without having been entered. -/
theorem unpaired {tr tr₂ : List (Callback τ)} {l l₂ : Life τ}
    (h : (lifeSystem initial interval).Run nothingThrows tr l) (hleft : l.Left true)
    (hrest : (lifeSystem initial interval).RunFrom nothingThrows l tr₂ l₂)
    (hexited : l₂.stop.exited = true) : scan initial (tr ++ tr₂) = none := by
  have hleft₂ : l₂.Left true := by
    refine (hrest.invariant (I := fun tr' l => (lifeSystem initial interval).Run nothingThrows
      (tr ++ tr') l ∧ l.Left true) ⟨by simpa using h, hleft⟩ ?_).2
    intro tr' t b u es _ hb hst ih
    refine ⟨?_, ih.2.step (lifeInv ih.1).1 (lifeStep_move hst) hb⟩
    rw [← List.append_assoc]
    exact RunFrom.snoc ih.1 hb hst
  have hnone := (not_congr (scan_isSome_iff (h.append hrest) hexited)).mpr
    (by rw [hleft₂.2]; nofun)
  simpa using hnone

/-- **Entries and exits are paired as long as the loop does not find the stop requested before its
first tick**, and only then.  The callbacks of a run that meets the condition are the started
callback, the entry of the initial state, ticks of the current state, exits followed by the
entry of the next state, and at the end the exit of the last state and the stopped
callback; a state that is left has been entered and not left since.  In a run with a step
that does not meet it, the callbacks are not paired from the exit callbacks of
`worker_on_stop()` on. -/
theorem entries_paired (initial : τ) (interval : ℤ) :
    (∀ tr l, (lifeSystem initial interval).Run entersFirst tr l →
      (∃ p, scan initial tr = some p ∧ (l.stop = .finished → p = .stopped)) ∧
      ∀ tr₁ state details tr₂, tr = tr₁ ++ .exit state details :: tr₂ →
        tr₁.countP (Callback.enters state) = tr₁.countP (Callback.exits state) + 1) ∧
    (∀ tr l a l₁ es tr₂ l₂, (lifeSystem initial interval).Run nothingThrows tr l →
      (lifeSystem initial interval).step l a = some (l₁, es) → nothingThrows l a →
      ¬ entersFirst l a → (lifeSystem initial interval).RunFrom nothingThrows l₁ tr₂ l₂ →
      l₂.stop.exited = true → scan initial (tr ++ es ++ tr₂) = none) := by
  constructor
  · intro tr l hrun
    refine ⟨paired hrun, fun tr₁ state details tr₂ htr => ?_⟩
    obtain ⟨p, hp, -⟩ := paired hrun
    exact enters_of_exit hp htr
  · intro tr l a l₁ es tr₂ l₂ hrun hstep hquiet hnot hrest hexited
    have hleaves : l.leavesUnentered a = true := by
      by_contra hno
      exact hnot ⟨hquiet, by simpa using hno⟩
    exact unpaired (RunFrom.snoc hrun hquiet hstep)
      (left_of_leavesUnentered hleaves (lifeStep_move hstep)) hrest hexited

/-- The stop is requested by the started callback. -/
def stoppedAtOnce : List (LifeAction Bool) :=
  [.run .launch, .run .storeStop, .run .notify, .run .onStartReturns, .run (.loop .proceed),
   .storeStopped, .onStop, .onStop, .onStop, .onStop, .onStop]

/-- The state is set by the first tick, and the stop requested by the second. -/
def stoppedLater : List (LifeAction Bool) :=
  [.run .launch, .run .onStartReturns, .run (.loop .proceed), .run (.loop .proceed),
   .run (.loop .proceed), .run .tick, .run .tick, .run .tick, .run .tick, .run .tick,
   .run (.setState 0 true), .run (.setStateNotifies 0), .run .tick, .run (.loop .tickReturns),
   .run (.loop .proceed), .run (.loop (.measure 0)), .run (.loop .acquire), .run (.loop .proceed),
   .run (.loop .proceed), .run (.loop .proceed), .run (.loop .proceed), .run .tick, .run .tick,
   .run .tick, .run .tick, .run .tick, .run .tick, .run .tick, .run .storeStop, .run .notify,
   .run .tick, .run (.loop .tickReturns), .run (.loop .proceed), .run (.loop (.measure 0)),
   .run (.loop .acquire), .run (.loop .proceed), .run (.loop .proceed), .storeStopped, .onStop,
   .onStop, .onStop, .onStop, .onStop]

/-- A machine whose started callback requests the stop exits a state that was not entered. -/
theorem exits_unentered : ∃ tr l, (lifeSystem false 10).Run nothingThrows tr l ∧
    tr = [.started, .exit false ⟨false, false, false⟩, .stopped] ∧ l.stop = .finished ∧
    scan false tr = none := by
  have hexec : (lifeSystem false 10).exec stoppedAtOnce = some
      (⟨⟨.looping, ⟨⟨true, 0, maxIterationCount, 10, oneToken⟩,
        .left false⟩, .readCurrent, false, false,
        true, fun _ => .idle⟩, ⟨false, false, false⟩, .finished⟩,
       [.started, .exit false ⟨false, false, false⟩, .stopped]) := rfl
  exact ⟨_, _, runFrom_of_execFrom (by decide +kernel) hexec, rfl, rfl, by decide +kernel⟩

theorem entries_paired_stoppedLater : (∃ tr l, (lifeSystem false 10).Run entersFirst tr l ∧
    l.stop = .finished ∧ scan false tr = some .stopped) ∧
    scan false ([.started] ++ [] ++ [.exit false ⟨false, false, false⟩]) = none := by
  have hlater : (lifeSystem false 10).exec stoppedLater = some
      (⟨⟨.looping, ⟨⟨true, 2, maxIterationCount, 10, noTokens⟩,
        .left false⟩, .done, true, true, false,
        Function.update (Function.update (fun _ => .idle) 0 .stored) 0 .idle⟩,
        ⟨true, false, false⟩, .finished⟩,
       [.started, .entry false ⟨false, false, false⟩, .tick false, .exit false ⟨true, false, false⟩,
        .entry true ⟨true, false, false⟩, .tick true, .exit true ⟨true, true, false⟩,
        .stopped]) := rfl
  have hatOnce : (lifeSystem false 10).exec (stoppedAtOnce.take 4) = some
      (⟨⟨.looping, ⟨⟨true, 0, maxIterationCount, 10, oneToken⟩,
        .check⟩, .readCurrent, false, false, true,
        fun _ => .idle⟩, ⟨false, false, false⟩, .notYet⟩, [.started]) := rfl
  have hstep : (lifeSystem false 10).step
      ⟨⟨.looping, ⟨⟨true, 0, maxIterationCount, 10, oneToken⟩,
        .check⟩, .readCurrent, false, false, true,
        fun _ => .idle⟩, ⟨false, false, false⟩, .notYet⟩ (.run (.loop .proceed)) = some
      (⟨⟨.looping, ⟨⟨true, 0, maxIterationCount, 10, oneToken⟩,
        .left false⟩, .readCurrent, false, false,
        true, fun _ => .idle⟩, ⟨false, false, false⟩, .notYet⟩, []) := rfl
  have hrest : (lifeSystem false 10).execFrom
      ⟨⟨.looping, ⟨⟨true, 0, maxIterationCount, 10, oneToken⟩,
        .left false⟩, .readCurrent, false, false,
        true, fun _ => .idle⟩, ⟨false, false, false⟩, .notYet⟩
      [.storeStopped, .onStop, .onStop, .onStop] = some
      (⟨⟨.looping, ⟨⟨true, 0, maxIterationCount, 10, oneToken⟩,
        .left false⟩, .readCurrent, false, false,
        true, fun _ => .idle⟩, ⟨false, false, false⟩,
        .inExit false ⟨false, false, false⟩⟩, [.exit false ⟨false, false, false⟩]) := rfl
  have hrun := runFrom_of_execFrom (C := entersFirst) (by decide +kernel) hlater
  obtain ⟨hpaired, hunpaired⟩ := entries_paired false 10
  obtain ⟨⟨p, hp, hstopped⟩, -⟩ := hpaired _ _ hrun
  refine ⟨⟨_, _, hrun, rfl, by rw [hp, hstopped rfl]⟩, ?_⟩
  exact hunpaired _ _ _ _ _ _ _ (runFrom_of_execFrom (by decide +kernel) hatOnce) hstep
    (by decide +kernel) (by decide +kernel) (runFrom_of_execFrom (by decide +kernel) hrest) rfl

end StateMachine
