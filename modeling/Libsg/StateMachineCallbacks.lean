/-
# The callbacks of a state, one by one

A state has vectors of callbacks, and `tick_action()` and `worker_on_stop()` invoke those
of a state one after the other, in the order in which they were added; between two of
them, and inside of each, every caller may come.  `Calls` is a life whose groups of
callbacks are taken apart like this: a group is over when every callback of it has
returned, and throws when one of them does or when `at()` finds no state.

`ticksTrace` says what a sequence of ticks shows, given the values they have read; what
a run has shown, and what its tick has still to show, is such a trace (`TraceInv`).
-/
import Libsg.StateMachineLife

open TransitionSystem Worker

namespace StateMachine

variable {τ ι : Type}

/-! ## The model -/

/-- `state_config`, with the callbacks in the order in which they were added. -/
structure StateConfig (ι : Type) where
  ticks : List ι
  entryCbs : List ι
  exitCbs : List ι

/-- What the worker thread does for the user of the machine. -/
inductive CallEvent (τ ι : Type)
  | started
  /-- `tick_action()` has loaded `m_requested_state`. -/
  | reads (requested : τ)
  /-- The entry callbacks of the state are next. -/
  | enters (state : τ)
  | entry (cb : ι) (state : τ) (details : StateChangeDetails τ)
  | exit (cb : ι) (state : τ) (details : StateChangeDetails τ)
  | tick (cb : ι) (state : τ)
  /-- `at()` throws. -/
  | outOfRange (state : τ)
  | stopped
  deriving DecidableEq, Repr

/-- A loop over callbacks. -/
inductive Group (τ : Type)
  | entry (state : τ) (details : StateChangeDetails τ)
  | exit (state : τ) (details : StateChangeDetails τ)
  | tick (state : τ)
  deriving DecidableEq, Repr

structure Calls (τ ι : Type) where
  life : Life τ
  /-- The callbacks that the loop has still to invoke; `none` when `at()` throws. -/
  rest : Option (List ι)
  /-- A callback has been invoked and has not returned. -/
  calling : Bool

inductive CallAction (τ : Type)
  | life (a : LifeAction τ)
  | invoke
  | returns

def TickPc.group (details : StateChangeDetails τ) : TickPc τ → Option (Group τ)
  | .inFirstEntry current _ => some (.entry current details)
  | .inExit current _ => some (.exit current details)
  | .inEntry requested => some (.entry requested details)
  | .inTick current => some (.tick current)
  | _ => none

def StopPc.group : StopPc τ → Option (Group τ)
  | .inExit state details => some (.exit state details)
  | _ => none

/-- The loop over callbacks in which the worker thread is. -/
def Life.group (l : Life τ) : Option (Group τ) :=
  if l.machine.ticking then l.machine.tick.group l.details else l.stop.group

def Group.state : Group τ → τ
  | .entry state _ | .exit state _ | .tick state => state

/-- The callbacks that the loop is over, looked up in `m_states`. -/
def Group.cbs (states : τ → Option (StateConfig ι)) : Group τ → Option (List ι)
  | .entry state _ => (states state).map StateConfig.entryCbs
  | .exit state _ => (states state).map StateConfig.exitCbs
  | .tick state => (states state).map StateConfig.ticks

def Group.invokes (cb : ι) : Group τ → CallEvent τ ι
  | .entry state details => .entry cb state details
  | .exit state details => .exit cb state details
  | .tick state => .tick cb state

/-- What the lookup shows. -/
def Group.looksUp (states : τ → Option (StateConfig ι)) (g : Group τ) : List (CallEvent τ ι) :=
  match states g.state, g with
  | none, g => [.outOfRange g.state]
  | some _, .entry state _ => [.enters state]
  | some _, _ => []

def Life.cbs (states : τ → Option (StateConfig ι)) (l : Life τ) : Option (List ι) :=
  match l.group with
  | some g => g.cbs states
  | none => some []

def Life.looksUp (states : τ → Option (StateConfig ι)) (l : Life τ) : List (CallEvent τ ι) :=
  match l.group with
  | some g => g.looksUp states
  | none => []

/-- What a step of `tick_action()` loads. -/
def TickPc.reads (requested : τ) : TickPc τ → List (CallEvent τ ι)
  | .readRequested _ => [.reads requested]
  | _ => []

/-- The callbacks of the machine itself. -/
def Callback.shows : Callback τ → Option (CallEvent τ ι)
  | .started => some .started
  | .stopped => some .stopped
  | _ => none

/-- Whether the loop over callbacks lets a step be made: it is over before the next statement, and
only a callback that has been invoked, or `at()`, throws. -/
def Calls.allows (c : Calls τ ι) : LifeAction τ → Bool
  | .run .tick | .onStop =>
    c.life.group.isNone || (match c.rest with | some [] => !c.calling | _ => false)
  | .run .throw => c.calling || c.rest.isNone
  | .onStopThrows => match c.life.stop with
    | .inExit _ _ => c.calling || c.rest.isNone
    | .inStopped => true
    | _ => false
  | _ => true

def callsStep [DecidableEq τ] (states : τ → Option (StateConfig ι)) (c : Calls τ ι) :
    CallAction τ → Option (Calls τ ι × List (CallEvent τ ι))
  | .life (.run .tick) =>
    if c.allows (.run .tick) then
      (lifeStep c.life (.run .tick)).map fun (l, _) =>
        (⟨l, l.cbs states, false⟩,
          c.life.machine.tick.reads c.life.machine.requestedState ++ l.looksUp states)
    else none
  | .life .onStop =>
    if c.allows .onStop then
      (lifeStep c.life .onStop).map fun (l, es) =>
        (⟨l, l.cbs states, false⟩, l.looksUp states ++ es.filterMap Callback.shows)
    else none
  | .life a =>
    if c.allows a then
      (lifeStep c.life a).map fun (l, es) =>
        (⟨l, c.rest, match a with | .run .throw | .onStopThrows => false | _ => c.calling⟩,
          es.filterMap Callback.shows)
    else none
  | .invoke =>
    match c.life.group, c.rest, c.calling with
    | some g, some (cb :: rest), false => some ({ c with rest := some rest, calling := true },
        [g.invokes cb])
    | _, _, _ => none
  | .returns => if c.calling then some ({ c with calling := false }, []) else none

/-- The life of a machine with these states, started in the state `initial`. -/
def callsSystem [DecidableEq τ] (states : τ → Option (StateConfig ι)) (initial : τ) (interval : ℤ) :
    TransitionSystem (Calls τ ι) (CallAction τ) (CallEvent τ ι) where
  start := ⟨(lifeSystem initial interval).start, some [], false⟩
  step := callsStep states

/-! ## What one step does -/

/-- One step, with what it has checked. -/
inductive CallsMove [DecidableEq τ] (states : τ → Option (StateConfig ι)) (c : Calls τ ι) :
    CallAction τ → Calls τ ι → List (CallEvent τ ι) → Prop
  | ticks (l : Life τ) (es : List (Callback τ)) (hallows : c.allows (.run .tick) = true)
      (hstep : lifeStep c.life (.run .tick) = some (l, es)) :
      CallsMove states c (.life (.run .tick)) ⟨l, l.cbs states, false⟩
        (c.life.machine.tick.reads c.life.machine.requestedState ++ l.looksUp states)
  | onStop (l : Life τ) (es : List (Callback τ)) (hallows : c.allows .onStop = true)
      (hstep : lifeStep c.life .onStop = some (l, es)) :
      CallsMove states c (.life .onStop) ⟨l, l.cbs states, false⟩
        (l.looksUp states ++ es.filterMap Callback.shows)
  | throws (a : LifeAction τ) (l : Life τ) (es : List (Callback τ)) (hallows : c.allows a = true)
      (ha : a = .run .throw ∨ a = .onStopThrows) (hstep : lifeStep c.life a = some (l, es)) :
      CallsMove states c (.life a) ⟨l, c.rest, false⟩ (es.filterMap Callback.shows)
  | lives (a : LifeAction τ) (l : Life τ) (es : List (Callback τ)) (htick : a ≠ .run .tick)
      (hstop : a ≠ .onStop) (hthrow : a ≠ .run .throw) (hthrows : a ≠ .onStopThrows)
      (hstep : lifeStep c.life a = some (l, es)) :
      CallsMove states c (.life a) { c with life := l } (es.filterMap Callback.shows)
  | invokes (g : Group τ) (cb : ι) (rest : List ι) (hgroup : c.life.group = some g)
      (hrest : c.rest = some (cb :: rest)) (hcalling : c.calling = false) :
      CallsMove states c .invoke { c with rest := some rest, calling := true } [g.invokes cb]
  | returns (hcalling : c.calling = true) : CallsMove states c .returns { c with calling := false } []

theorem callsStep_move [DecidableEq τ] {states : τ → Option (StateConfig ι)} {c c' : Calls τ ι}
    {a : CallAction τ} {es : List (CallEvent τ ι)} (h : callsStep states c a = some (c', es)) :
    CallsMove states c a c' es := by
  unfold callsStep at h
  split at h
  · split at h
    · next hallows =>
      obtain ⟨⟨l, les⟩, hstep, heq⟩ := Option.map_eq_some_iff.mp h
      cases heq
      exact .ticks l les hallows hstep
    · cases h
  · split at h
    · next hallows =>
      obtain ⟨⟨l, les⟩, hstep, heq⟩ := Option.map_eq_some_iff.mp h
      cases heq
      exact .onStop l les hallows hstep
    · cases h
  · next a htick hstop =>
    split at h
    · next hallows =>
      obtain ⟨⟨l, les⟩, hstep, heq⟩ := Option.map_eq_some_iff.mp h
      dsimp only at heq
      split at heq
      · cases heq
        exact .throws _ l les hallows (.inl rfl) hstep
      · cases heq
        exact .throws _ l les hallows (.inr rfl) hstep
      · next hthrow hthrows =>
        cases heq
        exact .lives a l les htick hstop hthrow hthrows hstep
    · cases h
  · split at h
    · next hgroup hrest hcalling =>
      cases h
      exact .invokes _ _ _ hgroup hrest hcalling
    · cases h
  · split at h
    · next hcalling =>
      cases h
      exact .returns hcalling
    · cases h

/-! ## What a sequence of ticks shows -/

section Trace

variable (states : τ → Option (StateConfig ι))

def entryTrace (state : τ) (details : StateChangeDetails τ) : List (CallEvent τ ι) :=
  .enters state :: ((states state).elim [] StateConfig.entryCbs).map (.entry · state details)

def exitTrace (state : τ) (details : StateChangeDetails τ) : List (CallEvent τ ι) :=
  ((states state).elim [] StateConfig.exitCbs).map (.exit · state details)

def tickTrace (state : τ) : List (CallEvent τ ι) :=
  ((states state).elim [] StateConfig.ticks).map (.tick · state)

variable [DecidableEq τ]

/-- A transition: nothing where the states are the same, else all exit callbacks of the one and all
entry callbacks of the other, with the same details. -/
def changeTrace (oldState newState : τ) : List (CallEvent τ ι) :=
  if oldState = newState then []
  else exitTrace states oldState ⟨newState, oldState, false⟩ ++
    entryTrace states newState ⟨newState, oldState, false⟩

/-- A call of `tick_action()` in the state `current` that reads the request `requested`. -/
def actionTrace (first : Bool) (current requested : τ) : List (CallEvent τ ι) :=
  .reads requested :: ((if first then entryTrace states current ⟨current, current, false⟩ else []) ++
    changeTrace states current requested ++ tickTrace states requested)

/-- Calls of `tick_action()`, one after the other, that read these requests. -/
def ticksTrace (first : Bool) (current : τ) : List τ → List (CallEvent τ ι)
  | [] => []
  | requested :: later =>
    actionTrace states first current requested ++ ticksTrace false requested later

theorem ticksTrace_snoc (first : Bool) (current requested : τ) (before : List τ) :
    ticksTrace states first current (before ++ [requested]) =
      ticksTrace states first current before ++
        actionTrace states (first && before.isEmpty) (before.getLastD current) requested := by
  induction before generalizing first current with
  | nil => simp [ticksTrace]
  | cons v before ih =>
    rw [List.cons_append, ticksTrace, ticksTrace, ih, List.append_assoc, List.getLastD_cons]
    simp only [List.isEmpty_cons, Bool.and_false, Bool.false_and]

/-- What the tick in progress has still to show. -/
def TickPc.remaining (details : StateChangeDetails τ) (rest : List ι) (justStarted : Bool) :
    TickPc τ → List (CallEvent τ ι)
  | .readCurrent | .readRequested _ | .done => []
  | .exchangeStarted current requested =>
    (if justStarted then entryTrace states current ⟨current, current, false⟩ else []) ++
      changeTrace states current requested ++ tickTrace states requested
  | .inFirstEntry current requested =>
    rest.map (.entry · current details) ++ changeTrace states current requested ++
      tickTrace states requested
  | .compare current requested => changeTrace states current requested ++ tickTrace states requested
  | .inExit current requested =>
    rest.map (.exit · current details) ++ entryTrace states requested details ++
      tickTrace states requested
  | .storeCurrent requested => entryTrace states requested details ++ tickTrace states requested
  | .inEntry requested => rest.map (.entry · requested details) ++ tickTrace states requested
  | .inTick current => rest.map (.tick · current)

def Calls.remaining (c : Calls τ ι) : List (CallEvent τ ι) :=
  c.life.machine.tick.remaining states c.life.details (c.rest.getD []) c.life.machine.justStarted

/-- The requests that ticks have read. -/
def requestsRead (tr : List (CallEvent τ ι)) : List τ :=
  tr.filterMap fun
    | .reads requested => some requested
    | _ => none

/-- The state in which the tick in progress will leave the machine. -/
def TickPc.target (current : τ) : TickPc τ → τ
  | .exchangeStarted _ requested | .inFirstEntry _ requested | .compare _ requested
  | .inExit _ requested | .storeCurrent requested => requested
  | _ => current

end Trace

/-! ## Runs in which nothing throws -/

/-- A state that is set has been added. -/
def LifeAction.known (states : τ → Option (StateConfig ι)) : LifeAction τ → Bool
  | .run (.setState _ state) => (states state).isSome
  | _ => true

/-- No callback throws, and every state that is set has been added. -/
def steady (states : τ → Option (StateConfig ι)) (c : Calls τ ι) : CallAction τ → Prop
  | .life a => nothingThrows c.life a ∧ a.known states = true
  | _ => True

instance (states : τ → Option (StateConfig ι)) (c : Calls τ ι) (a : CallAction τ) :
    Decidable (steady states c a) := by
  cases a <;> unfold steady <;> infer_instance

/-- Whether no tick has read a request yet, where `tick_action()` has not found out. -/
def State.First (read : List τ) (s : State τ) : Prop :=
  match s.tick with
  | .exchangeStarted _ _ => read ≠ []
  | _ => s.justStarted = read.isEmpty

/-- What holds of a run in which nothing throws. -/
structure TraceInv [DecidableEq τ] (states : τ → Option (StateConfig ι)) (initial : τ)
    (tr : List (CallEvent τ ι)) (c : Calls τ ι) : Prop where
  life : LifeInv initial c.life
  current : (states c.life.machine.currentState).isSome = true
  requested : (states c.life.machine.requestedState).isSome = true
  seen : ∀ v, c.life.machine.tick.seen c.life.machine.currentState = some v →
    (states v).isSome = true
  found : ∀ g, c.life.group = some g → c.rest.isSome = true
  fresh : c.life.machine.phase ≠ .looping → requestsRead tr = []
  first : c.life.machine.phase = .looping → c.life.machine.First (requestsRead tr)
  target : (requestsRead tr).getLastD initial =
    c.life.machine.tick.target c.life.machine.currentState
  trace : c.life.stop = .notYet → tr ++ c.remaining states = match c.life.machine.phase with
    | .starting => []
    | _ => .started :: ticksTrace states true initial (requestsRead tr)

section Lookups

variable {states : τ → Option (StateConfig ι)} {initial : τ} {c : Calls τ ι}

theorem requestsRead_append (tr es : List (CallEvent τ ι)) :
    requestsRead (tr ++ es) = requestsRead tr ++ requestsRead es :=
  List.filterMap_append

theorem looping_of_ticking {s : State τ} (h : s.ticking = true) : s.phase = .looping := by
  by_contra hne
  rw [ticking_of_phase hne] at h
  cases h

/-- The callbacks a worker thread is at belong to the current state. -/
theorem group_state {l : Life τ} (h : LifeInv initial l) {g : Group τ} (hgroup : l.group = some g) :
    g.state = l.machine.currentState := by
  have hagrees := h.tick
  have hcached := h.settled.cached
  have hstop := h.stop
  unfold Life.group at hgroup
  split at hgroup
  · cases htick : l.machine.tick <;> rw [htick] at hgroup hagrees hcached <;> cases hgroup
    · exact (hcached _ rfl).symm
    · exact hagrees.1
    · exact hagrees
    · exact hagrees
  · cases hplace : l.stop <;> rw [hplace] at hgroup hstop <;> cases hgroup
    exact hstop.1

/-- The callbacks of a state that has been added are found. -/
theorem cbs_isSome {l : Life τ} (h : LifeInv initial l)
    (hcurrent : (states l.machine.currentState).isSome = true) : (l.cbs states).isSome = true := by
  unfold Life.cbs
  cases hgroup : l.group with
  | none => rfl
  | some g =>
    have hstate : (states g.state).isSome = true := by rwa [group_state h hgroup]
    cases g <;> exact Option.isSome_map.trans hstate

/-- The loop over the callbacks is over when `tick_action()` goes on. -/
theorem rest_of_allows {a : LifeAction τ} (ha : a = .run .tick ∨ a = .onStop)
    (hallows : c.allows a = true) {g : Group τ} (hgroup : c.life.group = some g) :
    c.rest = some [] ∧ c.calling = false := by
  have hdone : (match c.rest with | some [] => !c.calling | _ => false) = true := by
    rcases ha with rfl | rfl
    · simpa [Calls.allows, hgroup] using hallows
    · simpa [Calls.allows, hgroup] using hallows
  split at hdone
  · next hrest => exact ⟨hrest, by simpa using hdone⟩
  · cases hdone

/-- What is shown when the callbacks of a state are looked up. -/
theorem looksUp_entry {state : τ} (details : StateChangeDetails τ)
    (h : (states state).isSome = true) :
    (Group.entry state details).looksUp states = [.enters state] ∧
      ((Group.entry state details).cbs states).getD [] =
        (states state).elim [] StateConfig.entryCbs := by
  obtain ⟨config, hconfig⟩ := Option.isSome_iff_exists.mp h
  simp [Group.looksUp, Group.cbs, Group.state, hconfig]

theorem looksUp_exit {state : τ} (details : StateChangeDetails τ)
    (h : (states state).isSome = true) :
    (Group.exit state details).looksUp states = [] ∧
      ((Group.exit state details).cbs states).getD [] =
        (states state).elim [] StateConfig.exitCbs := by
  obtain ⟨config, hconfig⟩ := Option.isSome_iff_exists.mp h
  simp [Group.looksUp, Group.cbs, Group.state, hconfig]

theorem looksUp_tick {state : τ} (h : (states state).isSome = true) :
    (Group.tick state).looksUp states = [] ∧
      ((Group.tick state).cbs states).getD [] = (states state).elim [] StateConfig.ticks := by
  obtain ⟨config, hconfig⟩ := Option.isSome_iff_exists.mp h
  simp [Group.looksUp, Group.cbs, Group.state, hconfig]

theorem requestsRead_looksUp (states : τ → Option (StateConfig ι)) (l : Life τ) :
    requestsRead (l.looksUp states) = [] := by
  unfold Life.looksUp
  split
  · next g hgroup =>
    unfold Group.looksUp
    split <;> rfl
  · rfl

/-- Between ticks there is nothing to show, and the machine is in the state of the last one. -/
theorem TickPc.resting_cases {tick : TickPc τ} (h : tick.resting = true) :
    tick = .readCurrent ∨ tick = .done := by
  cases tick with
  | readCurrent => exact .inl rfl
  | done => exact .inr rfl
  | _ => cases h

theorem requestsRead_shows (es : List (Callback τ)) :
    requestsRead (es.filterMap Callback.shows : List (CallEvent τ ι)) = [] := by
  rw [requestsRead, List.filterMap_filterMap, List.filterMap_eq_nil_iff]
  intro e _
  cases e <;> rfl

end Lookups

section Step

variable [DecidableEq τ] {states : τ → Option (StateConfig ι)} {initial : τ}
  {c c' : Calls τ ι} {tr es : List (CallEvent τ ι)}

/-- While `tick_action()` runs the loop is not over. -/
theorem notYet_of_ticking {l : Life τ} (h : LifeInv initial l) (hticking : l.machine.ticking = true) :
    l.stop = .notYet := by
  by_contra hne
  obtain ⟨threw, hpc⟩ := h.ended hne
  exact not_left_of_ticking hticking threw hpc

/-- A callback of the group returns, or one is invoked. -/
theorem TraceInv.invokes (h : TraceInv states initial tr c) {g : Group τ} {cb : ι} {rest : List ι}
    (hgroup : c.life.group = some g) (hrest : c.rest = some (cb :: rest)) :
    TraceInv states initial (tr ++ [g.invokes cb]) { c with rest := some rest, calling := true } := by
  have hsame : requestsRead (tr ++ [g.invokes cb]) = requestsRead tr := by
    rw [requestsRead_append]
    cases g <;> exact List.append_nil _
  refine ⟨h.life, h.current, h.requested, h.seen, fun _ _ => rfl, ?_, ?_, ?_, fun hstop => ?_⟩
  · rw [hsame]
    exact h.fresh
  · rw [hsame]
    exact h.first
  · rw [hsame]
    exact h.target
  · rw [hsame, ← h.trace hstop, List.append_assoc]
    congr 1
    unfold Life.group at hgroup
    rw [hstop] at hgroup
    split at hgroup
    · unfold Calls.remaining
      rw [hrest]
      dsimp only
      cases htick : c.life.machine.tick <;> rw [htick] at hgroup <;> cases hgroup <;> rfl
    · cases hgroup

theorem tickStep_ticking {s s' : State τ} (h : tickStep s = some s') : s'.ticking = s.ticking := by
  have hloop := tickStep_loop h
  have hphase : s'.phase = s.phase := by
    unfold tickStep at h
    split at h
    case h_3 | h_5 => split at h <;> cases h <;> rfl
    all_goals cases h <;> rfl
  rw [State.ticking, State.ticking, hphase, hloop]

/-- Past its load of the request, what a step of `tick_action()` shows is what there was to show. -/
theorem remaining_ticks (h : TraceInv states initial tr c) {l : Life τ} {les : List (Callback τ)}
    (hallows : c.allows (.run .tick) = true) (hstep : lifeStep c.life (.run .tick) = some (l, les))
    (hread : ∀ v, c.life.machine.tick ≠ .readRequested v)
    (hcurrent : (states l.machine.currentState).isSome = true) :
    l.looksUp states ++ Calls.remaining states ⟨l, l.cbs states, false⟩ = c.remaining states := by
  have hmove := lifeStep_move hstep
  cases hmove with
  | runs _ _ _ htick => exact absurd rfl htick
  | ticks m hticking htickStep =>
  have hgroup : c.life.group = c.life.machine.tick.group c.life.details := if_pos hticking
  have hgroup' : Life.group { c.life with machine := m, details := m.tick.makeDetails c.life.details }
      = m.tick.group (m.tick.makeDetails c.life.details) :=
    if_pos ((tickStep_ticking htickStep).trans hticking)
  have hrest := fun g (hg : c.life.group = some g) => (rest_of_allows (.inl rfl) hallows hg).1
  have hagrees := h.life.tick
  have hcached := h.life.settled.cached
  obtain ⟨⟨⟨phase, loop, tick, current, requested, started, callers⟩, details, stop⟩, rest, calling⟩
    := c
  dsimp only at *
  rw [hgroup] at hrest
  unfold Calls.remaining Life.looksUp Life.cbs
  rw [hgroup']
  unfold tickStep at htickStep
  cases tick with
  | readCurrent =>
    cases htickStep
    rfl
  | readRequested v => exact absurd rfl (hread v)
  | exchangeStarted v w =>
    dsimp only at htickStep
    split at htickStep
    · next hstarted =>
      cases htickStep
      have hv : current = v := hcached v rfl
      subst hv
      obtain ⟨hlooks, hcbs⟩ := looksUp_entry ⟨current, current, false⟩ hcurrent
      show (Group.entry current ⟨current, current, false⟩).looksUp states ++
        ((((Group.entry current ⟨current, current, false⟩).cbs states).getD []).map
          (CallEvent.entry · current ⟨current, current, false⟩) ++ _ ++ _) = _
      rw [hlooks, hcbs, TickPc.remaining, if_pos hstarted]
      rfl
    · next hstarted =>
      cases htickStep
      show [] ++ (_ ++ _) = _
      rw [TickPc.remaining, if_neg hstarted]
      rfl
  | inFirstEntry v w =>
    cases htickStep
    have hdone : rest = some [] := hrest _ rfl
    subst hdone
    rfl
  | compare v w =>
    have hv : current = v := hcached v rfl
    subst hv
    dsimp only at htickStep
    split at htickStep
    · next hsame =>
      subst hsame
      cases htickStep
      obtain ⟨hlooks, hcbs⟩ := looksUp_tick hcurrent
      show (Group.tick current).looksUp states ++ (((Group.tick current).cbs states).getD
        []).map (CallEvent.tick · current) = _
      rw [hlooks, hcbs, TickPc.remaining, changeTrace, if_pos rfl]
      rfl
    · next hne =>
      cases htickStep
      obtain ⟨hlooks, hcbs⟩ := looksUp_exit ⟨w, current, false⟩ hcurrent
      show (Group.exit current ⟨w, current, false⟩).looksUp states ++
        ((((Group.exit current ⟨w, current, false⟩).cbs states).getD []).map
          (CallEvent.exit · current ⟨w, current, false⟩) ++ _ ++ _) = _
      rw [hlooks, hcbs, TickPc.remaining, changeTrace, if_neg hne]
      rfl
  | inExit v w =>
    cases htickStep
    have hdone : rest = some [] := hrest _ rfl
    subst hdone
    rfl
  | storeCurrent w =>
    cases htickStep
    obtain ⟨hlooks, hcbs⟩ := looksUp_entry details hcurrent
    show (Group.entry w details).looksUp states ++ ((((Group.entry w details).cbs states).getD
      []).map (CallEvent.entry · w details) ++ _) = _
    rw [hlooks, hcbs]
    rfl
  | inEntry w =>
    cases htickStep
    have hw : w = current := hagrees
    subst hw
    have hdone : rest = some [] := hrest _ rfl
    subst hdone
    obtain ⟨hlooks, hcbs⟩ := looksUp_tick hcurrent
    show (Group.tick w).looksUp states ++ (((Group.tick w).cbs states).getD
      []).map (CallEvent.tick · w) = _
    rw [hlooks, hcbs]
    rfl
  | inTick w =>
    cases htickStep
    have hdone : rest = some [] := hrest _ rfl
    subst hdone
    rfl
  | done => cases htickStep

/-- What `tick_action()` has read, or has made current, has been added. -/
theorem TraceInv.seen_ticks (h : TraceInv states initial tr c) {s : State τ}
    (hstep : tickStep c.life.machine = some s) :
    (states s.currentState).isSome = true ∧ s.requestedState = c.life.machine.requestedState ∧
      ∀ v, s.tick.seen s.currentState = some v → (states v).isSome = true := by
  have hcurrent := h.current
  have hrequested := h.requested
  have hseen := h.seen
  obtain ⟨⟨⟨phase, loop, tick, current, requested, started, callers⟩, details, stop⟩, rest, calling⟩
    := c
  dsimp only at *
  have hkept {v w : τ} (hv : (states v).isSome = true) (hw : some v = some w) :
      (states w).isSome = true := by
    cases hw
    exact hv
  unfold tickStep at hstep
  cases tick with
  | readCurrent =>
    cases hstep
    exact ⟨hcurrent, rfl, nofun⟩
  | readRequested v =>
    cases hstep
    exact ⟨hcurrent, rfl, fun _ => hkept hrequested⟩
  | exchangeStarted v w | compare v w =>
    have hw : (states w).isSome = true := hseen w rfl
    dsimp only at hstep
    split at hstep
    · cases hstep
      exact ⟨hcurrent, rfl, fun _ => hkept (by assumption)⟩
    · cases hstep
      exact ⟨hcurrent, rfl, fun _ => hkept hw⟩
  | inFirstEntry v w | inExit v w =>
    cases hstep
    exact ⟨hcurrent, rfl, hseen⟩
  | storeCurrent w =>
    cases hstep
    exact ⟨hseen w rfl, rfl, hseen⟩
  | inEntry w | inTick w =>
    cases hstep
    exact ⟨hcurrent, rfl, fun _ => hkept hcurrent⟩
  | done => cases hstep

/-- Past its load of the request, the tick keeps where it leads, and `just_started` says that no tick
has read a request before. -/
theorem tickStep_keeps {s s' : State τ} (hstep : tickStep s = some s')
    (hread : ∀ v, s.tick ≠ .readRequested v) (hcached : ∀ v, s.tick.cached = some v →
      s.currentState = v) {read : List τ} (hfirst : s.First read) :
    s'.tick.target s'.currentState = s.tick.target s.currentState ∧ s'.First read := by
  obtain ⟨phase, loop, tick, current, requested, started, callers⟩ := s
  dsimp only at hread hcached
  unfold State.First at hfirst ⊢
  unfold tickStep at hstep
  cases tick with
  | readRequested v => exact absurd rfl (hread v)
  | exchangeStarted v w =>
    have hread : read.isEmpty = false := by simpa using hfirst
    dsimp only at hstep
    split at hstep
    · cases hstep
      exact ⟨rfl, hread.symm⟩
    · next hstarted =>
      cases hstep
      refine ⟨rfl, ?_⟩
      show started = read.isEmpty
      rw [hread]
      simpa using hstarted
  | compare v w =>
    have hv : current = v := hcached v rfl
    subst hv
    dsimp only at hstep
    split at hstep
    · next hsame =>
      cases hstep
      exact ⟨hsame, hfirst⟩
    · cases hstep
      exact ⟨rfl, hfirst⟩
  | readCurrent | inFirstEntry v w | inExit v w | storeCurrent w | inEntry w | inTick w =>
    cases hstep
    exact ⟨rfl, hfirst⟩
  | done => cases hstep

theorem lifeStep_tick {l l' : Life τ} {les : List (Callback τ)}
    (h : lifeStep l (.run .tick) = some (l', les)) :
    l.machine.ticking = true ∧ tickStep l.machine = some l'.machine ∧
      l'.details = l'.machine.tick.makeDetails l.details ∧ l'.stop = l.stop := by
  have hmove := lifeStep_move h
  cases hmove with
  | ticks m hticking htickStep => exact ⟨hticking, htickStep, rfl, rfl⟩
  | runs _ _ _ htick => exact absurd rfl htick

/-- `tick_action()` reads the request, which is the next one of the sequence. -/
theorem TraceInv.ticks_reads (h : TraceInv states initial tr c) {l : Life τ}
    {les : List (Callback τ)} (hstep : lifeStep c.life (.run .tick) = some (l, les)) {v : τ}
    (hv : c.life.machine.tick = .readRequested v) :
    TraceInv states initial
      (tr ++ (c.life.machine.tick.reads c.life.machine.requestedState ++ l.looksUp states))
      ⟨l, l.cbs states, false⟩ := by
  have hinv : LifeInv initial l := (h.life.step (lifeStep_move hstep) trivial).1
  obtain ⟨hticking, htickStep, hdetails, hsame⟩ := lifeStep_tick hstep
  have hlooping := looping_of_ticking hticking
  have hstop := notYet_of_ticking h.life hticking
  obtain ⟨hcurrent, hrequested, hseen⟩ := h.seen_ticks htickStep
  have htrace := h.trace hstop
  have hm : l.machine = { c.life.machine with
      tick := .exchangeStarted v c.life.machine.requestedState } := by
    rw [tickStep, hv] at htickStep
    exact (Option.some.inj htickStep).symm
  have hv' : c.life.machine.currentState = v := h.life.settled.cached v (by rw [hv]; rfl)
  have hfirst := h.first hlooping
  have hlast : (requestsRead tr).getLastD initial = v := by
    rw [h.target, hv]
    exact hv'
  rw [State.First, hv] at hfirst
  rw [hlooping, Calls.remaining, hv] at htrace
  have htr : tr = .started :: ticksTrace states true initial (requestsRead tr) := by
    simpa [TickPc.remaining] using htrace
  have hlooks : l.looksUp states = [] := by
    rw [Life.looksUp, Life.group, hm, hsame, hstop]
    simp [TickPc.group, StopPc.group]
  have hread : requestsRead (tr ++ (c.life.machine.tick.reads c.life.machine.requestedState ++
      l.looksUp states)) = requestsRead tr ++ [c.life.machine.requestedState] := by
    rw [requestsRead_append, hlooks, hv]
    rfl
  have hrest : Calls.remaining states ⟨l, l.cbs states, false⟩ =
      (if (requestsRead tr).isEmpty then entryTrace states v ⟨v, v, false⟩ else []) ++
        changeTrace states v c.life.machine.requestedState ++
        tickTrace states c.life.machine.requestedState := by
    rw [← hfirst, Calls.remaining, hm]
    rfl
  refine ⟨hinv, hcurrent, hrequested ▸ h.requested, hseen, fun _ _ => cbs_isSome hinv hcurrent,
    fun hne => absurd (by rw [hm]; exact hlooping) hne, fun _ => ?_, ?_, fun _ => ?_⟩
  · rw [hread, State.First, hm]
    simp
  · rw [hread, List.getLastD_concat, hm]
    rfl
  · rw [hread, ticksTrace_snoc, hlooks, hv, hlast, hrest, Bool.true_and, hm, hlooping]
    show tr ++ ([.reads _] ++ []) ++ _ = (.started :: ticksTrace states true initial _) ++ _
    rw [← htr, List.append_nil, List.append_assoc]
    rfl

/-- `tick_action()` moves. -/
theorem TraceInv.ticks (h : TraceInv states initial tr c) {l : Life τ} {les : List (Callback τ)}
    (hallows : c.allows (.run .tick) = true) (hstep : lifeStep c.life (.run .tick) = some (l, les)) :
    TraceInv states initial
      (tr ++ (c.life.machine.tick.reads c.life.machine.requestedState ++ l.looksUp states))
      ⟨l, l.cbs states, false⟩ := by
  by_cases hread : ∃ v, c.life.machine.tick = .readRequested v
  · obtain ⟨v, hv⟩ := hread
    exact h.ticks_reads hstep hv
  have hnot := fun v hv => hread ⟨v, hv⟩
  have hinv : LifeInv initial l := (h.life.step (lifeStep_move hstep) trivial).1
  obtain ⟨hticking, htickStep, hdetails, hsame⟩ := lifeStep_tick hstep
  have hlooping := looping_of_ticking hticking
  have hlooping' := looping_of_ticking ((tickStep_ticking htickStep).trans hticking)
  obtain ⟨hcurrent, hrequested, hseen⟩ := h.seen_ticks htickStep
  have hreads : c.life.machine.tick.reads c.life.machine.requestedState =
      ([] : List (CallEvent τ ι)) := by
    cases htick : c.life.machine.tick with
    | readRequested v => exact absurd htick (hnot v)
    | _ => rfl
  have hkept : requestsRead (tr ++ (c.life.machine.tick.reads c.life.machine.requestedState ++
      l.looksUp states)) = requestsRead tr := by
    rw [hreads, List.nil_append, requestsRead_append, requestsRead_looksUp, List.append_nil]
  obtain ⟨htarget, hfirst⟩ := tickStep_keeps htickStep hnot h.life.settled.cached (h.first hlooping)
  refine ⟨hinv, hcurrent, hrequested ▸ h.requested, hseen, fun _ _ => cbs_isSome hinv hcurrent,
    fun hne => absurd hlooping' hne, fun _ => ?_, ?_, fun _ => ?_⟩
  · rw [hkept]
    exact hfirst
  · rw [hkept]
    exact h.target.trans htarget.symm
  · have htrace := h.trace (notYet_of_ticking h.life hticking)
    rw [hlooping] at htrace
    rw [hkept, hlooping', hreads, List.nil_append, List.append_assoc,
      remaining_ticks h hallows hstep hnot hcurrent]
    exact htrace

/-- Only what has to do with ticks, the current state and the end of the run matters. -/
theorem TraceInv.frame (h : TraceInv states initial tr c) {l : Life τ} (hinv : LifeInv initial l)
    (hphase : l.machine.phase = c.life.machine.phase)
    (hpc : l.machine.loop.pc = c.life.machine.loop.pc)
    (htick : l.machine.tick = c.life.machine.tick)
    (hcurrent : l.machine.currentState = c.life.machine.currentState)
    (hstarted : l.machine.justStarted = c.life.machine.justStarted)
    (hdetails : l.details = c.life.details) (hstop : l.stop = c.life.stop)
    (hrequested : (states l.machine.requestedState).isSome = true) :
    TraceInv states initial tr { c with life := l } := by
  have hgroup : l.group = c.life.group := by
    rw [Life.group, Life.group, State.ticking, State.ticking, hphase, hpc, htick, hdetails, hstop]
  refine ⟨hinv, ?_, hrequested, ?_, fun g hg => h.found g (hgroup ▸ hg), ?_, ?_, ?_, ?_⟩
  · rw [hcurrent]
    exact h.current
  · rw [htick, hcurrent]
    exact h.seen
  · rw [hphase]
    exact h.fresh
  · rw [hphase, State.First, htick, hstarted]
    exact h.first
  · rw [htick, hcurrent]
    exact h.target
  · rw [hstop, hphase, Calls.remaining, htick, hdetails, hstarted]
    exact h.trace

/-- Only `set_state()` changes the requested state. -/
theorem step_requestedState {s s' : State τ} {a : Action τ} {les : List LoopEvent}
    (h : step s a = some (s', les)) : s'.requestedState = s.requestedState ∨
      ∃ t v, a = .setState t v ∧ s'.requestedState = v := by
  cases a with
  | setState t v =>
    simp only [step] at h
    split at h
    · cases h
      exact .inr ⟨t, v, rfl, rfl⟩
    · cases h
  | notify | storeStop | setInterval =>
    cases h
    exact .inl rfl
  | setStateNotifies | discard | launch | onStartReturns | onStartThrows =>
    simp only [step] at h
    split at h <;> cases h
    exact .inl rfl
  | loop | throw =>
    simp only [step] at h
    split at h
    · obtain ⟨r, -, heq⟩ := Option.map_eq_some_iff.mp h
      cases heq
      exact .inl rfl
    · cases h
  | tick =>
    simp only [step] at h
    split at h
    · obtain ⟨t, ht, heq⟩ := Option.map_eq_some_iff.mp h
      cases heq
      left
      unfold tickStep at ht
      split at ht
      case h_3 | h_5 => split at ht <;> cases ht <;> rfl
      all_goals cases ht <;> rfl
    · cases h

theorem lifeStep_requestedState {l l' : Life τ} {a : LifeAction τ} {les : List (Callback τ)}
    (h : lifeStep l a = some (l', les)) :
    l'.machine.requestedState = l.machine.requestedState ∨
      ∃ t v, a = .run (.setState t v) ∧ l'.machine.requestedState = v := by
  unfold lifeStep at h
  split at h
  case h_1 | h_2 | h_3 =>
    obtain ⟨⟨m, mes⟩, hstep, heq⟩ := Option.map_eq_some_iff.mp h
    cases heq
    rcases step_requestedState hstep with hsame | ⟨t, v, ha, hv⟩
    · exact .inl hsame
    · exact .inr ⟨t, v, congrArg LifeAction.run ha, hv⟩
  · split at h <;> cases h
    exact .inl rfl
  · rw [onStopStep_machine h]
    exact .inl rfl
  · split at h <;> cases h <;> exact .inl rfl

/-- The loop moves between ticks. -/
theorem TraceInv.loops (h : TraceInv states initial tr c) {control : Control} {pc : LoopPc}
    {les : List LoopEvent} (hphase : c.life.machine.phase = .looping)
    (hm : LoopMove false c.life.machine.loop.control c.life.machine.loop.pc control pc les)
    (hthrows : les ≠ [.ticked true]) (hreturns : les = [.ticked false] → c.life.machine.tick = .done)
    {l : Life τ} (hinv : LifeInv initial l)
    (hl : l = { c.life with machine := { c.life.machine with
      loop := ⟨control, pc⟩
      tick := if .tick ∈ les then .readCurrent else c.life.machine.tick } }) :
    TraceInv states initial tr { c with life := l } := by
  have hstop : c.life.stop = .notYet := by
    by_contra hne
    obtain ⟨threw, hpc⟩ := h.life.ended hne
    rw [hpc] at hm
    cases hm
  have hresting : c.life.machine.tick.resting = true := by
    by_cases hdone : c.life.machine.tick = .done
    · rw [hdone]
      rfl
    · refine h.life.resting ?_
      rw [State.ticking, hphase]
      generalize c.life.machine.loop.pc = pc₀ at hm
      cases hm with
      | tickReturns => exact absurd (hreturns rfl) hdone
      | tickThrows => exact absurd rfl hthrows
      | _ => rfl
  have htrace := h.trace hstop
  have hfirst := h.first hphase
  have htarget := h.target
  have hnew : l.machine.tick.resting = true := by
    rw [hl]
    show (if .tick ∈ les then .readCurrent else c.life.machine.tick : TickPc τ).resting = true
    split
    · rfl
    · exact hresting
  have hgroup : l.group = none := by
    unfold Life.group
    split
    · rcases TickPc.resting_cases hnew with hplace | hplace <;> rw [hplace] <;> rfl
    · rw [hl, hstop]
      rfl
  have hphase' : l.machine.phase = .looping := by rw [hl]; exact hphase
  have hcurrent : l.machine.currentState = c.life.machine.currentState := by rw [hl]
  have hstarted : l.machine.justStarted = c.life.machine.justStarted := by rw [hl]
  refine ⟨hinv, ?_, ?_, ?_, ?_, fun hne => absurd hphase' hne, fun _ => ?_, ?_, fun _ => ?_⟩
  · rw [hcurrent]
    exact h.current
  · rw [hl]
    exact h.requested
  · intro v hv
    rcases TickPc.resting_cases hnew with hplace | hplace <;> rw [hplace] at hv <;> cases hv
    rw [hcurrent]
    exact h.current
  · intro g hg
    rw [hgroup] at hg
    cases hg
  · rcases TickPc.resting_cases hresting with hold | hold <;> rw [State.First, hold] at hfirst <;>
      rcases TickPc.resting_cases hnew with hplace | hplace <;> rw [State.First, hplace] <;>
      exact hstarted.trans hfirst
  · rcases TickPc.resting_cases hresting with hold | hold <;> rw [hold] at htarget <;>
      rcases TickPc.resting_cases hnew with hplace | hplace <;> rw [hplace] <;>
      exact htarget.trans hcurrent.symm
  · rw [hphase] at htrace
    rw [hphase', ← htrace, Calls.remaining, Calls.remaining]
    rcases TickPc.resting_cases hresting with hold | hold <;> rw [hold] <;>
      rcases TickPc.resting_cases hnew with hplace | hplace <;> rw [hplace] <;> rfl

/-- `worker_on_stop()` moves. -/
theorem TraceInv.onStop (h : TraceInv states initial tr c) {l : Life τ} {les : List (Callback τ)}
    (hstep : lifeStep c.life .onStop = some (l, les)) :
    TraceInv states initial (tr ++ (l.looksUp states ++ les.filterMap Callback.shows))
      ⟨l, l.cbs states, false⟩ := by
  have hinv : LifeInv initial l := (h.life.step (lifeStep_move hstep) trivial).1
  have hmachine : l.machine = c.life.machine := onStopStep_machine hstep
  have hreads : requestsRead (tr ++ (l.looksUp states ++ les.filterMap Callback.shows)) =
      requestsRead tr := by
    rw [requestsRead_append, requestsRead_append, requestsRead_looksUp, requestsRead_shows,
      List.append_nil, List.append_nil]
  have hnot : l.stop ≠ .notYet := by
    change onStopStep c.life = some (l, les) at hstep
    unfold onStopStep at hstep
    split at hstep <;> cases hstep <;> nofun
  refine ⟨hinv, ?_, ?_, ?_, fun _ _ => cbs_isSome hinv ?_, ?_, ?_, ?_, fun hyes => absurd hyes hnot⟩
  all_goals rw [hmachine]
  · exact h.current
  · exact h.requested
  · exact h.seen
  · exact h.current
  · rw [hreads]
    exact h.fresh
  · rw [hreads]
    exact h.first
  · rw [hreads]
    exact h.target

/-- The other steps of a life. -/
theorem TraceInv.lives (h : TraceInv states initial tr c) {a : LifeAction τ} {l : Life τ}
    {les : List (Callback τ)} (htick : a ≠ .run .tick) (hstop : a ≠ .onStop)
    (hthrows : a ≠ .onStopThrows) (hquiet : nothingThrows c.life a) (hknown : a.known states = true)
    (hstep : lifeStep c.life a = some (l, les)) :
    TraceInv states initial (tr ++ les.filterMap Callback.shows) { c with life := l } := by
  have hmove := lifeStep_move hstep
  have hinv := (h.life.step hmove hquiet).1
  have hrequested : (states l.machine.requestedState).isSome = true := by
    rcases lifeStep_requestedState hstep with hsame | ⟨t, v, rfl, hv⟩
    · rw [hsame]
      exact h.requested
    · rw [hv]
      exact hknown
  cases hmove with
  | launches hphase =>
    have hne : c.life.machine.phase ≠ .looping := by
      rw [hphase]
      nofun
    obtain ⟨-, hread, hnotYet⟩ := h.life.unlooped hne
    have hnone := h.fresh hne
    have htrace := h.trace hnotYet
    rw [hphase, Calls.remaining, hread] at htrace
    have htr : tr = [] := by simpa [TickPc.remaining] using htrace
    subst htr
    refine ⟨hinv, h.current, hrequested, h.seen, fun g hg => ?_, fun _ => rfl, nofun, h.target,
      fun _ => ?_⟩
    · rw [Life.group, hread, hnotYet] at hg
      split at hg <;> cases hg
    · rw [Calls.remaining, hread]
      rfl
  | runs a m hlaunch htick' hmove =>
    rw [show ([] : List (Callback τ)).filterMap Callback.shows = ([] : List (CallEvent τ ι)) from rfl,
      List.append_nil]
    cases hmove with
    | discards | calls | controls => exact h.frame hinv rfl rfl rfl rfl rfl rfl rfl hrequested
    | launches => exact absurd rfl hlaunch
    | startReturns hphase =>
      have hne : c.life.machine.phase ≠ .looping := by
        rw [hphase]
        nofun
      obtain ⟨-, hread, hnotYet⟩ := h.life.unlooped hne
      have hnone := h.fresh hne
      have htrace := h.trace hnotYet
      rw [hphase] at htrace
      refine ⟨hinv, h.current, hrequested, h.seen, fun g hg => ?_, fun hne => absurd rfl hne,
        fun _ => ?_, h.target, fun _ => ?_⟩
      · rw [Life.group, hread, hnotYet] at hg
        split at hg <;> cases hg
      · rw [State.First, hread, hnone]
        rfl
      · rw [Calls.remaining, hread] at htrace ⊢
        exact htrace
    | startThrows => exact hquiet.elim
    | loops a control pc les hphase hmove hthrow hreturns =>
      exact h.loops hphase hmove hthrow hreturns hinv rfl
    | ticks => exact absurd rfl htick'
    | throws => exact hquiet.elim
  | storesStopped threw hpc hnotYet =>
    rw [show ([] : List (Callback τ)).filterMap Callback.shows = ([] : List (CallEvent τ ι)) from rfl,
      List.append_nil]
    refine ⟨hinv, h.current, hrequested, h.seen, fun g hg => ?_, h.fresh, h.first, h.target, nofun⟩
    rw [Life.group, if_neg (fun hticking => not_left_of_ticking hticking threw hpc)] at hg
    cases hg
  | ticks => exact absurd rfl htick
  | onStop => exact absurd rfl hstop
  | onStopThrows => exact absurd rfl hthrows

theorem TraceInv.step (h : TraceInv states initial tr c) {a : CallAction τ}
    (hsteady : steady states c a) (hm : CallsMove states c a c' es) :
    TraceInv states initial (tr ++ es) c' := by
  cases hm with
  | ticks l les hallows hstep => exact h.ticks hallows hstep
  | onStop l les hallows hstep => exact h.onStop hstep
  | throws a l les hallows ha hstep =>
    obtain ⟨hquiet, -⟩ := hsteady
    rcases ha with rfl | rfl
    · exact hquiet.elim
    · exact hquiet.elim
  | lives a l les htick hstop hthrow hthrows hstep =>
    exact h.lives htick hstop hthrows hsteady.1 hsteady.2 hstep
  | invokes g cb rest hgroup hrest hcalling => exact h.invokes hgroup hrest
  | returns hcalling =>
    rw [List.append_nil]
    exact ⟨h.life, h.current, h.requested, h.seen, h.found, h.fresh, h.first, h.target, h.trace⟩

end Step

/-! ## The result -/

theorem traceInv [DecidableEq τ] {states : τ → Option (StateConfig ι)} {initial : τ} {interval : ℤ}
    (hinitial : (states initial).isSome = true) {tr : List (CallEvent τ ι)} {c : Calls τ ι}
    (h : (callsSystem states initial interval).Run (steady states) tr c) :
    TraceInv states initial tr c := by
  refine Run.invariant (I := TraceInv states initial) ?_ ?_ h
  · have hlife : LifeInv initial (lifeSystem initial interval).start :=
      (lifeInv (RunFrom.nil (M := lifeSystem initial interval))).1
    exact ⟨hlife, hinitial, hinitial, nofun, nofun, fun _ => rfl, nofun, rfl, fun _ => rfl⟩
  · intro tr c a c' es _ hsteady hstep ih
    exact ih.step hsteady (callsStep_move hstep)

/-- A request is read at one place, where the tick has shown nothing yet. -/
theorem reads_requested [DecidableEq τ] {states : τ → Option (StateConfig ι)} {c c' : Calls τ ι}
    {a : CallAction τ} {es : List (CallEvent τ ι)} {requested : τ} (hm : CallsMove states c a c' es)
    (hreads : .reads requested ∈ es) :
    requested = c.life.machine.requestedState ∧ c.remaining states = [] := by
  have hmem {es : List (CallEvent τ ι)} (h : .reads requested ∈ es) : requestsRead es ≠ [] :=
    List.ne_nil_of_mem (List.mem_filterMap.mpr ⟨_, h, rfl⟩)
  cases hm with
  | ticks l les =>
    rcases List.mem_append.mp hreads with hread | hlooks
    · unfold TickPc.reads at hread
      split at hread
      · next v hv =>
        cases List.mem_singleton.mp hread
        refine ⟨rfl, ?_⟩
        rw [Calls.remaining, hv]
        rfl
      · cases hread
    · exact absurd (requestsRead_looksUp states l) (hmem hlooks)
  | onStop l les =>
    rcases List.mem_append.mp hreads with hlooks | hshows
    · exact absurd (requestsRead_looksUp states l) (hmem hlooks)
    · exact absurd (requestsRead_shows les) (hmem hshows)
  | throws a l les | lives a l les => exact absurd (requestsRead_shows les) (hmem hreads)
  | invokes g cb rest =>
    cases g <;> cases List.mem_singleton.mp hreads
  | returns => cases hreads

/-- **The callbacks of a machine tick by tick**, while no callback throws and every state that is set
has been added.  Up to the end of the loop the run has shown the started callback and then
what a sequence of ticks shows that reads these requests, the tick in progress up to where
it is: the first tick enters the initial state, and each makes one transition at most, to
the request it has read, from the state that the tick before it has left.  What it reads is
the requested state of that moment, before any of its callbacks.  The state that `state()`
returns during a callback is the one the callback was added to, and no lookup fails. -/
theorem transitions_in_steps [DecidableEq τ] (states : τ → Option (StateConfig ι)) (initial : τ)
    (interval : ℤ) (hinitial : (states initial).isSome = true) :
    (∀ tr c, (callsSystem states initial interval).Run (steady states) tr c →
      (c.life.machine.phase = .looping → c.life.stop = .notYet →
        tr ++ c.remaining states =
          .started :: ticksTrace states true initial (requestsRead tr)) ∧
      (c.life.machine.ticking = false → c.remaining states = []) ∧
      ∀ g, c.life.group = some g →
        g.state = c.life.machine.currentState ∧ c.rest.isSome = true) ∧
    (∀ tr c a c' es requested, (callsSystem states initial interval).Run (steady states) tr c →
      (callsSystem states initial interval).step c a = some (c', es) → .reads requested ∈ es →
      requested = c.life.machine.requestedState ∧ c.remaining states = []) := by
  constructor
  · intro tr c hrun
    have hinv := traceInv hinitial hrun
    refine ⟨fun hphase hstop => ?_, fun hticking => ?_, fun g hg => ?_⟩
    · have htrace := hinv.trace hstop
      rwa [hphase] at htrace
    · unfold Calls.remaining
      rcases TickPc.resting_cases (hinv.life.resting hticking) with hplace | hplace <;>
        rw [hplace] <;> rfl
    · exact ⟨group_state hinv.life hg, hinv.found g hg⟩
  · intro tr c a c' es requested hrun hstep hreads
    exact reads_requested (callsStep_move hstep) hreads

/-- Two states, each with two entry callbacks, one exit callback and one tick callback. -/
def twoStates : Bool → Option (StateConfig ℕ)
  | false => some ⟨[0], [1, 2], [3]⟩
  | true => some ⟨[4], [5, 6], [7]⟩

/-- A callback is invoked and returns. -/
def called : List (CallAction Bool) := [.invoke, .returns]

def ticking (steps : ℕ) : List (CallAction Bool) := List.replicate steps (.life (.run .tick))

/-- The first entry callback of the initial state sets the other state, and the second tick is at the
exit callbacks. -/
def untilExit : List (CallAction Bool) :=
  List.flatten [[.life (.run .launch), .life (.run .onStartReturns)],
    List.replicate 3 (.life (.run (.loop .proceed))), ticking 3,
    [.invoke, .life (.run (.setState 0 true)), .life (.run (.setStateNotifies 0)), .returns],
    called, ticking 2, called, ticking 1, [.life (.run (.loop .tickReturns)),
    .life (.run (.loop .proceed)), .life (.run (.loop (.measure 0))),
    .life (.run (.loop .acquire)), .life (.run (.loop .proceed))],
    List.replicate 3 (.life (.run (.loop .proceed))), ticking 4]

/-- The exit callback sets the initial state again. -/
def setTwice : List (CallAction Bool) :=
  List.flatten [untilExit, [.invoke, .life (.run (.setState 0 false)), .returns], ticking 2, called,
    called, ticking 1, [.invoke]]

theorem transitions_in_steps_setTwice : ∃ tr c,
    (callsSystem twoStates false 10).Run (steady twoStates) tr c ∧
    tr = [.started, .reads false, .enters false, .entry 1 false ⟨false, false, false⟩,
      .entry 2 false ⟨false, false, false⟩, .tick 0 false, .reads true,
      .exit 3 false ⟨true, false, false⟩, .enters true, .entry 5 true ⟨true, false, false⟩,
      .entry 6 true ⟨true, false, false⟩, .tick 4 true] ∧
    tr = .started :: ticksTrace twoStates true false [false, true] := by
  have hexec : (callsSystem twoStates false 10).exec setTwice = some
      (⟨⟨⟨.looping, ⟨⟨false, 2, maxIterationCount, 10, noTokens⟩,
        .ticking 2⟩, .inTick true, true, false,
        false, Function.update (Function.update (Function.update (fun _ => .idle) 0 .stored) 0
          .idle) 0 .stored⟩, ⟨true, false, false⟩, .notYet⟩, some [], true⟩,
       [.started, .reads false, .enters false, .entry 1 false ⟨false, false, false⟩,
        .entry 2 false ⟨false, false, false⟩, .tick 0 false, .reads true,
        .exit 3 false ⟨true, false, false⟩, .enters true, .entry 5 true ⟨true, false, false⟩,
        .entry 6 true ⟨true, false, false⟩, .tick 4 true]) := rfl
  have hrun := runFrom_of_execFrom (C := steady twoStates) (by decide +kernel) hexec
  have htrace := ((transitions_in_steps twoStates false 10 rfl).1 _ _ hrun).1 rfl rfl
  exact ⟨_, _, hrun, rfl, htrace⟩

end StateMachine
