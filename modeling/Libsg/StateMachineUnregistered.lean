/-
# Requests for states that were never added

`set_state()` and `start()` take any state.  That one was not added is found out by `at()`, after
the exit callbacks of the state before have been run and `m_current_state` has been
overwritten; then `worker_on_stop()` looks the same state up and throws as well.

As long as no tick finds such a request, the current state is one that was added, and every
exit callback belongs to a transition to one (`AddedInv`).  A tick that finds one either
runs an exit callback for a transition that does not happen, or makes it the current state
for good (`Doomed`).
-/
import Libsg.StateMachineThrows

open TransitionSystem Worker

namespace StateMachine

variable {τ ι : Type}

/-- The states that have been entered. -/
def statesEntered (tr : List (CallEvent τ ι)) : List τ :=
  tr.filterMap fun
    | .enters state => some state
    | _ => none

/-- No tick finds a request for a state that was not added. -/
def requestsAdded [DecidableEq τ] (states : τ → Option (StateConfig ι)) (c : Calls τ ι) :
    CallAction τ → Prop
  | .life (.run .tick) =>
    match c.life.machine.tick with
    | .compare current requested => current = requested ∨ (states requested).isSome = true
    | _ => True
  | _ => True

theorem requestsAdded_iff [DecidableEq τ] (states : τ → Option (StateConfig ι)) (c : Calls τ ι)
    (a : CallAction τ) :
    requestsAdded states c a ↔ (match a, c.life.machine.tick with
      | .life (.run .tick), .compare current requested =>
        decide (current = requested) || (states requested).isSome
      | _, _ => true) = true := by
  unfold requestsAdded
  split
  · split <;> simp_all
  · split <;> simp_all

instance [DecidableEq τ] (states : τ → Option (StateConfig ι)) (c : Calls τ ι) (a : CallAction τ) :
    Decidable (requestsAdded states c a) :=
  decidable_of_iff _ (requestsAdded_iff states c a).symm

/-- What has been shown when requests for states that were not added are rejected: `state()` is the
state entered last, which was added; exit callbacks are run for transitions to states that were added;
and a run that ends because a lookup fails has run those of the current state once, and
the stopped callback once. -/
structure RejectsCleanly (states : τ → Option (StateConfig ι)) (initial : τ)
    (tr : List (CallEvent τ ι)) (c : Calls τ ι) : Prop where
  state : c.life.machine.currentState = (statesEntered tr).getLastD initial ∧
    (states c.life.machine.currentState).isSome = true
  exits : ∀ cb state details, .exit cb state details ∈ tr →
    (states details.newState).isSome = true
  ends : c.life.stop = .finished → (∃ state, .outOfRange state ∈ tr) →
    occurrence tr = some (c.life.machine.currentState,
      (exitCbsOf states c.life.machine.currentState).map (·, c.life.machine.currentState)) ∧
    ∃ tr₁ tr₂, tr = tr₁ ++ .stopped :: tr₂ ∧ .stopped ∉ tr₁ ∧ .stopped ∉ tr₂

/-! ## While no tick finds such a request -/

/-- The request that `tick_action()` has found is for a state that was added. -/
def TickPc.Added (states : τ → Option (StateConfig ι)) : TickPc τ → Prop
  | .inExit _ requested | .storeCurrent requested => (states requested).isSome = true
  | _ => True

structure AddedInv (states : τ → Option (StateConfig ι)) (initial : τ)
    (tr : List (CallEvent τ ι)) (c : Calls τ ι) : Prop where
  place : PlaceInv c.life
  current : (states c.life.machine.currentState).isSome = true
  found : ∀ t, c.life.place = some t → t.Added states
  last : c.life.machine.currentState = (statesEntered tr).getLastD initial
  exits : ∀ cb state details, .exit cb state details ∈ tr →
    (states details.newState).isSome = true
  finds : ∀ state, .outOfRange state ∉ tr

section Added

variable {states : τ → Option (StateConfig ι)} {initial : τ} {tr es : List (CallEvent τ ι)}
  {c c' : Calls τ ι}

/-- Events that neither enter nor leave a state, and no failed lookups. -/
def CallEvent.plain : CallEvent τ ι → Bool
  | .enters _ | .exit _ _ _ | .outOfRange _ => false
  | _ => true

theorem statesEntered_append (tr es : List (CallEvent τ ι)) :
    statesEntered (tr ++ es) = statesEntered tr ++ statesEntered es :=
  List.filterMap_append

/-- Only the current state and the request found matter. -/
theorem AddedInv.of_plain (h : AddedInv states initial tr c) (hplace : PlaceInv c'.life)
    (hcurrent : c'.life.machine.currentState = c.life.machine.currentState)
    (hfound : ∀ t, c'.life.place = some t → t.Added states) (hplain : ∀ e ∈ es, e.plain = true) :
    AddedInv states initial (tr ++ es) c' where
  place := hplace
  current := by
    rw [hcurrent]
    exact h.current
  found := hfound
  last := by
    have hnone : statesEntered es = [] := by
      refine List.filterMap_eq_nil_iff.mpr fun e he => ?_
      have hp := hplain e he
      cases e with
      | enters => cases hp
      | _ => rfl
    rw [hcurrent, h.last, statesEntered_append, hnone, List.append_nil]
  exits := by
    intro cb state details hmem
    rcases List.mem_append.mp hmem with hbefore | hnow
    · exact h.exits cb state details hbefore
    · cases hplain _ hnow
  finds := by
    intro state hmem
    rcases List.mem_append.mp hmem with hbefore | hnow
    · exact h.finds state hbefore
    · cases hplain _ hnow

theorem plain_shows (les : List (Callback τ)) :
    ∀ e ∈ (les.filterMap Callback.shows : List (CallEvent τ ι)), e.plain = true := by
  intro e he
  obtain ⟨cb, -, hcb⟩ := List.mem_filterMap.mp he
  cases cb <;> cases hcb <;> rfl

theorem plain_reads (requested : τ) (t : TickPc τ) :
    ∀ e ∈ (t.reads requested : List (CallEvent τ ι)), e.plain = true := by
  intro e he
  unfold TickPc.reads at he
  split at he
  · cases List.mem_singleton.mp he
    rfl
  · cases he

/-- A state that was added is entered. -/
theorem AddedInv.of_enters (h : AddedInv states initial tr c) (d : Calls τ ι)
    (hplace : PlaceInv d.life) (hcurrent : (states d.life.machine.currentState).isSome = true)
    (hfound : ∀ t, d.life.place = some t → t.Added states) :
    AddedInv states initial (tr ++ [.enters d.life.machine.currentState]) d where
  place := hplace
  current := hcurrent
  found := hfound
  last := by
    rw [statesEntered_append]
    exact List.getLastD_concat.symm
  exits := by
    intro cb state details hmem
    rcases List.mem_append.mp hmem with hbefore | hnow
    · exact h.exits cb state details hbefore
    · cases List.mem_singleton.mp hnow
  finds := by
    intro state hmem
    rcases List.mem_append.mp hmem with hbefore | hnow
    · exact h.finds state hbefore
    · cases List.mem_singleton.mp hnow

/-- The state that is looked up was added. -/
theorem looksUp_of_added {l : Life τ} (hplace : PlaceInv l)
    (hcurrent : (states l.machine.currentState).isSome = true) :
    l.looksUp states = match l.group with
      | some (.entry state _) => [.enters state]
      | _ => [] := by
  unfold Life.looksUp
  cases hgroup : l.group with
  | none => rfl
  | some g =>
    have hstate : (states g.state).isSome = true := by rwa [hplace.group_state hgroup]
    cases g with
    | entry state details => exact (looksUp_entry details hstate).1
    | exit state details => exact (looksUp_exit details hstate).1
    | tick state => exact (looksUp_tick hstate).1

/-- Exit callbacks are told of a state that was added. -/
theorem AddedInv.details (h : AddedInv states initial tr c) {state : τ}
    {details : StateChangeDetails τ} (hgroup : c.life.group = some (.exit state details)) :
    (states details.newState).isSome = true := by
  cases hplace : c.life.place with
  | some t =>
    have hagrees := h.place.tick t hplace
    have hfound := h.found t hplace
    rw [group_of_place hplace] at hgroup
    cases t <;> cases hgroup
    rw [hagrees.2.2]
    exact hfound
  | none =>
    have hagrees := h.place.stop
    rw [group_of_no_place hplace] at hgroup
    cases hstop : c.life.stop <;> rw [hstop] at hgroup hagrees <;> cases hgroup
    rw [hagrees.2]
    exact h.current

/-- A callback is invoked. -/
theorem AddedInv.invokes (h : AddedInv states initial tr c) {g : Group τ} {cb : ι} {rest : List ι}
    (hgroup : c.life.group = some g) :
    AddedInv states initial (tr ++ [g.invokes cb]) { c with rest := some rest, calling := true } := by
  cases g with
  | entry | tick =>
    refine h.of_plain h.place rfl h.found fun e he => ?_
    cases List.mem_singleton.mp he
    rfl
  | exit state details =>
    refine ⟨h.place, h.current, h.found, ?_, fun cb s d hmem => ?_, fun s hmem => ?_⟩
    · rw [statesEntered_append]
      show _ = (statesEntered tr ++ []).getLastD initial
      rw [List.append_nil]
      exact h.last
    · rcases List.mem_append.mp hmem with hbefore | hnow
      · exact h.exits cb s d hbefore
      · cases List.mem_singleton.mp hnow
        exact h.details hgroup
    · rcases List.mem_append.mp hmem with hbefore | hnow
      · exact h.finds s hbefore
      · cases List.mem_singleton.mp hnow

/-- Where no lookup fails, no request for a state that was not added has been rejected. -/
theorem AddedInv.clean (h : AddedInv states initial tr c) : RejectsCleanly states initial tr c where
  state := ⟨h.last, h.current⟩
  exits := h.exits
  ends := by
    rintro - ⟨state, hmem⟩
    exact absurd hmem (h.finds state)

variable [DecidableEq τ]

/-- `tick_action()` moves. -/
theorem AddedInv.ticks (h : AddedInv states initial tr c) {l : Life τ} {les : List (Callback τ)}
    (hadded : requestsAdded states c (.life (.run .tick)))
    (hstep : lifeStep c.life (.run .tick) = some (l, les)) : AddedInv states initial
      (tr ++ (c.life.machine.tick.reads c.life.machine.requestedState ++ l.looksUp states))
      ⟨l, l.cbs states, false⟩ := by
  have hplace' := h.place.step (lifeStep_move hstep)
  obtain ⟨hticking, htickStep, hdetails, hstop⟩ := lifeStep_tick hstep
  have hplace : c.life.place = some c.life.machine.tick := place_eq_some.mpr ⟨hticking, rfl⟩
  have hat' : l.place = some l.machine.tick :=
    place_eq_some.mpr ⟨(tickStep_ticking htickStep).trans hticking, rfl⟩
  have hgroup' := group_of_place hat'
  have hcurrent := h.current
  have hfound := h.found _ hplace
  have hcached := h.place.settled.cached
  obtain ⟨m, details', stop'⟩ := l
  have hat {t t' : TickPc τ} {P : TickPc τ → Prop} (hm : m.tick = t) (ht : P t)
      (ht' : Life.place ⟨m, details', stop'⟩ = some t') : P t' := by
    rw [hat', hm] at ht'
    cases ht'
    exact ht
  dsimp only at htickStep hdetails hstop
  unfold tickStep at htickStep
  cases htick : c.life.machine.tick with
  | readCurrent | readRequested v | inFirstEntry v w | inExit v w | inTick v =>
    rw [htick] at htickStep hfound
    cases htickStep
    rw [looksUp_of_no_group hgroup', List.append_nil]
    exact h.of_plain hplace' rfl (fun t ht => hat rfl (by trivial) ht)
      (plain_reads _ _)
  | exchangeStarted v w =>
    rw [htick] at htickStep
    dsimp only at htickStep
    have hv : c.life.machine.currentState = v := hcached v (by rw [htick]; rfl)
    subst hv
    split at htickStep
    · cases htickStep
      rw [looksUp_of_added hplace' hcurrent, hgroup']
      exact h.of_enters ⟨_, _, false⟩ hplace' hcurrent fun t ht => hat rfl trivial ht
    · cases htickStep
      rw [looksUp_of_no_group hgroup', List.append_nil]
      exact h.of_plain hplace' rfl (fun t ht => hat rfl trivial ht) (plain_reads _ _)
  | compare v w =>
    rw [htick] at htickStep
    dsimp only at htickStep
    have hv : c.life.machine.currentState = v := hcached v (by rw [htick]; rfl)
    subst hv
    split at htickStep
    · cases htickStep
      rw [looksUp_of_added hplace' hcurrent, hgroup']
      exact h.of_plain hplace' rfl (fun t ht => hat rfl trivial ht) nofun
    · next hne =>
      cases htickStep
      rw [looksUp_of_added hplace' hcurrent, hgroup']
      rw [requestsAdded, htick] at hadded
      have hw := hadded.resolve_left hne
      exact h.of_plain hplace' rfl (fun t ht => hat rfl hw ht) nofun
  | storeCurrent w =>
    rw [htick] at htickStep hfound
    cases htickStep
    rw [looksUp_of_added hplace' hfound, hgroup']
    exact h.of_enters ⟨_, _, false⟩ hplace' hfound fun t ht => hat rfl trivial ht
  | inEntry w =>
    rw [htick] at htickStep
    cases htickStep
    rw [looksUp_of_added hplace' hcurrent, hgroup']
    exact h.of_plain hplace' rfl (fun t ht => hat rfl trivial ht) nofun
  | done =>
    rw [htick] at htickStep
    cases htickStep

theorem AddedInv.step (h : AddedInv states initial tr c) {a : CallAction τ}
    (hadded : requestsAdded states c a) (hm : CallsMove states c a c' es) :
    AddedInv states initial (tr ++ es) c' := by
  cases hm with
  | ticks l les hallows hstep => exact h.ticks hadded hstep
  | onStop l les hallows hstep =>
    have hplace' := h.place.onStop hstep
    have hmachine := onStopStep_machine hstep
    have hnone : l.place = none := hplace'.no_place fun hnotYet => by
      change onStopStep c.life = some (l, les) at hstep
      unfold onStopStep at hstep
      split at hstep <;> cases hstep <;> cases hnotYet
    have hlooks : l.looksUp states = [] := by
      rw [looksUp_of_added hplace' (by rw [hmachine]; exact h.current), group_of_no_place hnone]
      cases l.stop <;> rfl
    rw [hlooks, List.nil_append]
    refine h.of_plain hplace' (by rw [hmachine]) (fun t ht => ?_) (plain_shows les)
    rw [hnone] at ht
    cases ht
  | throws a l les hallows ha hstep =>
    have hplace' := h.place.step (lifeStep_move hstep)
    obtain ⟨rfl, hnone, -, hcurrent⟩ := h.place.leaves ha hstep
    refine h.of_plain hplace' hcurrent (fun t ht => ?_) nofun
    rw [hnone] at ht
    cases ht
  | lives a l les htick hstop hthrow hthrows hstep =>
    have hmove := lifeStep_move hstep
    obtain ⟨hf, -⟩ := hmove.frames h.place.settled htick hstop hthrow hthrows
    refine h.of_plain (h.place.step hmove) hf.current (fun t ht => ?_) (plain_shows les)
    rcases hf.place with hsame | ⟨-, hcalled⟩ | ⟨-, hreturned⟩
    · exact h.found t (hsame ▸ ht)
    · rw [hcalled] at ht
      cases ht
      trivial
    · rw [hreturned] at ht
      cases ht
  | invokes g cb rest hgroup hrest => exact h.invokes hgroup
  | returns =>
    rw [List.append_nil]
    exact ⟨h.place, h.current, h.found, h.last, h.exits, h.finds⟩

end Added

/-! ## Once a tick has found such a request -/

/-- Where the worker thread is between the moment it finds a request for a state that was not added
and the end of the run, unless it has run an exit callback by then. -/
inductive Stuck (states : τ → Option (StateConfig ι)) (c : Calls τ ι) : Prop
  /-- The initial state was not added, and has not been looked up. -/
  | unstarted (hcurrent : states c.life.machine.currentState = none)
      (hstarted : c.life.machine.justStarted = true ∨ c.life.machine.phase ≠ .looping)
      (hearly : ∀ t, c.life.place = some t → t.early = true)
  | exiting (state requested : τ) (hplace : c.life.place = some (.inExit state requested))
      (hrequested : states requested = none) (hrest : c.rest.isSome = true)
      (hcalling : c.calling = false)
  | storing (requested : τ) (hplace : c.life.place = some (.storeCurrent requested))
      (hrequested : states requested = none)
  | looking (g : Group τ) (t : TickPc τ) (hcurrent : states c.life.machine.currentState = none)
      (hplace : c.life.place = some t) (hgroup : t.group c.life.details = some g)
      (hrest : c.rest = none) (hcalling : c.calling = false)
  | left (threw : Bool) (hcurrent : states c.life.machine.currentState = none)
      (hpc : c.life.machine.loop.pc = .left threw)

/-- An exit callback has been run for a transition that does not happen, or the current state was
not added, or will be stored next. -/
def Doomed (states : τ → Option (StateConfig ι)) (tr : List (CallEvent τ ι)) (c : Calls τ ι) : Prop :=
  PlaceInv c.life ∧ ((∃ cb state details, .exit cb state details ∈ tr ∧
    states details.newState = none) ∨ Stuck states c)

section Stuck

variable {states : τ → Option (StateConfig ι)} {tr es : List (CallEvent τ ι)} {c c' : Calls τ ι}

theorem cbs_of_unadded {l : Life τ} (hplace : PlaceInv l) {g : Group τ} (hgroup : l.group = some g)
    (hcurrent : states l.machine.currentState = none) : l.cbs states = none := by
  have hstate := hplace.group_state hgroup
  rw [Life.cbs, hgroup]
  cases g <;> dsimp only [Group.cbs, Group.state] at hstate ⊢ <;> rw [hstate, hcurrent] <;> rfl

/-- `worker_on_stop()` moves. -/
theorem Stuck.onStop (h : Stuck states c) (hplace : PlaceInv c.life) {l : Life τ}
    {les : List (Callback τ)} (hstep : onStopStep c.life = some (l, les)) :
    Stuck states ⟨l, l.cbs states, false⟩ := by
  have hmachine := onStopStep_machine hstep
  have hne : c.life.stop ≠ .notYet := by
    intro hnotYet
    rw [onStopStep, hnotYet] at hstep
    cases hstep
  have hnone := hplace.no_place hne
  obtain ⟨threw, hpc⟩ := hplace.ended hne
  have hleft (hcurrent : states c.life.machine.currentState = none) :
      Stuck states ⟨l, l.cbs states, false⟩ :=
    .left threw (by rw [hmachine]; exact hcurrent) (by rw [hmachine]; exact hpc)
  have hno {t : TickPc τ} {P : Prop} (ht : c.life.place = some t) : P := by
    rw [hnone] at ht
    cases ht
  cases h with
  | unstarted hcurrent => exact hleft hcurrent
  | exiting state requested hexit => exact hno hexit
  | storing requested hstore => exact hno hstore
  | looking g t hcurrent hlook => exact hno hlook
  | left threw hcurrent => exact hleft hcurrent

/-- A callback is invoked: an exit callback of the transition that does not happen, if any. -/
theorem Doomed.invokes (h : Stuck states c) (hplace : PlaceInv c.life) {g : Group τ} {cb : ι}
    {rest : List ι} (hgroup : c.life.group = some g) (hrest : c.rest = some (cb :: rest)) :
    Doomed states (tr ++ [g.invokes cb]) { c with rest := some rest, calling := true } := by
  refine ⟨hplace, ?_⟩
  cases h with
  | unstarted hcurrent hstarted hearly => exact .inr (.unstarted hcurrent hstarted hearly)
  | exiting state requested hexit hrequested =>
    have hagrees := hplace.tick _ hexit
    rw [group_of_place hexit] at hgroup
    cases hgroup
    refine .inl ⟨cb, state, c.life.details, List.mem_append_right _ (.head _), ?_⟩
    rw [hagrees.2.2]
    exact hrequested
  | storing requested hstore hrequested => exact .inr (.storing requested hstore hrequested)
  | looking g t hcurrent hlook hgroup hnone =>
    rw [hrest] at hnone
    cases hnone
  | left threw hcurrent hpc => exact .inr (.left threw hcurrent hpc)

/-- A run that is doomed does not end cleanly. -/
theorem Doomed.not_clean (h : Doomed states tr c) (hfinished : c.life.stop = .finished)
    (initial : τ) : ¬ RejectsCleanly states initial tr c := by
  intro hclean
  obtain ⟨hplace, ⟨cb, state, details, hmem, hdetails⟩ | hstuck⟩ := h
  · have hadded := hclean.exits cb state details hmem
    rw [hdetails] at hadded
    cases hadded
  · have hnone := hplace.no_place (by rw [hfinished]; nofun)
    have hadded := hclean.state.2
    cases hstuck with
    | unstarted hcurrent | left _ hcurrent | looking _ _ hcurrent =>
      rw [hcurrent] at hadded
      cases hadded
    | exiting _ _ hat | storing _ hat =>
      rw [hnone] at hat
      cases hat

variable [DecidableEq τ]

/-- A machine that has not been started is not, and one that is has `just_started` set, until the
first tick. -/
theorem LifeMove.unstarted {l l' : Life τ} {a : LifeAction τ} {les : List (Callback τ)}
    (hm : LifeMove l a l' les) (htick : a ≠ .run .tick) (hstop : a ≠ .onStop)
    (h : l.machine.justStarted = true ∨ l.machine.phase ≠ .looping) :
    l'.machine.justStarted = true ∨ l'.machine.phase ≠ .looping := by
  cases hm with
  | launches => exact .inr nofun
  | ticks => exact absurd rfl htick
  | runs a m hlaunch htick hmove =>
    cases hmove with
    | discards | calls | controls | throws => exact h
    | launches | startThrows => exact .inr nofun
    | startReturns => exact .inl rfl
    | loops => exact h
    | ticks => exact absurd rfl htick
  | storesStopped | onStopThrows => exact h
  | onStop => exact absurd rfl hstop

/-- `tick_action()` moves. -/
theorem Stuck.ticks (h : Stuck states c) (hplace : PlaceInv c.life) {l : Life τ}
    {les : List (Callback τ)} (hallows : c.allows (.run .tick) = true)
    (hstep : lifeStep c.life (.run .tick) = some (l, les)) :
    Stuck states ⟨l, l.cbs states, false⟩ := by
  have hplace' := hplace.step (lifeStep_move hstep)
  obtain ⟨hticking, htickStep, hdetails, -⟩ := lifeStep_tick hstep
  have hat : c.life.place = some c.life.machine.tick := place_eq_some.mpr ⟨hticking, rfl⟩
  have hat' : l.place = some l.machine.tick :=
    place_eq_some.mpr ⟨(tickStep_ticking htickStep).trans hticking, rfl⟩
  have hgroup' := group_of_place hat'
  have hcached := hplace.settled.cached
  obtain ⟨m, details', stop'⟩ := l
  dsimp only at htickStep
  unfold tickStep at htickStep
  cases h with
  | unstarted hcurrent hstarted hearly =>
    have hflag := hstarted.resolve_right fun hne => hne (looping_of_ticking hticking)
    have htick := hearly _ hat
    cases hpc : c.life.machine.tick with
    | readCurrent | readRequested v =>
      rw [hpc] at htickStep
      cases htickStep
      refine .unstarted hcurrent hstarted fun t ht => ?_
      rw [hat'] at ht
      cases ht
      rfl
    | exchangeStarted v w =>
      rw [hpc] at htickStep
      dsimp only at htickStep
      rw [if_pos hflag] at htickStep
      cases htickStep
      exact .looking _ _ hcurrent hat' rfl (cbs_of_unadded hplace' hgroup' hcurrent) rfl
    | _ =>
      rw [hpc] at htick
      cases htick
  | exiting state requested hexit hrequested =>
    have hpc : c.life.machine.tick = _ := (place_eq_some.mp hexit).2
    rw [hpc] at htickStep
    cases htickStep
    exact .storing requested hat' hrequested
  | storing requested hstore hrequested =>
    have hpc : c.life.machine.tick = _ := (place_eq_some.mp hstore).2
    rw [hpc] at htickStep
    cases htickStep
    exact .looking _ _ hrequested hat' rfl (cbs_of_unadded hplace' hgroup' hrequested) rfl
  | looking g t hcurrent hlook hgroup hrest =>
    have hdone := (rest_of_allows (.inl rfl) hallows ((group_of_place hlook).trans hgroup)).1
    rw [hrest] at hdone
    cases hdone
  | left threw hcurrent hpc => exact absurd hpc (not_left_of_ticking hticking threw)

/-- What throws there leaves a current state that was not added. -/
theorem Stuck.throws (h : Stuck states c) (hplace : PlaceInv c.life) {a : LifeAction τ} {l : Life τ}
    {les : List (Callback τ)} (hallows : c.allows a = true) (ha : a = .run .throw ∨ a = .onStopThrows)
    (hstep : lifeStep c.life a = some (l, les)) : Stuck states ⟨l, c.rest, false⟩ := by
  obtain ⟨-, hnone, ⟨threw, hleft⟩, hcurrent'⟩ := hplace.leaves ha hstep
  have hleaves (hcurrent : states c.life.machine.currentState = none) :
      Stuck states ⟨l, c.rest, false⟩ :=
    .left threw (by rw [hcurrent']; exact hcurrent) hleft
  -- outside a callback only `at()` throws, and what it throws is about the current state
  have hin {t : TickPc τ} (ht : c.life.place = some t) : a = .run .throw ∧ t.inCallback = true := by
    rcases ha with rfl | rfl
    · obtain ⟨-, ⟨u, hu, hcallback⟩, -⟩ := lifeStep_throw hstep
      rw [ht] at hu
      cases hu
      exact ⟨rfl, hcallback⟩
    · have hnotYet := hplace.notYet ht
      rw [lifeStep, hnotYet] at hstep
      cases hstep
  cases h with
  | unstarted hcurrent => exact hleaves hcurrent
  | exiting state requested hexit hrequested hrest hcalling =>
    obtain ⟨rfl, -⟩ := hin hexit
    rw [Calls.allows, hcalling, Bool.false_or, Option.isNone_iff_eq_none] at hallows
    rw [hallows] at hrest
    cases hrest
  | storing requested hstore => cases (hin hstore).2
  | looking g t hcurrent => exact hleaves hcurrent
  | left threw hcurrent => exact hleaves hcurrent

/-- The steps outside `tick_action()` and `worker_on_stop()`. -/
theorem Stuck.lives (h : Stuck states c) (hplace : PlaceInv c.life) {a : LifeAction τ} {l : Life τ}
    {les : List (Callback τ)} (hm : LifeMove c.life a l les) (htick : a ≠ .run .tick)
    (hstop : a ≠ .onStop) (hthrow : a ≠ .run .throw) (hthrows : a ≠ .onStopThrows) :
    Stuck states { c with life := l } := by
  obtain ⟨hf, -⟩ := hm.frames hplace.settled htick hstop hthrow hthrows
  have hstays {t : TickPc τ} (ht : c.life.place = some t) (hdone : t ≠ .done) :
      l.place = some t := by
    rcases hf.place with hsame | ⟨hnone, -⟩ | ⟨hreturns, -⟩
    · exact hsame.trans ht
    · rw [ht] at hnone
      cases hnone
    · rw [ht] at hreturns
      exact absurd (Option.some.inj hreturns) hdone
  cases h with
  | unstarted hcurrent hstarted hearly =>
    refine .unstarted (by rw [hf.current]; exact hcurrent) (hm.unstarted htick hstop hstarted)
      fun t ht => ?_
    rcases hf.place with hsame | ⟨-, hcalled⟩ | ⟨-, hreturns⟩
    · exact hearly t (hsame ▸ ht)
    · rw [hcalled] at ht
      cases ht
      rfl
    · rw [hreturns] at ht
      cases ht
  | exiting state requested hexit hrequested hrest hcalling =>
    exact .exiting state requested (hstays hexit nofun) hrequested hrest hcalling
  | storing requested hstore hrequested => exact .storing requested (hstays hstore nofun) hrequested
  | looking g t hcurrent hlook hgroup hrest hcalling =>
    refine .looking g t (by rw [hf.current]; exact hcurrent) (hstays hlook ?_) ?_ hrest hcalling
    · rintro rfl
      cases hgroup
    · rw [hf.details]
      exact hgroup
  | left threw hcurrent hpc =>
    obtain ⟨threw', hpc'⟩ := hf.ended ⟨threw, hpc⟩
    exact .left threw' (by rw [hf.current]; exact hcurrent) hpc'

theorem CallsMove.place {a : CallAction τ} (hm : CallsMove states c a c' es)
    (h : PlaceInv c.life) : PlaceInv c'.life := by
  cases hm with
  | ticks l les hallows hstep | onStop l les hallows hstep | throws a l les hallows ha hstep
    | lives a l les htick hstop hthrow hthrows hstep => exact h.step (lifeStep_move hstep)
  | invokes | returns => exact h

theorem Doomed.step (h : Doomed states tr c) {a : CallAction τ} (hm : CallsMove states c a c' es) :
    Doomed states (tr ++ es) c' := by
  obtain ⟨hplace, hdoomed⟩ := h
  have hplace' := hm.place hplace
  rcases hdoomed with ⟨cb, state, details, hmem, hdetails⟩ | hstuck
  · exact ⟨hplace', .inl ⟨cb, state, details, List.mem_append_left _ hmem, hdetails⟩⟩
  cases hm with
  | ticks l les hallows hstep => exact ⟨hplace', .inr (hstuck.ticks hplace hallows hstep)⟩
  | onStop l les hallows hstep => exact ⟨hplace', .inr (hstuck.onStop hplace hstep)⟩
  | throws a l les hallows ha hstep =>
    exact ⟨hplace', .inr (hstuck.throws hplace hallows ha hstep)⟩
  | lives a l les htick hstop hthrow hthrows hstep =>
    have hmove := lifeStep_move hstep
    exact ⟨hplace', .inr (hstuck.lives hplace hmove htick hstop hthrow hthrows)⟩
  | invokes g cb rest hgroup hrest => exact Doomed.invokes hstuck hplace hgroup hrest
  | returns hcalling =>
    refine ⟨hplace', .inr ?_⟩
    cases hstuck with
    | unstarted hcurrent hstarted hearly => exact .unstarted hcurrent hstarted hearly
    | storing requested hstore hrequested => exact .storing requested hstore hrequested
    | left threw hcurrent hpc => exact .left threw hcurrent hpc
    | exiting _ _ _ _ _ hno | looking _ _ _ _ _ _ hno =>
      rw [hcalling] at hno
      cases hno

/-- A tick finds a request for a state that was not added. -/
theorem doomed_of_unadded {initial : τ} {a : CallAction τ} (h : AddedInv states initial tr c)
    (hm : CallsMove states c a c' es) (hnot : ¬ requestsAdded states c a) :
    Doomed states (tr ++ es) c' := by
  refine ⟨hm.place h.place, .inr ?_⟩
  unfold requestsAdded at hnot
  split at hnot
  case h_2 => exact absurd trivial hnot
  split at hnot
  case h_2 => exact absurd trivial hnot
  next v w htick =>
  obtain ⟨hne, hrequested⟩ := not_or.mp hnot
  cases hm with
  | ticks l les hallows hstep =>
    have hplace' := h.place.step (lifeStep_move hstep)
    obtain ⟨hticking, htickStep, hdetails, -⟩ := lifeStep_tick hstep
    have hat' : l.place = some l.machine.tick :=
      place_eq_some.mpr ⟨(tickStep_ticking htickStep).trans hticking, rfl⟩
    have hgroup' := group_of_place hat'
    rw [tickStep, htick] at htickStep
    dsimp only at htickStep
    rw [if_neg hne] at htickStep
    rw [← Option.some.inj htickStep] at hat' hgroup'
    have hcurrent : (states l.machine.currentState).isSome = true := by
      rw [← Option.some.inj htickStep]
      exact h.current
    have hstate : (states v).isSome = true := by
      have hsame := hplace'.group_state hgroup'
      change v = _ at hsame
      rwa [hsame]
    refine .exiting v w hat' (Option.not_isSome_iff_eq_none.mp hrequested) ?_ rfl
    rw [(looksUp_of_group states hgroup').2]
    exact Option.isSome_map.trans hstate
  | throws a l les hallows ha => rcases ha with ha | ha <;> cases ha
  | lives a l les hnotTick => exact absurd rfl hnotTick

end Stuck

/-! ## The result -/

section Result

variable [DecidableEq τ] {states : τ → Option (StateConfig ι)} {initial : τ} {interval : ℤ}
  {tr : List (CallEvent τ ι)} {c : Calls τ ι}

theorem addedInv (hinitial : (states initial).isSome = true)
    (h : (callsSystem states initial interval).Run (requestsAdded states) tr c) :
    AddedInv states initial tr c := by
  refine Run.invariant (I := AddedInv states initial) ?_ ?_ h
  · exact ⟨placeInv_start, hinitial, fun t (ht : none = some t) => (nomatch ht), rfl, nofun, nofun⟩
  · intro tr c a c' es _ hadded hstep ih
    exact ih.step hadded (callsStep_move hstep)

theorem doomed_run {c₁ c₂ : Calls τ ι} {tr₁ tr₂ : List (CallEvent τ ι)} (h : Doomed states tr₁ c₁)
    (hrun : (callsSystem states initial interval).RunFrom anyStep c₁ tr₂ c₂) :
    Doomed states (tr₁ ++ tr₂) c₂ := by
  refine hrun.invariant (I := fun tr₂ c => Doomed states (tr₁ ++ tr₂) c) ?_ ?_
  · rw [List.append_nil]
    exact h
  · intro tr₂ t a u es _ _ hstep ih
    rw [← List.append_assoc]
    exact ih.step (callsStep_move hstep)

end Result

/-- **Requests for states that were never added are rejected cleanly as long as no tick finds one**,
and only then.  If the initial state was added, a run in which every request that a tick
finds is for the current state or one that was added keeps `state()` at the state entered
last, one that was added, and runs exit callbacks for transitions to such states only.  After
a tick that finds another request, or from an initial state that was not added, the run
does not end cleanly, whatever follows. -/
theorem rejects_cleanly [DecidableEq τ] (states : τ → Option (StateConfig ι)) (initial : τ)
    (interval : ℤ) :
    ((states initial).isSome = true →
      (∀ tr c, (callsSystem states initial interval).Run (requestsAdded states) tr c →
        RejectsCleanly states initial tr c) ∧
      ∀ tr c a c₁ es tr₂ c₂, (callsSystem states initial interval).Run (requestsAdded states) tr c →
        (callsSystem states initial interval).step c a = some (c₁, es) →
        ¬ requestsAdded states c a → (callsSystem states initial interval).RunFrom anyStep c₁ tr₂ c₂ →
        c₂.life.stop = .finished → ¬ RejectsCleanly states initial (tr ++ es ++ tr₂) c₂) ∧
    (states initial = none → ∀ tr c, (callsSystem states initial interval).Reachable tr c →
      c.life.stop = .finished → ¬ RejectsCleanly states initial tr c) := by
  refine ⟨fun hinitial => ⟨fun tr c hrun => (addedInv hinitial hrun).clean, ?_⟩, ?_⟩
  · intro tr c a c₁ es tr₂ c₂ hrun hstep hnot hrest hfinished
    have hdoomed := doomed_of_unadded (addedInv hinitial hrun) (callsStep_move hstep) hnot
    exact (doomed_run hdoomed hrest).not_clean hfinished initial
  · intro hinitial tr c hrun hfinished
    have hstart : Doomed states [] (callsSystem states initial interval).start :=
      ⟨placeInv_start, .inr (.unstarted hinitial (.inr nofun)
        fun t (ht : none = some t) => by cases ht)⟩
    exact (doomed_run hstart hrun).not_clean hfinished initial

/-- One state, with two entry callbacks, one exit callback and one tick callback. -/
def oneState : Bool → Option (StateConfig ℕ)
  | false => some ⟨[0], [1, 2], [3]⟩
  | true => none

/-- The tick that has found the request runs the exit callback, `at()` throws, and it throws again in
`worker_on_stop()`. -/
def unaddedStored : List (CallAction Bool) :=
  List.flatten [called, ticking 2, [.life (.run .throw), .life .storeStopped],
    List.replicate 3 (.life .onStop), [.life .onStopThrows]]

theorem rejects_cleanly_unaddedStored :
    (∃ tr c, (callsSystem twoStates false 10).Run (requestsAdded twoStates) tr c ∧
      c.life.stop = .finished ∧ RejectsCleanly twoStates false tr c) ∧
    ∃ tr c, (callsSystem oneState false 10).Reachable tr c ∧ c.life.stop = .finished ∧
      ¬ RejectsCleanly oneState false tr c := by
  have hbefore : (callsSystem oneState false 10).exec untilExit.dropLast = some
      (⟨⟨⟨.looping, ⟨⟨false, 2, maxIterationCount, 10, noTokens⟩,
        .ticking 2⟩, .compare false true, false,
        true, false, Function.update (Function.update (fun _ => .idle) 0 .stored) 0 .idle⟩,
        ⟨false, false, false⟩, .notYet⟩, some [], false⟩,
       [.started, .reads false, .enters false, .entry 1 false ⟨false, false, false⟩,
        .entry 2 false ⟨false, false, false⟩, .tick 0 false, .reads true]) := rfl
  have hstep : (callsSystem oneState false 10).step
      ⟨⟨⟨.looping, ⟨⟨false, 2, maxIterationCount, 10, noTokens⟩,
        .ticking 2⟩, .compare false true, false,
        true, false, Function.update (Function.update (fun _ => .idle) 0 .stored) 0 .idle⟩,
        ⟨false, false, false⟩, .notYet⟩, some [], false⟩ (.life (.run .tick)) = some
      (⟨⟨⟨.looping, ⟨⟨false, 2, maxIterationCount, 10, noTokens⟩,
        .ticking 2⟩, .inExit false true, false,
        true, false, Function.update (Function.update (fun _ => .idle) 0 .stored) 0 .idle⟩,
        ⟨true, false, false⟩, .notYet⟩, some [3], false⟩, []) := rfl
  have hrest : (callsSystem oneState false 10).execFrom
      ⟨⟨⟨.looping, ⟨⟨false, 2, maxIterationCount, 10, noTokens⟩,
        .ticking 2⟩, .inExit false true, false,
        true, false, Function.update (Function.update (fun _ => .idle) 0 .stored) 0 .idle⟩,
        ⟨true, false, false⟩, .notYet⟩, some [3], false⟩ unaddedStored = some
      (⟨⟨⟨.looping, ⟨⟨false, 2, maxIterationCount, 10, noTokens⟩,
        .left true⟩, .inEntry true, true, true,
        false, Function.update (Function.update (fun _ => .idle) 0 .stored) 0 .idle⟩,
        ⟨true, false, false⟩, .finished⟩, none, false⟩,
       [.exit 3 false ⟨true, false, false⟩, .outOfRange true, .outOfRange true]) := rfl
  have hclean := runFrom_of_execFrom (C := requestsAdded twoStates) (by decide +kernel)
    exec_entryThrows
  have hrun := runFrom_of_execFrom (C := requestsAdded oneState) (by decide +kernel) hbefore
  have hstuck := runFrom_of_execFrom (C := anyStep) (by decide +kernel) hrest
  refine ⟨⟨_, _, hclean, rfl, ((rejects_cleanly twoStates false 10).1 rfl).1 _ _ hclean⟩,
    _, _, ((hrun.mono fun _ _ _ => trivial).snoc trivial hstep).append hstuck, rfl, ?_⟩
  exact ((rejects_cleanly oneState false 10).1 rfl).2 _ _ _ _ _ _ _ hrun hstep (by decide +kernel)
    hstuck rfl

/-- The exit callback is run for a transition that does not happen, `state()` is left at a state that
was not added, and the stopped callback is not run. -/
theorem unadded_not_rejected : ∃ tr c, (callsSystem oneState false 10).Reachable tr c ∧
    tr = [.started, .reads false, .enters false, .entry 1 false ⟨false, false, false⟩,
      .entry 2 false ⟨false, false, false⟩, .tick 0 false, .reads true,
      .exit 3 false ⟨true, false, false⟩, .outOfRange true, .outOfRange true] ∧
    c.life.stop = .finished ∧ c.life.machine.currentState = true ∧
    ¬ RejectsCleanly oneState false tr c := by
  have hexec : (callsSystem oneState false 10).exec (untilExit ++ unaddedStored) = some
      (⟨⟨⟨.looping, ⟨⟨false, 2, maxIterationCount, 10, noTokens⟩,
        .left true⟩, .inEntry true, true, true,
        false, Function.update (Function.update (fun _ => .idle) 0 .stored) 0 .idle⟩,
        ⟨true, false, false⟩, .finished⟩, none, false⟩,
       [.started, .reads false, .enters false, .entry 1 false ⟨false, false, false⟩,
        .entry 2 false ⟨false, false, false⟩, .tick 0 false, .reads true,
        .exit 3 false ⟨true, false, false⟩, .outOfRange true, .outOfRange true]) := rfl
  have hrun := runFrom_of_execFrom (C := anyStep) (by decide +kernel) hexec
  refine ⟨_, _, hrun, rfl, rfl, rfl, fun h => ?_⟩
  cases h.state.2

end StateMachine
