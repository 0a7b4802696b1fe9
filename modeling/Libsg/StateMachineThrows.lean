/-
# Callbacks that throw

An exception that leaves a callback of `tick_action()`, or a lookup there, ends the loop; then
`worker_on_stop()` invokes the exit callbacks of the state that is current, and the stopped
callback after them.

What a run shows after a state has been entered are the first of its exit callbacks, each
once, as long as no exit callback throws.  One that throws in a transition has
`worker_on_stop()` begin with them again; one that throws in `worker_on_stop()`, or a
lookup that fails there, has it leave out the stopped callback.
-/
import Libsg.StateMachineCallbacks

open TransitionSystem Worker

namespace StateMachine

variable {τ ι : Type}

/-! ## Where the worker thread is, whatever throws -/

/-- Where the worker thread is in `tick_action()`. -/
def Life.place (l : Life τ) : Option (TickPc τ) :=
  if l.machine.ticking then some l.machine.tick else none

/-- What holds of a life, whatever throws. -/
structure PlaceInv (l : Life τ) : Prop where
  settled : SettledInv l.machine
  ended : l.stop ≠ .notYet → ∃ threw, l.machine.loop.pc = .left threw
  tick : ∀ t, l.place = some t → t.Agrees l.machine.currentState l.details
  stop : l.stop.Agrees l.machine.currentState

/-- A step outside `tick_action()` and `worker_on_stop()` calls the one, returns from it, or goes on
to the other. -/
structure Frames (l l' : Life τ) : Prop where
  current : l'.machine.currentState = l.machine.currentState
  details : l'.details = l.details
  place : l'.place = l.place ∨ l.place = none ∧ l'.place = some .readCurrent ∨
    l.place = some .done ∧ l'.place = none
  stop : l'.stop = l.stop ∨ l.stop = .notYet ∧ l'.stop = .loadNew
  ended : (∃ threw, l.machine.loop.pc = .left threw) → ∃ threw, l'.machine.loop.pc = .left threw
  left : l.stop = .notYet → l'.stop ≠ .notYet → ∃ threw, l'.machine.loop.pc = .left threw

section Place

variable {l l' : Life τ}

theorem place_eq_some {t : TickPc τ} :
    l.place = some t ↔ l.machine.ticking = true ∧ l.machine.tick = t := by
  unfold Life.place
  split
  · next hticking => simp [hticking]
  · next hticking => simp [hticking]

theorem group_of_place {t : TickPc τ} (h : l.place = some t) : l.group = t.group l.details := by
  obtain ⟨hticking, rfl⟩ := place_eq_some.mp h
  exact if_pos hticking

theorem group_of_no_place (h : l.place = none) : l.group = l.stop.group := by
  unfold Life.place at h
  split at h
  · cases h
  · next hticking => exact if_neg hticking

/-- While the worker thread is in `tick_action()` the loop is not over. -/
theorem PlaceInv.notYet (h : PlaceInv l) {t : TickPc τ} (ht : l.place = some t) :
    l.stop = .notYet := by
  by_contra hne
  obtain ⟨threw, hpc⟩ := h.ended hne
  exact not_left_of_ticking (place_eq_some.mp ht).1 threw hpc

theorem PlaceInv.no_place (h : PlaceInv l) (hstop : l.stop ≠ .notYet) : l.place = none := by
  cases hplace : l.place with
  | none => rfl
  | some t => exact absurd (h.notYet hplace) hstop

theorem no_place_of_left {threw : Bool} (h : l.machine.loop.pc = .left threw) : l.place = none := by
  refine if_neg fun hticking => ?_
  exact not_left_of_ticking hticking threw h

/-- The callbacks that the worker thread is at belong to the current state. -/
theorem PlaceInv.group_state (h : PlaceInv l) {g : Group τ} (hgroup : l.group = some g) :
    g.state = l.machine.currentState := by
  cases hplace : l.place with
  | some t =>
    have hagrees := h.tick t hplace
    have hcached := h.settled.cached
    rw [(place_eq_some.mp hplace).2] at hcached
    rw [group_of_place hplace] at hgroup
    cases t <;> cases hgroup
    · exact (hcached _ rfl).symm
    · exact hagrees.1
    · exact hagrees
    · exact hagrees
  | none =>
    have hagrees := h.stop
    rw [group_of_no_place hplace] at hgroup
    cases hstop : l.stop <;> rw [hstop] at hgroup hagrees <;> cases hgroup
    exact hagrees.1

theorem PlaceInv.frame (h : PlaceInv l) (hf : Frames l l') (hsettled : SettledInv l'.machine) :
    PlaceInv l' where
  settled := hsettled
  ended := by
    intro hne
    by_cases hnotYet : l.stop = .notYet
    · exact hf.left hnotYet hne
    · exact hf.ended (h.ended hnotYet)
  tick := by
    intro t ht
    rw [hf.current, hf.details]
    rcases hf.place with hsame | ⟨-, hcalled⟩ | ⟨-, hreturned⟩
    · exact h.tick t (hsame ▸ ht)
    · rw [hcalled] at ht
      cases ht
      trivial
    · rw [hreturned] at ht
      cases ht
  stop := by
    rw [hf.current]
    rcases hf.stop with hsame | ⟨-, hstores⟩
    · rw [hsame]
      exact h.stop
    · rw [hstores]
      trivial

/-- The loop moves. -/
theorem frames_of_loop {c : Control} {pc : LoopPc} {es : List LoopEvent}
    (hphase : l.machine.phase = .looping)
    (hm : LoopMove false l.machine.loop.control l.machine.loop.pc c pc es)
    (hthrows : es ≠ [.ticked true]) (hreturns : es = [.ticked false] → l.machine.tick = .done) :
    Frames l { l with machine := { l.machine with
      loop := ⟨c, pc⟩, tick := if .tick ∈ es then .readCurrent else l.machine.tick } } := by
  obtain ⟨⟨phase, ⟨c₀, pc₀⟩, tick, current, requested, started, callers⟩, details, stop⟩ := l
  dsimp only at hphase hm hreturns ⊢
  subst hphase
  have hended : (∃ threw, pc₀ = .left threw) → ∃ threw, pc = .left threw := by
    rintro ⟨threw, rfl⟩
    cases hm
  refine ⟨rfl, rfl, ?_, .inl rfl, hended, fun hnotYet hne => absurd hnotYet hne⟩
  cases hm with
  | call => exact .inr (.inl ⟨rfl, rfl⟩)
  | tickReturns =>
    cases hreturns rfl
    exact .inr (.inr ⟨rfl, rfl⟩)
  | tickThrows => exact absurd rfl hthrows
  | _ => exact .inl rfl

theorem PlaceInv.onStop (h : PlaceInv l) {es : List (Callback τ)}
    (hstep : onStopStep l = some (l', es)) : PlaceInv l' := by
  have hnot : l.stop ≠ .notYet := by
    intro hnotYet
    rw [onStopStep, hnotYet] at hstep
    cases hstep
  have hplace := h.no_place hnot
  have hended := h.ended hnot
  have hagrees := h.stop
  have hno {stop : StopPc τ} : ∀ t, Life.place { l with stop := stop } = some t →
      t.Agrees l.machine.currentState l.details := by
    intro t ht
    have hnone : Life.place { l with stop := stop } = none := hplace
    rw [hnone] at ht
    cases ht
  unfold onStopStep at hstep
  cases hstop : l.stop <;> rw [hstop] at hstep hagrees <;> cases hstep
  · exact ⟨h.settled, fun _ => hended, hno, rfl⟩
  · refine ⟨h.settled, fun _ => hended, hno, ?_⟩
    rw [hagrees]
    rfl
  · exact ⟨h.settled, fun _ => hended, hno, rfl, hagrees⟩
  · exact ⟨h.settled, fun _ => hended, hno, trivial⟩
  · exact ⟨h.settled, fun _ => hended, hno, trivial⟩

variable [DecidableEq τ]

theorem LifeMove.frames {a : LifeAction τ} {es : List (Callback τ)} (hm : LifeMove l a l' es)
    (hsettled : SettledInv l.machine) (htick : a ≠ .run .tick) (hstop : a ≠ .onStop)
    (hthrow : a ≠ .run .throw) (hthrows : a ≠ .onStopThrows) :
    Frames l l' ∧ SettledInv l'.machine := by
  have hnever {P : Prop} {l : Life τ} (hnotYet : l.stop = .notYet) (hne : l.stop ≠ .notYet) : P :=
    absurd hnotYet hne
  cases hm with
  | launches hphase =>
    refine ⟨⟨rfl, rfl, .inl ?_, .inl rfl, id, hnever⟩, hsettled.step (.launches hphase)⟩
    unfold Life.place
    rw [ticking_of_phase (s := l.machine) (by rw [hphase]; nofun)]
    rfl
  | runs a m hlaunch _ hmove =>
    refine ⟨?_, hsettled.step hmove⟩
    cases hmove with
    | discards | calls | controls => exact ⟨rfl, rfl, .inl rfl, .inl rfl, id, hnever⟩
    | launches => exact absurd rfl hlaunch
    | startReturns hphase =>
      refine ⟨rfl, rfl, .inl ?_, .inl rfl, id, hnever⟩
      have hcheck := hsettled.fresh (by rw [hphase]; nofun)
      unfold Life.place
      rw [ticking_of_phase (s := l.machine) (by rw [hphase]; nofun), State.ticking, hcheck]
    | startThrows hphase =>
      refine ⟨rfl, rfl, .inl ?_, .inl rfl, id, hnever⟩
      unfold Life.place
      rw [ticking_of_phase (s := l.machine) (by rw [hphase]; nofun)]
      rfl
    | loops a c pc les hphase hmove hquiet hreturns =>
      exact frames_of_loop hphase hmove hquiet hreturns
    | ticks => exact absurd rfl htick
    | throws => exact absurd rfl hthrow
  | storesStopped threw hpc hnotYet =>
    exact ⟨⟨rfl, rfl, .inl rfl, .inr ⟨hnotYet, rfl⟩, id, fun _ _ => ⟨threw, hpc⟩⟩, hsettled⟩
  | ticks => exact absurd rfl htick
  | onStop => exact absurd rfl hstop
  | onStopThrows => exact absurd rfl hthrows

/-- `tick_action()` moves. -/
theorem PlaceInv.ticks (h : PlaceInv l) {m : State τ} (hticking : l.machine.ticking = true)
    (hstep : tickStep l.machine = some m) :
    PlaceInv { l with machine := m, details := m.tick.makeDetails l.details } := by
  have hplace : l.place = some l.machine.tick := place_eq_some.mpr ⟨hticking, rfl⟩
  have hnotYet := h.notYet hplace
  have hsettled := h.settled.tick hticking hstep
  have hagrees := h.tick _ hplace
  have hcached := h.settled.cached
  refine ⟨hsettled, fun hne => absurd hnotYet hne, fun t ht => ?_, by rw [hnotYet]; trivial⟩
  obtain ⟨-, rfl⟩ := place_eq_some.mp ht
  obtain ⟨⟨phase, loop, tick, current, requested, started, callers⟩, details, stop⟩ := l
  dsimp only at hstep hagrees hcached ⊢
  unfold tickStep at hstep
  cases tick with
  | readCurrent | readRequested v | inFirstEntry v w | inTick v =>
    cases hstep
    trivial
  | exchangeStarted v w =>
    dsimp only at hstep
    split at hstep <;> cases hstep <;> trivial
  | compare v w =>
    have hcurrent : current = v := hcached v rfl
    subst hcurrent
    dsimp only at hstep
    split at hstep
    · cases hstep
      rfl
    · next hne =>
      cases hstep
      exact ⟨rfl, Ne.symm hne, rfl⟩
  | inExit v w =>
    cases hstep
    exact hagrees.2
  | storeCurrent w =>
    cases hstep
    rfl
  | inEntry w =>
    cases hstep
    exact hagrees
  | done => cases hstep

theorem PlaceInv.throws (h : PlaceInv l) {m : State τ} (hmove : Move l.machine .throw m) :
    PlaceInv { l with machine := m } ∧ Life.place { l with machine := m } = none := by
  have hsettled := h.settled.step hmove
  cases hmove with
  | throws hphase =>
    have hnone := no_place_of_left (l := { l with machine := { l.machine with
      loop := ⟨l.machine.loop.control, .left true⟩ } }) (show _ = Worker.LoopPc.left true from rfl)
    refine ⟨⟨hsettled, fun _ => ⟨true, rfl⟩, fun t ht => ?_, h.stop⟩, hnone⟩
    rw [hnone] at ht
    cases ht
  | calls _ _ _ _ ha | controls _ _ ha => cases ha

theorem PlaceInv.step (h : PlaceInv l) {a : LifeAction τ} {es : List (Callback τ)}
    (hm : LifeMove l a l' es) : PlaceInv l' := by
  by_cases htick : a = .run .tick
  · subst htick
    cases hm with
    | ticks m hticking hstep => exact h.ticks hticking hstep
    | runs _ _ _ hne => exact absurd rfl hne
  by_cases hthrow : a = .run .throw
  · subst hthrow
    cases hm with
    | runs _ m _ _ hmove => exact (h.throws hmove).1
  by_cases hstop : a = .onStop
  · subst hstop
    cases hm with
    | onStop _ _ hstep => exact h.onStop hstep
  by_cases hthrows : a = .onStopThrows
  · subst hthrows
    cases hm with
    | onStopThrows hne =>
      refine ⟨h.settled, fun _ => h.ended hne, fun t ht => ?_, trivial⟩
      have hnone : Life.place { l with stop := .finished } = none := h.no_place hne
      rw [hnone] at ht
      cases ht
  obtain ⟨hf, hsettled⟩ := hm.frames h.settled htick hstop hthrow hthrows
  exact h.frame hf hsettled

end Place

/-! ## What a run has shown since a state was entered -/

/-- The exit callbacks that have been invoked, with the states they were added to. -/
def exitCalls (tr : List (CallEvent τ ι)) : List (ι × τ) :=
  tr.filterMap fun
    | .exit cb state _ => some (cb, state)
    | _ => none

/-- The state that was entered last, and the exit callbacks that have been invoked since. -/
def CallEvent.note (occ : Option (τ × List (ι × τ))) : CallEvent τ ι → Option (τ × List (ι × τ))
  | .enters state => some (state, [])
  | .exit cb state _ => occ.map fun (entered, done) => (entered, done ++ [(cb, state)])
  | _ => occ

def occurrence (tr : List (CallEvent τ ι)) : Option (τ × List (ι × τ)) :=
  tr.foldl CallEvent.note none

theorem occurrence_append (tr es : List (CallEvent τ ι)) :
    occurrence (tr ++ es) = es.foldl CallEvent.note (occurrence tr) :=
  List.foldl_append

theorem note_of_not_enters {es : List (CallEvent τ ι)} (h : ∀ state, .enters state ∉ es) (state : τ)
    (done : List (ι × τ)) :
    es.foldl CallEvent.note (some (state, done)) = some (state, done ++ exitCalls es) := by
  induction es generalizing done with
  | nil => rw [exitCalls, List.filterMap_nil, List.append_nil, List.foldl_nil]
  | cons e es ih =>
    have hlater : ∀ state, .enters state ∉ es := fun state hmem => h state (.tail _ hmem)
    rw [List.foldl_cons]
    cases e with
    | enters s => exact absurd (.head _) (h s)
    | exit cb s details =>
      refine (ih hlater _).trans ?_
      rw [List.append_assoc]
      rfl
    | _ => exact ih hlater done

/-- What has been shown since an entry that is the last one. -/
theorem occurrence_of_enters {tr tr' : List (CallEvent τ ι)} {state : τ}
    (h : ∀ state, .enters state ∉ tr') :
    occurrence (tr ++ .enters state :: tr') = some (state, exitCalls tr') := by
  rw [occurrence_append, List.foldl_cons]
  exact note_of_not_enters h state []

def exitCbsOf (states : τ → Option (StateConfig ι)) (state : τ) : List ι :=
  (states state).elim [] StateConfig.exitCbs

/-- The exit callbacks that are still to be invoked for the state entered last. -/
def Calls.exitsLeft (states : τ → Option (StateConfig ι)) (c : Calls τ ι) : List ι :=
  match c.life.place, c.life.stop with
  | some (.inExit _ _), _ | none, .inExit _ _ => c.rest.getD []
  | some (.storeCurrent _), _ | none, .inStopped | none, .finished => []
  | _, _ => exitCbsOf states c.life.machine.currentState

/-- The stopped callback has been invoked, or not. -/
def StopPc.Shown (tr : List (CallEvent τ ι)) : StopPc τ → Prop
  | .inStopped | .finished => ∃ tr₀, tr = tr₀ ++ [.stopped] ∧ .stopped ∉ tr₀
  | _ => .stopped ∉ tr

/-! ## Runs in which no exit callback throws -/

def Group.leaves : Group τ → Bool
  | .exit _ _ => true
  | _ => false

/-- No exit callback throws, and `worker_on_stop()` finds the state it looks up. -/
def exitsReturn (c : Calls τ ι) : CallAction τ → Prop
  | .life (.run .throw) | .life .onStopThrows => c.life.group.any Group.leaves = false
  | _ => True

/-- A callback throws, or a state is not found. -/
def CallAction.throws : CallAction τ → Bool
  | .life (.run .throw) | .life .onStopThrows => true
  | _ => false

theorem exitsReturn_iff (c : Calls τ ι) (a : CallAction τ) :
    exitsReturn c a ↔ (a.throws = true → c.life.group.any Group.leaves = false) := by
  unfold exitsReturn
  split <;> simp_all [CallAction.throws]

instance (c : Calls τ ι) (a : CallAction τ) : Decidable (exitsReturn c a) :=
  decidable_of_iff _ (exitsReturn_iff c a).symm

/-- What holds of a run in which no exit callback throws. -/
structure ExitInv (states : τ → Option (StateConfig ι)) (tr : List (CallEvent τ ι))
    (c : Calls τ ι) : Prop where
  place : PlaceInv c.life
  exits : ∀ state done, occurrence tr = some (state, done) →
    done ++ (c.exitsLeft states).map (·, state) = (exitCbsOf states state).map (·, state) ∧
      (c.exitsLeft states ≠ [] → state = c.life.machine.currentState)
  stopped : c.life.stop.Shown tr

section Exits

variable {states : τ → Option (StateConfig ι)} {tr es : List (CallEvent τ ι)} {c c' : Calls τ ι}

theorem note_reads (requested : τ) (t : TickPc τ) (occ : Option (τ × List (ι × τ))) :
    (t.reads requested).foldl CallEvent.note occ = occ := by
  cases t <;> rfl

theorem note_shows (les : List (Callback τ)) (occ : Option (τ × List (ι × τ))) :
    (les.filterMap Callback.shows).foldl CallEvent.note occ = occ := by
  induction les with
  | nil => rfl
  | cons e les ih => cases e <;> exact ih

theorem note_looksUp (g : Group τ) (occ : Option (τ × List (ι × τ))) :
    (g.looksUp states).foldl CallEvent.note occ =
      match g with
      | .entry state _ => if (states state).isSome then some (state, []) else occ
      | _ => occ := by
  unfold Group.looksUp
  cases g <;> dsimp only [Group.state] <;> cases states _ <;> rfl

variable (states) in
theorem looksUp_of_group {l : Life τ} {g : Group τ} (hgroup : l.group = some g) :
    l.looksUp states = g.looksUp states ∧ l.cbs states = g.cbs states := by
  constructor
  · rw [Life.looksUp, hgroup]
  · rw [Life.cbs, hgroup]

theorem looksUp_of_no_group {l : Life τ} (hgroup : l.group = none) : l.looksUp states = [] := by
  rw [Life.looksUp, hgroup]

theorem exitCbs_getD (states : τ → Option (StateConfig ι)) (state : τ)
    (details : StateChangeDetails τ) :
    ((Group.exit state details).cbs states).getD [] = exitCbsOf states state := by
  unfold Group.cbs exitCbsOf
  dsimp only
  cases states state <;> rfl

/-- Nothing has been entered or left, and as much is to be left as before. -/
theorem ExitInv.of_same (h : ExitInv states tr c) (hplace : PlaceInv c'.life)
    (hnote : es.foldl CallEvent.note (occurrence tr) = occurrence tr)
    (hcurrent : c'.life.machine.currentState = c.life.machine.currentState)
    (hleft : c'.exitsLeft states = c.exitsLeft states)
    (hstopped : c'.life.stop.Shown (tr ++ es)) : ExitInv states (tr ++ es) c' where
  place := hplace
  exits := by
    intro state done hocc
    rw [occurrence_append, hnote] at hocc
    rw [hleft, hcurrent]
    exact h.exits state done hocc
  stopped := hstopped

theorem not_stopped_reads (requested : τ) (t : TickPc τ) :
    .stopped ∉ (t.reads requested : List (CallEvent τ ι)) := by
  unfold TickPc.reads
  split <;> simp

theorem not_stopped_looksUp (l : Life τ) : .stopped ∉ l.looksUp states := by
  unfold Life.looksUp Group.looksUp
  split
  · split <;> simp
  · simp

/-- Until the stopped callback has been invoked it is not shown. -/
theorem StopPc.Shown.append {stop stop' : StopPc τ} (h : stop.Shown tr)
    (hbefore : stop ≠ .inStopped ∧ stop ≠ .finished) (hafter : stop' ≠ .inStopped ∧ stop' ≠ .finished)
    (hnot : .stopped ∉ es) : stop'.Shown (tr ++ es) := by
  have htr : .stopped ∉ tr := by
    cases stop with
    | inStopped => exact absurd rfl hbefore.1
    | finished => exact absurd rfl hbefore.2
    | _ => exact h
  have happend : .stopped ∉ tr ++ es := by
    rw [List.mem_append]
    rintro (hmem | hmem)
    · exact htr hmem
    · exact hnot hmem
  cases stop' with
  | inStopped => exact absurd rfl hafter.1
  | finished => exact absurd rfl hafter.2
  | _ => exact happend

/-- The steps outside `tick_action()` and `worker_on_stop()`. -/
theorem ExitInv.frame (h : ExitInv states tr c) {l : Life τ} (hf : Frames c.life l)
    (hplace : PlaceInv l) {les : List (Callback τ)}
    (hquiet : les = [] ∨ les = [.started] ∧ c.life.stop = .notYet) :
    ExitInv states (tr ++ les.filterMap Callback.shows) { c with life := l } := by
  refine h.of_same hplace (note_shows les _) hf.current ?_ ?_
  · unfold Calls.exitsLeft
    rw [hf.current]
    rcases hf.place with hsame | ⟨hnone, hcalled⟩ | ⟨hdone, hnone⟩
    · dsimp only
      rw [hsame]
      rcases hf.stop with hstop | ⟨hnotYet, hstores⟩
      · rw [hstop]
      · rw [hnotYet, hstores]
        cases c.life.place with
        | none => rfl
        | some t => cases t <;> rfl
    · have hnotYet := hplace.notYet hcalled
      rcases hf.stop with hstop | ⟨-, hstores⟩
      · rw [hnone, hcalled, ← hstop, hnotYet]
      · rw [hstores] at hnotYet
        cases hnotYet
    · have hnotYet := h.place.notYet hdone
      rcases hf.stop with hstop | ⟨-, hstores⟩
      · rw [hdone, hnone, hstop, hnotYet]
      · rw [hdone, hnone, hstores, hnotYet]
  · have hnotShown : .stopped ∉ (les.filterMap Callback.shows : List (CallEvent τ ι)) := by
      rcases hquiet with rfl | ⟨rfl, -⟩ <;> simp [Callback.shows]
    rcases hf.stop with hstop | ⟨hnotYet, hstores⟩
    · rcases hquiet with rfl | ⟨-, hnotYet⟩
      · rw [List.filterMap_nil, List.append_nil, hstop]
        exact h.stopped
      · refine h.stopped.append ?_ ?_ hnotShown
        · rw [hnotYet]
          exact ⟨nofun, nofun⟩
        · rw [hstop, hnotYet]
          exact ⟨nofun, nofun⟩
    · refine h.stopped.append ?_ ?_ hnotShown
      · rw [hnotYet]
        exact ⟨nofun, nofun⟩
      · rw [hstores]
        exact ⟨nofun, nofun⟩

variable (states) in
/-- In a loop over exit callbacks those are left that it has still to invoke, in another all. -/
theorem exitsLeft_of_group {g : Group τ} (hgroup : c.life.group = some g) :
    c.exitsLeft states =
      if g.leaves then c.rest.getD [] else exitCbsOf states c.life.machine.currentState := by
  unfold Calls.exitsLeft
  cases hplace : c.life.place with
  | some t =>
    rw [group_of_place hplace] at hgroup
    cases t <;> cases hgroup <;> rfl
  | none =>
    rw [group_of_no_place hplace] at hgroup
    cases hstop : c.life.stop <;> rw [hstop] at hgroup <;> cases hgroup
    rfl

/-- The stopped callback is not invoked before the last loop over callbacks. -/
theorem PlaceInv.unstopped {l : Life τ} (h : PlaceInv l) {g : Group τ} (hgroup : l.group = some g) :
    l.stop ≠ .inStopped ∧ l.stop ≠ .finished := by
  cases hplace : l.place with
  | some t =>
    rw [h.notYet hplace]
    exact ⟨nofun, nofun⟩
  | none =>
    rw [group_of_no_place hplace] at hgroup
    cases hstop : l.stop <;> rw [hstop] at hgroup <;> cases hgroup
    exact ⟨nofun, nofun⟩

/-- A callback is invoked. -/
theorem ExitInv.invokes (h : ExitInv states tr c) {g : Group τ} {cb : ι} {rest : List ι}
    (hgroup : c.life.group = some g) (hrest : c.rest = some (cb :: rest)) :
    ExitInv states (tr ++ [g.invokes cb]) { c with rest := some rest, calling := true } := by
  have hunstopped := h.place.unstopped hgroup
  have hcurrent := h.place.group_state hgroup
  have hbefore := exitsLeft_of_group states hgroup
  have hafter := exitsLeft_of_group states
    (c := { c with rest := some rest, calling := true }) hgroup
  refine ⟨h.place, fun state done hocc => ?_, h.stopped.append hunstopped hunstopped ?_⟩
  · rw [occurrence_append, List.foldl_cons, List.foldl_nil] at hocc
    cases g with
    | exit s details =>
      obtain ⟨⟨entered, before⟩, hocc₀, heq⟩ := Option.map_eq_some_iff.mp hocc
      cases heq
      obtain ⟨hdone, hsame⟩ := h.exits _ _ hocc₀
      rw [hbefore, hrest] at hdone hsame
      have hstate : state = s := (hsame (List.cons_ne_nil _ _)).trans hcurrent.symm
      subst hstate
      rw [hafter, List.append_assoc]
      exact ⟨hdone, fun _ => hcurrent⟩
    | entry | tick =>
      rw [hafter.trans hbefore.symm]
      exact h.exits state done hocc
  · cases g <;> simp [Group.invokes]

/-- `worker_on_stop()` moves. -/
theorem ExitInv.onStop (h : ExitInv states tr c) {l : Life τ} {les : List (Callback τ)}
    (hallows : c.allows .onStop = true) (hstep : onStopStep c.life = some (l, les)) :
    ExitInv states (tr ++ (l.looksUp states ++ les.filterMap Callback.shows))
      ⟨l, l.cbs states, false⟩ := by
  have hplace' := h.place.onStop hstep
  have hnone : c.life.place = none := h.place.no_place fun hnotYet => by
    rw [onStopStep, hnotYet] at hstep
    cases hstep
  have hstopped := h.stopped
  have hrest := fun g (hg : c.life.group = some g) => (rest_of_allows (.inr rfl) hallows hg).1
  have hgroup := group_of_no_place hnone
  unfold onStopStep at hstep
  cases hstop : c.life.stop with
  | notYet | finished =>
    rw [hstop] at hstep
    cases hstep
  | loadNew | loadOld newState =>
    rw [hstop] at hstep hstopped
    cases hstep
    have hnone' := hplace'.no_place (by simp)
    rw [looksUp_of_no_group (group_of_no_place hnone')]
    refine h.of_same hplace' rfl rfl ?_ ?_
    · rw [Calls.exitsLeft, Calls.exitsLeft, hnone, hstop, hnone']
    · show .stopped ∉ tr ++ []
      rw [List.append_nil]
      exact hstopped
  | lookUp details =>
    rw [hstop] at hstep hstopped
    cases hstep
    have hnone' := hplace'.no_place (by simp)
    obtain ⟨hlooks, hcbs⟩ := looksUp_of_group states (group_of_no_place hnone')
    refine h.of_same hplace' ?_ rfl ?_ ?_
    · rw [hlooks, List.foldl_append, note_shows, note_looksUp]
    · rw [Calls.exitsLeft, Calls.exitsLeft, hnone, hstop, hnone', hcbs]
      exact exitCbs_getD states _ details
    · refine hstopped.append ⟨by simp, by simp⟩ ⟨by simp, by simp⟩ ?_
      rw [List.mem_append]
      rintro (hmem | hmem)
      · exact not_stopped_looksUp _ hmem
      · simp [Callback.shows] at hmem
  | inExit state details =>
    rw [hstop] at hstep hstopped hgroup
    cases hstep
    have hnone' := hplace'.no_place (by simp)
    rw [looksUp_of_no_group (group_of_no_place hnone')]
    refine h.of_same hplace' rfl rfl ?_ ?_
    · rw [Calls.exitsLeft, Calls.exitsLeft, hnone, hstop, hnone', hrest _ hgroup]
      rfl
    · exact ⟨tr, rfl, hstopped⟩
  | inStopped =>
    rw [hstop] at hstep hstopped
    cases hstep
    have hnone' := hplace'.no_place (by simp)
    rw [looksUp_of_no_group (group_of_no_place hnone')]
    refine h.of_same hplace' rfl rfl ?_ ?_
    · rw [Calls.exitsLeft, Calls.exitsLeft, hnone, hstop, hnone']
    · rw [List.filterMap_nil, List.append_nil, List.append_nil]
      exact hstopped

variable [DecidableEq τ]

/-- `tick_action()` moves: what has been left is left, and what is entered is to be left. -/
theorem ExitInv.exits_ticks (h : ExitInv states tr c) {l : Life τ} {les : List (Callback τ)}
    (hallows : c.allows (.run .tick) = true) (hstep : lifeStep c.life (.run .tick) = some (l, les))
    {state : τ} {done : List (ι × τ)}
    (hocc : (l.looksUp states).foldl CallEvent.note (occurrence tr) = some (state, done)) :
    done ++ (Calls.exitsLeft states ⟨l, l.cbs states, false⟩).map (·, state) =
        (exitCbsOf states state).map (·, state) ∧
      (Calls.exitsLeft states ⟨l, l.cbs states, false⟩ ≠ [] → state = l.machine.currentState) := by
  have hmove := lifeStep_move hstep
  cases hmove with
  | runs _ _ _ htick => exact absurd rfl htick
  | ticks m hticking htickStep =>
  have hplace : c.life.place = some c.life.machine.tick := place_eq_some.mpr ⟨hticking, rfl⟩
  have hplace' : Life.place { c.life with machine := m, details := m.tick.makeDetails c.life.details }
      = some m.tick := place_eq_some.mpr ⟨(tickStep_ticking htickStep).trans hticking, rfl⟩
  have hgroup := group_of_place hplace
  have hgroup' := group_of_place hplace'
  have hrest := fun g (hg : c.life.group = some g) => (rest_of_allows (.inl rfl) hallows hg).1
  have hexits := h.exits
  have hcached := h.place.settled.cached
  unfold Calls.exitsLeft at hexits ⊢
  rw [hplace] at hexits
  rw [hplace']
  obtain ⟨⟨⟨phase, loop, tick, current, requested, started, callers⟩, details, stop⟩, rest, calling⟩
    := c
  dsimp only at *
  rw [hgroup] at hrest
  unfold tickStep at htickStep
  cases tick with
  | readCurrent | readRequested v | inFirstEntry v w | inTick v =>
    cases htickStep
    rw [looksUp_of_no_group hgroup'] at hocc
    exact hexits state done hocc
  | exchangeStarted v w =>
    have hv : current = v := hcached v rfl
    subst hv
    dsimp only at htickStep
    split at htickStep
    · cases htickStep
      rw [(looksUp_of_group states hgroup').1, note_looksUp] at hocc
      dsimp only at hocc
      split at hocc
      · cases hocc
        exact ⟨rfl, fun _ => rfl⟩
      · exact hexits state done hocc
    · cases htickStep
      rw [looksUp_of_no_group hgroup'] at hocc
      exact hexits state done hocc
  | compare v w =>
    have hv : current = v := hcached v rfl
    subst hv
    dsimp only at htickStep
    split at htickStep
    · cases htickStep
      rw [(looksUp_of_group states hgroup').1, note_looksUp] at hocc
      exact hexits state done hocc
    · cases htickStep
      rw [(looksUp_of_group states hgroup').1, note_looksUp] at hocc
      rw [(looksUp_of_group states hgroup').2]
      dsimp only [TickPc.makeDetails]
      rw [exitCbs_getD]
      exact hexits state done hocc
  | inExit v w =>
    cases htickStep
    have hdone : rest = some [] := hrest _ rfl
    subst hdone
    rw [looksUp_of_no_group hgroup'] at hocc
    exact hexits state done hocc
  | storeCurrent w =>
    cases htickStep
    rw [(looksUp_of_group states hgroup').1, note_looksUp] at hocc
    dsimp only at hocc
    split at hocc
    · cases hocc
      exact ⟨rfl, fun _ => rfl⟩
    · next hunknown =>
      have hnone : exitCbsOf states w = [] := by
        rw [exitCbsOf, Option.not_isSome_iff_eq_none.mp hunknown]
        rfl
      dsimp only
      rw [hnone]
      exact ⟨(hexits state done hocc).1, fun hne => absurd rfl hne⟩
  | inEntry w =>
    cases htickStep
    rw [(looksUp_of_group states hgroup').1, note_looksUp] at hocc
    exact hexits state done hocc
  | done => cases htickStep

theorem ExitInv.ticks (h : ExitInv states tr c) {l : Life τ} {les : List (Callback τ)}
    (hallows : c.allows (.run .tick) = true)
    (hstep : lifeStep c.life (.run .tick) = some (l, les)) : ExitInv states
      (tr ++ (c.life.machine.tick.reads c.life.machine.requestedState ++ l.looksUp states))
      ⟨l, l.cbs states, false⟩ := by
  obtain ⟨hticking, -, -, hstop⟩ := lifeStep_tick hstep
  have hnotYet := h.place.notYet (place_eq_some.mpr ⟨hticking, rfl⟩)
  refine ⟨h.place.step (lifeStep_move hstep), fun state done hocc => ?_, h.stopped.append ?_ ?_ ?_⟩
  · rw [occurrence_append, List.foldl_append, note_reads] at hocc
    exact h.exits_ticks hallows hstep hocc
  · rw [hnotYet]
    exact ⟨nofun, nofun⟩
  · rw [hstop, hnotYet]
    exact ⟨nofun, nofun⟩
  · rw [List.mem_append]
    rintro (hmem | hmem)
    · exact not_stopped_reads _ _ hmem
    · exact not_stopped_looksUp l hmem

/-- A callback throws. -/
theorem lifeStep_throw {l l' : Life τ} {les : List (Callback τ)}
    (h : lifeStep l (.run .throw) = some (l', les)) : les = [] ∧
      (∃ t, l.place = some t ∧ t.inCallback = true) ∧ l' = { l with machine := { l.machine with
        loop := ⟨l.machine.loop.control, .left true⟩ } } := by
  obtain ⟨⟨m, mes⟩, hthrow, heq⟩ := Option.map_eq_some_iff.mp h
  cases heq
  simp only [StateMachine.step] at hthrow
  split at hthrow
  · next hcond =>
    obtain ⟨⟨control, pc, es⟩, hloop, heq⟩ := Option.map_eq_some_iff.mp hthrow
    cases heq
    cases hpc : l.machine.loop.pc with
    | ticking n =>
      rw [hpc] at hloop
      cases hloop
      refine ⟨rfl, ⟨_, place_eq_some.mpr ⟨?_, rfl⟩, hcond.2⟩, rfl⟩
      rw [State.ticking, hcond.1, hpc]
    | _ =>
      rw [hpc] at hloop
      cases hloop
  · cases hthrow

/-- Whatever throws, the loop is over and the current state stays as it is. -/
theorem PlaceInv.leaves {l l' : Life τ} (h : PlaceInv l) {a : LifeAction τ}
    {les : List (Callback τ)} (ha : a = .run .throw ∨ a = .onStopThrows)
    (hstep : lifeStep l a = some (l', les)) :
    les = [] ∧ l'.place = none ∧ (∃ threw, l'.machine.loop.pc = .left threw) ∧
      l'.machine.currentState = l.machine.currentState := by
  rcases ha with rfl | rfl
  · obtain ⟨rfl, -, rfl⟩ := lifeStep_throw hstep
    exact ⟨rfl, no_place_of_left (show _ = Worker.LoopPc.left true from rfl), ⟨true, rfl⟩, rfl⟩
  · have hm := lifeStep_move hstep
    have hplace' := h.step hm
    cases hm with
    | onStopThrows hne => exact ⟨rfl, hplace'.no_place nofun, h.ended hne, rfl⟩

/-- A callback throws that is no exit callback. -/
theorem ExitInv.throws (h : ExitInv states tr c) {l : Life τ} {les : List (Callback τ)}
    (hreturn : c.life.group.any Group.leaves = false)
    (hstep : lifeStep c.life (.run .throw) = some (l, les)) :
    ExitInv states (tr ++ les.filterMap Callback.shows) ⟨l, c.rest, false⟩ := by
  have hplace' := h.place.step (lifeStep_move hstep)
  obtain ⟨rfl, ⟨t, hplace, hcallback⟩, rfl⟩ := lifeStep_throw hstep
  have hnotYet := h.place.notYet hplace
  have hnone := no_place_of_left (l := { c.life with machine := { c.life.machine with
    loop := ⟨c.life.machine.loop.control, .left true⟩ } }) (show _ = Worker.LoopPc.left true from rfl)
  rw [group_of_place hplace] at hreturn
  refine h.of_same hplace' rfl rfl ?_ ?_
  · rw [Calls.exitsLeft, hnone, Calls.exitsLeft, hplace]
    dsimp only
    rw [hnotYet]
    cases t with
    | inExit => cases hreturn
    | storeCurrent => cases hcallback
    | _ => rfl
  · rw [List.filterMap_nil, List.append_nil]
    exact h.stopped

/-- The stopped callback throws. -/
theorem ExitInv.onStopThrows (h : ExitInv states tr c) {l : Life τ} {les : List (Callback τ)}
    (hreturn : c.life.group.any Group.leaves = false) (hallows : c.allows .onStopThrows = true)
    (hstep : lifeStep c.life .onStopThrows = some (l, les)) :
    ExitInv states (tr ++ les.filterMap Callback.shows) ⟨l, c.rest, false⟩ := by
  have hplace' := h.place.step (lifeStep_move hstep)
  have hstopped := h.stopped
  cases hstop : c.life.stop with
  | inStopped =>
    have hnone : c.life.place = none := h.place.no_place (by rw [hstop]; nofun)
    rw [hstop] at hstopped
    simp only [lifeStep, hstop] at hstep
    cases hstep
    refine h.of_same hplace' rfl rfl ?_ ?_
    · rw [Calls.exitsLeft, hplace'.no_place nofun, Calls.exitsLeft, hnone, hstop]
    · rw [List.filterMap_nil, List.append_nil]
      exact hstopped
  | inExit state details =>
    have hnone : c.life.place = none := h.place.no_place (by rw [hstop]; nofun)
    rw [group_of_no_place hnone, hstop] at hreturn
    cases hreturn
  | _ => simp [Calls.allows, hstop] at hallows

/-- The machine is started once. -/
theorem LifeMove.shows {l l' : Life τ} {a : LifeAction τ} {les : List (Callback τ)}
    (hm : LifeMove l a l' les) (h : PlaceInv l) (htick : a ≠ .run .tick) (hstop : a ≠ .onStop) :
    les = [] ∨ les = [.started] ∧ l.stop = .notYet := by
  cases hm with
  | launches hphase =>
    refine .inr ⟨rfl, ?_⟩
    by_contra hne
    obtain ⟨threw, hpc⟩ := h.ended hne
    have hcheck := h.settled.fresh (by rw [hphase]; nofun)
    rw [hpc] at hcheck
    cases hcheck
  | ticks => exact absurd rfl htick
  | onStop => exact absurd rfl hstop
  | runs | storesStopped | onStopThrows => exact .inl rfl

theorem ExitInv.step (h : ExitInv states tr c) {a : CallAction τ} (hreturn : exitsReturn c a)
    (hm : CallsMove states c a c' es) : ExitInv states (tr ++ es) c' := by
  cases hm with
  | ticks l les hallows hstep => exact h.ticks hallows hstep
  | onStop l les hallows hstep => exact h.onStop hallows hstep
  | throws a l les hallows ha hstep =>
    rcases ha with rfl | rfl
    · exact h.throws hreturn hstep
    · exact h.onStopThrows hreturn hallows hstep
  | lives a l les htick hstop hthrow hthrows hstep =>
    have hmove := lifeStep_move hstep
    obtain ⟨hf, -⟩ := hmove.frames h.place.settled htick hstop hthrow hthrows
    exact h.frame hf (h.place.step hmove) (hmove.shows h.place htick hstop)
  | invokes g cb rest hgroup hrest => exact h.invokes hgroup hrest
  | returns =>
    rw [List.append_nil]
    exact ⟨h.place, h.exits, h.stopped⟩

end Exits

/-! ## The result -/

section Result

variable [DecidableEq τ] {states : τ → Option (StateConfig ι)} {initial : τ} {interval : ℤ}

theorem placeInv_start : PlaceInv (lifeSystem initial interval).start where
  settled := (lifeInv (RunFrom.nil (M := lifeSystem initial interval))).1.settled
  ended := fun hne => absurd rfl hne
  tick := fun t (ht : none = some t) => by cases ht
  stop := trivial

theorem exitInv {tr : List (CallEvent τ ι)} {c : Calls τ ι}
    (h : (callsSystem states initial interval).Run exitsReturn tr c) : ExitInv states tr c := by
  refine Run.invariant (I := ExitInv states) ?_ ?_ h
  · exact ⟨placeInv_start, nofun, nofun⟩
  · intro tr c a c' es _ hreturn hstep ih
    exact ih.step hreturn (callsStep_move hstep)

/-- A step shows one event at most. -/
theorem callsStep_single {c c' : Calls τ ι} {a : CallAction τ} {es : List (CallEvent τ ι)}
    (hplace : PlaceInv c.life) (h : callsStep states c a = some (c', es)) : es.length ≤ 1 := by
  have hlooks (l : Life τ) : (l.looksUp states).length ≤ 1 := by
    unfold Life.looksUp Group.looksUp
    split
    · split <;> simp
    · simp
  have hm := callsStep_move h
  cases hm with
  | ticks l les hallows hstep =>
    obtain ⟨hticking, htickStep, -, -⟩ := lifeStep_tick hstep
    cases htick : c.life.machine.tick with
    | readRequested v =>
      have hplace' : l.place = some l.machine.tick :=
        place_eq_some.mpr ⟨(tickStep_ticking htickStep).trans hticking, rfl⟩
      have hgroup := group_of_place hplace'
      rw [tickStep, htick] at htickStep
      rw [← Option.some.inj htickStep] at hgroup
      rw [looksUp_of_no_group hgroup]
      exact Nat.le_refl 1
    | _ => exact hlooks l
  | onStop l les hallows hstep =>
    have hplace' := hplace.onStop hstep
    change onStopStep c.life = some (l, les) at hstep
    unfold onStopStep at hstep
    split at hstep <;> cases hstep
    case h_4 =>
      -- the stopped callback is not looked up
      have hnone := hplace'.no_place (by simp)
      rw [looksUp_of_no_group (group_of_no_place hnone)]
      exact Nat.le_refl 1
    all_goals
      show (Life.looksUp states _ ++ []).length ≤ 1
      rw [List.append_nil]
      exact hlooks _
  | throws a l les hallows ha hstep =>
    rcases (lifeStep_move hstep).shows hplace (by rcases ha with rfl | rfl <;> simp)
      (by rcases ha with rfl | rfl <;> simp) with rfl | ⟨rfl, -⟩
    · exact Nat.zero_le 1
    · exact Nat.le_refl 1
  | lives a l les htick hstop hthrow hthrows hstep =>
    rcases (lifeStep_move hstep).shows hplace htick hstop with rfl | ⟨rfl, -⟩
    · exact Nat.zero_le 1
    · exact Nat.le_refl 1
  | invokes | returns => simp

/-- What the callbacks have shown when their pairing holds: since a state was entered, the first of
its exit callbacks, each once; the stopped callback once, after everything else, by the end. -/
structure ExitsOnce (states : τ → Option (StateConfig ι)) (tr : List (CallEvent τ ι))
    (c : Calls τ ι) : Prop where
  exits : ∀ tr₁ state tr₂ tr₃, tr = tr₁ ++ .enters state :: (tr₂ ++ tr₃) →
    (∀ s, .enters s ∉ tr₂) → exitCalls tr₂ <+: (exitCbsOf states state).map (·, state)
  stopped : .stopped ∈ tr → ∃ tr₀, tr = tr₀ ++ [.stopped] ∧ .stopped ∉ tr₀
  finished : c.life.stop = .finished → .stopped ∈ tr

theorem exitsOnce {tr : List (CallEvent τ ι)} {c : Calls τ ι}
    (h : (callsSystem states initial interval).Run exitsReturn tr c) : ExitsOnce states tr c where
  exits := by
    rintro tr₁ state tr₂ tr₃ rfl hlast
    have hstart : tr₁ ++ .enters state :: tr₂ <+: tr₁ ++ .enters state :: (tr₂ ++ tr₃) :=
      ⟨tr₃, by rw [List.append_assoc, List.cons_append]⟩
    obtain ⟨c₀, hrun₀⟩ := Run.of_prefix (fun _ c _ _ _ hrun hstep =>
      callsStep_single (exitInv hrun).place hstep) h hstart
    obtain ⟨hdone, -⟩ := (exitInv hrun₀).exits state (exitCalls tr₂) (occurrence_of_enters hlast)
    exact ⟨_, hdone⟩
  stopped := by
    intro hmem
    have hshown := (exitInv h).stopped
    cases hstop : c.life.stop <;> rw [hstop] at hshown
    case inStopped | finished => exact hshown
    all_goals exact absurd hmem hshown
  finished := by
    intro hstop
    have hshown := (exitInv h).stopped
    rw [hstop] at hshown
    obtain ⟨tr₀, rfl, -⟩ := hshown
    exact List.mem_append_right _ (.head _)

end Result

/-- **Exit callbacks are run once, and the stopped callback after them, as long as no exit callback
throws** and `worker_on_stop()` finds the state that it looks up.  Whatever entry, tick or
stopped callback throws, and whatever lookup of `tick_action()` fails, the exit callbacks
that are invoked between the entry of a state and the next one are the first of those of
the state, each once; the stopped callback is invoked once, after every other callback, by
the end of `worker_on_stop()`. -/
theorem exits_once [DecidableEq τ] (states : τ → Option (StateConfig ι)) (initial : τ)
    (interval : ℤ) (tr : List (CallEvent τ ι)) (c : Calls τ ι)
    (h : (callsSystem states initial interval).Run exitsReturn tr c) : ExitsOnce states tr c :=
  exitsOnce h

/-- `worker_on_stop()`, with one exit callback. -/
def stopsOnce : List (CallAction Bool) :=
  List.flatten [[.life .storeStopped], List.replicate 3 (.life .onStop), called,
    List.replicate 2 (.life .onStop)]

/-- The first entry callback of the second state throws. -/
def entryThrows : List (CallAction Bool) :=
  List.flatten [untilExit, called, ticking 2, [.invoke, .life (.run .throw)], stopsOnce]

theorem exec_entryThrows : (callsSystem twoStates false 10).exec entryThrows = some
    (⟨⟨⟨.looping, ⟨⟨false, 2, maxIterationCount, 10, noTokens⟩,
      .left true⟩, .inEntry true, true, true,
      false, Function.update (Function.update (fun _ => .idle) 0 .stored) 0 .idle⟩,
      ⟨true, false, false⟩, .finished⟩, some [], false⟩,
     [.started, .reads false, .enters false, .entry 1 false ⟨false, false, false⟩,
      .entry 2 false ⟨false, false, false⟩, .tick 0 false, .reads true,
      .exit 3 false ⟨true, false, false⟩, .enters true, .entry 5 true ⟨true, false, false⟩,
      .exit 7 true ⟨true, true, false⟩, .stopped]) := (rfl)

theorem exits_once_entryThrows : ∃ tr c, (callsSystem twoStates false 10).Run exitsReturn tr c ∧
    tr = [.started, .reads false, .enters false, .entry 1 false ⟨false, false, false⟩,
      .entry 2 false ⟨false, false, false⟩, .tick 0 false, .reads true,
      .exit 3 false ⟨true, false, false⟩, .enters true, .entry 5 true ⟨true, false, false⟩,
      .exit 7 true ⟨true, true, false⟩, .stopped] ∧
    c.life.stop = .finished ∧ ExitsOnce twoStates tr c := by
  have hrun := runFrom_of_execFrom (C := exitsReturn) (by decide +kernel) exec_entryThrows
  exact ⟨_, _, hrun, rfl, rfl, exits_once twoStates false 10 _ _ hrun⟩

/-- The exit callback throws in the transition. -/
def exitThrows : List (CallAction Bool) :=
  List.flatten [untilExit, [.invoke, .life (.run .throw)], stopsOnce]

/-- The exit callback throws in `worker_on_stop()`. -/
def lastExitThrows : List (CallAction Bool) :=
  List.flatten [untilExit, called, ticking 2, [.invoke, .life (.run .throw), .life .storeStopped],
    List.replicate 3 (.life .onStop), [.invoke, .life .onStopThrows]]

/-- An exit callback that throws in the transition is run once more, and one that throws in
`worker_on_stop()` keeps the stopped callback from being run. -/
theorem exits_twice :
    (∃ tr c, (callsSystem twoStates false 10).Reachable tr c ∧
      tr = [.started, .reads false, .enters false, .entry 1 false ⟨false, false, false⟩,
        .entry 2 false ⟨false, false, false⟩, .tick 0 false, .reads true,
        .exit 3 false ⟨true, false, false⟩, .exit 3 false ⟨false, false, false⟩, .stopped] ∧
      c.life.stop = .finished ∧ ¬ ExitsOnce twoStates tr c) ∧
    ∃ tr c, (callsSystem twoStates false 10).Reachable tr c ∧ c.life.stop = .finished ∧
      .stopped ∉ tr ∧ ¬ ExitsOnce twoStates tr c := by
  have hexec : (callsSystem twoStates false 10).exec exitThrows = some
      (⟨⟨⟨.looping, ⟨⟨false, 2, maxIterationCount, 10, noTokens⟩,
        .left true⟩, .inExit false true, false,
        true, false, Function.update (Function.update (fun _ => .idle) 0 .stored) 0 .idle⟩,
        ⟨true, false, false⟩, .finished⟩, some [], false⟩,
       [.started, .reads false, .enters false, .entry 1 false ⟨false, false, false⟩,
        .entry 2 false ⟨false, false, false⟩, .tick 0 false, .reads true,
        .exit 3 false ⟨true, false, false⟩, .exit 3 false ⟨false, false, false⟩, .stopped]) := rfl
  have hlast : (callsSystem twoStates false 10).exec lastExitThrows = some
      (⟨⟨⟨.looping, ⟨⟨false, 2, maxIterationCount, 10, noTokens⟩,
        .left true⟩, .inEntry true, true, true,
        false, Function.update (Function.update (fun _ => .idle) 0 .stored) 0 .idle⟩,
        ⟨true, false, false⟩, .finished⟩, some [], false⟩,
       [.started, .reads false, .enters false, .entry 1 false ⟨false, false, false⟩,
        .entry 2 false ⟨false, false, false⟩, .tick 0 false, .reads true,
        .exit 3 false ⟨true, false, false⟩, .enters true, .entry 5 true ⟨true, false, false⟩,
        .exit 7 true ⟨true, true, false⟩]) := rfl
  have hrun := runFrom_of_execFrom (C := anyStep) (by decide +kernel) hexec
  have hrun' := runFrom_of_execFrom (C := anyStep) (by decide +kernel) hlast
  refine ⟨⟨_, _, hrun, rfl, rfl, fun h => ?_⟩, _, _, hrun', rfl, by decide, fun h => ?_⟩
  · have hstart := h.exits [.started, .reads false] false
      [.entry 1 false ⟨false, false, false⟩, .entry 2 false ⟨false, false, false⟩, .tick 0 false,
        .reads true, .exit 3 false ⟨true, false, false⟩, .exit 3 false ⟨false, false, false⟩,
        .stopped] [] rfl (by decide)
    revert hstart
    decide
  · have hstopped := h.finished rfl
    revert hstopped
    decide

end StateMachine
