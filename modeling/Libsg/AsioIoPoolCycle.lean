/-
# The cycles of an io pool

`m_mutex` is held from the lock in `run()` or `stop_async()` to their return (`LockInv`).
Whoever runs a cycle owns it: first the `run()` that has activated it, then its monitor,
until one of them stores that no cycle is active (`CycleInv`).  The worker threads that
are there are those of the cycle, none is left when it has been joined, and the context
is stopped from then on until the next `run()` (`WorkerInv`).  A thread that
`m_cb_thread_id` names is the monitor in or around its callback (`CallbackInv`).
-/
import Libsg.AsioIoPool
import Libsg.Exclusive

open TransitionSystem

namespace AsioIoPool

/-! ## Places -/

/-- The places between the lock of `m_mutex` and its release. -/
def CallPc.locked : CallPc → Bool
  | .idle | .runCheck | .runLock | .stopLock _ | .waitCheck _ | .waitLoop _ => false
  | _ => true

/-- A `run()` that has activated a cycle and not handed it to a monitor. -/
def CallPc.builds : CallPc → Bool
  | .runSpawn _ | .runMonitor | .catchGuard | .catchStop | .catchJoin | .catchDeactivate => true
  | _ => false

/-- A `run()` that has seen that no cycle is active. -/
def CallPc.fresh : CallPc → Bool
  | .runRestart | .runGuard | .runActivate => true
  | _ => false

/-- A `run()` that fails and has stopped the context. -/
def CallPc.caught : CallPc → Bool
  | .catchJoin | .catchDeactivate => true
  | _ => false

/-- A monitor that has not stored that no cycle is active. -/
def MonitorPc.runs : MonitorPc → Bool
  | .joining | .storeId | .toCall | .inCallback | .clearId | .deactivate => true
  | _ => false

/-- A monitor that has joined the workers, and has not stored that no cycle is active. -/
def MonitorPc.joined : MonitorPc → Bool
  | .storeId | .toCall | .inCallback | .clearId | .deactivate => true
  | _ => false

/-- A monitor between its two stores to `m_cb_thread_id`. -/
def MonitorPc.marked : MonitorPc → Bool
  | .toCall | .inCallback | .clearId => true
  | _ => false

/-- The thread of the worker is there. -/
def WorkerPc.alive : WorkerPc → Bool
  | .inRun | .inHandler => true
  | _ => false

theorem CallPc.locked_of_fresh {pc : CallPc} (h : pc.fresh = true) : pc.locked = true := by
  cases pc <;> first | rfl | cases h

/-! ## The lock -/

/-- Who is past the lock holds it. -/
def LockInv (s : State) : Prop := ∀ t, (s.callers t).locked = true → s.mutex = some t

theorem LockInv.unique {s : State} (h : LockInv s) {t u : Tid} (ht : (s.callers t).locked = true)
    (hu : (s.callers u).locked = true) : t = u := by
  have ht' := h t ht
  rw [h u hu] at ht'
  exact (Option.some.inj ht').symm

section Step

variable {C : Config} {s s' : State} {a : Action} {es : List Event}

theorem CallPc.Advance.locked {t : Tid} {pc pc' : CallPc} (h : pc.Advance C s t pc' es)
    (hpc : pc'.locked = true) : pc.locked = true := by
  cases h <;> first | rfl | cases hpc

/-- A call moves on, and holds the lock if it comes to a locked place. -/
theorem LockInv.caller {t : Tid} {pc : CallPc}
    (hcallers : s'.callers = Function.update s.callers t pc)
    (hothers : ∀ u, u ≠ t → (s.callers u).locked = true → s'.mutex = some u)
    (hself : pc.locked = true → s'.mutex = some t) : LockInv s' := by
  intro u hu
  rw [hcallers] at hu
  by_cases hut : u = t
  · subst hut
    rw [Function.update_self] at hu
    exact hself hu
  · rw [Function.update_of_ne hut] at hu
    exact hothers u hut hu

theorem LockInv.step (h : LockInv s) (hm : Move C s a es s') : LockInv s' := by
  have hkeep {t : Tid} {pc : CallPc} (hcallers : s'.callers = Function.update s.callers t pc)
      (hmutex : s'.mutex = s.mutex) (hpc : pc.locked = true → (s.callers t).locked = true) :
      LockInv s' :=
    .caller hcallers (fun u _ hu => hmutex.trans (h u hu)) fun hl => hmutex.trans (h t (hpc hl))
  cases hm with
  | enters t c hpc hmay => exact hkeep (t := t) rfl rfl (by cases c <;> nofun)
  | advances t ok pc g b hpc => exact hkeep (t := t) rfl rfl hpc.locked
  | locks t pc hpc hfree =>
    refine .caller (t := t) rfl (fun u _ hu => ?_) fun _ => rfl
    rw [h u hu] at hfree
    cases hfree
  | unlocks t pc hpc =>
    have hlocked : (s.callers t).locked = true := by
      cases hpc' : s.callers t <;> rw [hpc'] at hpc <;> cases hpc <;> rfl
    refine .caller (t := t) rfl (fun u hut hu => absurd (h.unique hu hlocked) hut) fun hnew => ?_
    cases hpc' : s.callers t <;> rw [hpc'] at hpc <;> cases hpc <;> cases hnew
  | restarts t hpc | activates t hpc | spawns t i hpc hlt | creates t hpc | stops t r hpc
  | catchStops t ok hpc | catchJoins t hpc hall | catchDeactivates t hpc =>
    exact hkeep (t := t) rfl rfl fun _ => by rw [hpc]; rfl
  | workerMoves | joins | monitorMoves | deactivates | contextStops => exact h

end Step

/-! ## Who runs the cycle -/

/-- Who can run a cycle. -/
inductive Owner
  | caller (t : Tid)
  | monitor (k : ℕ)
  deriving DecidableEq

def State.owns (s : State) : Owner → Bool
  | .caller t => (s.callers t).builds
  | .monitor k => (s.monitorPc k).runs

theorem State.owns_setCaller (s : State) (t : Tid) (pc : CallPc) (x : Owner) :
    (s.setCaller t pc).owns x = if x = .caller t then pc.builds else s.owns x := by
  cases x with
  | caller u =>
    by_cases hu : u = t
    · subst hu
      simp [State.owns, State.setCaller]
    · simp [State.owns, State.setCaller, hu]
  | monitor k => simp [State.owns, State.setCaller]

theorem State.owns_setMonitor (s : State) (k : ℕ) (pc : MonitorPc) (x : Owner) :
    (s.setMonitor k pc).owns x = if x = .monitor k then pc.runs else s.owns x := by
  cases x with
  | caller u => simp [State.owns, State.setMonitor]
  | monitor j =>
    by_cases hj : j = k
    · subst hj
      simp [State.owns, State.setMonitor]
    · simp [State.owns, State.setMonitor, hj]

/-- A cycle is active while somebody runs it, and nobody else does. -/
structure CycleInv (s : State) : Prop where
  own : Exclusive s.owns s.cycleActive
  owned : s.cycleActive = true → ∃ x, s.owns x = true
  fresh : ∀ t, (s.callers t).fresh = true → s.cycleActive = false

namespace CycleInv

variable {C : Config} {s s' : State} {a : Action} {es : List Event}

/-- A call moves on that runs the cycle, or does not, as before. -/
theorem caller (h : CycleInv s) {t : Tid} {pc : CallPc}
    (hcallers : s'.callers = Function.update s.callers t pc) (hmonitor : s'.monitorPc = s.monitorPc)
    (hactive : s'.cycleActive = s.cycleActive) (hbuilds : pc.builds = (s.callers t).builds)
    (hfresh : pc.fresh = true → s.cycleActive = false) : CycleInv s' := by
  have hsame : s'.owns = s.owns := by
    funext x
    have hset : s'.owns x = (s.setCaller t pc).owns x := by
      cases x with
      | caller u => rw [State.owns, hcallers]; rfl
      | monitor k => rw [State.owns, hmonitor]; rfl
    rw [hset, State.owns_setCaller]
    split
    · next hx =>
      subst hx
      exact hbuilds
    · rfl
  refine ⟨?_, ?_, fun u hu => ?_⟩
  · rw [hsame, hactive]
    exact h.own
  · rw [hsame, hactive]
    exact h.owned
  · rw [hcallers] at hu
    rw [hactive]
    by_cases hut : u = t
    · subst hut
      rw [Function.update_self] at hu
      exact hfresh hu
    · rw [Function.update_of_ne hut] at hu
      exact h.fresh u hu

/-- A monitor moves on that runs the cycle, or does not, as before. -/
theorem monitor (h : CycleInv s) {k : ℕ} {pc : MonitorPc}
    (hmonitor : s'.monitorPc = Function.update s.monitorPc k pc) (hcallers : s'.callers = s.callers)
    (hactive : s'.cycleActive = s.cycleActive) (hruns : pc.runs = (s.monitorPc k).runs) :
    CycleInv s' := by
  have hsame : s'.owns = s.owns := by
    funext x
    have hset : s'.owns x = (s.setMonitor k pc).owns x := by
      cases x with
      | caller u => rw [State.owns, hcallers]; rfl
      | monitor j => rw [State.owns, hmonitor]; rfl
    rw [hset, State.owns_setMonitor]
    split
    · next hx =>
      subst hx
      exact hruns
    · rfl
  refine ⟨?_, ?_, ?_⟩
  · rw [hsame, hactive]
    exact h.own
  · rw [hsame, hactive]
    exact h.owned
  · rw [hcallers, hactive]
    exact h.fresh

end CycleInv

section Step

variable {C : Config} {s s' : State} {a : Action} {es : List Event}

theorem CallPc.Advance.builds {t : Tid} {pc pc' : CallPc} (h : pc.Advance C s t pc' es) :
    pc'.builds = pc.builds := by
  cases h <;> rfl

theorem CallPc.Advance.fresh {t : Tid} {pc pc' : CallPc} (h : pc.Advance C s t pc' es)
    (hpc : pc'.fresh = true) : pc.fresh = true ∨ s.cycleActive = false := by
  cases h with
  | inactive hinactive => exact .inr hinactive
  | guard => exact .inl rfl
  | _ => cases hpc

theorem MonitorPc.Advance.runs {k : ℕ} {pc pc' : MonitorPc} {i : Option Tid}
    (h : pc.Advance s k pc' i es) : pc'.runs = pc.runs := by
  cases h <;> rfl

theorem CycleInv.step (h : CycleInv s) (hl : LockInv s) (hm : Move C s a es s') : CycleInv s' := by
  cases hm with
  | enters t c hpc hmay =>
    exact h.caller (t := t) rfl rfl rfl (by rw [hpc]; cases c <;> rfl) (by cases c <;> nofun)
  | advances t ok pc g b hpc =>
    refine h.caller (t := t) rfl rfl rfl hpc.builds fun hfresh => ?_
    rcases hpc.fresh hfresh with hold | hinactive
    · exact h.fresh t hold
    · exact hinactive
  | locks t pc hpc hfree =>
    refine h.caller (t := t) rfl rfl rfl ?_ fun hfresh => ?_ <;>
      cases hpc' : s.callers t <;> rw [hpc'] at hpc <;> cases hpc <;> first | rfl | cases hfresh
  | unlocks t pc hpc =>
    refine h.caller (t := t) rfl rfl rfl ?_ fun hfresh => ?_ <;>
      cases hpc' : s.callers t <;> rw [hpc'] at hpc <;> cases hpc <;> first | rfl | cases hfresh
  | restarts t hpc =>
    exact h.caller (t := t) rfl rfl rfl (by rw [hpc]; rfl) fun _ => h.fresh t (by rw [hpc]; rfl)
  | activates t hpc =>
    have hinactive := h.fresh t (by rw [hpc]; rfl)
    refine ⟨h.own.acquire hinactive (.caller t) (fun y hy => ?_) rfl, fun _ => ⟨.caller t, ?_⟩,
      fun u hu => ?_⟩
    · rw [State.owns_setCaller] at hy
      split at hy
      · next hyt => exact .inl hyt
      · exact .inr (by cases y <;> exact hy)
    · rw [State.owns_setCaller, if_pos rfl]
      rfl
    · -- no second `run()` is past the lock
      by_cases hut : u = t
      · subst hut
        simp [State.setCaller, CallPc.fresh] at hu
      · have hold : (s.callers u).fresh = true := by simpa [State.setCaller, hut] using hu
        exact absurd (hl.unique (CallPc.locked_of_fresh hold) (by rw [hpc]; rfl)) hut
  | spawns t i hpc hlt =>
    exact h.caller (t := t) rfl rfl rfl (by rw [hpc]; rfl) nofun
  | creates t hpc =>
    have hold : s.owns (.caller t) = true := by
      show (s.callers t).builds = true
      rw [hpc]
      rfl
    refine ⟨h.own.pass hold (.monitor s.monitorCount) (fun y hy => ?_) rfl,
      fun _ => ⟨.monitor s.monitorCount, ?_⟩, fun u hu => ?_⟩
    · rw [State.owns_setCaller, State.owns_setMonitor] at hy
      split at hy
      · cases hy
      · next hyt =>
        split at hy
        · next hyk => exact .inl hyk
        · exact .inr ⟨by cases y <;> exact hy, hyt⟩
    · rw [State.owns_setCaller, State.owns_setMonitor, if_neg nofun, if_pos rfl]
      rfl
    · by_cases hut : u = t
      · subst hut
        simp [State.setCaller, CallPc.fresh] at hu
      · exact h.fresh u (by simpa [State.setCaller, State.setMonitor, hut] using hu)
  | stops t r hpc => exact h.caller (t := t) rfl rfl rfl (by rw [hpc]; rfl) nofun
  | catchStops t ok hpc => exact h.caller (t := t) rfl rfl rfl (by rw [hpc]; rfl) nofun
  | catchJoins t hpc hall => exact h.caller (t := t) rfl rfl rfl (by rw [hpc]; rfl) nofun
  | catchDeactivates t hpc =>
    have hold : s.owns (.caller t) = true := by
      show (s.callers t).builds = true
      rw [hpc]
      rfl
    refine ⟨h.own.release hold (fun y hy => ?_) _, nofun, fun _ _ => rfl⟩
    rw [State.owns_setCaller] at hy
    split at hy
    · cases hy
    · next hyt => exact ⟨by cases y <;> exact hy, hyt⟩
  | workerMoves w pc hpc => exact ⟨h.own.keep (fun y hy => by cases y <;> exact hy) rfl,
      fun hactive => (h.owned hactive).imp fun y hy => by cases y <;> exact hy, h.fresh⟩
  | contextStops => exact ⟨h.own.keep (fun y hy => by cases y <;> exact hy) rfl,
      fun hactive => (h.owned hactive).imp fun y hy => by cases y <;> exact hy, h.fresh⟩
  | joins k hpc hall => exact h.monitor (k := k) rfl rfl rfl (by rw [hpc]; rfl)
  | monitorMoves k pc i hpc => exact h.monitor (k := k) rfl rfl rfl hpc.runs
  | deactivates k hpc =>
    have hold : s.owns (.monitor k) = true := by
      show (s.monitorPc k).runs = true
      rw [hpc]
      rfl
    refine ⟨h.own.release hold (fun y hy => ?_) _, nofun, fun _ _ => rfl⟩
    rw [State.owns_setMonitor] at hy
    split at hy
    · cases hy
    · next hyk => exact ⟨by cases y <;> exact hy, hyk⟩

end Step

/-! ## The monitors -/

/-- Only the newest monitor can have its cycle to end. -/
structure NewestInv (s : State) : Prop where
  unborn : ∀ k, s.monitorCount ≤ k → s.monitorPc k = .unborn
  older : ∀ k, k + 1 < s.monitorCount → (s.monitorPc k).runs = false

namespace NewestInv

variable {C : Config} {s s' : State} {a : Action} {es : List Event}

/-- A monitor that runs a cycle is the newest. -/
theorem newest (h : NewestInv s) {k : ℕ} (hk : (s.monitorPc k).runs = true) :
    k + 1 = s.monitorCount := by
  have hborn : k < s.monitorCount := by
    by_contra hge
    rw [h.unborn k (by omega)] at hk
    cases hk
  by_contra hne
  rw [h.older k (by omega)] at hk
  cases hk

/-- A monitor that is there moves on, and has ended its cycle if it had before. -/
theorem moves (h : NewestInv s) {k : ℕ} {pc : MonitorPc}
    (hmonitor : s'.monitorPc = Function.update s.monitorPc k pc)
    (hcount : s'.monitorCount = s.monitorCount) (hborn : s.monitorPc k ≠ .unborn)
    (hruns : pc.runs = true → (s.monitorPc k).runs = true) : NewestInv s' := by
  refine ⟨fun j hj => ?_, fun j hj => ?_⟩
  · rw [hcount] at hj
    have hjk : j ≠ k := fun hjk => hborn (hjk ▸ h.unborn j hj)
    rw [hmonitor, Function.update_of_ne hjk]
    exact h.unborn j hj
  · rw [hcount] at hj
    rw [hmonitor]
    by_cases hjk : j = k
    · subst hjk
      rw [Function.update_self, Bool.eq_false_iff]
      intro hpc
      rw [h.older j hj] at hruns
      cases hruns hpc
    · rw [Function.update_of_ne hjk]
      exact h.older j hj

/-- A monitor is created when no other has its cycle to end. -/
theorem creates (h : NewestInv s)
    (hmonitor : s'.monitorPc = Function.update s.monitorPc s.monitorCount .joining)
    (hcount : s'.monitorCount = s.monitorCount + 1) (hover : ∀ k, (s.monitorPc k).runs = false) :
    NewestInv s' := by
  refine ⟨fun k hk => ?_, fun k hk => ?_⟩
  · rw [hcount] at hk
    rw [hmonitor, Function.update_of_ne (by omega)]
    exact h.unborn k (by omega)
  · rw [hcount] at hk
    rw [hmonitor, Function.update_of_ne (by omega)]
    exact hover k

theorem step (h : NewestInv s) (hc : CycleInv s) (hm : Move C s a es s') : NewestInv s' := by
  cases hm with
  | creates t hpc =>
    -- the `run()` still had the cycle, so no monitor had one
    have hbuilds : s.owns (.caller t) = true := by
      show (s.callers t).builds = true
      rw [hpc]
      rfl
    exact h.creates rfl rfl fun k => Bool.eq_false_iff.mpr fun hruns => by
      cases hc.own.unique (.monitor k) (.caller t) hruns hbuilds
  | joins k hpc hall =>
    exact h.moves (k := k) rfl rfl (by rw [hpc]; nofun) fun _ => by rw [hpc]; rfl
  | monitorMoves k pc i hpc =>
    refine h.moves (k := k) rfl rfl (fun hunborn => ?_) fun hruns => hpc.runs ▸ hruns
    rw [hunborn] at hpc
    cases hpc
  | deactivates k hpc => exact h.moves (k := k) rfl rfl (by rw [hpc]; nofun) nofun
  | _ => exact ⟨h.unborn, h.older⟩

end NewestInv

/-! ## The workers -/

/-- What a call can rely on where it is. -/
def CallPc.Sound (s : State) : CallPc → Prop
  | .runStopped => s.cycleActive = true ∨ s.stopped = true
  | .runSpawn i => s.workers.length = i
  | .runMonitor => s.workers ≠ []
  | .catchJoin => s.stopped = true
  | .catchDeactivate => s.workers = [] ∧ s.stopped = true
  | _ => True

/-- What a monitor can rely on where it is. -/
def MonitorPc.Sound (s : State) : MonitorPc → Prop
  | .joining => s.workers ≠ []
  | .storeId | .toCall | .inCallback | .clearId | .deactivate => s.workers = [] ∧ s.stopped = true
  | _ => True

section Sound

variable {s s' : State}

theorem CallPc.Sound.of_unlocked {pc : CallPc} (h : pc.locked = false) : pc.Sound s := by
  cases pc <;> trivial

/-- Who does not build a cycle does not rely on the workers. -/
theorem CallPc.Sound.of_not_builds {pc : CallPc} (h : pc.Sound s) (hpc : pc.builds = false)
    (hsaw : s.cycleActive = true ∨ s.stopped = true → s'.cycleActive = true ∨ s'.stopped = true) :
    pc.Sound s' := by
  cases pc with
  | runStopped => exact hsaw h
  | runSpawn | runMonitor | catchJoin | catchDeactivate => cases hpc
  | _ => trivial

theorem MonitorPc.Sound.of_over {pc : MonitorPc} (h : pc.runs = false) : pc.Sound s := by
  cases pc <;> trivial

/-- The workers stay, and neither flag is lowered. -/
theorem CallPc.Sound.mono {pc : CallPc} (h : pc.Sound s) (hworkers : s'.workers = s.workers)
    (hactive : s.cycleActive = true → s'.cycleActive = true)
    (hstopped : s.stopped = true → s'.stopped = true) : pc.Sound s' := by
  cases pc with
  | runStopped => exact Or.imp hactive hstopped h
  | runSpawn i => exact (congrArg List.length hworkers).trans h
  | runMonitor => exact fun hnil => h (hworkers.symm.trans hnil)
  | catchJoin => exact hstopped h
  | catchDeactivate => exact ⟨hworkers.trans h.1, hstopped h.2⟩
  | _ => trivial

theorem MonitorPc.Sound.mono {pc : MonitorPc} (h : pc.Sound s) (hworkers : s'.workers = s.workers)
    (hstopped : s.stopped = true → s'.stopped = true) : pc.Sound s' := by
  cases pc with
  | joining => exact fun hnil => h (hworkers.symm.trans hnil)
  | storeId | toCall | inCallback | clearId | deactivate =>
    exact ⟨hworkers.trans h.1, hstopped h.2⟩
  | _ => trivial

end Sound

/-- The threads of the workers are those in `m_workers`, none is left without an active cycle, and
one has left only a context that is stopped. -/
structure WorkerInv (s : State) : Prop where
  listed : ∀ w, (s.workerPc w).alive = true → w ∈ s.workers
  inactive : s.cycleActive = false → s.workers = []
  finished : ∀ w ∈ s.workers, s.workerPc w = .finished → s.stopped = true
  callers : ∀ t, (s.callers t).Sound s
  monitors : ∀ k, (s.monitorPc k).Sound s

namespace WorkerInv

variable {C : Config} {s s' : State} {a : Action} {es : List Event}

/-- Workers that have all left are not there, and have left a stopped context. -/
theorem all_finished (h : WorkerInv s) (hall : ∀ w ∈ s.workers, s.workerPc w = .finished) :
    (∀ w, (s.workerPc w).alive = false) ∧ (s.workers ≠ [] → s.stopped = true) := by
  refine ⟨fun w => ?_, fun hne => ?_⟩
  · rw [Bool.eq_false_iff]
    intro halive
    rw [hall w (h.listed w halive)] at halive
    cases halive
  · obtain ⟨w, hw⟩ := List.exists_mem_of_ne_nil _ hne
    exact h.finished w hw (hall w hw)

/-- A call moves on, and the context may be stopped. -/
theorem caller (h : WorkerInv s) {t : Tid} {pc : CallPc}
    (hcallers : s'.callers = Function.update s.callers t pc) (hmonitor : s'.monitorPc = s.monitorPc)
    (hworker : s'.workerPc = s.workerPc) (hworkers : s'.workers = s.workers)
    (hactive : s'.cycleActive = s.cycleActive) (hstopped : s.stopped = true → s'.stopped = true)
    (hpc : pc.Sound s') : WorkerInv s' := by
  refine ⟨?_, ?_, ?_, fun u => ?_, fun k => ?_⟩
  · rw [hworker, hworkers]
    exact h.listed
  · rw [hactive, hworkers]
    exact h.inactive
  · rw [hworker, hworkers]
    exact fun w hw hfinished => hstopped (h.finished w hw hfinished)
  · rw [hcallers]
    by_cases hut : u = t
    · subst hut
      rwa [Function.update_self]
    · rw [Function.update_of_ne hut]
      exact (h.callers u).mono hworkers (fun hold => hactive.trans hold) hstopped
  · rw [hmonitor]
    exact (h.monitors k).mono hworkers hstopped

/-- The `run()` that has the cycle, or the right to begin one, moves on; what it changes does not
concern anybody else. -/
theorem runner (hl : LockInv s) {t : Tid} {pc : CallPc}
    (hlocked : (s.callers t).locked = true) (hover : ∀ k, (s.monitorPc k).runs = false)
    (hcallers : s'.callers = Function.update s.callers t pc) (hmonitor : s'.monitorPc = s.monitorPc)
    (hlisted : ∀ w, (s'.workerPc w).alive = true → w ∈ s'.workers)
    (hinactive : s'.cycleActive = false → s'.workers = [])
    (hfinished : ∀ w ∈ s'.workers, s'.workerPc w = .finished → s'.stopped = true)
    (hpc : pc.Sound s') : WorkerInv s' := by
  refine ⟨hlisted, hinactive, hfinished, fun u => ?_, fun k => ?_⟩
  · rw [hcallers]
    by_cases hut : u = t
    · subst hut
      rwa [Function.update_self]
    · rw [Function.update_of_ne hut]
      refine .of_unlocked (Bool.eq_false_iff.mpr fun hu => hut (hl.unique hu hlocked))
  · rw [hmonitor]
    exact .of_over (hover k)

/-- A monitor that has the cycle moves on. -/
theorem monitor (h : WorkerInv s) (hc : CycleInv s) {k : ℕ} {pc : MonitorPc}
    (hruns : (s.monitorPc k).runs = true)
    (hmonitor : s'.monitorPc = Function.update s.monitorPc k pc) (hcallers : s'.callers = s.callers)
    (hworker : s'.workerPc = s.workerPc) (hworkers : s'.workers = s.workers ∨
      (s'.workers = [] ∧ ∀ w, (s.workerPc w).alive = false))
    (hinactive : s'.cycleActive = false → s'.workers = [])
    (hsaw : s.cycleActive = true ∨ s.stopped = true → s'.cycleActive = true ∨ s'.stopped = true)
    (hstopped : s'.stopped = s.stopped) (hpc : pc.Sound s') : WorkerInv s' := by
  have hother (x : Owner) (hx : s.owns x = true) : x = .monitor k := hc.own.unique x _ hx hruns
  refine ⟨fun w hw => ?_, hinactive, fun w hw hfinished => ?_, fun u => ?_, fun j => ?_⟩
  · rw [hworker] at hw
    rcases hworkers with hsame | ⟨-, hnone⟩
    · rw [hsame]
      exact h.listed w hw
    · rw [hnone w] at hw
      cases hw
  · rcases hworkers with hsame | ⟨hnil, -⟩
    · rw [hstopped]
      exact h.finished w (hsame ▸ hw) (hworker ▸ hfinished)
    · rw [hnil] at hw
      cases hw
  · rw [hcallers]
    refine (h.callers u).of_not_builds (Bool.eq_false_iff.mpr fun hu => ?_) hsaw
    cases hother (.caller u) hu
  · rw [hmonitor]
    by_cases hjk : j = k
    · subst hjk
      rwa [Function.update_self]
    · rw [Function.update_of_ne hjk]
      refine .of_over (Bool.eq_false_iff.mpr fun hj => hjk ?_)
      injection hother (.monitor j) hj

end WorkerInv

section Step

variable {C : Config} {s s' : State} {a : Action} {es : List Event}

/-- What a call can rely on carries over to where it goes. -/
theorem CallPc.Advance.sound {t : Tid} {pc pc' : CallPc} (h : pc.Advance C s t pc' es)
    (hpc : pc.Sound s) : pc'.Sound s := by
  cases h with
  | active hactive => exact .inl hactive
  | spawned i hi =>
    intro hnil
    have hlength : s.workers.length = i := hpc
    rw [hnil, List.length_nil] at hlength
    have := C.pos
    omega
  | _ => trivial

theorem MonitorPc.Advance.sound {k : ℕ} {pc pc' : MonitorPc} {i : Option Tid}
    (h : pc.Advance s k pc' i es) (hpc : pc.Sound s) : pc'.Sound s := by
  cases h <;> exact hpc

theorem WorkerInv.step (h : WorkerInv s) (hl : LockInv s) (hc : CycleInv s)
    (hm : Move C s a es s') : WorkerInv s' := by
  have hover {t : Tid} (hbuilds : (s.callers t).builds = true) (k : ℕ) :
      (s.monitorPc k).runs = false := by
    rw [Bool.eq_false_iff]
    intro hruns
    cases hc.own.unique (.monitor k) (.caller t) hruns hbuilds
  have hnone (hinactive : s.cycleActive = false) (k : ℕ) : (s.monitorPc k).runs = false :=
    hc.own.nobody hinactive (.monitor k)
  cases hm with
  | enters t c hpc hmay =>
    exact h.caller (t := t) rfl rfl rfl rfl rfl id (.of_unlocked (by cases c <;> rfl))
  | advances t ok pc g b hpc =>
    exact h.caller (t := t) rfl rfl rfl rfl rfl id
      ((hpc.sound (h.callers t)).mono rfl id id)
  | locks t pc hpc hfree =>
    refine h.caller (t := t) rfl rfl rfl rfl rfl id ?_
    cases hpc' : s.callers t <;> rw [hpc'] at hpc <;> cases hpc <;> trivial
  | unlocks t pc hpc =>
    refine h.caller (t := t) rfl rfl rfl rfl rfl id ?_
    cases hpc' : s.callers t <;> rw [hpc'] at hpc <;> cases hpc <;> trivial
  | restarts t hpc =>
    have hinactive := hc.fresh t (by rw [hpc]; rfl)
    have hnil := h.inactive hinactive
    refine WorkerInv.runner hl (t := t) (by rw [hpc]; rfl) (hnone hinactive) rfl rfl h.listed h.inactive
      (fun w hw => ?_) trivial
    have hw' : w ∈ s.workers := hw
    rw [hnil] at hw'
    cases hw'
  | activates t hpc =>
    have hinactive := hc.fresh t (by rw [hpc]; rfl)
    have hnil := h.inactive hinactive
    exact WorkerInv.runner hl (t := t) (by rw [hpc]; rfl) (hnone hinactive) rfl rfl h.listed nofun
      h.finished (congrArg List.length hnil)
  | spawns t i hpc hlt =>
    have hactive := hc.own.flagged (.caller t) (show (s.callers t).builds = true by rw [hpc]; rfl)
    have hlength : CallPc.Sound s (.runSpawn i) := hpc ▸ h.callers t
    refine WorkerInv.runner hl (t := t) (by rw [hpc]; rfl) (hover (t := t) (by rw [hpc]; rfl)) rfl rfl
      (fun w hw => ?_) (fun hno => ?_) (fun w hw hfinished => ?_) ?_
    · by_cases hnew : w = s.workerCount
      · exact List.mem_append_right _ (List.mem_singleton.mpr hnew)
      · have hold : (s.workerPc w).alive = true := by
          simpa [State.setCaller, State.setWorker, hnew] using hw
        exact List.mem_append_left _ (h.listed w hold)
    · have hno' : s.cycleActive = false := hno
      rw [hactive] at hno'
      cases hno'
    · by_cases hnew : w = s.workerCount
      · subst hnew
        simp [State.setCaller, State.setWorker] at hfinished
      · have hold : s.workerPc w = .finished := by
          simpa [State.setCaller, State.setWorker, hnew] using hfinished
        have hmem : w ∈ s.workers := by
          have hor : w ∈ s.workers ++ [s.workerCount] := hw
          rcases List.mem_append.mp hor with hmem | hmem
          · exact hmem
          · exact absurd (List.mem_singleton.mp hmem) hnew
        exact h.finished w hmem hold
    · show (s.workers ++ [s.workerCount]).length = i + 1
      rw [List.length_append]
      exact congrArg (· + 1) hlength
  | creates t hpc =>
    have hne : CallPc.Sound s .runMonitor := hpc ▸ h.callers t
    have hlocked : (s.callers t).locked = true := by rw [hpc]; rfl
    refine ⟨h.listed, h.inactive, h.finished, fun u => ?_, fun k => ?_⟩
    · by_cases hut : u = t
      · subst hut
        simp [State.setCaller, CallPc.Sound]
      · have hsame : (s.callers u).Sound s := h.callers u
        have hset : ((s.setMonitor s.monitorCount .joining).setCaller t
            (.runAssign s.monitorCount)).callers u = s.callers u := Function.update_of_ne hut _ _
        refine .of_unlocked (Bool.eq_false_iff.mpr fun hu => hut (hl.unique (hset ▸ hu) hlocked))
    · by_cases hnew : k = s.monitorCount
      · subst hnew
        have hne' : s.workers ≠ [] := hne
        simpa [State.setCaller, State.setMonitor, MonitorPc.Sound] using hne'
      · refine .of_over ?_
        simpa [State.setCaller, State.setMonitor, hnew] using hover (t := t) (by rw [hpc]; rfl) k
  | stops t r hpc => exact h.caller (t := t) rfl rfl rfl rfl rfl (fun _ => rfl) trivial
  | catchStops t ok hpc => exact h.caller (t := t) rfl rfl rfl rfl rfl (fun _ => rfl) rfl
  | catchJoins t hpc hall =>
    have hgone := (h.all_finished hall).1
    have hstopped : CallPc.Sound s .catchJoin := hpc ▸ h.callers t
    refine WorkerInv.runner hl (t := t) (by rw [hpc]; rfl) (hover (t := t) (by rw [hpc]; rfl)) rfl rfl
      (fun w hw => ?_) (fun _ => rfl) nofun ⟨rfl, hstopped⟩
    have hw' : (s.workerPc w).alive = true := hw
    rw [hgone w] at hw'
    cases hw'
  | catchDeactivates t hpc =>
    have hsound : CallPc.Sound s .catchDeactivate := hpc ▸ h.callers t
    exact WorkerInv.runner hl (t := t) (by rw [hpc]; rfl) (hover (t := t) (by rw [hpc]; rfl)) rfl rfl
      h.listed (fun _ => hsound.1) h.finished trivial
  | workerMoves w pc hpc =>
    have hborn : (s.workerPc w).alive = true := by
      cases hpc' : s.workerPc w <;> rw [hpc'] at hpc <;> cases hpc <;> rfl
    refine ⟨fun v hv => ?_, h.inactive, fun v hv hfinished => ?_, fun u => (h.callers u).mono rfl
      id id, fun k => (h.monitors k).mono rfl id⟩
    · by_cases hvw : v = w
      · exact hvw ▸ h.listed w hborn
      · exact h.listed v (by simpa [State.setWorker, hvw] using hv)
    · by_cases hvw : v = w
      · subst hvw
        have hnew : pc = .finished := by simpa [State.setWorker] using hfinished
        subst hnew
        cases hpc' : s.workerPc v <;> rw [hpc'] at hpc <;> cases hpc
        assumption
      · exact h.finished v hv (by simpa [State.setWorker, hvw] using hfinished)
  | joins k hpc hall =>
    have hne : MonitorPc.Sound s .joining := hpc ▸ h.monitors k
    obtain ⟨hgone, hstopped⟩ := h.all_finished hall
    exact h.monitor hc (k := k) (by rw [hpc]; rfl) rfl rfl rfl (.inr ⟨rfl, hgone⟩) (fun _ => rfl)
      id rfl ⟨rfl, hstopped hne⟩
  | monitorMoves k pc i hpc =>
    by_cases hruns : (s.monitorPc k).runs = true
    · exact h.monitor hc (k := k) hruns rfl rfl rfl (.inl rfl) h.inactive id rfl
        ((hpc.sound (h.monitors k)).mono rfl id)
    · -- the monitor has ended its cycle
      have hover : pc.runs = false := hpc.runs ▸ Bool.eq_false_iff.mpr hruns
      refine ⟨h.listed, h.inactive, h.finished, fun u => (h.callers u).mono rfl id id, fun j => ?_⟩
      by_cases hjk : j = k
      · subst hjk
        simpa [State.setMonitor] using MonitorPc.Sound.of_over hover
      · simp only [State.setMonitor, Function.update_of_ne hjk]
        exact (h.monitors j).mono rfl id
  | deactivates k hpc =>
    have hsound : MonitorPc.Sound s .deactivate := hpc ▸ h.monitors k
    exact h.monitor hc (k := k) (by rw [hpc]; rfl) rfl rfl rfl (.inl rfl) (fun _ => hsound.1)
      (fun _ => .inr hsound.2) rfl trivial
  | contextStops =>
    exact ⟨h.listed, h.inactive, fun _ _ _ => rfl, fun u => (h.callers u).mono rfl id fun _ => rfl,
      fun k => (h.monitors k).mono rfl fun _ => rfl⟩

end Step

/-! ## Inside the callback -/

/-- `m_cb_thread_id` is that of a monitor around its callback, and only there does a monitor make
calls. -/
structure CallbackInv (s : State) : Prop where
  marked : ∀ t, s.cbThreadId = some t → ∃ k, t = .monitor k ∧ (s.monitorPc k).marked = true
  inside : ∀ k, s.callers (.monitor k) ≠ .idle → s.monitorPc k = .inCallback

namespace CallbackInv

variable {C : Config} {s s' : State} {a : Action} {es : List Event}

/-- A call that takes itself to be inside the callback is. -/
theorem calls (h : CallbackInv s) {t : Tid} (hid : s.cbThreadId = some t)
    (hcall : s.callers t ≠ .idle) : ∃ k, t = .monitor k ∧ s.monitorPc k = .inCallback := by
  obtain ⟨k, rfl, -⟩ := h.marked t hid
  exact ⟨k, rfl, h.inside k hcall⟩

/-- A call that was there moves on. -/
theorem caller (h : CallbackInv s) {t : Tid} {pc : CallPc}
    (hcallers : s'.callers = Function.update s.callers t pc) (hmonitor : s'.monitorPc = s.monitorPc)
    (hid : s'.cbThreadId = s.cbThreadId)
    (hcall : s.callers t ≠ .idle ∨ ∀ k, t = .monitor k → s.monitorPc k = .inCallback) :
    CallbackInv s' := by
  refine ⟨?_, fun k hk => ?_⟩
  · rw [hid, hmonitor]
    exact h.marked
  · rw [hmonitor]
    by_cases hkt : t = .monitor k
    · subst hkt
      rcases hcall with hold | hnew
      · exact h.inside k hold
      · exact hnew k rfl
    · rw [hcallers, Function.update_of_ne (Ne.symm hkt)] at hk
      exact h.inside k hk

/-- A monitor away from its callback is not named. -/
theorem unmarked (h : CallbackInv s) {k : ℕ} (hk : (s.monitorPc k).marked = false) :
    s.cbThreadId ≠ some (.monitor k) := by
  intro hid
  obtain ⟨j, hj, hmarked⟩ := h.marked _ hid
  cases hj
  rw [hk] at hmarked
  cases hmarked

theorem idle (h : CallbackInv s) {k : ℕ} (hpc : s.monitorPc k ≠ .inCallback) :
    s.callers (.monitor k) = .idle := by
  by_contra hcall
  exact hpc (h.inside k hcall)

/-- A monitor moves on that makes no call. -/
theorem monitor (h : CallbackInv s) {k : ℕ} {pc : MonitorPc}
    (hmonitor : s'.monitorPc = Function.update s.monitorPc k pc) (hcallers : s'.callers = s.callers)
    (hidle : s.callers (.monitor k) = .idle)
    (hid : ∀ t, s'.cbThreadId = some t →
      (t = .monitor k ∧ pc.marked = true) ∨ (s.cbThreadId = some t ∧ t ≠ .monitor k)) :
    CallbackInv s' := by
  refine ⟨fun t ht => ?_, fun j hj => ?_⟩
  · rw [hmonitor]
    rcases hid t ht with ⟨rfl, hpc⟩ | ⟨hold, hne⟩
    · refine ⟨k, rfl, ?_⟩
      rw [Function.update_self]
      exact hpc
    · obtain ⟨j, rfl, hj⟩ := h.marked t hold
      refine ⟨j, rfl, ?_⟩
      rw [Function.update_of_ne fun hjk => hne (by rw [hjk])]
      exact hj
  · rw [hcallers] at hj
    rw [hmonitor]
    by_cases hjk : j = k
    · subst hjk
      exact absurd hidle hj
    · rw [Function.update_of_ne hjk]
      exact h.inside j hj

/-- A monitor moves on that is not named, and is not named after. -/
theorem aside (h : CallbackInv s) {k : ℕ} {pc : MonitorPc}
    (hmonitor : s'.monitorPc = Function.update s.monitorPc k pc) (hcallers : s'.callers = s.callers)
    (hk : (s.monitorPc k).marked = false) (hid : s'.cbThreadId = s.cbThreadId) :
    CallbackInv s' := by
  refine h.monitor hmonitor hcallers (h.idle fun hpc => ?_) fun t ht => .inr ?_
  · rw [hpc] at hk
    cases hk
  · rw [hid] at ht
    refine ⟨ht, fun htk => h.unmarked hk (htk ▸ ht)⟩

end CallbackInv

section Step

variable {C : Config} {s s' : State} {a : Action} {es : List Event}

theorem CallPc.Advance.ne_idle {t : Tid} {pc pc' : CallPc} (h : pc.Advance C s t pc' es) :
    pc ≠ .idle := by
  cases h <;> nofun

theorem CallbackInv.step (h : CallbackInv s) (hn : NewestInv s) (hm : Move C s a es s') :
    CallbackInv s' := by
  cases hm with
  | enters t c hpc hmay =>
    refine h.caller (t := t) rfl rfl rfl (.inr fun k hk => ?_)
    subst hk
    simpa [State.mayCall] using hmay
  | advances t ok pc g b hpc => exact h.caller (t := t) rfl rfl rfl (.inl hpc.ne_idle)
  | locks t pc hpc hfree =>
    refine h.caller (t := t) rfl rfl rfl (.inl fun hno => ?_)
    rw [hno] at hpc
    cases hpc
  | unlocks t pc hpc =>
    refine h.caller (t := t) rfl rfl rfl (.inl fun hno => ?_)
    rw [hno] at hpc
    cases hpc
  | restarts t hpc | activates t hpc | spawns t i hpc hlt | stops t r hpc | catchStops t ok hpc
  | catchJoins t hpc hall | catchDeactivates t hpc =>
    exact h.caller (t := t) rfl rfl rfl (.inl (by rw [hpc]; nofun))
  | creates t hpc =>
    have hcaller : CallbackInv (s.setCaller t (.runAssign s.monitorCount)) :=
      h.caller (t := t) rfl rfl rfl (.inl (by rw [hpc]; nofun))
    exact hcaller.aside (k := s.monitorCount) rfl rfl
      (by rw [State.setCaller, hn.unborn _ (Nat.le_refl _)]; rfl) rfl
  | workerMoves | contextStops => exact ⟨h.marked, h.inside⟩
  | joins k hpc hall => exact h.aside (k := k) rfl rfl (by rw [hpc]; rfl) rfl
  | deactivates k hpc => exact h.aside (k := k) rfl rfl (by rw [hpc]; rfl) rfl
  | monitorMoves k pc i hpc =>
    have hkeep (hmarked : pc.marked = true) (t : Tid) (ht : s.cbThreadId = some t) :
        (t = .monitor k ∧ pc.marked = true) ∨ (s.cbThreadId = some t ∧ t ≠ .monitor k) := by
      by_cases htk : t = .monitor k
      · exact .inl ⟨htk, hmarked⟩
      · exact .inr ⟨ht, htk⟩
    cases hpc' : s.monitorPc k <;> rw [hpc'] at hpc <;> cases hpc
    case storeId.storeId =>
      exact h.monitor (k := k) rfl rfl (h.idle (by rw [hpc']; nofun)) fun t ht =>
        .inl ⟨(Option.some.inj ht).symm, rfl⟩
    case toCall.call =>
      exact h.monitor (k := k) rfl rfl (h.idle (by rw [hpc']; nofun)) (hkeep rfl)
    case inCallback.returns hidle => exact h.monitor (k := k) rfl rfl hidle (hkeep rfl)
    case clearId.clearId =>
      exact h.monitor (k := k) rfl rfl (h.idle (by rw [hpc']; nofun)) nofun
    case ended.exit => exact h.aside (k := k) rfl rfl (by rw [hpc']; rfl) rfl

end Step

end AsioIoPool
