/-
# What an io pool shows of its cycles

`Phase` says which sequences of events are cycles one after the other; `scan` reads a
trace by it.  The place of the newest monitor and the cycle flag tell the phase
(`phase_step`), since the monitors before it have ended their cycles and nobody but
the owner of the cycle moves it on.  `ReturnInv` relates the `run()` calls that return
true to the monitors, and `RefuseInv` says what a `run()` that returns false has seen.
-/
import Libsg.AsioIoPoolCycle
import Mathlib.Data.List.Induction
import Mathlib.Data.List.Nodup

open TransitionSystem

namespace AsioIoPool

/-! ## Sequences of cycles -/

/-- Where a sequence of cycles is; `n` cycles are over. -/
inductive Phase
  | idle (n : ℕ)
  /-- A `run()` has activated the cycle and has not created its monitor. -/
  | building (n : ℕ)
  | running (n : ℕ)
  /-- In the stopped callback. -/
  | calling (n : ℕ)
  | called (n : ℕ)
  deriving DecidableEq, Repr

/-- A cycle is active. -/
def Phase.active : Phase → Bool
  | .idle _ => false
  | _ => true

/-- Workers may be there. -/
def Phase.working : Phase → Bool
  | .building _ | .running _ => true
  | _ => false

/-- What may come next.  `run()` sees a live cycle only while one is active, and `wait_for_stop()`
returns only while none is. -/
def Phase.next (p : Phase) : Event → Option Phase
  | .began => match p with
    | .idle n => some (.building n)
    | _ => none
  | .failed => match p with
    | .building n => some (.idle n)
    | _ => none
  | .spawned k => if p = .building k then some (.running k) else none
  | .callback k => if p = .running k then some (.calling k) else none
  | .callbackEnded k => if p = .calling k then some (.called k) else none
  | .ended k => if p = .called k then some (.idle (k + 1)) else none
  | .sawLive _ => if p.active then some p else none
  | .waited _ => if p.active then none else some p
  | .ran _ _ | .refused _ | .threw _ => some p

/-- The place of a trace that is a sequence of cycles. -/
def scan (tr : List Event) : Option Phase := tr.foldlM Phase.next (.idle 0)

/-- The cycles that have their monitor, whose callback has been called, whose callback has
returned, that are over. -/
def Phase.spawns : Phase → ℕ
  | .idle n | .building n => n
  | .running n | .calling n | .called n => n + 1

def Phase.calls : Phase → ℕ
  | .idle n | .building n | .running n => n
  | .calling n | .called n => n + 1

def Phase.returns : Phase → ℕ
  | .idle n | .building n | .running n | .calling n => n
  | .called n => n + 1

def Phase.over : Phase → ℕ
  | .idle n | .building n | .running n | .calling n | .called n => n

theorem scan_append (tr es : List Event) :
    scan (tr ++ es) = (scan tr).bind fun p => es.foldlM Phase.next p :=
  List.foldlM_append

/-- Whether `k` is one of the first `n`. -/
def below (n k : ℕ) : ℕ := if k < n then 1 else 0

theorem below_succ (n k : ℕ) : below n k + (if n = k then 1 else 0) = below (n + 1) k := by
  unfold below
  rcases Nat.lt_trichotomy k n with h | h | h
  · rw [if_pos h, if_neg (by omega), if_pos (by omega)]
  · rw [if_neg (by omega), if_pos h.symm, if_pos (by omega)]
  · rw [if_neg (by omega), if_neg (by omega), if_neg (by omega)]

/-- What one event adds to the cycles counted. -/
theorem Phase.next_counts {p q : Phase} {e : Event} (h : p.next e = some q) (k : ℕ) :
    below p.spawns k + [e].count (.spawned k) = below q.spawns k ∧
    below p.calls k + [e].count (.callback k) = below q.calls k ∧
    below p.returns k + [e].count (.callbackEnded k) = below q.returns k ∧
    below p.over k + [e].count (.ended k) = below q.over k := by
  cases e <;> cases p <;> simp [Phase.next, Phase.active] at h <;>
    first
      | (subst h; simp [spawns, calls, returns, Phase.over])
      | (obtain ⟨rfl, rfl⟩ := h
         simp [spawns, calls, returns, Phase.over, List.count_singleton, below_succ])

/-- In a sequence of cycles each event of a cycle is shown once, or not yet. -/
theorem scan_counts {tr : List Event} {p : Phase} (h : scan tr = some p) (k : ℕ) :
    tr.count (.spawned k) = below p.spawns k ∧ tr.count (.callback k) = below p.calls k ∧
    tr.count (.callbackEnded k) = below p.returns k ∧ tr.count (.ended k) = below p.over k := by
  induction tr using List.reverseRecOn generalizing p with
  | nil =>
    cases h
    simp [Phase.spawns, Phase.calls, Phase.returns, Phase.over, below]
  | append_singleton tr e ih =>
    rw [scan_append] at h
    obtain ⟨q, hq, hnext⟩ := Option.bind_eq_some_iff.mp h
    have hstep : q.next e = some p := by simpa using hnext
    obtain ⟨hspawns, hcalls, hreturns, hover⟩ := ih hq
    rw [List.count_append, List.count_append, List.count_append, List.count_append, hspawns,
      hcalls, hreturns, hover]
    exact Phase.next_counts hstep k

theorem Phase.counts_le (p : Phase) :
    p.over ≤ p.returns ∧ p.returns ≤ p.calls ∧ p.calls ≤ p.spawns ∧
      (p.active = false → p.spawns = p.over) := by
  cases p <;> simp [Phase.spawns, Phase.calls, Phase.returns, Phase.over, Phase.active]

/-! ## The phase of a state -/

/-- Between two cycles, or while a `run()` builds one. -/
def Phase.between (n : ℕ) (active : Bool) : Phase := if active then .building n else .idle n

/-- The phase, from the place of the newest monitor. -/
def MonitorPc.phase (k : ℕ) (active : Bool) : MonitorPc → Phase
  | .joining | .storeId | .toCall => .running k
  | .inCallback => .calling k
  | .clearId | .deactivate => .called k
  | .unborn | .ended | .finished => .between (k + 1) active

def State.phase (s : State) : Phase :=
  match s.monitorCount with
  | 0 => .between 0 s.cycleActive
  | n + 1 => (s.monitorPc n).phase n s.cycleActive

section Phase

variable {s : State}

theorem State.phase_of_newest {k : ℕ} (h : k + 1 = s.monitorCount) :
    s.phase = (s.monitorPc k).phase k s.cycleActive := by
  unfold State.phase
  rw [← h]

/-- The newest monitor moves on. -/
theorem State.phase_moves {s' : State} {es : List Event} {k : ℕ} {pc pc' : MonitorPc}
    (h : k + 1 = s.monitorCount) (hpc : s.monitorPc k = pc)
    (hcount : s'.monitorCount = s.monitorCount)
    (hmonitor : s'.monitorPc = Function.update s.monitorPc k pc')
    (hnext : es.foldlM Phase.next (pc.phase k s.cycleActive) = some (pc'.phase k s'.cycleActive)) :
    es.foldlM Phase.next s.phase = some s'.phase := by
  rw [State.phase_of_newest h, hpc, State.phase_of_newest (h.trans hcount.symm), hmonitor,
    Function.update_self]
  exact hnext

/-- No monitor has its cycle to end. -/
theorem State.phase_of_over (h : ∀ k, (s.monitorPc k).runs = false) :
    s.phase = .between s.monitorCount s.cycleActive := by
  unfold State.phase
  split
  · next hcount => rw [hcount]
  · next n hcount =>
    rw [hcount]
    have hn := h n
    cases hpc : s.monitorPc n <;> rw [hpc] at hn <;> first | rfl | cases hn

theorem Phase.between_active (n : ℕ) (active : Bool) : (between n active).active = active := by
  cases active <;> rfl

/-- The flag tells whether a cycle is active. -/
theorem CycleInv.phase_active (h : CycleInv s) : s.phase.active = s.cycleActive := by
  unfold State.phase
  split
  · exact Phase.between_active _ _
  · next n hcount =>
    by_cases hruns : (s.monitorPc n).runs = true
    · rw [h.own.flagged (.monitor n) hruns]
      cases hpc : s.monitorPc n with
      | unborn | ended | finished =>
        rw [hpc] at hruns
        cases hruns
      | _ => rfl
    · cases hpc : s.monitorPc n <;> rw [hpc] at hruns <;>
        first | exact Phase.between_active _ _ | exact absurd rfl hruns

/-- A worker is there only before its monitor has joined. -/
theorem WorkerInv.phase_working (h : WorkerInv s) {w : ℕ}
    (hw : (s.workerPc w).alive = true) : s.phase.working = true := by
  have hmem := h.listed w hw
  have hactive : s.cycleActive = true := by
    by_contra hno
    rw [h.inactive (Bool.eq_false_iff.mpr hno)] at hmem
    cases hmem
  unfold State.phase
  split
  · rw [hactive]
    rfl
  · next n hcount =>
    have hsound := h.monitors n
    rw [hactive]
    cases hpc : s.monitorPc n with
    | inCallback | clearId | deactivate =>
      rw [hpc] at hsound
      rw [hsound.1] at hmem
      cases hmem
    | _ => rfl

end Phase

section Step

variable {C : Config} {s s' : State} {a : Action} {es : List Event}

/-- The events of a call that moves on fit the phase. -/
theorem CallPc.Advance.fits {t : Tid} {pc pc' : CallPc} (h : pc.Advance C s t pc' es)
    (hsound : pc.Sound s) (hc : CycleInv s) :
    es.foldlM Phase.next s.phase = some s.phase := by
  have hwaited (hinactive : s.cycleActive = false) :
      [Event.waited t].foldlM Phase.next s.phase = some s.phase := by
    simp [Phase.next, hc.phase_active, hinactive]
  cases h with
  | live hstopped =>
    have hactive : s.cycleActive = true := by
      rcases hsound with hactive | hno
      · exact hactive
      · rw [hstopped] at hno
        cases hno
    simp [Phase.next, hc.phase_active, hactive]
  | waited hinactive | restartWaited hinactive => exact hwaited hinactive
  | _ => rfl

/-- **The events of a step are the next ones of a sequence of cycles.** -/
theorem phase_step (hc : CycleInv s) (hn : NewestInv s) (hw : WorkerInv s)
    (hm : Move C s a es s') : es.foldlM Phase.next s.phase = some s'.phase := by
  have hover {t : Tid} (hbuilds : (s.callers t).builds = true) (k : ℕ) :
      (s.monitorPc k).runs = false := by
    rw [Bool.eq_false_iff]
    intro hruns
    cases hc.own.unique (.monitor k) (.caller t) hruns hbuilds
  cases hm with
  | enters | locks | restarts | spawns | stops | catchStops | catchJoins | workerMoves
  | contextStops => rfl
  | advances t ok pc g b hpc => exact hpc.fits (hw.callers t) hc
  | unlocks t pc hpc =>
    cases hpc' : s.callers t <;> rw [hpc'] at hpc <;> cases hpc <;> rfl
  | activates t hpc =>
    have hinactive := hc.fresh t (by rw [hpc]; rfl)
    have hnone (k : ℕ) : (s.monitorPc k).runs = false := hc.own.nobody hinactive (.monitor k)
    rw [State.phase_of_over hnone, State.phase_of_over (by exact hnone), hinactive]
    rfl
  | creates t hpc =>
    have hbuilds : (s.callers t).builds = true := by rw [hpc]; rfl
    rw [State.phase_of_over (hover hbuilds), hc.own.flagged (.caller t) hbuilds,
      State.phase_of_newest (k := s.monitorCount) rfl]
    simp [State.setCaller, State.setMonitor, Phase.between, Phase.next, MonitorPc.phase]
  | catchDeactivates t hpc =>
    have hbuilds : (s.callers t).builds = true := by rw [hpc]; rfl
    rw [State.phase_of_over (hover hbuilds), hc.own.flagged (.caller t) hbuilds,
      State.phase_of_over (by exact hover hbuilds)]
    rfl
  | joins k hpc hall =>
    have hnewest := hn.newest (k := k) (by rw [hpc]; rfl)
    exact State.phase_moves hnewest hpc rfl rfl rfl
  | monitorMoves k pc i hpc =>
    cases hpc' : s.monitorPc k <;> rw [hpc'] at hpc <;> cases hpc
    case ended.exit =>
      have hsame (j : ℕ) (active : Bool) : ((s.setMonitor k .finished).monitorPc j).phase j active =
          (s.monitorPc j).phase j active := by
        by_cases hjk : j = k
        · subst hjk
          simp [State.setMonitor, hpc', MonitorPc.phase]
        · simp [State.setMonitor, hjk]
      show some s.phase = some (s.setMonitor k .finished).phase
      unfold State.phase
      simp only [hsame]
      rfl
    all_goals
      have hnewest := hn.newest (k := k) (by rw [hpc']; rfl)
      exact State.phase_moves hnewest hpc' rfl rfl (by simp [MonitorPc.phase, Phase.next])
  | deactivates k hpc =>
    have hnewest := hn.newest (k := k) (by rw [hpc]; rfl)
    refine State.phase_moves hnewest hpc rfl rfl ?_
    simp [State.setMonitor, MonitorPc.phase, Phase.next, Phase.between]

end Step

/-! ## What `run()` returns -/

/-- The cycles whose `run()` has returned true, oldest first. -/
def returned (tr : List Event) : List ℕ :=
  tr.filterMap fun
    | .ran _ k => some k
    | _ => none

/-- The cycle a `run()` is about to return true for. -/
def CallPc.assigns : CallPc → Option ℕ
  | .runAssign k | .runReturn k => some k
  | _ => none

theorem CallPc.locked_of_assigns {pc : CallPc} {k : ℕ} (h : pc.assigns = some k) :
    pc.locked = true := by
  cases pc <;> first | rfl | cases h

/-- Every monitor has its `run()`, which has returned true or is about to. -/
structure ReturnInv (tr : List Event) (s : State) : Prop where
  nodup : (returned tr).Nodup
  bound : ∀ k ∈ returned tr, k < s.monitorCount
  pending : ∀ t k, (s.callers t).assigns = some k → k < s.monitorCount ∧ k ∉ returned tr
  all : ∀ k, k < s.monitorCount → k ∈ returned tr ∨ ∃ t, (s.callers t).assigns = some k

namespace ReturnInv

variable {C : Config} {tr : List Event} {s s' : State} {a : Action} {es : List Event}

/-- A call moves on that is as near to returning true as before. -/
theorem caller (h : ReturnInv tr s) {t : Tid} {pc : CallPc} (hes : returned es = [])
    (hcallers : s'.callers = Function.update s.callers t pc)
    (hcount : s'.monitorCount = s.monitorCount) (hassigns : pc.assigns = (s.callers t).assigns) :
    ReturnInv (tr ++ es) s' := by
  have hreturned : returned (tr ++ es) = returned tr := by
    rw [returned, List.filterMap_append, ← returned, ← returned, hes, List.append_nil]
  have hsame (u : Tid) : (s'.callers u).assigns = (s.callers u).assigns := by
    rw [hcallers]
    by_cases hut : u = t
    · rw [hut, Function.update_self, hassigns]
    · rw [Function.update_of_ne hut]
  refine ⟨hreturned ▸ h.nodup, ?_, fun u k hu => ?_, fun k hk => ?_⟩
  · rw [hreturned, hcount]
    exact h.bound
  · rw [hreturned, hcount]
    exact h.pending u k (hsame u ▸ hu)
  · rw [hreturned]
    rw [hcount] at hk
    exact (h.all k hk).imp_right fun ⟨u, hu⟩ => ⟨u, (hsame u).trans hu⟩

/-- Monitors and workers move on. -/
theorem others (h : ReturnInv tr s) (hes : returned es = []) (hcallers : s'.callers = s.callers)
    (hcount : s'.monitorCount = s.monitorCount) : ReturnInv (tr ++ es) s' :=
  h.caller (t := .user 0) hes
    (hcallers.trans (Function.update_eq_self _ _).symm) hcount rfl

/-- A `run()` creates the monitor of its cycle. -/
theorem creates (h : ReturnInv tr s) {t : Tid} (hpc : (s.callers t).assigns = none)
    (hcallers : s'.callers = Function.update s.callers t (.runAssign s.monitorCount))
    (hcount : s'.monitorCount = s.monitorCount + 1) :
    ReturnInv (tr ++ [.spawned s.monitorCount]) s' := by
  have hreturned : returned (tr ++ [.spawned s.monitorCount]) = returned tr := by
    simp [returned]
  have hother {u : Tid} {k : ℕ} (hu : (s.callers u).assigns = some k) :
      s'.callers u = s.callers u := by
    rw [hcallers, Function.update_of_ne]
    intro hut
    rw [hut, hpc] at hu
    cases hu
  refine ⟨hreturned ▸ h.nodup, fun k hk => ?_, fun u k hu => ?_, fun k hk => ?_⟩
  · have := h.bound k (hreturned ▸ hk)
    omega
  · rw [hreturned]
    by_cases hut : u = t
    · subst hut
      rw [hcallers, Function.update_self] at hu
      cases hu
      exact ⟨by omega, fun hk => Nat.lt_irrefl _ (h.bound _ hk)⟩
    · rw [hcallers, Function.update_of_ne hut] at hu
      have := h.pending u k hu
      exact ⟨by omega, this.2⟩
  · rw [hreturned]
    rw [hcount] at hk
    by_cases hnew : k = s.monitorCount
    · refine .inr ⟨t, ?_⟩
      rw [hcallers, Function.update_self, hnew]
      rfl
    · rcases h.all k (by omega) with hold | ⟨u, hu⟩
      · exact .inl hold
      · exact .inr ⟨u, (hother hu).symm ▸ hu⟩

/-- A `run()` returns true. -/
theorem returns (h : ReturnInv tr s) (hl : LockInv s) {t : Tid} {k : ℕ}
    (hpc : s.callers t = .runReturn k) (hcallers : s'.callers = Function.update s.callers t .idle)
    (hcount : s'.monitorCount = s.monitorCount) : ReturnInv (tr ++ [.ran t k]) s' := by
  have hreturned : returned (tr ++ [.ran t k]) = returned tr ++ [k] := by
    simp [returned]
  obtain ⟨hlt, hnew⟩ := h.pending t k (by rw [hpc]; rfl)
  have hlocked : (s.callers t).locked = true := by rw [hpc]; rfl
  refine ⟨?_, fun j hj => ?_, fun u j hu => ?_, fun j hj => ?_⟩
  · rw [hreturned, List.nodup_append]
    refine ⟨h.nodup, List.nodup_singleton k, fun j hj i hi => ?_⟩
    rw [List.mem_singleton.mp hi]
    exact fun hjk => hnew (hjk ▸ hj)
  · rw [hreturned] at hj
    rw [hcount]
    rcases List.mem_append.mp hj with hold | hlast
    · exact h.bound j hold
    · exact List.mem_singleton.mp hlast ▸ hlt
  · -- two `run()` calls cannot be past the lock
    rw [hcallers] at hu
    by_cases hut : u = t
    · subst hut
      rw [Function.update_self] at hu
      cases hu
    · rw [Function.update_of_ne hut] at hu
      exact absurd (hl.unique (CallPc.locked_of_assigns hu) hlocked) hut
  · rw [hreturned]
    rw [hcount] at hj
    rcases h.all j hj with hold | ⟨u, hu⟩
    · exact .inl (List.mem_append_left _ hold)
    · have hut := hl.unique (CallPc.locked_of_assigns hu) hlocked
      subst hut
      rw [hpc] at hu
      cases hu
      exact .inl (List.mem_append_right _ (List.mem_singleton_self _))

theorem advances {t : Tid} {pc pc' : CallPc} (h : pc.Advance C s t pc' es) :
    returned es = [] ∧ pc'.assigns = pc.assigns := by
  cases h <;> exact ⟨rfl, rfl⟩

theorem step (h : ReturnInv tr s) (hl : LockInv s) (hm : Move C s a es s') :
    ReturnInv (tr ++ es) s' := by
  cases hm with
  | enters t c hpc hmay =>
    exact h.caller (t := t) rfl rfl rfl (by rw [hpc]; cases c <;> rfl)
  | advances t ok pc g b hpc =>
    obtain ⟨hes, hassigns⟩ := advances hpc
    exact h.caller (t := t) hes rfl rfl hassigns
  | locks t pc hpc hfree =>
    refine h.caller (t := t) rfl rfl rfl ?_
    cases hpc' : s.callers t <;> rw [hpc'] at hpc <;> cases hpc <;> rfl
  | unlocks t pc hpc =>
    cases hpc' : s.callers t <;> rw [hpc'] at hpc <;> cases hpc
    case runReturn.ran k => exact h.returns hl hpc' rfl rfl
    all_goals exact h.caller (t := t) rfl rfl rfl (by rw [hpc']; rfl)
  | creates t hpc => exact h.creates (t := t) (by rw [hpc]; rfl) rfl rfl
  | restarts t hpc | activates t hpc | spawns t i hpc hlt | stops t r hpc | catchStops t ok hpc
  | catchJoins t hpc hall | catchDeactivates t hpc =>
    exact h.caller (t := t) rfl rfl rfl (by rw [hpc]; rfl)
  | workerMoves | joins | deactivates | contextStops => exact h.others rfl rfl rfl
  | monitorMoves k pc i hpc =>
    refine h.others ?_ rfl rfl
    cases hpc' : s.monitorPc k <;> rw [hpc'] at hpc <;> cases hpc <;> rfl

end ReturnInv

/-! ## What a `run()` that returns false has seen -/

/-- The thread whose call shows the event. -/
def Event.caller : Event → Option Tid
  | .ran t _ | .sawLive t | .refused t | .threw t | .waited t => some t
  | _ => none

/-- The last event of the calls of `t`. -/
def lastOf (t : Tid) (tr : List Event) : Option Event :=
  (tr.filter fun e => e.caller = some t).getLast?

theorem lastOf_append_of_others {t : Tid} {es : List Event} (h : ∀ e ∈ es, e.caller ≠ some t)
    (tr : List Event) : lastOf t (tr ++ es) = lastOf t tr := by
  have hnil : (es.filter fun e => e.caller = some t) = [] :=
    List.filter_eq_nil_iff.mpr fun e he => by simpa using h e he
  rw [lastOf, List.filter_append, hnil, List.append_nil, ← lastOf]

theorem lastOf_append_singleton {t : Tid} {e : Event} (h : e.caller = some t) (tr : List Event) :
    lastOf t (tr ++ [e]) = some e := by
  simp [lastOf, List.filter_append, h]

/-- A `run()` about to return false has seen a live cycle, and no call of its thread has ended
since. -/
def RefuseInv (tr : List Event) (s : State) : Prop :=
  ∀ t, s.callers t = .runRefuse → lastOf t tr = some (.sawLive t)

namespace RefuseInv

variable {C : Config} {tr : List Event} {s s' : State} {a : Action} {es : List Event}

/-- A call moves on, not to where it returns false. -/
theorem caller (h : RefuseInv tr s) {t : Tid} {pc : CallPc}
    (hcallers : s'.callers = Function.update s.callers t pc)
    (hes : ∀ e ∈ es, e.caller = none ∨ e.caller = some t) (hpc : pc ≠ .runRefuse) :
    RefuseInv (tr ++ es) s' := by
  intro u hu
  rw [hcallers] at hu
  by_cases hut : u = t
  · subst hut
    rw [Function.update_self] at hu
    exact absurd hu hpc
  · rw [Function.update_of_ne hut] at hu
    rw [lastOf_append_of_others (fun e he hcaller => ?_)]
    · exact h u hu
    · rcases hes e he with hnone | hsome
      · rw [hnone] at hcaller
        cases hcaller
      · rw [hsome] at hcaller
        exact hut (Option.some.inj hcaller).symm

/-- Monitors and workers move on. -/
theorem others (h : RefuseInv tr s) (hcallers : s'.callers = s.callers)
    (hes : ∀ e ∈ es, e.caller = none) : RefuseInv (tr ++ es) s' := by
  intro u hu
  rw [hcallers] at hu
  rw [lastOf_append_of_others fun e he hcaller => ?_]
  · exact h u hu
  · rw [hes e he] at hcaller
    cases hcaller

/-- A `run()` sees a live cycle. -/
theorem sees (h : RefuseInv tr s) {t : Tid}
    (hcallers : s'.callers = Function.update s.callers t .runRefuse) :
    RefuseInv (tr ++ [.sawLive t]) s' := by
  intro u hu
  by_cases hut : u = t
  · subst hut
    exact lastOf_append_singleton rfl tr
  · rw [hcallers, Function.update_of_ne hut] at hu
    rw [lastOf_append_of_others fun e he hcaller => ?_]
    · exact h u hu
    · rw [List.mem_singleton.mp he] at hcaller
      exact hut (Option.some.inj hcaller).symm

/-- The events of a call are its own. -/
theorem advances {t : Tid} {pc pc' : CallPc} (h : pc.Advance C s t pc' es) :
    (pc' = .runRefuse ∧ es = [.sawLive t]) ∨
      (pc' ≠ .runRefuse ∧ ∀ e ∈ es, e.caller = none ∨ e.caller = some t) := by
  cases h with
  | live hstopped => exact .inl ⟨rfl, rfl⟩
  | inCallback | waited | restartWaited =>
    exact .inr ⟨nofun, fun e he => .inr (List.mem_singleton.mp he ▸ rfl)⟩
  | _ => exact .inr ⟨nofun, nofun⟩

theorem unlocks {t : Tid} {pc pc' : CallPc} (h : pc.Unlocks t pc' es) :
    pc' ≠ .runRefuse ∧ ∀ e ∈ es, e.caller = none ∨ e.caller = some t := by
  cases h <;> exact ⟨nofun, by simp [Event.caller]⟩

theorem monitorMoves {k : ℕ} {pc pc' : MonitorPc} {i : Option Tid}
    (h : pc.Advance s k pc' i es) : ∀ e ∈ es, e.caller = none := by
  cases h <;> simp [Event.caller]

theorem step (h : RefuseInv tr s) (hm : Move C s a es s') : RefuseInv (tr ++ es) s' := by
  cases hm with
  | enters t c hpc hmay => exact h.caller (t := t) rfl nofun (by cases c <;> nofun)
  | advances t ok pc g b hpc =>
    rcases advances hpc with ⟨rfl, rfl⟩ | ⟨hne, hes⟩
    · exact h.sees (t := t) rfl
    · exact h.caller (t := t) rfl hes hne
  | locks t pc hpc hfree =>
    refine h.caller (t := t) rfl nofun ?_
    cases hpc' : s.callers t <;> rw [hpc'] at hpc <;> cases hpc <;> nofun
  | unlocks t pc hpc =>
    obtain ⟨hne, hes⟩ := unlocks hpc
    exact h.caller (t := t) rfl hes hne
  | creates t hpc | activates t hpc | catchDeactivates t hpc =>
    exact h.caller (t := t) rfl (fun e he => .inl (List.mem_singleton.mp he ▸ rfl)) nofun
  | restarts t hpc | spawns t i hpc hlt | stops t r hpc | catchStops t ok hpc
  | catchJoins t hpc hall => exact h.caller (t := t) rfl nofun nofun
  | workerMoves | joins | contextStops => exact h.others rfl nofun
  | deactivates k hpc => exact h.others rfl fun e he => List.mem_singleton.mp he ▸ rfl
  | monitorMoves k pc i hpc =>
    exact h.others rfl (monitorMoves hpc)

end RefuseInv

/-! ## The result -/

/-- What holds along every run. -/
structure TraceInv (tr : List Event) (s : State) : Prop where
  lock : LockInv s
  cycle : CycleInv s
  newest : NewestInv s
  workers : WorkerInv s
  callback : CallbackInv s
  returns : ReturnInv tr s
  refuses : RefuseInv tr s
  scan : scan tr = some s.phase

variable {C : Config} {tr : List Event} {s : State}

theorem traceInv (h : (system C).Reachable tr s) : TraceInv tr s := by
  refine Run.invariant (I := TraceInv) ?_ ?_ h
  · refine ⟨nofun, ?_, ⟨fun _ _ => rfl, fun _ _ => rfl⟩, ?_, ?_, ?_, nofun, rfl⟩
    · exact ⟨.of_nobody (fun x => by cases x <;> rfl) _, nofun, nofun⟩
    · exact ⟨nofun, fun _ => rfl, nofun, fun _ => trivial, fun _ => trivial⟩
    · exact ⟨nofun, fun _ hcall => absurd rfl hcall⟩
    · exact ⟨List.nodup_nil, nofun, nofun, nofun⟩
  · intro tr s a s' es _ _ hstep ih
    have hm := step_move hstep
    refine ⟨ih.lock.step hm, ih.cycle.step ih.lock hm, ih.newest.step ih.cycle hm,
      ih.workers.step ih.lock ih.cycle hm, ih.callback.step ih.newest hm,
      ih.returns.step ih.lock hm, ih.refuses.step hm, ?_⟩
    rw [scan_append, ih.scan]
    exact phase_step ih.cycle ih.newest ih.workers hm

theorem below_eq_one {n k : ℕ} (h : k < n) : below n k = 1 := if_pos h

theorem lt_of_below_pos {n k : ℕ} (h : 0 < below n k) : k < n := by
  unfold below at h
  split at h
  · assumption
  · cases h

theorem MonitorPc.phase_spawns (pc : MonitorPc) (k : ℕ) (active : Bool) :
    (pc.phase k active).spawns = k + 1 := by
  cases pc <;> cases active <;> rfl

/-- Every monitor has been counted. -/
theorem State.phase_spawns (s : State) : s.phase.spawns = s.monitorCount := by
  unfold State.phase
  split
  · next hcount =>
    rw [hcount]
    cases s.cycleActive <;> rfl
  · next n hcount => rw [hcount, MonitorPc.phase_spawns]

theorem TraceInv.spawned_iff (h : TraceInv tr s) (k : ℕ) :
    .spawned k ∈ tr ↔ k < s.monitorCount := by
  rw [← List.count_pos_iff, (scan_counts h.scan k).1, State.phase_spawns]
  exact ⟨lt_of_below_pos, fun hlt => by rw [below_eq_one hlt]; exact Nat.zero_lt_one⟩

section Events

variable {s' : State} {a : Action} {es : List Event} {t : Tid}

/-- The events of a call are shown where it moves on or releases the lock. -/
theorem Move.of_caller (hm : Move C s a es s') {e : Event} (he : e ∈ es)
    (ht : e.caller = some t) :
    (∃ pc, (s.callers t).Advance C s t pc es) ∨ ∃ pc, (s.callers t).Unlocks t pc es := by
  cases hm with
  | advances u ok pc g b hpc =>
    have hut : u = t := by
      rcases RefuseInv.advances hpc with ⟨-, rfl⟩ | ⟨-, hes⟩
      · rw [List.mem_singleton.mp he] at ht
        exact Option.some.inj ht
      · rcases hes e he with hnone | hsome
        · rw [hnone] at ht
          cases ht
        · exact Option.some.inj (hsome.symm.trans ht)
    exact .inl ⟨pc, hut ▸ hpc⟩
  | unlocks u pc hpc =>
    have hut : u = t := by
      rcases (RefuseInv.unlocks hpc).2 e he with hnone | hsome
      · rw [hnone] at ht
        cases ht
      · exact Option.some.inj (hsome.symm.trans ht)
    exact .inr ⟨pc, hut ▸ hpc⟩
  | creates | activates | catchDeactivates | deactivates =>
    rw [List.mem_singleton.mp he] at ht
    cases ht
  | monitorMoves k pc i hpc =>
    rw [RefuseInv.monitorMoves hpc e he] at ht
    cases ht
  | _ => cases he

theorem Move.of_waited (hm : Move C s a es s') (he : .waited t ∈ es) : s.cycleActive = false := by
  have hadvance {pc pc' : CallPc} (h : pc.Advance C s t pc' es) : s.cycleActive = false := by
    cases h <;> first | assumption | simp at he
  have hunlock {pc pc' : CallPc} (h : pc.Unlocks t pc' es) : s.cycleActive = false := by
    cases h <;> simp at he
  rcases hm.of_caller he rfl with ⟨pc, h⟩ | ⟨pc, h⟩
  · exact hadvance h
  · exact hunlock h

theorem Move.of_sawLive (hw : WorkerInv s) (hm : Move C s a es s') (he : .sawLive t ∈ es) :
    s.cycleActive = true ∧ s.stopped = false := by
  have hadvance {pc pc' : CallPc} (hsound : pc.Sound s) (h : pc.Advance C s t pc' es) :
      s.cycleActive = true ∧ s.stopped = false := by
    cases h with
    | live hlive =>
      rcases hsound with hactive | hstopped
      · exact ⟨hactive, hlive⟩
      · rw [hlive] at hstopped
        cases hstopped
    | _ => simp at he
  have hunlock {pc pc' : CallPc} (h : pc.Unlocks t pc' es) :
      s.cycleActive = true ∧ s.stopped = false := by
    cases h <;> simp at he
  rcases hm.of_caller he rfl with ⟨pc, h⟩ | ⟨pc, h⟩
  · exact hadvance (hw.callers t) h
  · exact hunlock h

theorem Move.of_refused (hm : Move C s a es s') (he : .refused t ∈ es) :
    s.callers t = .runRefuse := by
  have hadvance {pc pc' : CallPc} (h : pc.Advance C s t pc' es) : pc = .runRefuse := by
    cases h <;> simp at he
  have hunlock {pc pc' : CallPc} (h : pc.Unlocks t pc' es) : pc = .runRefuse := by
    cases h <;> first | rfl | simp at he
  rcases hm.of_caller he rfl with ⟨pc, h⟩ | ⟨pc, h⟩
  · exact hadvance h
  · exact hunlock h

end Events

/-- **The cycles of a pool come one after the other**: a `run()` activates one, it gets its
monitor or fails, the callback is called, returns, and the cycle is over; `m_cycle_active` is
true exactly while one is there, and workers are there only before the callback.  The
`run()` calls that return true are those of the cycles that have their monitor, each of
which calls the callback once.  A call that takes itself to be inside the callback is;
`wait_for_stop()` elsewhere returns while no cycle is active, and a `run()` that returns
false has seen a cycle active and its context not stopped. -/
theorem cycles (h : (system C).Reachable tr s) :
    (∃ p, scan tr = some p ∧ p.active = s.cycleActive ∧
      ∀ w, (s.workerPc w).alive = true → p.working = true) ∧
    ((returned tr).Nodup ∧
      ∀ k, .spawned k ∈ tr ↔ k ∈ returned tr ∨ ∃ t, (s.callers t).assigns = some k) ∧
    (∀ k, .spawned k ∈ tr → .ended k ∉ tr → s.cycleActive = true) ∧
    (∀ k, tr.count (.callback k) ≤ 1 ∧
      (.ended k ∈ tr → tr.count (.callback k) = 1 ∧ tr.count (.callbackEnded k) = 1)) ∧
    (∀ t, s.cbThreadId = some t → s.callers t ≠ .idle →
      ∃ k, t = .monitor k ∧ s.monitorPc k = .inCallback) ∧
    (∀ a s' es t, step C s a = some (s', es) →
      (.waited t ∈ es → s.cycleActive = false) ∧
      (.sawLive t ∈ es → s.cycleActive = true ∧ s.stopped = false) ∧
      (.refused t ∈ es → lastOf t tr = some (.sawLive t))) := by
  have hinv := traceInv h
  have hcounts := scan_counts hinv.scan
  obtain ⟨hover, hreturns, hcalls, hidle⟩ := s.phase.counts_le
  refine ⟨⟨_, hinv.scan, hinv.cycle.phase_active, fun w hw => hinv.workers.phase_working hw⟩,
    ⟨hinv.returns.nodup, fun k => ?_⟩, fun k hspawned hended => ?_, fun k => ⟨?_, fun hended => ?_⟩,
    fun t => hinv.callback.calls, fun a s' es t hstep => ?_⟩
  · rw [hinv.spawned_iff k]
    constructor
    · exact hinv.returns.all k
    · rintro (hreturned | ⟨t, ht⟩)
      · exact hinv.returns.bound k hreturned
      · exact (hinv.returns.pending t k ht).1
  · -- with the flag down every cycle that has its monitor is over
    by_contra hno
    have hphase : s.phase.active = false :=
      hinv.cycle.phase_active.trans (Bool.eq_false_iff.mpr hno)
    have hlt := (hinv.spawned_iff k).mp hspawned
    rw [← State.phase_spawns, hidle hphase] at hlt
    apply hended
    rw [← List.count_pos_iff, (hcounts k).2.2.2, below_eq_one hlt]
    exact Nat.zero_lt_one
  · rw [(hcounts k).2.1]
    unfold below
    split <;> omega
  · rw [← List.count_pos_iff, (hcounts k).2.2.2] at hended
    have hlt := lt_of_below_pos hended
    rw [(hcounts k).2.1, (hcounts k).2.2.1, below_eq_one (by omega), below_eq_one (by omega)]
    exact ⟨rfl, rfl⟩
  · have hm := step_move hstep
    exact ⟨hm.of_waited, hm.of_sawLive hinv.workers, fun he => hinv.refuses t (hm.of_refused he)⟩

/-- One worker and a guard. -/
def guarded : Config := ⟨1, true, Nat.one_pos⟩

/-- The steps of a call of `t`. -/
def calls (t : Tid) (c : Call) (steps : ℕ) : List Action :=
  .call t c :: List.replicate steps (.caller t true)

/-- Two cycles; a `run()` that finds the first live returns false. -/
def twoCycles : List Action :=
  calls (.user 0) .run 11 ++ calls (.user 1) .run 5 ++ calls (.user 1) .stopAsync 5 ++
  [.workerExits 0] ++ List.replicate 7 (.monitor 0) ++ calls (.user 2) .waitForStop 2 ++
  calls (.user 0) .run 11

theorem cycles_two : ∃ tr s, (system guarded).Reachable tr s ∧ returned tr = [0, 1] ∧
    scan tr = some (.running 1) ∧ tr.count (.callback 0) = 1 := by
  have hrun := reachable_exec (M := system guarded) (l := twoCycles) (by decide)
  exact ⟨_, _, hrun, by decide, by decide, ((cycles hrun).2.2.2.1 0).2 (by decide) |>.1⟩

end AsioIoPool
