/-
# The callbacks of a worker

`Phase` says what sequences of callbacks are runs of `on_start`, ticks and `on_stop`,
one after the other; `scan` reads a trace by it.  A thread that is there is the one
`m_thread` owns until it has been joined, and a `start()` past its join has no thread
there (`JoinInv`), so the callbacks of a trace come from the newest thread and `scan`
follows its place (`PhaseInv`).  `ReturnInv` relates the starts that have returned to
the runs.
-/
import Libsg.WorkerExclusive
import Mathlib.Data.List.Induction

open TransitionSystem

namespace Worker

/-! ## Sequences of runs -/

/-- Where a sequence of runs is; `n` runs are over. -/
inductive Phase
  | between (n : ℕ)
  | starting (n : ℕ)
  | looping (n : ℕ)
  | ticking (n : ℕ)
  /-- A tick threw. -/
  | ended (n : ℕ)
  | stopping (n : ℕ)
  deriving DecidableEq, Repr

/-- The callbacks that may come next; other events are skipped. -/
def Phase.next (p : Phase) : Event → Option Phase
  | .onStart w => if p = .between w then some (.starting w) else none
  | .onStarted w false => if p = .starting w then some (.looping w) else none
  | .onStarted _ true => none
  | .loop w .tick => if p = .looping w then some (.ticking w) else none
  | .loop w (.ticked threw) =>
    if p = .ticking w then some (if threw then .ended w else .looping w) else none
  | .onStop w => if p = .looping w ∨ p = .ended w then some (.stopping w) else none
  | .onStopped w => if p = .stopping w then some (.between (w + 1)) else none
  | _ => some p

/-- The place of a trace that is a sequence of runs. -/
def scan (tr : List Event) : Option Phase := tr.foldlM Phase.next (.between 0)

/-- The runs whose `on_start`, whose `on_stop` has been called, whose `on_stop` is over. -/
def Phase.startCalls : Phase → ℕ
  | .between n => n
  | .starting n | .looping n | .ticking n | .ended n | .stopping n => n + 1

def Phase.stopCalls : Phase → ℕ
  | .between n | .starting n | .looping n | .ticking n | .ended n => n
  | .stopping n => n + 1

def Phase.over : Phase → ℕ
  | .between n | .starting n | .looping n | .ticking n | .ended n | .stopping n => n

theorem scan_append (tr es : List Event) :
    scan (tr ++ es) = (scan tr).bind fun p => es.foldlM Phase.next p :=
  List.foldlM_append

/-- What one event adds to the callbacks called. -/
theorem Phase.next_counts {p q : Phase} {e : Event} (h : p.next e = some q) (w : ℕ) :
    (if w < p.startCalls then 1 else 0) + [e].count (.onStart w) =
      (if w < q.startCalls then 1 else 0) ∧
    (if w < p.stopCalls then 1 else 0) + [e].count (.onStop w) =
      (if w < q.stopCalls then 1 else 0) ∧
    (if w < p.over then 1 else 0) + [e].count (.onStopped w) = (if w < q.over then 1 else 0) := by
  unfold Phase.next at h
  split at h
  all_goals
    simp only [List.count_singleton]
    grind -linarith [Phase.startCalls, Phase.stopCalls, Phase.over]

/-- In a sequence of runs each callback of a run is called once, or not yet. -/
theorem scan_counts {tr : List Event} {p : Phase} (h : scan tr = some p) (w : ℕ) :
    tr.count (.onStart w) = (if w < p.startCalls then 1 else 0) ∧
    tr.count (.onStop w) = (if w < p.stopCalls then 1 else 0) ∧
    tr.count (.onStopped w) = (if w < p.over then 1 else 0) := by
  induction tr using List.reverseRecOn generalizing p with
  | nil =>
    cases h
    simp [Phase.startCalls, Phase.stopCalls, Phase.over]
  | append_singleton tr e ih =>
    rw [scan_append] at h
    obtain ⟨q, hq, hnext⟩ := Option.bind_eq_some_iff.mp h
    have hstep : q.next e = some p := by simpa using hnext
    obtain ⟨hstart, hstop, hstopped⟩ := ih hq
    rw [List.count_append, List.count_append, List.count_append, hstart, hstop, hstopped]
    exact Phase.next_counts hstep w

/-! ## The thread that is there -/

/-- The places of a `start()` that has no earlier thread left to join. -/
def CallPc.past : CallPc → Bool
  | .joined (.starting _) | .unlocking (.starting _) | .prepare _ | .resetStop _
  | .resetIterations _ | .setTarget _ | .drainLeftover | .lockThread | .create => true
  | _ => false

theorem CallPc.owns_of_past {pc : CallPc} (h : pc.past = true) : pc.owns = true := by
  cases pc with
  | joined k | unlocking k => cases k <;> first | rfl | cases h
  | prepare | resetStop | resetIterations | setTarget | drainLeftover | lockThread | create => rfl
  | _ => cases h

/-- A thread that has not finished is the newest and is owned by `m_thread`. -/
structure HeldInv (s : State) : Prop where
  newest : ∀ w, s.thread = some w → w + 1 = s.threadCount
  unborn : ∀ w, s.threadCount ≤ w → s.threads w = .unborn
  held : ∀ w, w < s.threadCount → s.threads w ≠ .finished → s.thread = some w

/-- And a `start()` past its join finds `m_thread` empty. -/
structure JoinInv (s : State) : Prop extends HeldInv s where
  past : ∀ t, (s.callers t).past = true → s.thread = none

theorem HeldInv.older {s : State} (h : HeldInv s) (w : ℕ) (hw : w + 1 < s.threadCount) :
    s.threads w = .finished := by
  by_contra hne
  have := h.newest w (h.held w (by omega) hne)
  omega

/-- A thread that makes a step is the newest. -/
theorem HeldInv.acting {s : State} (h : HeldInv s) {w : ℕ} (hborn : s.threads w ≠ .unborn)
    (hlive : s.threads w ≠ .finished) : w + 1 = s.threadCount := by
  by_cases hw : w < s.threadCount
  · exact h.newest w (h.held w hw hlive)
  · exact absurd (h.unborn w (by omega)) hborn

section Step

variable {correctForTaskDelay : Bool} {s s' : State} {a : Action} {es : List Event}

theorem CallPc.Advance.past {pc pc' : CallPc} (h : pc.Advance s pc') (hpc : pc'.past = true) :
    pc.past = true ∨ s.thread = none := by
  cases h with
  | nothingToJoin k hnone => exact .inr hnone
  | lockJoin k | joined k => cases k <;> first | exact .inl rfl | cases hpc
  | unlock | prepare | resetIterations | setTarget | drain | drained | lockThread => exact .inl rfl
  | prepareFails | createFails | created | failed | loadDone | storeTarget | notifies => cases hpc

/-- The threads stay. -/
theorem HeldInv.keep (h : HeldInv s) (hthread : s'.thread = s.thread)
    (hcount : s'.threadCount = s.threadCount) (hthreads : s'.threads = s.threads) : HeldInv s' where
  newest := by rw [hthread, hcount]; exact h.newest
  unborn := by rw [hthreads, hcount]; exact h.unborn
  held := by rw [hthreads, hcount, hthread]; exact h.held

/-- A thread moves on. -/
theorem HeldInv.threadMoves (h : HeldInv s) {w : ℕ} {pc : ThreadPc}
    (hthreads : s'.threads = Function.update s.threads w pc) (hthread : s'.thread = s.thread)
    (hcount : s'.threadCount = s.threadCount) (hborn : s.threads w ≠ .unborn)
    (hlive : s.threads w ≠ .finished) : HeldInv s' := by
  have hlt : w < s.threadCount := by
    have := h.acting hborn hlive
    omega
  refine ⟨?_, fun v hv => ?_, fun v hv hne => ?_⟩
  · rw [hthread, hcount]
    exact h.newest
  · rw [hcount] at hv
    rw [hthreads, Function.update_of_ne (by omega)]
    exact h.unborn v hv
  · rw [hcount] at hv
    rw [hthread]
    by_cases hvw : v = w
    · subst hvw
      exact h.held v hv hlive
    · rw [hthreads, Function.update_of_ne hvw] at hne
      exact h.held v hv hne

theorem HeldInv.step (h : HeldInv s) (hm : Move correctForTaskDelay s a es s') : HeldInv s' := by
  cases hm with
  | joins t k w hpc hthread hfinished =>
    -- what was owned has finished, so nothing is left to own
    refine ⟨by rintro _ ⟨⟩, h.unborn, fun v hv hne => ?_⟩
    have hheld := h.held v hv hne
    rw [hthread] at hheld
    cases hheld
    exact absurd hfinished hne
  | creates t hpc hthread =>
    refine ⟨fun w hw => ?_, fun w hw => ?_, fun w hw hne => ?_⟩
    · cases hw
      rfl
    · show Function.update s.threads s.threadCount .spawned w = .unborn
      have hlt : s.threadCount + 1 ≤ w := hw
      rw [Function.update_of_ne (by omega)]
      exact h.unborn w (by omega)
    · show some s.threadCount = some w
      by_cases hwn : w = s.threadCount
      · rw [hwn]
      · have hlt : w < s.threadCount + 1 := hw
        have hold : s.threads w ≠ .finished := by
          simpa [State.setCaller, State.setThread, hwn] using hne
        have hheld := h.held w (by omega) hold
        rw [hthread] at hheld
        cases hheld
  | runs w hpc | starts w hpc | startReturns w hpc | startThrows w hpc | fulfils w hpc | fails w hpc
  | breaks w hpc | stopped w hpc | stops w threw hpc | leaves w threw hpc
  | loops w pc pc' c es hpc hloop =>
    exact h.threadMoves (w := w) rfl rfl rfl (by simp [hpc]) (by simp [hpc])
  | _ => exact h.keep rfl rfl rfl

theorem JoinInv.start (correctForTaskDelay : Bool) (interval : ℤ) :
    JoinInv (system correctForTaskDelay interval).start where
  newest _ hw := by cases hw
  unborn _ _ := rfl
  held _ hw := absurd hw (Nat.not_lt_zero _)
  past _ hpast := by cases hpast

/-- A call moves on. -/
theorem JoinInv.past_caller (h : JoinInv s) {t : ℕ} {pc : CallPc}
    (hcallers : s'.callers = Function.update s.callers t pc) (hthread : s'.thread = s.thread)
    (hpast : pc.past = true → s.thread = none) (u : ℕ) (hu : (s'.callers u).past = true) :
    s'.thread = none := by
  rw [hcallers] at hu
  rw [hthread]
  by_cases hut : u = t
  · subst hut
    rw [Function.update_self] at hu
    exact hpast hu
  · rw [Function.update_of_ne hut] at hu
    exact h.past u hu

theorem JoinInv.step (h : JoinInv s) (hown : OwnInv s) (hm : Move correctForTaskDelay s a es s') :
    JoinInv s' where
  toHeldInv := h.toHeldInv.step hm
  past := by
    cases hm with
    | begins t n hpc hrun => exact h.past_caller (t := t) rfl rfl (by rintro ⟨⟩)
    | enters t pc hpc hentry =>
      exact h.past_caller (t := t) rfl rfl fun hpast => by cases hentry <;> cases hpast
    | advances t pc c m i hpc hstop =>
      refine h.past_caller (t := t) rfl rfl fun hpast => ?_
      rcases hpc.past hpast with hold | hnone
      · exact h.past t hold
      · exact hnone
    | waited t hpc | returns t w hpc hvalue | undoes t ok failed hpc | storesStop t hpc =>
      exact h.past_caller (t := t) rfl rfl (by rintro ⟨⟩)
    | resets t n hpc =>
      exact h.past_caller (t := t) rfl rfl fun _ => h.past t (by rw [hpc]; rfl)
    | joins t k w hpc hthread hfinished => exact fun _ _ => rfl
    | creates t hpc hthread =>
      -- a second `start()` past its join would be a second owner
      intro u hu
      have hut : u ≠ t := by
        rintro rfl
        simp [State.setCaller, CallPc.past] at hu
      have hold : (s.callers u).past = true := by
        simpa [State.setCaller, State.setThread, hut] using hu
      have hsame := hown.unique (.caller u) (.caller t) (CallPc.owns_of_past hold)
        (by show (s.callers t).owns = true; rw [hpc]; rfl)
      exact absurd (Owner.caller.inj hsame) hut
    | _ => exact h.past

end Step

/-! ## Runs without a throwing start callback -/

/-- No start callback throws. -/
def startReturns (s : State) : Action → Prop
  | .thread w ok => s.threads w = .inStart → ok = true
  | _ => True

instance (s : State) : (a : Action) → Decidable (startReturns s a)
  | .thread w ok => inferInstanceAs (Decidable (s.threads w = .inStart → ok = true))
  | .call .. | .caller .. | .loop .. | .startWithId _ => .isTrue trivial

/-- What only a throwing start callback leads to. -/
structure CleanInv (s : State) : Prop where
  threads : ∀ w, s.threads w ≠ .startThrew ∧ s.threads w ≠ .startStored
  promises : ∀ w, s.promises w ≠ .exception
  callers : ∀ t w, s.callers t ≠ .handler (some w)

theorem CleanInv.timely {s : State} (h : CleanInv s) (a : Action) : timely s a := by
  unfold Worker.timely
  split
  · next t ok =>
    split
    · next w hpc => exact absurd hpc (h.callers t w)
    · trivial
  · trivial

section Clean

variable {correctForTaskDelay : Bool} {s s' : State} {a : Action} {es : List Event}

theorem CleanInv.caller (h : CleanInv s) {t : ℕ} {pc : CallPc} (hthreads : s'.threads = s.threads)
    (hpromises : s'.promises = s.promises) (hcallers : s'.callers = Function.update s.callers t pc)
    (hpc : ∀ w, pc ≠ .handler (some w)) : CleanInv s' where
  threads := by rw [hthreads]; exact h.threads
  promises := by rw [hpromises]; exact h.promises
  callers u w := by
    rw [hcallers]
    by_cases hut : u = t
    · subst hut
      rw [Function.update_self]
      exact hpc w
    · rw [Function.update_of_ne hut]
      exact h.callers u w

theorem CleanInv.threadMoves (h : CleanInv s) {w : ℕ} {pc : ThreadPc}
    (hthreads : s'.threads = Function.update s.threads w pc)
    (hpromises : ∀ v, s'.promises v = .exception → s.promises v = .exception)
    (hcallers : s'.callers = s.callers) (hpc : pc ≠ .startThrew ∧ pc ≠ .startStored) :
    CleanInv s' where
  threads v := by
    rw [hthreads]
    by_cases hvw : v = w
    · subst hvw
      rw [Function.update_self]
      exact hpc
    · rw [Function.update_of_ne hvw]
      exact h.threads v
  promises v hv := h.promises v (hpromises v hv)
  callers := by rw [hcallers]; exact h.callers

theorem CallPc.Advance.failed_of_handler {pc pc' : CallPc} (h : pc.Advance s pc') {w : ℕ}
    (hpc : pc' = .handler (some w)) : s.promises w = .exception := by
  cases h with
  | failed v hexception =>
    cases hpc
    exact hexception
  | _ => cases hpc

theorem CleanInv.step (h : CleanInv s) (hC : startReturns s a)
    (hm : Move correctForTaskDelay s a es s') : CleanInv s' := by
  cases hm with
  | refused | observes | refusedWithId => exact h
  | controls | overwrites | beginsWithId => exact ⟨h.threads, h.promises, h.callers⟩
  | begins t | waited t | resets t | returns t | undoes t | storesStop t | joins t =>
    exact h.caller (t := t) rfl rfl rfl (by simp)
  | enters t pc hpc hentry =>
    exact h.caller (t := t) rfl rfl rfl fun w => by cases hentry <;> simp
  | advances t pc c m i hpc hstop =>
    exact h.caller (t := t) rfl rfl rfl fun w hw => h.promises w (hpc.failed_of_handler hw)
  | creates t hpc hthread =>
    have hmoved : CleanInv (s.setThread s.threadCount .spawned) :=
      h.threadMoves (w := s.threadCount) rfl (fun _ hv => hv) rfl ⟨by simp, by simp⟩
    exact hmoved.caller (t := t) rfl rfl rfl (by simp)
  | runs w | starts w | startReturns w | leaves w | stops w | stopped w | loops w =>
    exact h.threadMoves (w := w) rfl (fun _ hv => hv) rfl ⟨by simp, by simp⟩
  | fulfils w hpc =>
    refine h.threadMoves (w := w) rfl (fun v hv => ?_) rfl ⟨by simp, by simp⟩
    by_cases hvw : v = w
    · subst hvw
      simp [State.setPromise, State.setThread] at hv
    · simpa [State.setPromise, State.setThread, hvw] using hv
  | startThrows w hpc => exact absurd (hC hpc) (by simp)
  | fails w hpc => exact absurd hpc (h.threads w).1
  | breaks w hpc => exact absurd hpc (h.threads w).2

end Clean

/-! ## The phase of a state -/

def ThreadPc.phase (w : ℕ) : ThreadPc → Phase
  | .inStart => .starting w
  | .started => .looping w
  | .looping (.ticking _) => .ticking w
  | .looping (.left true) => .ended w
  | .looping _ => .looping w
  | .toStop true => .ended w
  | .toStop false => .looping w
  | .inStop => .stopping w
  | .finished => .between (w + 1)
  | _ => .between w

/-- The newest thread says where the callbacks are. -/
def State.phase (s : State) : Phase :=
  match s.threadCount with
  | 0 => .between 0
  | n + 1 => (s.threads n).phase n

theorem State.phase_of_newest {s : State} {w : ℕ} (hw : w + 1 = s.threadCount) :
    s.phase = (s.threads w).phase w := by
  rw [State.phase, ← hw]

section Phases

variable {correctForTaskDelay : Bool} {s s' : State} {a : Action} {es : List Event}

/-- The threads stay as they are. -/
theorem State.phase_congr (hcount : s'.threadCount = s.threadCount)
    (hthreads : s'.threads = s.threads) : s'.phase = s.phase := by
  rw [State.phase, State.phase, hcount, hthreads]

/-- The newest thread moves on and shows `es`. -/
theorem phase_thread (hjoin : JoinInv s) {w : ℕ} {pc pc' : ThreadPc} (hpc : s.threads w = pc)
    (hborn : pc ≠ .unborn) (hlive : pc ≠ .finished) (hcount : s'.threadCount = s.threadCount)
    (hthreads : s'.threads = Function.update s.threads w pc')
    (hes : es.foldlM Phase.next (pc.phase w) = some (pc'.phase w)) :
    es.foldlM Phase.next s.phase = some s'.phase := by
  have hw : w + 1 = s.threadCount := hjoin.acting (w := w) (by rwa [hpc]) (by rwa [hpc])
  rw [State.phase_of_newest hw, hpc, State.phase_of_newest (hw.trans hcount.symm), hthreads,
    Function.update_self]
  exact hes

/-- The loop shows what its places say. -/
theorem phase_loop {c c' : Control} {pc pc' : LoopPc} {les : List LoopEvent} (w : ℕ)
    (h : LoopMove correctForTaskDelay c pc c' pc' les) :
    (les.map (Event.loop w)).foldlM Phase.next ((ThreadPc.looping pc).phase w) =
      some ((ThreadPc.looping pc').phase w) := by
  cases h <;> simp [ThreadPc.phase, Phase.next]

/-- The callbacks of a step lead from the phase before it to the phase after it. -/
theorem phase_step (hclean : CleanInv s) (hC : startReturns s a) (hjoin : JoinInv s)
    (hm : Move correctForTaskDelay s a es s') : es.foldlM Phase.next s.phase = some s'.phase := by
  cases hm with
  | refused | observes | refusedWithId => rfl
  | controls | overwrites | begins | enters | advances | joins | waited | resets | returns | undoes
  | storesStop | beginsWithId => exact congrArg some (State.phase_congr rfl rfl)
  | creates t hpc hthread =>
    -- every earlier thread has finished
    have hnew : (s.threads s.threadCount).phase s.threadCount = .between s.threadCount := by
      rw [hjoin.unborn _ (Nat.le_refl _)]
      rfl
    have hold : s.phase = .between s.threadCount := by
      rw [State.phase]
      cases hcount : s.threadCount with
      | zero => rfl
      | succ n =>
        have hfinished : s.threads n = .finished := by
          by_contra hne
          rw [hjoin.held n (by omega) hne] at hthread
          cases hthread
        dsimp only
        rw [hfinished]
        rfl
    rw [hold]
    refine congrArg some (Eq.symm ?_)
    rw [State.phase_of_newest (w := s.threadCount) rfl]
    simp [State.setCaller, State.setThread, ThreadPc.phase]
  | runs w hpc => exact phase_thread hjoin hpc (by simp) (by simp) rfl rfl rfl
  | starts w hpc =>
    exact phase_thread hjoin hpc (by simp) (by simp) rfl rfl (by simp [ThreadPc.phase, Phase.next])
  | startReturns w hpc =>
    exact phase_thread hjoin hpc (by simp) (by simp) rfl rfl (by simp [ThreadPc.phase, Phase.next])
  | startThrows w hpc => exact absurd (hC hpc) (by simp)
  | fulfils w hpc => exact phase_thread hjoin hpc (by simp) (by simp) rfl rfl rfl
  | fails w hpc => exact absurd hpc (hclean.threads w).1
  | breaks w hpc => exact absurd hpc (hclean.threads w).2
  | loops w pc pc' c es hpc hloop =>
    exact phase_thread hjoin hpc (by simp) (by simp) rfl rfl (phase_loop w hloop)
  | leaves w threw hpc =>
    exact phase_thread hjoin hpc (by simp) (by simp) rfl rfl (by cases threw <;> rfl)
  | stops w threw hpc =>
    exact phase_thread hjoin hpc (by simp) (by simp) rfl rfl
      (by cases threw <;> simp [ThreadPc.phase, Phase.next])
  | stopped w hpc =>
    exact phase_thread hjoin hpc (by simp) (by simp) rfl rfl (by simp [ThreadPc.phase, Phase.next])

end Phases

/-! ## The starts that return -/

/-- The runs whose `start()` has returned normally. -/
def returned (tr : List Event) : List ℕ :=
  tr.filterMap fun
    | .started _ w => some w
    | _ => none

/-- The run a `start()` is about to return from. -/
def CallPc.awaits : CallPc → Option ℕ
  | .created w | .await w => some w
  | _ => none

/-- The start callback of the thread has returned, and its promise is kept. -/
def ThreadPc.pastStart : ThreadPc → Bool
  | .looping _ | .toStop _ | .inStop | .finished => true
  | _ => false

/-- Every run has one `start()`, which returns once, when the start callback has returned. -/
structure ReturnInv (tr : List Event) (s : State) : Prop where
  awaiting : ∀ t w, (s.callers t).awaits = some w → w < s.threadCount ∧ w ∉ returned tr
  unique : ∀ t u w, (s.callers t).awaits = some w → (s.callers u).awaits = some w → t = u
  bound : ∀ w ∈ returned tr, w < s.threadCount ∧ (s.threads w).pastStart = true
  nodup : (returned tr).Nodup
  all : ∀ w < s.threadCount, w ∈ returned tr ∨ ∃ t, (s.callers t).awaits = some w
  value : ∀ w, s.promises w = .value → (s.threads w).pastStart = true

theorem returned_append (tr es : List Event) : returned (tr ++ es) = returned tr ++ returned es :=
  List.filterMap_append

section Returns

variable {correctForTaskDelay : Bool} {s s' : State} {a : Action} {es tr : List Event}

theorem CallPc.Advance.awaits {pc pc' : CallPc} (h : pc.Advance s pc')
    (hfine : ∀ w, s.promises w ≠ .exception) : pc'.awaits = pc.awaits := by
  cases h with
  | failed w hexception => exact absurd hexception (hfine w)
  | _ => rfl

/-- The calls move on as they were waiting. -/
theorem ReturnInv.caller (h : ReturnInv tr s) {t : ℕ} {pc : CallPc}
    (hcallers : s'.callers = Function.update s.callers t pc) (hcount : s'.threadCount = s.threadCount)
    (hthreads : s'.threads = s.threads) (hpromises : s'.promises = s.promises)
    (hes : returned es = []) (hpc : pc.awaits = (s.callers t).awaits) :
    ReturnInv (tr ++ es) s' := by
  have hsame (u : ℕ) : (s'.callers u).awaits = (s.callers u).awaits := by
    rw [hcallers]
    by_cases hut : u = t
    · subst hut
      rw [Function.update_self, hpc]
    · rw [Function.update_of_ne hut]
  have hreturned : returned (tr ++ es) = returned tr := by
    rw [returned_append, hes, List.append_nil]
  constructor
  · simp only [hsame, hcount, hreturned]
    exact h.awaiting
  · simp only [hsame]
    exact h.unique
  · rw [hcount, hthreads, hreturned]
    exact h.bound
  · rw [hreturned]
    exact h.nodup
  · simp only [hsame, hcount, hreturned]
    exact h.all
  · rw [hthreads, hpromises]
    exact h.value

/-- A thread moves on. -/
theorem ReturnInv.threadMoves (h : ReturnInv tr s) {w : ℕ} {pc : ThreadPc}
    (hthreads : s'.threads = Function.update s.threads w pc) (hcount : s'.threadCount = s.threadCount)
    (hcallers : s'.callers = s.callers)
    (hpromises : ∀ v, s'.promises v = .value → s.promises v = .value ∨ v = w ∧ pc.pastStart = true)
    (hes : returned es = []) (hpc : (s.threads w).pastStart = true → pc.pastStart = true) :
    ReturnInv (tr ++ es) s' := by
  have hpast (v : ℕ) (hv : (s.threads v).pastStart = true) : (s'.threads v).pastStart = true := by
    rw [hthreads]
    by_cases hvw : v = w
    · subst hvw
      rw [Function.update_self]
      exact hpc hv
    · rwa [Function.update_of_ne hvw]
  have hreturned : returned (tr ++ es) = returned tr := by
    rw [returned_append, hes, List.append_nil]
  constructor
  · rw [hcallers, hcount, hreturned]
    exact h.awaiting
  · rw [hcallers]
    exact h.unique
  · rw [hcount, hreturned]
    exact fun v hv => ⟨(h.bound v hv).1, hpast v (h.bound v hv).2⟩
  · rw [hreturned]
    exact h.nodup
  · rw [hcallers, hcount, hreturned]
    exact h.all
  · intro v hv
    rcases hpromises v hv with hold | ⟨rfl, hnew⟩
    · exact hpast v (h.value v hold)
    · rw [hthreads, Function.update_self]
      exact hnew

/-- A thread is created for a `start()`. -/
theorem ReturnInv.creates (h : ReturnInv tr s) (hjoin : JoinInv s) {t : ℕ}
    (hpc : s.callers t = .create) {m : Option ℕ} :
    ReturnInv tr (({ s with thread := m, threadCount := s.threadCount + 1 }.setThread s.threadCount
      .spawned).setCaller t (.created s.threadCount)) := by
  have hcallers (u : ℕ) (hut : u ≠ t) : (Function.update s.callers t
      (.created s.threadCount) u) = s.callers u := Function.update_of_ne hut ..
  have hnone : (s.callers t).awaits = none := by rw [hpc]; rfl
  constructor
  · intro u w hu
    show w < s.threadCount + 1 ∧ w ∉ returned tr
    by_cases hut : u = t
    · subst hut
      simp only [State.setCaller, Function.update_self, CallPc.awaits, Option.some.injEq] at hu
      subst hu
      exact ⟨Nat.lt_succ_self _, fun hmem => Nat.lt_irrefl _ (h.bound _ hmem).1⟩
    · simp only [State.setCaller, State.setThread, hcallers u hut] at hu
      exact ⟨Nat.lt_succ_of_lt (h.awaiting u w hu).1, (h.awaiting u w hu).2⟩
  · intro u v w hu hv
    by_cases hut : u = t
    · by_cases hvt : v = t
      · rw [hut, hvt]
      · subst hut
        simp only [State.setCaller, State.setThread, Function.update_self, CallPc.awaits,
          Option.some.injEq, hcallers v hvt] at hu hv
        have := (h.awaiting v w hv).1
        omega
    · by_cases hvt : v = t
      · subst hvt
        simp only [State.setCaller, State.setThread, Function.update_self, CallPc.awaits,
          Option.some.injEq, hcallers u hut] at hu hv
        have := (h.awaiting u w hu).1
        omega
      · simp only [State.setCaller, State.setThread, hcallers u hut, hcallers v hvt] at hu hv
        exact h.unique u v w hu hv
  · intro w hw
    have hlt := (h.bound w hw).1
    refine ⟨Nat.lt_succ_of_lt hlt, ?_⟩
    show (Function.update s.threads s.threadCount .spawned w).pastStart = true
    rw [Function.update_of_ne (by omega)]
    exact (h.bound w hw).2
  · exact h.nodup
  · intro w hw
    have hlt : w < s.threadCount + 1 := hw
    by_cases hwn : w = s.threadCount
    · subst hwn
      exact .inr ⟨t, by simp [State.setCaller, CallPc.awaits]⟩
    · rcases h.all w (by omega) with hin | ⟨u, hu⟩
      · exact .inl hin
      · have hut : u ≠ t := by
          rintro rfl
          rw [hnone] at hu
          cases hu
        exact .inr ⟨u, by simpa only [State.setCaller, State.setThread, hcallers u hut] using hu⟩
  · intro w hw
    have hold := h.value w hw
    show (Function.update s.threads s.threadCount .spawned w).pastStart = true
    have hwn : w ≠ s.threadCount := by
      rintro rfl
      rw [hjoin.unborn _ (Nat.le_refl _)] at hold
      cases hold
    rwa [Function.update_of_ne hwn]

/-- A `start()` returns. -/
theorem ReturnInv.returns (h : ReturnInv tr s) {t w : ℕ} (hpc : s.callers t = .await w)
    (hvalue : s.promises w = .value) : ReturnInv (tr ++ [.started t w]) (s.setCaller t .idle) := by
  have hwaits : (s.callers t).awaits = some w := by rw [hpc]; rfl
  have hreturned : returned (tr ++ [.started t w]) = returned tr ++ [w] := returned_append ..
  have hothers {u v : ℕ} (hu : ((s.setCaller t .idle).callers u).awaits = some v) :
      (s.callers u).awaits = some v ∧ v ≠ w := by
    by_cases hut : u = t
    · subst hut
      simp [State.setCaller, CallPc.awaits] at hu
    · simp only [State.setCaller, Function.update_of_ne hut] at hu
      refine ⟨hu, ?_⟩
      rintro rfl
      exact hut (h.unique u t v hu hwaits)
  constructor
  · intro u v hu
    obtain ⟨hold, hne⟩ := hothers hu
    rw [hreturned, List.mem_append, List.mem_singleton, not_or]
    exact ⟨(h.awaiting u v hold).1, (h.awaiting u v hold).2, hne⟩
  · intro u v x hu hv
    exact h.unique u v x (hothers hu).1 (hothers hv).1
  · intro v hv
    rw [hreturned, List.mem_append, List.mem_singleton] at hv
    rcases hv with hold | rfl
    · exact h.bound v hold
    · exact ⟨(h.awaiting t v hwaits).1, h.value v hvalue⟩
  · rw [hreturned]
    refine List.nodup_append.mpr ⟨h.nodup, by simp, fun v hv x hx => ?_⟩
    rw [List.mem_singleton.mp hx]
    rintro rfl
    exact (h.awaiting t v hwaits).2 hv
  · intro v hv
    rw [hreturned, List.mem_append, List.mem_singleton]
    rcases h.all v hv with hin | ⟨u, hu⟩
    · exact .inl (.inl hin)
    · by_cases hut : u = t
      · subst hut
        rw [hwaits] at hu
        exact .inl (.inr (Option.some.inj hu).symm)
      · exact .inr ⟨u, by simpa only [State.setCaller, Function.update_of_ne hut] using hu⟩
  · exact h.value

theorem ReturnInv.step (h : ReturnInv tr s) (hclean : CleanInv s) (hC : startReturns s a)
    (hjoin : JoinInv s) (hm : Move correctForTaskDelay s a es s') : ReturnInv (tr ++ es) s' := by
  have hself (es : List Event) (hes : returned es = []) : ReturnInv (tr ++ es) s :=
    h.caller (t := 0) (Function.update_eq_self ..).symm rfl rfl rfl hes rfl
  cases hm with
  | refused | observes => exact hself [_] rfl
  | refusedWithId => exact hself [] rfl
  | controls | overwrites =>
    have hsame := hself [] rfl
    exact ⟨hsame.awaiting, hsame.unique, hsame.bound, hsame.nodup, hsame.all, hsame.value⟩
  | beginsWithId =>
    have hsame := hself [.began, .startThrew] rfl
    exact ⟨hsame.awaiting, hsame.unique, hsame.bound, hsame.nodup, hsame.all, hsame.value⟩
  | begins t n hpc hrun => exact h.caller (t := t) rfl rfl rfl rfl rfl (by rw [hpc]; rfl)
  | enters t pc hpc hentry =>
    exact h.caller (t := t) rfl rfl rfl rfl rfl (by rw [hpc]; cases hentry <;> rfl)
  | advances t pc c m i hpc hstop =>
    exact h.caller (t := t) rfl rfl rfl rfl rfl (hpc.awaits hclean.promises)
  | joins t k w hpc hthread hfinished =>
    exact h.caller (t := t) rfl rfl rfl rfl rfl (by rw [hpc]; rfl)
  | waited t hpc => exact h.caller (t := t) rfl rfl rfl rfl rfl (by rw [hpc]; rfl)
  | resets t n hpc => exact h.caller (t := t) rfl rfl rfl rfl rfl (by rw [hpc]; rfl)
  | undoes t ok failed hpc => exact h.caller (t := t) rfl rfl rfl rfl rfl (by rw [hpc]; rfl)
  | storesStop t hpc => exact h.caller (t := t) rfl rfl rfl rfl rfl (by rw [hpc]; rfl)
  | creates t hpc hthread =>
    rw [List.append_nil]
    exact h.creates hjoin hpc
  | returns t w hpc hvalue => exact h.returns hpc hvalue
  | runs w hpc | starts w hpc | startReturns w hpc =>
    exact h.threadMoves (w := w) rfl rfl rfl (fun _ hv => .inl hv) rfl (by rw [hpc]; rintro ⟨⟩)
  | leaves w threw hpc | stops w threw hpc | stopped w hpc =>
    exact h.threadMoves (w := w) rfl rfl rfl (fun _ hv => .inl hv) rfl (fun _ => rfl)
  | loops w pc pc' c les hpc hloop =>
    refine h.threadMoves (w := w) rfl rfl rfl (fun _ hv => .inl hv) ?_ (fun _ => rfl)
    cases hloop <;> rfl
  | fulfils w hpc =>
    refine h.threadMoves (w := w) rfl rfl rfl (fun v hv => ?_) rfl (fun _ => rfl)
    by_cases hvw : v = w
    · exact .inr ⟨hvw, rfl⟩
    · exact .inl (by simpa [State.setPromise, State.setThread, hvw] using hv)
  | startThrows w hpc => exact absurd (hC hpc) (by simp)
  | fails w hpc => exact absurd hpc (hclean.threads w).1
  | breaks w hpc => exact absurd hpc (hclean.threads w).2

end Returns

/-! ## The result -/

/-- What holds along a run without a throwing start callback. -/
structure TraceInv (tr : List Event) (s : State) : Prop where
  own : OwnInv s
  clean : CleanInv s
  join : JoinInv s
  returns : ReturnInv tr s
  scan : scan tr = some s.phase

theorem traceInv {correctForTaskDelay : Bool} {interval : ℤ} {tr : List Event} {s : State}
    (h : (system correctForTaskDelay interval).Run startReturns tr s) : TraceInv tr s := by
  refine Run.invariant (I := TraceInv) ?_ ?_ h
  · refine ⟨OwnInv.start _ _, ⟨fun _ => ⟨nofun, nofun⟩, nofun, nofun⟩, ?_, ?_, rfl⟩
    · exact .start correctForTaskDelay interval
    · exact ⟨nofun, nofun, nofun, List.nodup_nil, nofun, nofun⟩
  · intro tr s a s' es _ hC hstep ih
    have hm := (step_move hstep).2
    refine ⟨ih.own.step (ih.clean.timely a) hm, ih.clean.step hC hm, ih.join.step ih.own hm,
      ih.returns.step ih.clean hC ih.join hm, ?_⟩
    rw [scan_append, ih.scan]
    exact phase_step ih.clean hC ih.join hm

/-- The newest run is counted from where its thread is. -/
theorem ThreadPc.phase_counts (pc : ThreadPc) (n : ℕ) :
    n ≤ (pc.phase n).over ∧ (pc.phase n).over ≤ (pc.phase n).stopCalls ∧
      (pc.phase n).stopCalls ≤ (pc.phase n).startCalls ∧ (pc.phase n).startCalls ≤ n + 1 := by
  unfold ThreadPc.phase
  split <;> simp [Phase.over, Phase.stopCalls, Phase.startCalls]

/-- Runs older than the newest are over; none is counted that has no thread. -/
theorem State.phase_counts (s : State) :
    s.phase.startCalls ≤ s.threadCount ∧ s.phase.over ≤ s.phase.stopCalls ∧
      s.phase.stopCalls ≤ s.phase.startCalls ∧ ∀ w, w + 1 < s.threadCount → w < s.phase.over := by
  unfold State.phase
  split
  · next hcount => exact ⟨Nat.zero_le _, Nat.le_refl _, Nat.le_refl _, fun w hw => by omega⟩
  · next n hcount =>
    obtain ⟨hover, hstop, hstart, hbound⟩ := (s.threads n).phase_counts n
    exact ⟨by omega, hstop, hstart, fun w hw => by omega⟩

theorem ThreadPc.startCalls_of_pastStart {pc : ThreadPc} (h : pc.pastStart = true) (n : ℕ) :
    (pc.phase n).startCalls = n + 1 := by
  cases pc with
  | looping l =>
    cases l with
    | left threw => cases threw <;> rfl
    | _ => rfl
  | toStop threw => cases threw <;> rfl
  | inStop | finished => rfl
  | _ => cases h

theorem State.lt_startCalls {s : State} {w : ℕ}
    (hw : w < s.threadCount) (hpast : (s.threads w).pastStart = true) :
    w < s.phase.startCalls := by
  obtain ⟨-, hstop, hstart, hover⟩ := s.phase_counts
  by_cases hnewest : w + 1 = s.threadCount
  · rw [State.phase_of_newest hnewest, ThreadPc.startCalls_of_pastStart hpast]
    exact Nat.lt_succ_self w
  · have := hover w (by omega)
    omega

theorem TraceInv.over {tr : List Event} {s : State} (h : TraceInv tr s) {w : ℕ}
    (hfinished : s.threads w = .finished) : w < s.phase.over := by
  have hw : w < s.threadCount := by
    by_contra hge
    rw [h.join.unborn w (by omega)] at hfinished
    cases hfinished
  by_cases hnewest : w + 1 = s.threadCount
  · rw [State.phase_of_newest hnewest, hfinished]
    exact Nat.lt_succ_self w
  · exact s.phase_counts.2.2.2 w (by omega)

/-- **The callbacks of a worker are runs one after the other**, when no start callback
throws: `on_start`, ticks, `on_stop`, and only then the next `on_start`.  The `start()`
calls that return are those of different runs, each with its one `on_start`, and every
run there is has its `start()`, returned or about to return.  A thread that has finished
has called its `on_stop` once. -/
theorem callbacks_in_runs {correctForTaskDelay : Bool} {interval : ℤ} {tr : List Event} {s : State}
    (h : (system correctForTaskDelay interval).Run startReturns tr s) :
    (∃ p, scan tr = some p) ∧
    ((returned tr).Nodup ∧ ∀ w ∈ returned tr, tr.count (.onStart w) = 1) ∧
    (∀ w, .onStart w ∈ tr → w ∈ returned tr ∨ ∃ t, (s.callers t).awaits = some w) ∧
    (∀ w, s.threads w = .finished → tr.count (.onStop w) = 1 ∧ tr.count (.onStopped w) = 1) := by
  have hinv := traceInv h
  have hcounts := scan_counts hinv.scan
  obtain ⟨hbound, hstop, hstart, -⟩ := s.phase_counts
  refine ⟨⟨_, hinv.scan⟩, ⟨hinv.returns.nodup, fun w hw => ?_⟩, fun w hw => ?_, fun w hw => ?_⟩
  · obtain ⟨hlt, hpast⟩ := hinv.returns.bound w hw
    rw [(hcounts w).1, if_pos (State.lt_startCalls hlt hpast)]
  · have hpos : 0 < tr.count (.onStart w) := List.count_pos_iff.mpr hw
    rw [(hcounts w).1] at hpos
    split at hpos
    · exact hinv.returns.all w (by omega)
    · omega
  · have hover := hinv.over hw
    rw [(hcounts w).2.1, (hcounts w).2.2, if_pos hover, if_pos (by omega)]
    exact ⟨rfl, rfl⟩

/-- Two runs: the second `start()` comes while the first run is in its stop callback, and its
tick throws. -/
def twoRuns : List Action :=
  plainRun ++ ([.loop 0 .proceed, .loop 0 .proceed, .loop 0 .tickReturns] : List Action) ++
  ([.call 1 .requestStop, .caller 1 true, .caller 1 true] : List Action) ++
  ([.loop 0 .proceed, .loop 0 (.measure 0), .loop 0 .acquire, .loop 0 .proceed, .loop 0 .proceed,
    .thread 0 true, .thread 0 true, .call 2 (.start maxIterationCount), .caller 2 true,
    .thread 0 true] : List Action) ++
  List.replicate 11 (Action.caller 2 true) ++ loopUp 1 ++
  ([.caller 2 true, .loop 1 .proceed, .loop 1 .proceed, .loop 1 .proceed, .loop 1 .tickThrows,
    .thread 1 true, .thread 1 true, .thread 1 true] : List Action)

theorem callbacks_in_runs_two : ∃ tr s, (system false 10).Run startReturns tr s ∧
    scan tr = some (.between 2) ∧ tr.count (.onStop 1) = 1 := by
  have hrun := run_exec (M := system false 10) (C := startReturns) (l := twoRuns) (by decide)
    (by decide)
  exact ⟨_, _, hrun, by decide, ((callbacks_in_runs hrun).2.2.2 1 (by decide)).1⟩

end Worker
