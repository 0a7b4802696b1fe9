/-
# A worker that stops after a number of iterations

`start(n)` and `request_stop_after_iterations(k)` set the target that the loop compares
with the number of its iteration, after the tick and before the wait.  The request reads
the counter and stores the target in two steps, and the loop may count on between them.

* `ThreadPc.Ends` : how many ticks the thread will have made when nothing else stops it;
* `leaves` : its own steps lead out of the loop;
* `Request` : one call of `request_stop_after_iterations()`, from its load to its store;
* `CallPc.Starting` : a `start()` from its reset to the creation of the thread.

An iteration is in flight from `fetch_add` on, so the counter says at every moment how many
iterations have begun.
-/
import Libsg.WorkerIterations

open TransitionSystem

namespace Worker

/-! ## The last iteration -/

/-- The thread is there and has not left its loop, nor has its start callback thrown. -/
def ThreadPc.live : ThreadPc → Bool
  | .spawned | .entered | .inStart | .started => true
  | .looping (.left _) => false
  | .looping _ => true
  | _ => false

/-- The thread has left its loop. -/
def ThreadPc.over : ThreadPc → Bool
  | .looping (.left _) | .toStop _ | .inStop | .finished => true
  | _ => false

theorem ThreadPc.owns_of_live {pc : ThreadPc} (h : pc.live = true) : pc.owns = true := by
  cases pc <;> first | rfl | cases h

/-- The thread `w` is not stopped otherwise and no target is stored: nobody stores a request to
stop or a target, and no callback of `w` throws. -/
def undisturbed (w : ℕ) (s : State) : Action → Prop
  | .caller t _ => match s.callers t with
    | .storeStop | .storeTarget _ => False
    | _ => True
  | .thread v ok => v = w → s.threads w = .inStart → ok = true
  | .loop v la => v = w → la ≠ .tickThrows
  | _ => True

/-- The call is about to store a request to stop or a target. -/
def CallPc.disturbs : CallPc → Bool
  | .storeStop | .storeTarget _ => true
  | _ => false

theorem undisturbed_caller_iff (w : ℕ) (s : State) (t : ℕ) (ok : Bool) :
    undisturbed w s (.caller t ok) ↔ (s.callers t).disturbs = false := by
  unfold undisturbed CallPc.disturbs
  dsimp only
  split <;> simp

instance (w : ℕ) (s : State) : (a : Action) → Decidable (undisturbed w s a)
  | .caller t ok => decidable_of_iff _ (undisturbed_caller_iff w s t ok).symm
  | .thread v ok => inferInstanceAs (Decidable (v = w → s.threads w = .inStart → ok = true))
  | .loop v la => inferInstanceAs (Decidable (v = w → la ≠ .tickThrows))
  | .call .. | .startWithId _ => .isTrue trivial

/-- The loop that goes on like this ends with iteration `last`. -/
def LoopPc.Ends (last : ℕ) (c : Control) : LoopPc → Prop
  | .calling i | .ticking i | .ticked i => max c.stopAtIteration i = last
  | .left _ => c.iterationsDone = last
  | _ => max c.stopAtIteration (c.iterationsDone + 1) = last

/-- The thread that goes on like this makes `last` ticks, or it has made them. -/
def ThreadPc.Ends (last : ℕ) (c : Control) (ticks : ℕ) : ThreadPc → Prop
  | .spawned | .entered | .inStart | .started =>
    c.stopRequested = false ∧ max c.stopAtIteration (c.iterationsDone + 1) = last
  | .looping pc => c.stopRequested = false ∧ pc.Ends last c
  | .toStop _ | .inStop | .finished => ticks = last
  | .unborn | .startThrew | .startStored => False

section Ends

variable {correctForTaskDelay : Bool} {interval : ℤ} {s s' : State} {a : Action}
  {tr es : List Event} {w last : ℕ}

/-- Who does not own the run disturbs nothing by storing nothing. -/
theorem stores_of_not_owns (hC : undisturbed w s a) (hmaker : s.owns a.maker = false) :
    s.stores a = s.control := by
  cases a with
  | caller t ok =>
    have howns : (s.callers t).owns = false := hmaker
    show (s.callers t).stores s.control = s.control
    simp only [undisturbed] at hC
    cases hpc : s.callers t with
    | storeStop | storeTarget n =>
      rw [hpc] at hC
      exact hC.elim
    | resetStop | resetIterations | setTarget =>
      rw [hpc] at howns
      cases howns
    | _ => rfl
  | loop v la =>
    simp only [State.stores]
    split
    · next hpc =>
      have howns : (s.threads v).owns = false := hmaker
      rw [hpc] at howns
      cases howns
    · rfl
  | call | thread | startWithId => rfl

/-- A step of the loop keeps its last iteration. -/
theorem loopStep_ends {c c' : Control} {pc pc' : LoopPc} {la : LoopAction} {ticks : ℕ}
    {les : List LoopEvent} (h : loopStep correctForTaskDelay c pc la = some (c', pc', les))
    (hla : la ≠ .tickThrows) (hcounted : pc.Counted c.iterationsDone ticks)
    (hgo : c.stopRequested = false) (hends : pc.Ends last c) :
    c'.stopRequested = false ∧ pc'.Ends last c' := by
  unfold loopStep at h
  split at h
  all_goals
    repeat' (split at h)
    all_goals
      cases h <;> simp_all [LoopPc.Counted, LoopPc.Ends, maxIterationCount] <;> omega

/-- A step of the thread outside its loop keeps the last iteration. -/
theorem threadStep_ends {ok : Bool} (h : threadStep s w ok = some (s', es))
    (hok : s.threads w = .inStart → ok = true)
    (hcounted : (s.threads w).Counted s.control.iterationsDone (tr.count (.loop w .tick)))
    (hends : (s.threads w).Ends last s.control (tr.count (.loop w .tick))) :
    (s'.threads w).Ends last s'.control ((tr ++ es).count (.loop w .tick)) := by
  unfold threadStep at h
  split at h
  all_goals
    next hpc =>
    first | rw [hpc] at hcounted hends hok | cases h
    repeat' (split at h)
    all_goals
      cases h
      simp [State.setThread, State.setPromise, ThreadPc.Ends]
      first
        | exact hends
        | exact False.elim hends
        | exact hcounted.trans hends.2
        | exact absurd (hok rfl) (by assumption)

/-- **A step that does not disturb the thread keeps its last iteration.** -/
theorem ends_step (h : RegularInv tr s) (hC : undisturbed w s a)
    (hends : (s.threads w).Ends last s.control (tr.count (.loop w .tick)))
    (hstep : step correctForTaskDelay s a = some (s', es)) :
    (s'.threads w).Ends last s'.control ((tr ++ es).count (.loop w .tick)) := by
  by_cases hw : .thread w = a.maker
  · cases a with
    | thread v ok =>
      cases hw
      exact threadStep_ends (step_thread hstep) (hC rfl) (h.count.threads w) hends
    | loop v la =>
      cases hw
      obtain ⟨pc, c, pc', les, hpc, hloop, rfl, rfl⟩ := step_loop hstep
      have hcounted := h.count.threads w
      rw [hpc] at hcounted hends
      show (Function.update s.threads w (.looping pc') w).Ends last c _
      rw [Function.update_self]
      exact loopStep_ends hloop (hC rfl) hcounted hends.1 hends.2
    | startWithId v =>
      rcases step_startWithId hstep with ⟨rfl, rfl⟩ | ⟨rfl, rfl⟩
      · simpa using hends
      · rw [List.count_append]
        exact hends
    | call | caller => cases hw
  · have hframe := step_frame hstep
    rw [List.count_append, hframe.ticks w hw, Nat.add_zero]
    rcases hframe.threads w hw with hkept | ⟨hnew, -, -⟩
    · rw [hkept]
      by_cases howns : (s.threads w).owns = true
      · -- who makes the step does not own the run, and stores nothing
        obtain ⟨i, n, hcontrol⟩ := step_control hstep
        have hmaker : s.owns a.maker = false := by
          rw [Bool.eq_false_iff]
          intro hmaker
          exact hw (h.own.unique (.thread w) a.maker howns hmaker)
        rw [hcontrol, stores_of_not_owns hC hmaker]
        cases hpc : s.threads w with
        | looping pc =>
          rw [hpc] at hends
          refine ⟨hends.1, ?_⟩
          have hlast := hends.2
          cases pc <;> exact hlast
        | _ =>
          rw [hpc] at hends
          exact hends
      · cases hpc : s.threads w with
        | toStop | inStop | finished =>
          rw [hpc] at hends
          exact hends
        | unborn | startThrew | startStored =>
          rw [hpc] at hends
          exact hends.elim
        | spawned | entered | inStart | started | looping =>
          rw [hpc] at howns
          exact absurd rfl howns
    · rw [hnew, h.join.unborn _ (Nat.le_refl _)] at hends
      exact hends.elim

/-- No more than `last` ticks are made. -/
theorem ticks_le (h : RegularInv tr s)
    (hends : (s.threads w).Ends last s.control (tr.count (.loop w .tick))) :
    tr.count (.loop w .tick) ≤ last := by
  have hcounted := h.count.threads w
  cases hpc : s.threads w with
  | spawned | entered | inStart | started =>
    rw [hpc] at hcounted
    rw [hcounted.2]
    exact Nat.zero_le _
  | looping pc =>
    rw [hpc] at hcounted hends
    have hlast := hends.2
    change pc.Counted _ _ at hcounted
    cases pc <;> simp only [LoopPc.Counted, LoopPc.Ends] at hcounted hlast <;> omega
  | toStop | inStop | finished =>
    rw [hpc] at hends
    exact Nat.le_of_eq hends
  | unborn | startThrew | startStored =>
    rw [hpc] at hends
    exact hends.elim

/-- A thread that has left its loop has made them. -/
theorem ticks_eq (h : RegularInv tr s) (hover : (s.threads w).over = true)
    (hends : (s.threads w).Ends last s.control (tr.count (.loop w .tick))) :
    tr.count (.loop w .tick) = last := by
  have hcounted := h.count.threads w
  cases hpc : s.threads w with
  | looping pc =>
    rw [hpc] at hcounted hends hover
    cases pc with
    | left threw => exact Eq.trans hcounted hends.2
    | _ => cases hover
  | toStop | inStop | finished =>
    rw [hpc] at hends
    exact hends
  | _ =>
    rw [hpc] at hover
    cases hover

end Ends

/-! ## The way out of the loop -/

/-- The steps of the thread `w` alone, whose callbacks do not throw. -/
def alone (w : ℕ) (s : State) (a : Action) : Prop :=
  a.maker = .thread w ∧ regular s a ∧ undisturbed w s a

/-- The step that a thread can always make in its loop: a tick returns, a wait times out. -/
def LoopPc.action : LoopPc → LoopAction
  | .ticking _ => .tickReturns
  | .timing => .measure 0
  | .waiting => .timeout
  | _ => .proceed

/-- How far a place is from `fetch_add`. -/
def LoopPc.rank : LoopPc → ℕ
  | .counting | .left _ => 0
  | .check => 1
  | .draining => 2
  | .waiting => 3
  | .timing => 4
  | .ticked _ => 5
  | .ticking _ => 6
  | .calling _ => 7

def ThreadPc.rank : ThreadPc → ℕ
  | .looping pc => pc.rank
  | .started => 2
  | .inStart => 3
  | .entered => 4
  | .spawned => 5
  | _ => 0

/-- How many steps of the thread lead out of its loop. -/
def toGo (w last : ℕ) (s : State) : ℕ :=
  8 * (last - s.control.iterationsDone) + (s.threads w).rank + s.control.tokens

section Leaves

variable {correctForTaskDelay : Bool} {interval : ℤ} {s s' : State} {tr : List Event} {w last : ℕ}

/-- One step of the loop on its way out. -/
theorem loopStep_closer (correctForTaskDelay : Bool) {c : Control} {pc : LoopPc} {ticks : ℕ}
    (hcounted : pc.Counted c.iterationsDone ticks) (hgo : c.stopRequested = false)
    (hends : pc.Ends last c) (hin : ∀ threw, pc ≠ .left threw) :
    ∃ c' pc' les, loopStep correctForTaskDelay c pc pc.action = some (c', pc', les) ∧
      8 * (last - c'.iterationsDone) + pc'.rank + c'.tokens <
        8 * (last - c.iterationsDone) + pc.rank + c.tokens ∧ pc' ≠ .left true := by
  cases pc with
  | left threw => exact absurd rfl (hin threw)
  | check => exact ⟨c, .counting, [], by simp [loopStep, LoopPc.action, hgo], by simp [LoopPc.rank], by simp⟩
  | counting =>
    refine ⟨_, _, _, rfl, ?_, by simp⟩
    simp only [LoopPc.Counted, LoopPc.Ends, maxIterationCount] at hcounted hends
    simp only [LoopPc.rank, Control.tokens]
    omega
  | calling i => exact ⟨_, _, _, rfl, by simp [LoopPc.rank], by simp⟩
  | ticking i => exact ⟨_, _, _, rfl, by simp [LoopPc.rank], by simp⟩
  | ticked i =>
    by_cases htarget : c.stopAtIteration ≤ i
    · exact ⟨c, .left false, [], by simp [loopStep, LoopPc.action, htarget], by simp [LoopPc.rank],
        by simp⟩
    · exact ⟨c, .timing, [], by simp [loopStep, LoopPc.action, htarget], by simp [LoopPc.rank], by simp⟩
  | timing =>
    by_cases hlong : 0 < waitDuration correctForTaskDelay c.interval 0
    · exact ⟨c, .waiting, [], by simp [loopStep, LoopPc.action, hlong], by simp [LoopPc.rank], by simp⟩
    · exact ⟨c, .draining, [], by simp [loopStep, LoopPc.action, hlong], by simp [LoopPc.rank], by simp⟩
  | waiting => exact ⟨_, _, _, rfl, by simp [LoopPc.rank], by simp⟩
  | draining =>
    by_cases htoken : 0 < c.tokens
    · refine ⟨c.acquire, .draining, [],
        by simp [loopStep, LoopPc.action, htoken], ?_, by simp⟩
      show 8 * (last - c.iterationsDone) + _ + (c.tokens - 1) < _
      omega
    · exact ⟨c, .check, [.drained], by simp [loopStep, LoopPc.action, htoken], by simp [LoopPc.rank],
        (by simp)⟩

/-- The steps of the loop are steps of the program while it is not terminated. -/
theorem step_of_loopStep (halive : s.terminated = false) {pc pc' : LoopPc} {c' : Control}
    {la : LoopAction} {les : List LoopEvent} (hpc : s.threads w = .looping pc)
    (hloop : loopStep correctForTaskDelay s.control pc la = some (c', pc', les)) :
    step correctForTaskDelay s (.loop w la) =
      some ({ s with control := c' }.setThread w (.looping pc'), les.map (.loop w)) := by
  rw [step, if_neg (by simp [halive])]
  simp [hpc, hloop]

theorem step_of_threadStep (halive : s.terminated = false) {ok : Bool} {es : List Event}
    (h : threadStep s w ok = some (s', es)) :
    step correctForTaskDelay s (.thread w ok) = some (s', es) := by
  rw [step, if_neg (by simp [halive])]
  exact h

/-- A step of a thread that is on its way into the loop. -/
theorem threadStep_closer (hlive : (s.threads w).live = true)
    (hin : ∀ pc, s.threads w ≠ .looping pc) :
    ∃ s' es, threadStep s w true = some (s', es) ∧ s'.control = s.control ∧
      (s'.threads w).rank < (s.threads w).rank ∧ (s'.threads w).live = true := by
  cases hpc : s.threads w with
  | spawned =>
    refine ⟨{ s with threadId := some w }.setThread w .entered, [], ?_⟩
    simp [threadStep, hpc, State.setThread, ThreadPc.rank, ThreadPc.live]
  | entered =>
    refine ⟨s.setThread w .inStart, [.onStart w], ?_⟩
    simp [threadStep, hpc, State.setThread, ThreadPc.rank, ThreadPc.live]
  | inStart =>
    refine ⟨s.setThread w .started, [.onStarted w false], ?_⟩
    simp [threadStep, hpc, State.setThread, ThreadPc.rank, ThreadPc.live]
  | started =>
    refine ⟨(s.setPromise w .value).setThread w (.looping .check), [], ?_⟩
    simp [threadStep, hpc, State.setThread, State.setPromise, ThreadPc.rank, LoopPc.rank,
      ThreadPc.live]
  | looping pc => exact absurd hpc (hin pc)
  | _ =>
    rw [hpc] at hlive
    cases hlive

/-- **A thread on its way out is never stuck**: it can make a step that brings it nearer. -/
theorem step_closer (correctForTaskDelay : Bool) (h : RegularInv tr s) (hlive : (s.threads w).live = true)
    (hends : (s.threads w).Ends last s.control (tr.count (.loop w .tick))) :
    ∃ a s' es, alone w s a ∧ step correctForTaskDelay s a = some (s', es) ∧
      toGo w last s' < toGo w last s ∧
      ((s'.threads w).live = true ∨ s'.threads w = .looping (.left false)) := by
  by_cases hloop : ∃ pc, s.threads w = .looping pc
  · obtain ⟨pc, hpc⟩ := hloop
    have hcounted := h.count.threads w
    rw [hpc] at hcounted hends hlive
    have hin (threw : Bool) : pc ≠ .left threw := by
      rintro rfl
      cases hlive
    obtain ⟨c', pc', les, hloop, hcloser, hfine⟩ :=
      loopStep_closer correctForTaskDelay hcounted hends.1 hends.2 hin
    refine ⟨.loop w pc.action, _, _, ⟨rfl, ⟨trivial, trivial⟩, fun _ => ?_⟩,
      step_of_loopStep h.alive hpc hloop, ?_, ?_⟩
    · cases pc <;> nofun
    · unfold toGo
      rw [hpc]
      simpa [State.setThread, ThreadPc.rank] using hcloser
    · show (Function.update s.threads w (.looping pc') w).live = true ∨
        Function.update s.threads w (.looping pc') w = _
      rw [Function.update_self]
      cases pc' with
      | left threw =>
        cases threw with
        | false => exact .inr rfl
        | true => exact absurd rfl hfine
      | _ => exact .inl rfl
  · obtain ⟨s', es, hstep, hcontrol, hrank, hlive'⟩ :=
      threadStep_closer hlive fun pc hpc => hloop ⟨pc, hpc⟩
    refine ⟨.thread w true, s', es, ⟨rfl, ⟨trivial, trivial⟩, fun _ _ => rfl⟩,
      step_of_threadStep h.alive hstep, ?_, .inl hlive'⟩
    unfold toGo
    rw [hcontrol]
    omega

/-- **The steps of the thread alone lead out of its loop.** -/
theorem leaves (n : ℕ) : ∀ {tr : List Event} {s : State}, toGo w last s = n → RegularInv tr s →
    (s.threads w).live = true →
    (s.threads w).Ends last s.control (tr.count (.loop w .tick)) →
    ∃ tr' s', (system correctForTaskDelay interval).RunFrom (alone w) s tr' s' ∧
      s'.threads w = .looping (.left false) := by
  induction n using Nat.strongRecOn with
  | ind n ih =>
    intro tr s hn h hlive hends
    obtain ⟨a, s₁, es, halone, hstep, hcloser, hplace⟩ :=
      step_closer correctForTaskDelay h hlive hends
    have hfirst : (system correctForTaskDelay interval).RunFrom (alone w) s es s₁ :=
      RunFrom.single halone hstep
    rcases hplace with hlive₁ | hleft
    · obtain ⟨tr', s', hrest, hleft⟩ := ih (toGo w last s₁) (hn ▸ hcloser) rfl
        (h.step halone.2.1 hstep) hlive₁ (ends_step h halone.2.2 hends hstep)
      exact ⟨es ++ tr', s', hfirst.append hrest, hleft⟩
    · exact ⟨es, s₁, hfirst, hleft⟩

end Leaves

/-! ## A thread that is there -/

section Live

variable {correctForTaskDelay : Bool} {interval : ℤ} {s s' : State} {a : Action}
  {tr es : List Event} {w : ℕ}

theorem threadCount_le (hm : Move correctForTaskDelay s a es s') :
    s.threadCount ≤ s'.threadCount := by
  cases hm with
  | creates => exact Nat.le_succ _
  | _ => exact Nat.le_refl _

/-- A thread that is live and was there has been live. -/
theorem live_before (hstep : step correctForTaskDelay s a = some (s', es)) (hw : w < s.threadCount)
    (hlive : (s'.threads w).live = true) : (s.threads w).live = true := by
  by_cases hmaker : .thread w = a.maker
  · cases a with
    | thread v ok =>
      cases hmaker
      have h := step_thread hstep
      unfold threadStep at h
      split at h
      all_goals
        next hpc =>
        first | rw [hpc] | cases h
        repeat' (split at h)
        all_goals
          cases h
          first | rfl | simp [State.setThread, State.setPromise, ThreadPc.live] at hlive
    | loop v la =>
      cases hmaker
      obtain ⟨pc, c, pc', les, hpc, hloop, rfl, rfl⟩ := step_loop hstep
      rw [hpc]
      cases pc with
      | left threw => cases la <;> cases hloop
      | _ => rfl
    | startWithId v =>
      rcases step_startWithId hstep with ⟨rfl, -⟩ | ⟨rfl, -⟩
      · exact hlive
      · exact hlive
    | call | caller => cases hmaker
  · rcases (step_frame hstep).threads w hmaker with hkept | ⟨hnew, -, -⟩
    · rwa [← hkept]
    · omega

theorem RunFrom.live_before {C : State → Action → Prop}
    (h : (system correctForTaskDelay interval).RunFrom C s tr s') (hw : w < s.threadCount)
    (hlive : (s'.threads w).live = true) : (s.threads w).live = true := by
  have hkept := h.invariant
    (I := fun _ u => w < u.threadCount ∧ ((u.threads w).live = true → (s.threads w).live = true))
    ⟨hw, id⟩ fun tr t a u es _ _ hstep ih =>
      ⟨Nat.lt_of_lt_of_le ih.1 (threadCount_le (step_move hstep).2),
        fun hu => ih.2 (Worker.live_before hstep ih.1 hu)⟩
  exact hkept.2 hlive

/-- While a thread is live nobody sets the counter back. -/
theorem iterationsDone_le (h : RegularInv tr s)
    (hstep : step correctForTaskDelay s a = some (s', es)) (hlive : (s.threads w).live = true) :
    s.control.iterationsDone ≤ s'.control.iterationsDone := by
  obtain ⟨i, n, hcontrol⟩ := step_control hstep
  rw [hcontrol]
  show _ ≤ (s.stores a).iterationsDone
  rcases stores_iterationsDone s a with hsame | howns
  · exact Nat.le_of_eq hsame.symm
  · have hmaker := h.own.unique (.thread w) a.maker (ThreadPc.owns_of_live hlive) howns
    cases a with
    | loop v la =>
      cases hmaker
      simp only [State.stores]
      split
      · next hpc =>
        have hcounted := h.count.threads w
        rw [hpc] at hcounted
        have hlt : s.control.iterationsDone < maxIterationCount := hcounted.2
        unfold maxIterationCount at hlt
        show _ ≤ (s.control.iterationsDone + 1) % 2 ^ 64
        omega
      · exact Nat.le_refl _
    | thread | startWithId => exact Nat.le_refl _
    | call | caller => cases hmaker

theorem RegularInv.iterationsDone_le {C : State → Action → Prop} (hC : ∀ s a, C s a → regular s a)
    {tr₂ : List Event} (h : RegularInv tr s) (hw : w < s.threadCount)
    (hrun : (system correctForTaskDelay interval).RunFrom C s tr₂ s')
    (hlive : (s'.threads w).live = true) :
    s.control.iterationsDone ≤ s'.control.iterationsDone := by
  have hkept := hrun.invariant
    (I := fun _ u => w < u.threadCount ∧ ((u.threads w).live = true →
      s.control.iterationsDone ≤ u.control.iterationsDone))
    ⟨hw, fun _ => Nat.le_refl _⟩ fun tr₂ t a u es hbefore _ hstep ih => by
      refine ⟨Nat.lt_of_lt_of_le ih.1 (threadCount_le (step_move hstep).2), fun hu => ?_⟩
      have hlive := Worker.live_before hstep ih.1 hu
      exact Nat.le_trans (ih.2 hlive) (Worker.iterationsDone_le (h.runFrom hC hbefore) hstep hlive)
  exact hkept.2 hlive

/-- An iteration is counted whose tick has not begun. -/
def ThreadPc.aboutToTick : ThreadPc → Bool
  | .looping (.calling _) => true
  | _ => false

/-- **The counter says how many iterations have begun.** -/
theorem RegularInv.iterations (h : RegularInv tr s) (hlive : (s.threads w).live = true) :
    tr.count (.loop w .tick) + (s.threads w).aboutToTick.toNat = s.control.iterationsDone := by
  have hcounted := h.count.threads w
  cases hpc : s.threads w with
  | spawned | entered | inStart | started =>
    rw [hpc] at hcounted
    rw [hcounted.1, hcounted.2]
    rfl
  | looping pc =>
    rw [hpc] at hcounted hlive
    cases pc with
    | left threw => cases hlive
    | calling i => exact hcounted.2.1
    | ticking i | ticked i => exact hcounted.2.1
    | check | counting | timing | waiting | draining => exact hcounted.1
  | _ =>
    rw [hpc] at hlive
    cases hlive

/-- A live thread that is not told to stop has its last iteration: the target, the iteration in
flight or the next one. -/
theorem exists_ends (h : RegularInv tr s) (hlive : (s.threads w).live = true)
    (hgo : s.control.stopRequested = false) :
    ∃ last, (s.threads w).Ends last s.control (tr.count (.loop w .tick)) ∧
      (last = max s.control.stopAtIteration s.control.iterationsDone ∨
        last = max s.control.stopAtIteration (s.control.iterationsDone + 1)) := by
  have hcounted := h.count.threads w
  cases hpc : s.threads w with
  | spawned | entered | inStart | started => exact ⟨_, ⟨hgo, rfl⟩, .inr rfl⟩
  | looping pc =>
    rw [hpc] at hcounted hlive
    cases pc with
    | left threw => cases hlive
    | calling i | ticking i | ticked i =>
      have hi : i = s.control.iterationsDone := hcounted.1
      exact ⟨_, ⟨hgo, rfl⟩, .inl (by rw [hi])⟩
    | check | counting | timing | waiting | draining => exact ⟨_, ⟨hgo, rfl⟩, .inr rfl⟩
  | _ =>
    rw [hpc] at hlive
    cases hlive

end Live

/-! ## A request to stop after a number of iterations -/

/-- The steps between a request's load and its store. -/
def between (t : ℕ) (s : State) (a : Action) : Prop := regular s a ∧ a.maker ≠ .caller t

/-- A call of `request_stop_after_iterations()` that finds the thread `w` in its run and not told to
stop: it reads the counter, the others go on, and it stores the target.  What has happened before
the run of that thread does not matter. -/
structure Request (correctForTaskDelay : Bool) (interval : ℤ) where
  t : ℕ
  w : ℕ
  iterationCount : ℕ
  trRead : List Event
  atRead : State
  afterRead : State
  trStore : List Event
  atStore : State
  afterStore : State
  reached : RegularSince correctForTaskDelay interval trRead atRead
  loads : atRead.callers t = .loadDone iterationCount
  liveRead : (atRead.threads w).live = true
  read : step correctForTaskDelay atRead (.caller t true) = some (afterRead, [])
  goesOn : (system correctForTaskDelay interval).RunFrom (between t) afterRead trStore atStore
  liveStore : (atStore.threads w).live = true
  notTold : atStore.control.stopRequested = false
  store : step correctForTaskDelay atStore (.caller t true) = some (afterStore, [])

namespace Request

variable {correctForTaskDelay : Bool} {interval : ℤ} (r : Request correctForTaskDelay interval)

/-- The iterations counted when the request reads the counter. -/
def done : ℕ := r.atRead.control.iterationsDone

def target : ℕ := targetAfter r.done r.iterationCount

theorem regular_caller {t : ℕ} (s : State) (hpc : ∀ w, s.callers t ≠ .handler (some w)) (ok : Bool) :
    regular s (.caller t ok) := by
  refine ⟨?_, trivial⟩
  cases hcaller : s.callers t with
  | handler failed =>
    cases failed with
    | none => simp [timely, hcaller]
    | some w => exact absurd hcaller (hpc w)
  | _ => simp [timely, hcaller]

theorem afterRead_eq : r.afterRead = r.atRead.setCaller r.t (.storeTarget r.target) := by
  have h := step_caller r.read
  simp only [callerStep, r.loads, Option.some.injEq, Prod.mk.injEq] at h
  exact h.1.symm

theorem atRead_inv : RegularInv r.trRead r.atRead := regularInv_since r.reached

theorem afterRead_inv : RegularInv r.trRead r.afterRead := by
  have h := r.atRead_inv.step (regular_caller _ (by simp [r.loads]) true) r.read
  rwa [List.append_nil] at h

theorem atStore_inv : RegularInv (r.trRead ++ r.trStore) r.atStore :=
  r.afterRead_inv.runFrom (fun _ _ h => h.1) r.goesOn

/-- Nobody else moves the call. -/
theorem atStore_caller : r.atStore.callers r.t = .storeTarget r.target := by
  refine r.goesOn.invariant (I := fun _ u => u.callers r.t = .storeTarget r.target) ?_ ?_
  · rw [afterRead_eq]
    exact Function.update_self ..
  · intro tr s a u es _ hC hstep ih
    rw [(step_frame hstep).callers r.t (Ne.symm hC.2)]
    exact ih

theorem afterStore_eq : r.afterStore = { r.atStore with control :=
    { r.atStore.control with stopAtIteration := r.target } }.setCaller r.t .notifies := by
  have h := step_caller r.store
  simp only [callerStep, r.atStore_caller, Option.some.injEq, Prod.mk.injEq] at h
  exact h.1.symm

theorem afterStore_inv : RegularInv (r.trRead ++ r.trStore) r.afterStore := by
  have h := r.atStore_inv.step (regular_caller _ (by simp [r.atStore_caller]) true) r.store
  rwa [List.append_nil] at h

theorem iterationCount_pos : 1 ≤ r.iterationCount := by
  have h := r.atRead_inv.count.callers r.t
  rwa [r.loads] at h

/-- The thread is there at the read. -/
theorem born : r.w + 1 = r.afterRead.threadCount := by
  have hlive := r.liveRead
  rw [afterRead_eq]
  refine r.atRead_inv.join.acting (w := r.w) ?_ ?_
  · intro hpc
    rw [hpc] at hlive
    cases hlive
  · intro hpc
    rw [hpc] at hlive
    cases hlive

/-- The thread has been there since the read. -/
theorem live_at {tr₁ tr₂ : List Event} {u : State}
    (h₁ : (system correctForTaskDelay interval).RunFrom (between r.t) r.afterRead tr₁ u)
    (h₂ : (system correctForTaskDelay interval).RunFrom (between r.t) u tr₂ r.atStore) :
    (u.threads r.w).live = true := by
  have hborn := r.born
  have hcount := h₁.invariant (I := fun _ u => r.afterRead.threadCount ≤ u.threadCount)
    (Nat.le_refl _) fun _ _ _ _ _ _ _ hstep ih => Nat.le_trans ih (threadCount_le (step_move hstep).2)
  exact RunFrom.live_before h₂ (by omega) r.liveStore

/-- The ticks the thread will have made when it is not stopped otherwise. -/
theorem exists_last : ∃ last,
    (r.afterStore.threads r.w).Ends last r.afterStore.control
      ((r.trRead ++ r.trStore).count (.loop r.w .tick)) ∧
    (last = max r.target r.atStore.control.iterationsDone ∨
      last = max r.target (r.atStore.control.iterationsDone + 1)) := by
  have h := exists_ends r.afterStore_inv (w := r.w) (by rw [afterStore_eq]; exact r.liveStore)
    (by rw [afterStore_eq]; exact r.notTold)
  rw [afterStore_eq] at h ⊢
  exact h

/-- The further ticks that the request grants: the count, less what would pass the last target. -/
def granted : ℕ := min r.iterationCount (maxIterationCount - 1 - r.done)

/-- The moment from which the ticks are counted lies between the read and the store. -/
theorem exists_moment {last : ℕ} (hdone : r.done < maxIterationCount - 1)
    (hlast : last = max r.target r.atStore.control.iterationsDone ∨
      last = max r.target (r.atStore.control.iterationsDone + 1)) :
    ∃ tr₁ u tr₂, r.trStore = tr₁ ++ tr₂ ∧
      (system correctForTaskDelay interval).RunFrom (between r.t) r.afterRead tr₁ u ∧
      (system correctForTaskDelay interval).RunFrom (between r.t) u tr₂ r.atStore ∧
      last = u.control.iterationsDone + r.granted := by
  have hpos := r.iterationCount_pos
  have htarget : r.target = r.done + r.granted := by
    rw [target, targetAfter_eq, granted]
    omega
  have hgranted : 1 ≤ r.granted := by
    rw [granted]
    omega
  have hread : r.afterRead.control.iterationsDone = r.done := by
    rw [afterRead_eq]
    rfl
  by_cases hlate : last - r.granted ≤ r.atStore.control.iterationsDone
  · obtain ⟨tr₁, u, tr₂, htr, h₁, h₂, hu⟩ := r.goesOn.attains
      (f := fun u => u.control.iterationsDone) (m := last - r.granted)
      (fun _ _ _ _ hstep => iterationsDone_step hstep) (by omega) hlate
    exact ⟨tr₁, u, tr₂, htr, h₁, h₂, by omega⟩
  · -- the target has not been passed when it is stored
    exact ⟨[], r.afterRead, r.trStore, rfl, .nil, r.goesOn, by omega⟩

/-- Next to the limit the request grants nothing: the iteration at its store, or the next one, is
the last. -/
theorem last_of_limit {last : ℕ} (hdone : maxIterationCount - 1 ≤ r.done)
    (hlast : last = max r.target r.atStore.control.iterationsDone ∨
      last = max r.target (r.atStore.control.iterationsDone + 1)) : 
    last = r.atStore.control.iterationsDone ∨ last = r.atStore.control.iterationsDone + 1 := by
  have hkept : r.afterRead.control.iterationsDone ≤ r.atStore.control.iterationsDone :=
    r.afterRead_inv.iterationsDone_le (fun _ _ h => h.1) (Nat.lt_of_succ_le (Nat.le_of_eq r.born))
      r.goesOn r.liveStore
  rw [afterRead_eq] at hkept
  have hread : r.done ≤ r.atStore.control.iterationsDone := hkept
  have htarget : r.target ≤ maxIterationCount - 1 := by
    rw [target, targetAfter_eq]
    exact Nat.min_le_right ..
  omega

end Request

/-! ## A start with a number of iterations -/

/-- A `start(n)` from its reset of `m_stop_requested` to the creation of the thread; `handler` when
that fails. -/
def CallPc.Starting (n : ℕ) (c : Control) : CallPc → Prop
  | .resetStop m => m = n
  | .resetIterations m | .setTarget m => m = n ∧ c.stopRequested = false
  | .drainLeftover | .lockThread | .create => c.stopRequested = false ∧ c.stopAtIteration = n
  | .handler none => True
  | _ => False

theorem CallPc.Starting.owns {n : ℕ} {c : Control} {pc : CallPc} (h : pc.Starting n c) :
    pc.owns = true := by
  cases pc with
  | handler failed =>
    cases failed with
    | none => rfl
    | some w => exact h.elim
  | resetStop | resetIterations | setTarget | drainLeftover | lockThread | create => rfl
  | _ => exact h.elim

/-- The start of the thread `w` is under way, or its thread is there. -/
inductive StartInv (t n w : ℕ) (tr : List Event) (s : State) : Prop
  | starting (hcount : s.threadCount = w) (hpc : (s.callers t).Starting n s.control)
  | runs (hends : (s.threads w).Ends n s.control (tr.count (.loop w .tick)))

section Start

variable {correctForTaskDelay : Bool} {interval : ℤ} {s s' : State} {a : Action}
  {tr es : List Event} {t n w : ℕ}

/-- Who makes no `start()` creates no thread. -/
theorem threadCount_eq (hstep : step correctForTaskDelay s a = some (s', es))
    (hmaker : ∀ u, a.maker = .caller u → s.callers u ≠ .create) : s'.threadCount = s.threadCount := by
  cases a with
  | call u c =>
    obtain ⟨-, rfl, -⟩ := step_call hstep
    cases c with
    | start m | requestStopAfterIterations m =>
      simp only [callStep]
      split <;> rfl
    | _ => rfl
  | caller u ok =>
    have h := step_caller hstep
    have hpc := hmaker u rfl
    unfold callerStep at h
    split at h
    all_goals
      repeat' (split at h)
      all_goals
        cases h <;> first | rfl | contradiction
  | thread v ok =>
    have h := step_thread hstep
    unfold threadStep at h
    split at h
    all_goals
      repeat' (split at h)
      all_goals cases h <;> rfl
  | loop v la =>
    obtain ⟨pc, c, pc', les, -, -, rfl, -⟩ := step_loop hstep
    rfl
  | startWithId v => rcases step_startWithId hstep with ⟨rfl, -⟩ | ⟨rfl, -⟩ <;> rfl

/-- The start takes its next step: the target is stored over a counter that has been reset. -/
theorem callerStep_starting {ok : Bool} (h : RegularInv tr s) (hn : 1 ≤ n)
    (hpc : (s.callers t).Starting n s.control) (hthrew : .startThrew ∉ es)
    (hstep : callerStep s t ok = some (s', es)) :
    s'.threadCount = s.threadCount ∧ (s'.callers t).Starting n s'.control ∨
      (s'.threads s.threadCount).Ends n s'.control 0 := by
  have hcounted := h.count.callers t
  have hpast := h.join.past t
  unfold callerStep at hstep
  split at hstep
  all_goals
    next hplace =>
    rw [hplace] at hpc hcounted hpast
    repeat' (split at hstep)
    all_goals
      cases hstep <;>
        simp_all [State.setCaller, State.setThread, CallPc.Starting, CallPc.Counted, ThreadPc.Ends, CallPc.past]

theorem StartInv.step (h : StartInv t n w tr s) (hinv : RegularInv tr s) (hn : 1 ≤ n)
    (hC : undisturbed w s a) (hthrew : .startThrew ∉ es)
    (hstep : step correctForTaskDelay s a = some (s', es)) : StartInv t n w (tr ++ es) s' := by
  rcases h with ⟨hcount, hpc⟩ | hends
  · by_cases hmaker : a.maker = .caller t
    · cases a with
      | call u c =>
        cases hmaker
        rw [(step_call hstep).1] at hpc
        exact hpc.elim
      | caller u ok =>
        cases hmaker
        rcases callerStep_starting hinv hn hpc hthrew (step_caller hstep) with hgoes | hends
        · exact .starting (hgoes.1.trans hcount) hgoes.2
        · -- a thread that is not there has made no tick
          have hunborn := hinv.count.threads w
          rw [hinv.join.unborn w (Nat.le_of_eq hcount)] at hunborn
          refine .runs ?_
          rw [List.count_append, show tr.count (.loop w .tick) = 0 from hunborn,
            (step_frame hstep).ticks w nofun, ← hcount]
          exact hends
      | thread | loop | startWithId => cases hmaker
    · -- the start owns the run, so the others neither store nor create
      have hothers (x : Owner) (hx : s.owns x = true) : x = .caller t :=
        hinv.own.unique x (.caller t) hx hpc.owns
      have howns : s.owns a.maker = false := by
        rw [Bool.eq_false_iff]
        intro howns
        exact hmaker (hothers _ howns)
      refine .starting ?_ ?_
      · rw [threadCount_eq hstep, hcount]
        intro u hu hcreate
        have hown : s.owns a.maker = true := by
          rw [hu]
          show (s.callers u).owns = true
          rw [hcreate]
          rfl
        exact hmaker (hothers _ hown)
      · obtain ⟨i, m, hcontrol⟩ := step_control hstep
        rw [(step_frame hstep).callers t (Ne.symm hmaker), hcontrol, stores_of_not_owns hC howns]
        cases hplace : s.callers t <;> rw [hplace] at hpc <;> exact hpc
  · exact .runs (ends_step hinv hC hends hstep)

end Start

/-! ## The result -/

section Result

variable {correctForTaskDelay : Bool} {interval : ℤ}

/-- The steps of a regular run that do not disturb the thread `w`. -/
def lets (w : ℕ) (s : State) (a : Action) : Prop := regular s a ∧ undisturbed w s a

instance (w : ℕ) (s : State) (a : Action) : Decidable (lets w s a) :=
  inferInstanceAs (Decidable (_ ∧ _))

/-- The run that a start of `n` iterations begins makes `n` ticks. -/
theorem start_ticks {t n : ℕ} (hn : 1 ≤ n) {tr₀ : List Event} {s₀ : State}
    (hreached : RegularSince correctForTaskDelay interval tr₀ s₀)
    (hpc : s₀.callers t = .resetStop n) {tr : List Event} {s : State}
    (hrun : (system correctForTaskDelay interval).RunFrom (lets s₀.threadCount) s₀ tr s)
    (hthrew : .startThrew ∉ tr) :
    RegularInv (tr₀ ++ tr) s ∧ StartInv t n s₀.threadCount (tr₀ ++ tr) s := by
  have hinv₀ := regularInv_since hreached
  have hinv := hrun.invariant
    (I := fun tr s => RegularInv (tr₀ ++ tr) s ∧
      (.startThrew ∉ tr → StartInv t n s₀.threadCount (tr₀ ++ tr) s))
    ⟨by simpa using hinv₀, fun _ => .starting rfl (by rw [hpc]; rfl)⟩
    fun tr u a v es _ hC hstep ih => by
      rw [← List.append_assoc]
      refine ⟨ih.1.step hC.1 hstep, fun hno => ?_⟩
      rw [List.mem_append, not_or] at hno
      exact (ih.2 hno.1).step ih.1 hn hC.2 hno.2 hstep
  exact ⟨hinv.1, hinv.2 hthrew⟩

/-- What a bounded run does from a state on, where `ticks` have been made before it: it never makes
more than `last` ticks, it has made `last` when the thread has left its loop, and the steps
of the thread lead there. -/
structure EndsAfter (correctForTaskDelay : Bool) (interval : ℤ) (w last : ℕ) (tr : List Event)
    (s : State) : Prop where
  bound : tr.count (.loop w .tick) ≤ last
  finished : (s.threads w).over = true → tr.count (.loop w .tick) = last
  leaves : (s.threads w).live = true →
    ∃ tr' s', (system correctForTaskDelay interval).RunFrom (alone w) s tr' s' ∧
      s'.threads w = .looping (.left false)

theorem EndsAfter.of_ends {w last : ℕ} {tr : List Event} {s : State} (h : RegularInv tr s)
    (hends : (s.threads w).Ends last s.control (tr.count (.loop w .tick))) :
    EndsAfter correctForTaskDelay interval w last tr s :=
  ⟨ticks_le h hends, fun hover => ticks_eq h hover hends, fun hlive =>
    Worker.leaves _ rfl h hlive hends⟩

theorem EndsAfter.of_start {t n w : ℕ} {tr : List Event} {s : State} (h : RegularInv tr s)
    (hstart : StartInv t n w tr s) : EndsAfter correctForTaskDelay interval w n tr s := by
  rcases hstart with ⟨hcount, -⟩ | hends
  · -- the thread is not there yet
    have hunborn := h.join.unborn w (Nat.le_of_eq hcount)
    have hticks := h.count.threads w
    rw [hunborn] at hticks
    refine ⟨?_, ?_, ?_⟩
    · rw [show tr.count (.loop w .tick) = 0 from hticks]
      exact Nat.zero_le _
    · rw [hunborn]
      nofun
    · rw [hunborn]
      nofun
  · exact .of_ends h hends

/-- After the store of a request the thread ends as the request has found. -/
theorem Request.ends (r : Request correctForTaskDelay interval) {last : ℕ}
    (hends : (r.afterStore.threads r.w).Ends last r.afterStore.control
      ((r.trRead ++ r.trStore).count (.loop r.w .tick))) {tr : List Event} {s : State}
    (hrun : (system correctForTaskDelay interval).RunFrom (lets r.w) r.afterStore tr s) :
    EndsAfter correctForTaskDelay interval r.w last (r.trRead ++ r.trStore ++ tr) s := by
  have hinv := hrun.invariant
    (I := fun tr s => RegularInv (r.trRead ++ r.trStore ++ tr) s ∧
      (s.threads r.w).Ends last s.control ((r.trRead ++ r.trStore ++ tr).count (.loop r.w .tick)))
    ⟨by simpa using r.afterStore_inv, by simpa using hends⟩
    fun tr u a v es _ hC hstep ih => by
      rw [← List.append_assoc]
      exact ⟨ih.1.step hC.1 hstep, ends_step ih.1 hC.2 ih.2 hstep⟩
  exact .of_ends hinv.1 hinv.2

/-- **A worker stops after the iterations it is asked for.**  The target is the sum, or the last
value below the sentinel.  A request that finds the thread in its run is granted its count,
less what would pass that value: not stopped otherwise, the thread ends after exactly so
many iterations more than had begun at some moment between the load and the store; where
that value has been reached, the iteration at the store or the next one is the last.
A `start()` with `n` iterations makes `n` ticks. -/
theorem stops_after_iterations (correctForTaskDelay : Bool) (interval : ℤ) :
    (∀ done iterationCount : UInt64,
      (targetAfter64 done iterationCount).toNat =
          min (done.toNat + iterationCount.toNat) (2 ^ 64 - 2) ∧
        targetAfter64 done iterationCount ≠ maxIterationCount64) ∧
    (∀ r : Request correctForTaskDelay interval, ∃ last,
      (r.done < 2 ^ 64 - 2 → ∃ tr₁ u tr₂, r.trStore = tr₁ ++ tr₂ ∧
        (system correctForTaskDelay interval).RunFrom (between r.t) r.afterRead tr₁ u ∧
        (system correctForTaskDelay interval).RunFrom (between r.t) u tr₂ r.atStore ∧
        (r.trRead ++ tr₁).count (.loop r.w .tick) + (u.threads r.w).aboutToTick.toNat =
          u.control.iterationsDone ∧
        last = u.control.iterationsDone + min r.iterationCount (2 ^ 64 - 2 - r.done)) ∧
      (2 ^ 64 - 2 ≤ r.done →
        last = r.atStore.control.iterationsDone ∨ last = r.atStore.control.iterationsDone + 1) ∧
      ∀ tr s, (system correctForTaskDelay interval).RunFrom (lets r.w) r.afterStore tr s →
        EndsAfter correctForTaskDelay interval r.w last (r.trRead ++ r.trStore ++ tr) s) ∧
    (∀ t n tr₀ s₀, 1 ≤ n → RegularSince correctForTaskDelay interval tr₀ s₀ →
      s₀.callers t = .resetStop n →
      ∀ tr s, (system correctForTaskDelay interval).RunFrom (lets s₀.threadCount) s₀ tr s →
        .startThrew ∉ tr →
        EndsAfter correctForTaskDelay interval s₀.threadCount n (tr₀ ++ tr) s) := by
  have hmax : maxIterationCount - 1 = 2 ^ 64 - 2 := rfl
  refine ⟨fun done iterationCount => ?_, fun r => ?_, ?_⟩
  · have htarget : (targetAfter64 done iterationCount).toNat =
        min (done.toNat + iterationCount.toNat) (2 ^ 64 - 2) := by
      rw [targetAfter64_toNat, targetAfter_eq, hmax]
    refine ⟨htarget, fun hsentinel => ?_⟩
    rw [hsentinel, show maxIterationCount64.toNat = 2 ^ 64 - 1 from by decide] at htarget
    omega
  · obtain ⟨last, hends, hlast⟩ := r.exists_last
    refine ⟨last, fun hdone => ?_, fun hdone => ?_, fun tr s hrun => r.ends hends hrun⟩
    · obtain ⟨tr₁, u, tr₂, htr, h₁, h₂, hu⟩ := r.exists_moment hdone hlast
      have hinv : RegularInv (r.trRead ++ tr₁) u := r.afterRead_inv.runFrom (fun _ _ h => h.1) h₁
      exact ⟨tr₁, u, tr₂, htr, h₁, h₂, hinv.iterations (r.live_at h₁ h₂), hu⟩
    · exact r.last_of_limit hdone hlast
  · intro t n tr₀ s₀ hn hreached hpc tr s hrun hthrew
    obtain ⟨hinv, hstart⟩ := start_ticks hn hreached hpc hrun hthrew
    exact .of_start hinv hstart

end Result

/-! ## Two requests -/

/-- A worker has been started, and another thread asks it to stop after `k` iterations. -/
def requestRun (k : ℕ) : List Action :=
  List.flatten [plainRun, [.call 1 (.requestStopAfterIterations k)]]

/-- The first tick ends, and the loop makes the second and last one. -/
def lastTicks : List Action :=
  [.loop 0 .tickReturns, .loop 0 .proceed, .loop 0 (.measure 0), .loop 0 .timeout,
   .loop 0 .proceed, .loop 0 .proceed, .loop 0 .proceed, .loop 0 .proceed, .loop 0 .tickReturns,
   .loop 0 .proceed]

theorem requestRun_enabled : ((system false 10).exec (requestRun 2)).isSome = true := by decide

/-- A request of two iterations; the loop is in its first tick when the target is stored. -/
def requestInTick : Request false 10 :=
  let s := (((system false 10).exec (requestRun 2)).get requestRun_enabled).1
  let s₁ := s.setCaller 1 (.storeTarget 2)
  let s₂ := { s₁ with control := { s₁.control with iterationsDone := 1 } }.setThread 0
    (.looping (.calling 1))
  let s₃ := s₂.setThread 0 (.looping (.ticking 1))
  { t := 1
    w := 0
    iterationCount := 2
    trRead := (((system false 10).exec (requestRun 2)).get requestRun_enabled).2
    atRead := s
    afterRead := s₁
    trStore := [.loop 0 .tick]
    atStore := s₃
    afterStore := { s₃ with control := { s₃.control with stopAtIteration := 2 } }.setCaller 1
      .notifies
    reached := .of_run (run_exec (by decide) requestRun_enabled)
    loads := rfl
    liveRead := rfl
    read := rfl
    goesOn := by
      have hcounts : (system false 10).RunFrom (between 1) s₁ [] s₂ :=
        RunFrom.single (a := .loop 0 .proceed) ⟨⟨trivial, trivial⟩, nofun⟩ rfl
      have hcalls : between 1 s₂ (.loop 0 .proceed) := ⟨⟨trivial, trivial⟩, nofun⟩
      exact hcounts.snoc hcalls rfl
    liveStore := rfl
    notTold := rfl
    store := rfl }

/-- A `start()` of one iteration has joined what there was, and is about to reset the request. -/
def startOne : List Action :=
  [.call 0 (.start 1), .caller 0 true, .caller 0 true, .caller 0 true, .caller 0 true]

/-- The start goes on, and the thread ticks once. -/
def tickOnce : List Action :=
  List.flatten [List.replicate 7 (Action.caller 0 true), loopUp 0,
    [.caller 0 true, .loop 0 .proceed, .loop 0 .proceed, .loop 0 .proceed, .loop 0 .tickReturns,
     .loop 0 .proceed]]

theorem startOne_enabled : ((system false 10).exec startOne).isSome = true := by decide

/-- Both the request and the start are met. -/
theorem stops_after_iterations_runs :
    (∃ tr s, (system false 10).RunFrom (lets 0) requestInTick.afterStore tr s ∧
      ∃ begun, (requestInTick.trRead ++ requestInTick.trStore ++ tr).count
        (.loop requestInTick.w .tick) = begun + 2) ∧
    ∃ tr s, (system false 10).Reachable tr s ∧ tr.count (.loop 0 .tick) = 1 := by
  have hresult := stops_after_iterations false 10
  refine ⟨?_, ?_⟩
  · have hmeets : (system false 10).execMeets (lets 0) requestInTick.afterStore lastTicks =
        true := by decide +kernel
    have henabled : ((system false 10).execFrom requestInTick.afterStore lastTicks).isSome =
        true := by decide +kernel
    have hrun := runFrom_of_execFrom hmeets (Option.some_get henabled).symm
    obtain ⟨last, hmoment, -, hends⟩ := hresult.2.1 requestInTick
    have hdone : requestInTick.done < 2 ^ 64 - 2 := by decide +kernel
    obtain ⟨-, u, -, -, -, -, -, hlast⟩ := hmoment hdone
    have hcount : min requestInTick.iterationCount (2 ^ 64 - 2 - requestInTick.done) = 2 := by
      decide +kernel
    have hover := (hends _ _ hrun).finished (by decide +kernel)
    rw [hcount] at hlast
    exact ⟨_, _, hrun, _, hover.trans hlast⟩
  · have hreached := run_exec (M := system false 10) (C := regular) (l := startOne)
      (by decide +kernel) startOne_enabled
    have hmeets : (system false 10).execMeets (lets 0)
        (((system false 10).exec startOne).get startOne_enabled).1 tickOnce = true := by
      decide +kernel
    have henabled : ((system false 10).execFrom
        (((system false 10).exec startOne).get startOne_enabled).1 tickOnce).isSome = true := by
      decide +kernel
    have hrun := runFrom_of_execFrom hmeets (Option.some_get henabled).symm
    have hends := hresult.2.2 0 1 _ _ (by decide) (.of_run hreached) rfl _ _ hrun (by decide +kernel)
    exact ⟨_, _, (hreached.append (hrun.mono fun _ _ h => h.1)).reachable,
      hends.finished (by decide +kernel)⟩

theorem hugeRun_enabled : ((system false 10).exec (requestRun (2 ^ 64 - 1))).isSome = true := by
  decide +kernel

/-- A request of 2^64 - 1 iterations before the first tick. -/
def hugeRequest : Request false 10 :=
  let s := (((system false 10).exec (requestRun (2 ^ 64 - 1))).get hugeRun_enabled).1
  let s₁ := s.setCaller 1 (.storeTarget (targetAfter 0 (2 ^ 64 - 1)))
  { t := 1
    w := 0
    iterationCount := 2 ^ 64 - 1
    trRead := (((system false 10).exec (requestRun (2 ^ 64 - 1))).get hugeRun_enabled).2
    atRead := s
    afterRead := s₁
    trStore := []
    atStore := s₁
    afterStore := { s₁ with control :=
      { s₁.control with stopAtIteration := targetAfter 0 (2 ^ 64 - 1) } }.setCaller 1 .notifies
    reached := .of_run (run_exec (by decide +kernel) hugeRun_enabled)
    loads := by decide +kernel
    liveRead := by decide +kernel
    read := rfl
    goesOn := .nil
    liveStore := by decide +kernel
    notTold := by decide +kernel
    store := rfl }

/-- A request of 2^64 - 1 iterations is granted one less, as the sum would be the sentinel. -/
theorem request_saturates : ∃ r : Request false 10, r.iterationCount = 2 ^ 64 - 1 ∧
    ∃ tr s, (system false 10).RunFrom (lets r.w) r.afterStore tr s ∧
      (s.threads r.w).over = true ∧ ∀ begun,
        (r.trRead ++ r.trStore ++ tr).count (.loop r.w .tick) ≠ begun + r.iterationCount := by
  obtain ⟨last, hends, hlast⟩ := hugeRequest.exists_last
  have hlive : (hugeRequest.afterStore.threads hugeRequest.w).live = true := hugeRequest.liveStore
  obtain ⟨tr, s, hrun, hleft⟩ : ∃ tr s, (system false 10).RunFrom (alone hugeRequest.w)
      hugeRequest.afterStore tr s ∧ s.threads hugeRequest.w = .looping (.left false) :=
    leaves _ rfl hugeRequest.afterStore_inv hlive hends
  have hlets : (system false 10).RunFrom (lets hugeRequest.w) hugeRequest.afterStore tr s :=
    hrun.mono fun _ _ h => h.2
  have hover : (s.threads hugeRequest.w).over = true := by
    rw [hleft]
    rfl
  refine ⟨hugeRequest, rfl, tr, s, hlets, hover, fun begun => ?_⟩
  rw [(hugeRequest.ends hends hlets).finished hover]
  have htarget : hugeRequest.target = 2 ^ 64 - 2 := by decide +kernel
  have hdone : hugeRequest.atStore.control.iterationsDone = 0 := by decide +kernel
  have hcount : hugeRequest.iterationCount = 2 ^ 64 - 1 := rfl
  omega

end Worker
