/-
# The tokens of the file writer

`m_signal` is a `std::binary_semaphore`, and a release of one that is not empty is undefined.
Every `write_async()` releases it, and so does the `stop()` of a running writer, while the
writer's thread acquires it once for each batch, and not at all when a stop is requested.

A sequence of calls releases an empty semaphore only, however the two threads take their
steps, exactly when it holds one call that releases at most (`releases_empty_iff`).
-/
import Libsg.FileWriter
import Mathlib.Data.List.Induction

open TransitionSystem

namespace FileWriter

/-! ## The calls -/

inductive Call
  | start
  | writeAsync (buff : Buffer)
  | stop
  deriving DecidableEq, Repr

/-- The call that an action makes, if any. -/
def Action.call : Action → List Call
  | .start => [.start]
  | .writeAsync buff => [.writeAsync buff]
  | .stop => [.stop]
  | .release | .join | .writer _ => []

/-- The writer beside the calls that have been made of it. -/
def callSystem (sem : Semaphore) : TransitionSystem (State × List Call) Action Event :=
  (system sem).observed [] fun calls _ a => calls ++ a.call

/-- The calls that release the semaphore; without a thread `stop()` returns at once. -/
def releases (running : Bool) : List Call → ℕ
  | [] => 0
  | .start :: calls => releases true calls
  | .writeAsync _ :: calls => releases running calls + 1
  | .stop :: calls => releases false calls + if running then 1 else 0

/-- Whether the calls leave a thread. -/
def runningAfter (running : Bool) : List Call → Bool
  | [] => running
  | .start :: calls => runningAfter true calls
  | .writeAsync _ :: calls => runningAfter running calls
  | .stop :: calls => runningAfter false calls

/-- `m_signal.release()` is next. -/
def ControlPc.releasing : ControlPc → Bool
  | .writingAsync | .stopping => true
  | .idle | .joining => false

/-- No interleaving of these calls with the writer's thread releases a semaphore that is not
empty. -/
def ReleasesEmpty (sem : Semaphore) (calls : List Call) : Prop :=
  ∀ made, made <+: calls → ∀ tr s, (callSystem sem).Reachable tr (s, made) →
    s.control.releasing = true → s.signal = 0

theorem releases_append (running : Bool) (calls calls' : List Call) :
    releases running (calls ++ calls') =
      releases running calls + releases (runningAfter running calls) calls' := by
  induction calls generalizing running with
  | nil => exact (Nat.zero_add _).symm
  | cons call calls ih =>
    cases call with
    | start => exact ih true
    | writeAsync buff =>
      simp only [List.cons_append, releases, runningAfter, ih]
      omega
    | stop =>
      simp only [List.cons_append, releases, runningAfter, ih]
      omega

theorem runningAfter_append (running : Bool) (calls calls' : List Call) :
    runningAfter running (calls ++ calls') = runningAfter (runningAfter running calls) calls' := by
  induction calls generalizing running with
  | nil => rfl
  | cons call calls ih => cases call <;> exact ih _

/-! ## No more tokens than calls that release -/

/-- The tokens there are, and the one that is about to be. -/
def State.tokens (s : State) : ℕ := s.signal + if s.control.releasing then 1 else 0

structure TokenInv (s : State) (calls : List Call) : Prop where
  tokens : s.tokens ≤ releases false calls
  running : s.control.inStop = false → runningAfter false calls = s.writer.isSome
  stopped : s.control.inStop = true → runningAfter false calls = false

theorem release_le (sem : Semaphore) (n : ℕ) : sem.release n ≤ n + 1 := by
  cases sem with
  | saturating => exact Nat.le_add_left 1 n
  | counting => exact Nat.le_refl _

theorem writerStep_tokens {s s' : State} {accepted : Bool} {pc : WriterPc}
    (h : writerStep s accepted pc = some s') :
    s'.signal ≤ s.signal ∧ s'.control = s.control ∧ s'.writer.isSome = true := by
  unfold writerStep at h
  split at h
  case h_2 | h_3 | h_5 | h_7 =>
    split at h <;> cases h <;> exact ⟨by simp, rfl, rfl⟩
  all_goals cases h <;> exact ⟨Nat.le_refl _, rfl, rfl⟩

theorem TokenInv.step {sem : Semaphore} {s s' : State} {calls : List Call} {a : Action}
    {es : List Event} (h : TokenInv s calls) (hstep : step sem s a = some (s', es)) :
    TokenInv s' (calls ++ a.call) := by
  obtain ⟨htokens, hrunning, hstopped⟩ := h
  rw [State.tokens] at htokens
  cases a with
  | start =>
    simp only [FileWriter.step] at hstep
    split at hstep
    · next hidle =>
      rw [hidle] at htokens
      by_cases hsome : s.writer.isSome = true
      · rw [if_pos hsome] at hstep
        cases hstep
        refine ⟨?_, fun _ => ?_, ?_⟩
        · rw [releases_append, State.tokens, hidle]
          exact htokens
        · rw [runningAfter_append]
          exact hsome.symm
        · rw [hidle]
          rintro ⟨⟩
      · rw [if_neg hsome] at hstep
        cases hstep
        refine ⟨?_, fun _ => ?_, ?_⟩
        · rw [releases_append, State.tokens]
          exact hidle ▸ htokens
        · rw [runningAfter_append]
          rfl
        · show s.control.inStop = true → _
          rw [hidle]
          rintro ⟨⟩
    · cases hstep
  | writeAsync buff =>
    simp only [FileWriter.step] at hstep
    split at hstep <;> cases hstep
    next hidle =>
    rw [hidle] at htokens hrunning
    refine ⟨?_, fun _ => ?_, by rintro ⟨⟩⟩
    · rw [releases_append]
      exact Nat.succ_le_succ htokens
    · rw [runningAfter_append]
      exact hrunning rfl
  | stop =>
    simp only [FileWriter.step] at hstep
    split at hstep
    · next hidle =>
      rw [hidle] at htokens hrunning
      have hsame := hrunning rfl
      by_cases hsome : s.writer.isSome = true
      · rw [if_pos hsome] at hstep
        cases hstep
        refine ⟨?_, by rintro ⟨⟩, fun _ => ?_⟩
        · rw [releases_append, hsame, hsome]
          exact Nat.succ_le_succ htokens
        · rw [runningAfter_append]
          rfl
      · rw [if_neg hsome] at hstep
        cases hstep
        refine ⟨?_, fun _ => ?_, fun _ => ?_⟩
        · rw [State.tokens, hidle, releases_append]
          exact Nat.le_trans htokens (Nat.le_add_right _ _)
        · rw [runningAfter_append]
          exact (Bool.eq_false_iff.mpr hsome).symm
        · rw [runningAfter_append]
          rfl
    · cases hstep
  | release =>
    have hle := release_le sem s.signal
    rw [Action.call, List.append_nil]
    simp only [FileWriter.step] at hstep
    split at hstep <;> cases hstep
    · next hcontrol =>
      rw [hcontrol] at htokens hrunning
      refine ⟨?_, fun _ => hrunning rfl, by rintro ⟨⟩⟩
      exact Nat.le_trans hle htokens
    · next hcontrol =>
      rw [hcontrol] at htokens hstopped
      refine ⟨?_, by rintro ⟨⟩, fun _ => hstopped rfl⟩
      exact Nat.le_trans hle htokens
  | join =>
    rw [Action.call, List.append_nil]
    simp only [FileWriter.step] at hstep
    split at hstep <;> cases hstep
    next hfinished =>
    rw [hfinished.1] at htokens hstopped
    exact ⟨htokens, fun _ => hstopped rfl, by rintro ⟨⟩⟩
  | writer accepted =>
    obtain ⟨s₁, hbind, heq⟩ := Option.map_eq_some_iff.mp hstep
    obtain ⟨pc, hpc, hwriter⟩ := Option.bind_eq_some_iff.mp hbind
    cases heq
    obtain ⟨hsignal, hcontrol, hsome⟩ := writerStep_tokens hwriter
    rw [Action.call, List.append_nil]
    refine ⟨?_, ?_, ?_⟩
    · rw [State.tokens, hcontrol]
      exact Nat.le_trans (Nat.add_le_add_right hsignal _) htokens
    · rw [hcontrol, hsome]
      intro hnot
      rw [hrunning hnot, hpc]
      rfl
    · rw [hcontrol]
      exact hstopped

theorem tokenInv {sem : Semaphore} {tr : List Event} {p : State × List Call}
    (h : (callSystem sem).Reachable tr p) : TokenInv p.1 p.2 := by
  refine Run.invariant (I := fun _ p => TokenInv p.1 p.2) ?_ ?_ h
  · exact ⟨Nat.le_refl 0, fun _ => rfl, nofun⟩
  · intro tr p a p' es _ _ hstep ih
    obtain ⟨hst, hcalls⟩ := observed_step.mp hstep
    rw [hcalls]
    exact ih.step hst

/-! ## A schedule that acquires nothing -/

section Schedule

variable {sem : Semaphore} {tr : List Event} {s : State} {calls : List Call}

theorem reachable_step {s' : State} {a : Action} {es : List Event}
    (h : (callSystem sem).Reachable tr (s, calls)) (hstep : step sem s a = some (s', es)) :
    (callSystem sem).Reachable (tr ++ es) (s', calls ++ a.call) :=
  RunFrom.snoc h trivial (observed_step.mpr ⟨hstep, rfl⟩)

/-- Steps that make no call. -/
theorem reachable_exec_of_no_call {s' : State} {as : List Action} {es : List Event}
    (h : (callSystem sem).Reachable tr (s, calls)) (hnone : ∀ a ∈ as, a.call = [])
    (hexec : (system sem).execFrom s as = some (s', es)) :
    ∃ tr', (callSystem sem).Reachable tr' (s', calls) := by
  induction as generalizing s tr es with
  | nil =>
    cases hexec
    exact ⟨tr, h⟩
  | cons a as ih =>
    rw [execFrom] at hexec
    split at hexec
    · cases hexec
    · next t fs hstep =>
      obtain ⟨⟨u, gs⟩, hrest, heq⟩ := Option.map_eq_some_iff.mp hexec
      cases heq
      have hnext := reachable_step h hstep
      rw [hnone a (.head _), List.append_nil] at hnext
      exact ih hnext (fun b hb => hnone b (.tail _ hb)) hrest

/-- What the calls leave when the writer's thread is not run until it is joined. -/
structure Scheduled (s : State) (calls : List Call) : Prop where
  control : s.control = .idle
  signal : s.signal = releases false calls
  writer : s.writer = if runningAfter false calls then some .top else none
  data : releases false calls = 0 → s.data = []

theorem release_zero (sem : Semaphore) : sem.release 0 = 1 := by
  cases sem <;> rfl

/-- From the call of `stop()` on, the thread finds the stop requested and finishes. -/
def stops : List Action := .release :: (List.replicate 6 (.writer true) ++ [.join])

theorem Scheduled.stop (h : Scheduled s calls) (hreach : (callSystem sem).Reachable tr (s, calls))
    (hrunning : runningAfter false calls = true) (hnone : releases false calls = 0) :
    ∃ tr' s', (callSystem sem).Reachable tr' (s', calls ++ [.stop]) ∧
      Scheduled s' (calls ++ [.stop]) := by
  obtain ⟨hcontrol, hsignal, hwriter, hdata⟩ := h
  obtain ⟨signal, data, byteCount, stopRequested, stream, file, writer, control⟩ := s
  dsimp only at hcontrol hsignal hwriter hdata
  rw [hrunning] at hwriter
  rw [hnone] at hsignal
  cases hdata hnone
  subst hcontrol hsignal hwriter
  have hstop : step sem ⟨0, [], byteCount, stopRequested, stream, file, some .top, .idle⟩ .stop =
      some (⟨0, [], byteCount, true, stream, file, some .top, .stopping⟩, []) := rfl
  have hexec : (system sem).execFrom
      ⟨0, [], byteCount, true, stream, file, some .top, .stopping⟩ stops = some
      (⟨sem.release 0, [], byteCount + 0, true, stream, stream, none, .idle⟩, [.stopped]) := rfl
  obtain ⟨tr', hreach'⟩ := reachable_exec_of_no_call (reachable_step hreach hstop)
    (by decide) hexec
  refine ⟨tr', _, hreach', rfl, ?_, ?_, fun _ => rfl⟩
  · rw [releases_append, hrunning, hnone]
    exact release_zero sem
  · rw [runningAfter_append]
    rfl

theorem Scheduled.start (h : Scheduled s calls)
    (hreach : (callSystem sem).Reachable tr (s, calls)) :
    ∃ tr' s', (callSystem sem).Reachable tr' (s', calls ++ [.start]) ∧
      Scheduled s' (calls ++ [.start]) := by
  obtain ⟨hcontrol, hsignal, hwriter, hdata⟩ := h
  have hsame : releases false (calls ++ [.start]) = releases false calls := by
    rw [releases_append]
    rfl
  cases hrunning : runningAfter false calls with
  | true =>
    rw [hrunning] at hwriter
    have hstart : step sem s .start = some (s, [.refused]) := by
      rw [step, if_pos hcontrol, hwriter]
      rfl
    refine ⟨_, _, reachable_step hreach hstart, hcontrol, ?_, ?_, ?_⟩
    · exact hsignal.trans hsame.symm
    · rw [runningAfter_append]
      exact hwriter
    · rw [hsame]
      exact hdata
  | false =>
    rw [hrunning] at hwriter
    have hstart : step sem s .start = some (s.started, [.started]) := by
      rw [step, if_pos hcontrol, hwriter]
      rfl
    refine ⟨_, _, reachable_step hreach hstart, hcontrol, ?_, ?_, ?_⟩
    · exact hsignal.trans hsame.symm
    · rw [runningAfter_append]
      rfl
    · rw [hsame]
      exact hdata

theorem Scheduled.writeAsync (h : Scheduled s calls)
    (hreach : (callSystem sem).Reachable tr (s, calls)) (hnone : releases false calls = 0)
    (buff : Buffer) :
    ∃ tr' s', (callSystem sem).Reachable tr' (s', calls ++ [.writeAsync buff]) ∧
      Scheduled s' (calls ++ [.writeAsync buff]) := by
  obtain ⟨hcontrol, hsignal, hwriter, hdata⟩ := h
  have hone : releases false (calls ++ [.writeAsync buff]) = 1 := by
    rw [releases_append, hnone]
    rfl
  have hwrite : step sem s (.writeAsync buff) =
      some ({ s with data := s.data ++ [buff], control := .writingAsync }, [.passed buff]) :=
    if_pos hcontrol
  have hrelease : step sem { s with data := s.data ++ [buff], control := .writingAsync } .release =
      some ({ s with data := s.data ++ [buff], signal := sem.release s.signal, control := .idle },
        []) := rfl
  have hreach' := reachable_step (reachable_step hreach hwrite) hrelease
  simp only [Action.call, List.append_nil] at hreach'
  refine ⟨_, _, hreach', rfl, ?_, ?_, fun hzero => ?_⟩
  · rw [hone]
    show sem.release s.signal = 1
    rw [hsignal, hnone]
    exact release_zero sem
  · rw [runningAfter_append]
    exact hwriter
  · rw [hone] at hzero
    cases hzero

/-- Calls that release once at most can all be made before the thread takes a token. -/
theorem scheduled (sem : Semaphore) (calls : List Call) (hone : releases false calls ≤ 1) :
    ∃ tr s, (callSystem sem).Reachable tr (s, calls) ∧ Scheduled s calls := by
  induction calls using List.reverseRecOn with
  | nil => exact ⟨[], _, .nil, rfl, rfl, rfl, fun _ => rfl⟩
  | append_singleton calls call ih =>
    rw [releases_append] at hone
    obtain ⟨tr, s, hreach, hs⟩ := ih (Nat.le_trans (Nat.le_add_right _ _) hone)
    cases call with
    | start => exact hs.start hreach
    | writeAsync buff => exact hs.writeAsync hreach (Nat.le_zero.mp (Nat.le_of_succ_le_succ hone)) buff
    | stop =>
      cases hrunning : runningAfter false calls with
      | true =>
        rw [hrunning] at hone
        exact hs.stop hreach hrunning (Nat.le_zero.mp (Nat.le_of_succ_le_succ hone))
      | false =>
        obtain ⟨hcontrol, hsignal, hwriter, hdata⟩ := hs
        rw [hrunning] at hwriter
        have hstop : step sem s .stop = some (s, [.stopped]) := by
          rw [step, if_pos hcontrol, hwriter]
          rfl
        have hsame : releases false (calls ++ [.stop]) = releases false calls := by
          rw [releases_append, hrunning]
          rfl
        refine ⟨_, _, reachable_step hreach hstop, hcontrol, ?_, ?_, ?_⟩
        · exact hsignal.trans hsame.symm
        · rw [runningAfter_append]
          exact hwriter
        · rw [hsame]
          exact hdata

/-- The second call that releases finds the token of the first. -/
theorem releases_full (sem : Semaphore) (calls : List Call) (htwo : 2 ≤ releases false calls) :
    ∃ made, made <+: calls ∧ ∃ tr s, (callSystem sem).Reachable tr (s, made) ∧
      s.control.releasing = true ∧ s.signal = 1 := by
  induction calls using List.reverseRecOn with
  | nil => cases htwo
  | append_singleton calls call ih =>
    by_cases hbefore : 2 ≤ releases false calls
    · obtain ⟨made, hmade, hfull⟩ := ih hbefore
      exact ⟨made, hmade.trans (List.prefix_append _ _), hfull⟩
    rw [releases_append] at htwo
    obtain ⟨tr, s, hreach, hcontrol, hsignal, hwriter, -⟩ := scheduled sem calls (by omega)
    refine ⟨calls ++ [call], List.prefix_refl _, ?_⟩
    cases call with
    | start =>
      have hzero : releases (runningAfter false calls) [.start] = 0 := rfl
      omega
    | writeAsync buff =>
      have hadds : releases (runningAfter false calls) [.writeAsync buff] = 1 := rfl
      have hwrite : step sem s (.writeAsync buff) =
          some ({ s with data := s.data ++ [buff], control := .writingAsync }, [.passed buff]) :=
        if_pos hcontrol
      refine ⟨_, _, reachable_step hreach hwrite, rfl, ?_⟩
      show s.signal = 1
      omega
    | stop =>
      cases hrunning : runningAfter false calls with
      | true =>
        have hadds : releases true [.stop] = 1 := rfl
        rw [hrunning] at hwriter htwo
        have hstop : step sem s .stop =
            some ({ s with stopRequested := true, control := .stopping }, []) := by
          rw [step, if_pos hcontrol, hwriter]
          rfl
        refine ⟨_, _, reachable_step hreach hstop, rfl, ?_⟩
        show s.signal = 1
        omega
      | false =>
        have hzero : releases false [.stop] = 0 := rfl
        rw [hrunning] at htwo
        omega

end Schedule

/-- **A sequence of calls releases an empty semaphore only, in every interleaving with the writer's
thread, exactly when it holds one call that releases at most.** -/
theorem releases_empty_iff (sem : Semaphore) (calls : List Call) :
    ReleasesEmpty sem calls ↔ releases false calls ≤ 1 := by
  constructor
  · intro hempty
    by_contra hmany
    obtain ⟨made, hmade, tr, s, hreach, hreleasing, hsignal⟩ :=
      releases_full sem calls (by omega)
    rw [hempty made hmade tr s hreach hreleasing] at hsignal
    cases hsignal
  · rintro hone made ⟨later, rfl⟩ tr s hreach hreleasing
    have htokens := (tokenInv hreach).tokens
    rw [State.tokens, if_pos hreleasing] at htokens
    rw [releases_append] at hone
    dsimp only at htokens
    omega

/-- The writer's thread has not run when the second buffer is passed. -/
theorem two_writes_release_full :
    ¬ ReleasesEmpty .saturating [.start, .writeAsync [1], .writeAsync [2]] := by
  intro hempty
  have hexec : (callSystem .saturating).exec
      [.start, .writeAsync [1], .release, .writeAsync [2]] = some
      ((⟨1, [[1], [2]], 0, false, [], [], some .top, .writingAsync⟩,
        [.start, .writeAsync [1], .writeAsync [2]]), [.started, .passed [1], .passed [2]]) := rfl
  have hrun := runFrom_of_execFrom (C := anyStep) (execMeets_anyStep _ _) hexec
  have hsignal := hempty _ (List.prefix_refl _) _ _ hrun rfl
  cases hsignal

end FileWriter
