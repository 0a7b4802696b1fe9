/-
# Pairing of `onConnected` and `onDisconnected`

`start()` makes the state `running` first, and stores `m_disconnection_callback_owed`
several fallible steps later, right before it invokes `onConnected`.  `close_impl()`
reads that flag once.  The two callbacks are paired unless the store comes *late*: after
a `close_impl()` of another thread has read the flag.  Then `onConnected` is still
invoked, and `onDisconnected` never.
-/
import Libsg.TcpSessionStop

open TransitionSystem

namespace TcpSession

variable {τ : Type}

/-- `start()` stores the owed flag after `close_impl()` has read it. -/
def Session.owesLate (s : Session τ) : Action τ → Bool
  | .step a _ => match s.stack a with
    | .start :: _ => decide (s.startPc = .setup []) && (s.impls 0).decided
    | _ => false
  | _ => false

/-- The owed flag is stored before `close_impl()` reads it, if at all. -/
def owesInTime (s : Session τ) (a : Action τ) : Prop := s.owesLate a = false

instance (s : Session τ) (a : Action τ) : Decidable (owesInTime s a) :=
  inferInstanceAs (Decidable (_ = _))

/-- `start()` has not come to the store of the owed flag. -/
def StartPc.settingUp : StartPc → Bool
  | .idle | .compareExchange | .setup _ => true
  | _ => false

/-- `start()` has come to the store of the owed flag, and has not failed. -/
def StartPc.pastOwing : StartPc → Bool
  | .invokeConnected | .inConnected | .spawnReader | .returned => true
  | _ => false

/-- `onConnected` has been invoked `n` times: once when `start()` has got past it. -/
structure ConnectInv (n : ℕ) (s : Session τ) : Prop where
  before : s.startPc.settingUp = true → s.disconnectionCallbackOwed = false
  past : s.startPc.pastOwing = true → s.disconnectionCallbackOwed = true
  invoked : n = if s.disconnectionCallbackOwed ∧ s.startPc ≠ .invokeConnected then 1 else 0

theorem ConnectInv.start : ConnectInv 0 ({} : Session τ) where
  before _ := rfl
  past h := by cases h
  invoked := rfl

/-- `onDisconnected` has been invoked `n` times: once when `close_impl()` has got past it and it
was owed. -/
def PairInv (n : ℕ) (s : Session τ) : Prop :=
  n = if (s.impls 0).decided ∧ s.disconnectionCallbackOwed then 1 else 0

/-- `onDisconnected` is only invoked when it is owed. -/
def OwedInv (n : ℕ) (s : Session τ) : Prop := s.disconnectionCallbackOwed = false → n = 0

/-- `close_impl()` has decided that `onDisconnected` is not owed, which it now is. -/
def Unpaired (n : ℕ) (s : Session τ) : Prop :=
  (s.impls 0).decided = true ∧ s.disconnectionCallbackOwed = true ∧ n = 0

section Step

theorem ConnectInv.quiet {n : ℕ} {s s' : Session τ} {es : List Event} (h : ConnectInv n s)
    (hes : es.count .connected = 0) (hpc : s'.startPc = s.startPc)
    (howed : s'.disconnectionCallbackOwed = s.disconnectionCallbackOwed) :
    ConnectInv (n + es.count .connected) s' := by
  obtain ⟨h₁, h₂, h₃⟩ := h
  rw [hes, Nat.add_zero]
  constructor
  · rwa [hpc, howed]
  · rwa [hpc, howed]
  · rwa [hpc, howed]

/-- `start()` goes on, on the same side of the two callbacks. -/
theorem ConnectInv.keep {n : ℕ} {s s' : Session τ} {es : List Event} (h : ConnectInv n s)
    (hes : es.count .connected = 0)
    (hset : s'.startPc.settingUp = true → s.startPc.settingUp = true)
    (hpast : s'.startPc.pastOwing = true → s.startPc.pastOwing = true)
    (hne : s.startPc ≠ .invokeConnected) (hne' : s'.startPc ≠ .invokeConnected)
    (howed : s'.disconnectionCallbackOwed = s.disconnectionCallbackOwed) :
    ConnectInv (n + es.count .connected) s' := by
  rw [hes, Nat.add_zero]
  constructor
  · rw [howed]
    exact fun hs => h.before (hset hs)
  · rw [howed]
    exact fun hs => h.past (hpast hs)
  · rw [howed, h.invoked]
    simp only [hne, hne', ne_eq, not_false_eq_true, and_true]

theorem StartPc.Catch.late {pc pc' : StartPc} (h : pc.Catch pc') :
    pc ≠ .invokeConnected ∧ pc' ≠ .invokeConnected ∧ pc'.settingUp = false ∧
      pc'.pastOwing = false := by
  cases h <;> exact ⟨nofun, nofun, rfl, rfl⟩

theorem ConnectInv.step {n : ℕ} {s s' : Session τ} {a : Action τ} {es : List Event}
    (h : ConnectInv n s) (hl : s.startCalled = false → s.startPc = .idle) (hm : Move s a es s') :
    ConnectInv (n + es.count .connected) s' := by
  cases hm with
  | startOwes ag ch k q hpc hact htop =>
    have hfree := h.before (by rw [hpc]; rfl)
    have hnone := h.invoked
    rw [hfree] at hnone
    exact ⟨nofun, fun _ => rfl, hnone⟩
  | startConnects k q hpc =>
    have howed := h.past (by rw [hpc]; rfl)
    have hnone := h.invoked
    rw [hpc, howed] at hnone
    refine ⟨nofun, fun _ => howed, ?_⟩
    show n + 1 = if s.disconnectionCallbackOwed = true ∧ StartPc.inConnected ≠ .invokeConnected
      then 1 else 0
    rw [howed, hnone]
    rfl
  | startFails ex k q hcan =>
    refine h.keep rfl nofun nofun (fun hpc => ?_) nofun rfl
    rw [hpc] at hcan
    cases hcan
  | stopLate pc k q hstop | stopDelegates pc k q hstop | stopCloses pc k q hstop =>
    cases hstop with
    | user => exact h.quiet rfl rfl rfl
    | catchBlock hpc => exact h.keep rfl nofun nofun (by rw [hpc]; nofun) nofun rfl
  | startCalled io k q hnew =>
    have hidle := hl hnew
    exact h.keep rfl (fun _ => by rw [hidle]; rfl) nofun (by rw [hidle]; nofun) nofun rfl
  | startRuns todo k q hpc =>
    exact h.keep rfl (fun _ => by rw [hpc]; rfl) nofun (by rw [hpc]; nofun) nofun rfl
  | startSetup x todo k q hpc =>
    exact h.keep rfl (fun _ => by rw [hpc]; rfl) nofun (by rw [hpc]; nofun) nofun rfl
  | startConnected k q hpc | startReturns k q hpc =>
    exact h.keep rfl nofun (fun _ => by rw [hpc]; rfl) (by rw [hpc]; nofun) nofun rfl
  | startBusy k q hpc | startThrows k q hpc =>
    exact h.keep rfl nofun nofun (by rw [hpc]; nofun) nofun rfl
  | startCatch ex pc k q hcatch =>
    obtain ⟨hne, hne', hset, hpast⟩ := hcatch.late
    refine h.keep rfl (fun hs => ?_) (fun hs => ?_) hne hne' rfl
    · cases hset.symm.trans hs
    · cases hpast.symm.trans hs
  | _ => exact h.quiet rfl rfl rfl

theorem OwedInv.step {n : ℕ} {s s' : Session τ} {a : Action τ} {es : List Event}
    (h : OwedInv n s) (hm : Move s a es s') : OwedInv (n + (disconnects es).length) s' := by
  unfold OwedInv at *
  cases hm with
  | implOwed i ex k q hpc howed =>
    intro hfree
    exact absurd (howed.symm.trans hfree) (by decide)
  | startOwes ag ch k q hpc hact htop =>
    intro hfree
    cases hfree
  | _ => exact h

/-- The owed flag is only ever set, by `start()`. -/
theorem Move.owed {s s' : Session τ} {a : Action τ} {es : List Event} (hm : Move s a es s')
    (howed : s.disconnectionCallbackOwed = true) : s'.disconnectionCallbackOwed = true := by
  cases hm with
  | startOwes => rfl
  | _ => exact howed

theorem PairInv.step {m : List StateT} {n : ℕ} {s s' : Session τ} {a : Action τ}
    {es : List Event} (h : PairInv n s) (hl : LifeInv m s)
    (ha : owesInTime s a) (hm : Move s a es s') : PairInv (n + (disconnects es).length) s' := by
  unfold PairInv at *
  rcases hm.decided hl with ⟨hsame, hnone⟩ | ⟨hold, hnew, howed, hcount⟩
  · rw [hsame, hnone, List.length_nil, Nat.add_zero]
    cases hm with
    | startOwes ag ch k q hpc hact htop =>
      obtain ⟨k', hk⟩ := List.head?_eq_some_iff.mp htop
      rw [owesInTime, hact, Session.owesLate, hk] at ha
      have hundecided : (s.impls 0).decided = false := by simpa [hpc] using ha
      rw [hundecided] at h ⊢
      simpa using h
    | _ => exact h
  · rw [hnew, howed, hcount, h, hold]
    simp

theorem Unpaired.step {m : List StateT} {n : ℕ} {s s' : Session τ} {a : Action τ}
    {es : List Event} (h : Unpaired n s) (hl : LifeInv m s) (hm : Move s a es s') :
    Unpaired (n + (disconnects es).length) s' := by
  obtain ⟨hdecided, howed, hzero⟩ := h
  refine ⟨?_, hm.owed howed, ?_⟩
  · rcases hm.decided hl with ⟨hsame, -⟩ | ⟨-, hnew, -⟩
    · exact hsame.trans hdecided
    · exact hnew
  · rcases hm.decided hl with ⟨-, hnone⟩ | ⟨hold, -⟩
    · rw [hnone, hzero]
      rfl
    · cases hold.symm.trans hdecided

end Step

/-! ## Runs -/

section Runs

variable [DecidableEq τ] {C : Session τ → Action τ → Prop} {o : Options} {tr : List Event}
  {s : Session τ}

theorem connectInv (h : (system τ o).Run C tr s) : ConnectInv (tr.count .connected) s := by
  refine invariant_of_moves (I := fun tr s => ConnectInv (tr.count .connected) s) .start ?_ h
  intro tr s a es s' hrun _ hm ih
  rw [List.count_append]
  exact ih.step (lifeInv hrun).notCalled hm

theorem owedInv (h : (system τ o).Run C tr s) : OwedInv (disconnects tr).length s := by
  refine invariant_of_moves (I := fun tr s => OwedInv (disconnects tr).length s) ?_ ?_ h
  · intro _
    rfl
  · intro tr s a es s' _ _ hm ih
    rw [disconnects_append, List.length_append]
    exact ih.step hm

theorem pairInv (h : (system τ o).Run owesInTime tr s) : PairInv (disconnects tr).length s := by
  refine invariant_of_moves (I := fun tr s => PairInv (disconnects tr).length s) ?_ ?_ h
  · rfl
  · intro tr s a es s' hrun hC hm ih
    rw [disconnects_append, List.length_append]
    exact ih.step (lifeInv hrun) hC hm

/-- A stopped session has been through `close_impl()`. -/
theorem decided_of_stopped (h : (system τ o).Run C tr s) (hst : s.startPc.started = true)
    (hs : s.state = .stopped) : (s.impls 0).decided = true := by
  rcases (lifeInv h).started hst with ⟨hs', -⟩ | ⟨hs', -⟩ | ⟨hs', -⟩ | ⟨-, -, hfin, -⟩
  · rw [hs] at hs'; cases hs'
  · rw [hs] at hs'; cases hs'
  · rw [hs] at hs'; cases hs'
  · rw [hfin]
    rfl

/-- Once `start()` has ended, `onConnected` was invoked as often as `onDisconnected` is owed. -/
theorem connected_of_ended (h : (system τ o).Run C tr s)
    (hend : s.startPc = .returned ∨ s.startPc = .threw) :
    tr.count .connected = if s.disconnectionCallbackOwed then 1 else 0 := by
  rw [(connectInv h).invoked]
  rcases hend with hpc | hpc <;> simp [hpc]

/-- **Pairing.**  Unless `start()` stores the owed flag late, `onDisconnected` has been invoked
exactly once if `onConnected` was, and not at all otherwise, as soon as the session has stopped and
`start()` has returned or thrown. -/
theorem connected_disconnected_paired (h : (system τ o).Run owesInTime tr s)
    (hs : s.state = .stopped) (hend : s.startPc = .returned ∨ s.startPc = .threw) :
    (disconnects tr).length = if .connected ∈ tr then 1 else 0 := by
  have hst : s.startPc.started = true := by rcases hend with hpc | hpc <;> rw [hpc] <;> rfl
  have hpair := pairInv h
  have hcount := connected_of_ended h hend
  rw [PairInv, decided_of_stopped h hst hs] at hpair
  rw [hpair]
  cases howed : s.disconnectionCallbackOwed with
  | true =>
    rw [howed] at hcount
    have hmem : Event.connected ∈ tr := List.count_pos_iff.mp (by rw [hcount]; decide)
    rw [if_pos hmem]
    rfl
  | false =>
    rw [howed] at hcount
    have hmem : Event.connected ∉ tr := List.count_eq_zero.mp (by rw [hcount]; decide)
    rw [if_neg hmem]
    rfl

/-- The step that stores the owed flag late. -/
theorem step_of_owesLate {t t' : Session τ} {a : Action τ} {es : List Event}
    (hlate : t.owesLate a = true) (hstep : (system τ o).step t a = some (t', es)) :
    t.startPc = .setup [] ∧ (t.impls 0).decided = true ∧ es = [] ∧
      t' = { t with disconnectionCallbackOwed := true, startPc := .invokeConnected } := by
  unfold Session.owesLate at hlate
  split at hlate
  · rename_i ag ch
    split at hlate
    · rename_i k hk
      simp only [Bool.and_eq_true, decide_eq_true_eq] at hlate
      obtain ⟨hpc, hdecided⟩ := hlate
      simp only [system, step, hk, frameStep, start, hpc, Option.some.injEq, Prod.mk.injEq] at hstep
      exact ⟨hpc, hdecided, hstep.2.symm, hstep.1.symm⟩
    · cases hlate
  · cases hlate

/-- The condition is exact: after one late store, `onConnected` is invoked and `onDisconnected`
is not. -/
theorem unpaired_of_owesLate {t : Session τ} {a : Action τ} {es tr' : List Event} {t' : Session τ}
    (h : (system τ o).Reachable tr t) (hlate : t.owesLate a = true)
    (hstep : (system τ o).step t a = some (t', es))
    (hrest : (system τ o).RunFrom anyStep t' tr' s)
    (hend : s.startPc = .returned ∨ s.startPc = .threw) :
    .connected ∈ tr ++ es ++ tr' ∧ disconnects (tr ++ es ++ tr') = [] := by
  have hfirst : (system τ o).Reachable (tr ++ es) t' := RunFrom.snoc h trivial hstep
  have hun : Unpaired (disconnects (tr ++ es)).length t' := by
    obtain ⟨hpc, hdecided, rfl, rfl⟩ := step_of_owesLate hlate hstep
    have hfree := (connectInv h).before (by rw [hpc]; rfl)
    refine ⟨hdecided, rfl, ?_⟩
    rw [List.append_nil]
    exact owedInv h hfree
  have hall : Unpaired (disconnects (tr ++ es ++ tr')).length s := by
    refine RunFrom.invariant
      (I := fun tr' s => Unpaired (disconnects (tr ++ es ++ tr')).length s) hrest ?_ ?_
    · rw [List.append_nil]
      exact hun
    · intro tr' s a s' es' hpart _ hst ih
      rw [← List.append_assoc, disconnects_append, List.length_append]
      exact ih.step (lifeInv (hfirst.append hpart)) (step_move hst)
  have hcount := connected_of_ended (hfirst.append hrest) hend
  rw [hall.2.1] at hcount
  refine ⟨List.count_pos_iff.mp (by rw [hcount]; decide), ?_⟩
  exact List.eq_nil_of_length_eq_zero hall.2.2

end Runs

section Sample

/-- Thread 1 holds the session's pointer too, and stops the session by force when thread 0 is done
with the set-up of `start()`, right before it stores the owed flag. -/
def lateRun : List (Action ℕ) :=
  .call (.thread 0) (.start false) :: List.replicate 5 (Action.step (.thread 0) .ok)
    ++ .call (.thread 1) .stopAsyncForce :: List.replicate 3 (Action.step (.thread 1) .ok)
    ++ .runHandler :: List.replicate 4 (Action.step .strand .ok)
    ++ List.replicate 4 (Action.step (.thread 0) .ok)

/-- A session that is connected and then stopped by thread 1 is paired. -/
theorem connected_disconnected_paired_stopRun : ∃ tr s, (system ℕ {}).Run owesInTime tr s ∧
    .connected ∈ tr ∧ (disconnects tr).length = if .connected ∈ tr then 1 else 0 := by
  have hrun := run_exec
    (by decide : (system ℕ {}).execMeets owesInTime _ stopRun = true) (by decide)
  exact ⟨_, _, hrun, by decide,
    connected_disconnected_paired hrun (by decide) (.inl (by decide))⟩

/-- With a late store the session stops and `start()` returns, `onConnected` has been invoked, and
`onDisconnected` has not. -/
theorem unpaired_lateRun : ∃ tr s, (system ℕ {}).Reachable tr s ∧
    s.state = .stopped ∧ s.startPc = .returned ∧ .connected ∈ tr ∧ disconnects tr = [] :=
  ⟨_, _, reachable_exec (by decide : ((system ℕ {}).exec lateRun).isSome = true),
    by decide, by decide, by decide, by decide⟩

end Sample

end TcpSession
