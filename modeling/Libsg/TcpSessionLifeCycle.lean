/-
# The life cycle of a `tcp_session`

`m_state` is changed by `start()`, `stop_async()`, `close()` and `close_impl()`, through
two compare-exchange loops, one exchange and one plain store.  Whatever the order of
their steps, the values it takes are an initial part of one of two paths, one call of
`close()` at most wins, and so `close_impl()` runs at most once.

`LifeInv` ties the state to the moves made so far, `ImplInv` the events of
`close_impl()` to the place it has reached.
-/
import Libsg.TcpSessionMove
import Mathlib.Tactic.Common

open TransitionSystem

namespace TcpSession

variable {τ : Type}

/-! ## What a trace says about the life of the session -/

/-- The values `m_state` was changed to, in order. -/
def stateMoves (tr : List Event) : List StateT :=
  tr.filterMap fun
    | .moved v => some v
    | _ => none

/-- The exceptions `onDisconnected` was invoked with, in order. -/
def disconnects (tr : List Event) : List (Option Exn) :=
  tr.filterMap fun
    | .disconnected ex => some ex
    | _ => none

@[simp] theorem stateMoves_nil : stateMoves [] = [] := rfl

@[simp] theorem stateMoves_append (tr₁ tr₂ : List Event) :
    stateMoves (tr₁ ++ tr₂) = stateMoves tr₁ ++ stateMoves tr₂ := by
  simp [stateMoves]

@[simp] theorem disconnects_nil : disconnects [] = [] := rfl

@[simp] theorem disconnects_append (tr₁ tr₂ : List Event) :
    disconnects (tr₁ ++ tr₂) = disconnects tr₁ ++ disconnects tr₂ := by
  simp [disconnects]

/-- The two lives of a session: stopped gracefully, or closed while it was running. -/
def LifePath (m : List StateT) : Prop :=
  m <+: [.running, .stopRequested, .stopping, .stopped] ∨ m <+: [.running, .stopping, .stopped]

/-! ## The state -/

/-- `start()` has won its exchange, or failed to. -/
def StartPc.started : StartPc → Bool
  | .idle | .compareExchange => false
  | _ => true

theorem StartPc.started_of_canFail {pc : StartPc} (h : pc.canFail = true) : pc.started = true := by
  unfold StartPc.canFail at h
  split at h
  · rfl
  · rfl
  · rfl
  · cases h

/-- Where a started session is in its life, after the moves `m`. -/
def Session.stage (s : Session τ) (m : List StateT) : Prop :=
  (s.state = .running ∧ s.closeWins = 0 ∧ m = [.running]) ∨
  (s.state = .stopRequested ∧ s.closeWins = 0 ∧ m = [.running, .stopRequested]) ∨
  (s.state = .stopping ∧ s.closeWins = 1 ∧ s.impls 0 ≠ .finished ∧
    (m = [.running, .stopping] ∨ m = [.running, .stopRequested, .stopping])) ∨
  (s.state = .stopped ∧ s.closeWins = 1 ∧ s.impls 0 = .finished ∧
    (m = [.running, .stopping, .stopped] ∨ m = [.running, .stopRequested, .stopping, .stopped]))

/-- `m` are the moves of `m_state` so far. -/
structure LifeInv (m : List StateT) (s : Session τ) : Prop where
  notCalled : s.startCalled = false → s.startPc = .idle
  fresh : s.startPc.started = false → s.state = .stopped ∧ s.closeWins = 0 ∧ m = []
  started : s.startPc.started = true → s.stage m
  unborn : ∀ i, s.closeWins ≤ i → s.impls i = .unborn

theorem LifeInv.start : LifeInv [] ({} : Session τ) where
  notCalled _ := rfl
  fresh _ := ⟨rfl, rfl, rfl⟩
  started h := by cases h
  unborn _ _ := rfl

theorem LifeInv.closeWins_le {m : List StateT} {s : Session τ} (h : LifeInv m s) :
    s.closeWins ≤ 1 := by
  cases hst : s.startPc.started with
  | false => have := h.fresh hst; omega
  | true => rcases h.started hst with h | h | h | h <;> omega

theorem LifeInv.closeWins_eq {m : List StateT} {s : Session τ} (h : LifeInv m s) :
    s.closeWins = m.count .stopping := by
  cases hst : s.startPc.started with
  | false =>
    obtain ⟨-, hwins, rfl⟩ := h.fresh hst
    exact hwins
  | true =>
    rcases h.started hst with ⟨-, hw, rfl⟩ | ⟨-, hw, rfl⟩ | ⟨-, hw, -, rfl | rfl⟩ |
      ⟨-, hw, -, rfl | rfl⟩ <;> exact hw

/-- The moves lead to the value `m_state` has. -/
theorem LifeInv.state_eq {m : List StateT} {s : Session τ} (h : LifeInv m s) :
    s.state = m.getLastD .stopped := by
  cases hst : s.startPc.started with
  | false =>
    obtain ⟨hstate, -, rfl⟩ := h.fresh hst
    exact hstate
  | true =>
    rcases h.started hst with ⟨hs, -, rfl⟩ | ⟨hs, -, rfl⟩ | ⟨hs, -, -, rfl | rfl⟩ |
      ⟨hs, -, -, rfl | rfl⟩ <;> exact hs

theorem LifeInv.path {m : List StateT} {s : Session τ} (h : LifeInv m s) : LifePath m := by
  unfold LifePath
  cases hst : s.startPc.started with
  | false =>
    obtain ⟨-, -, rfl⟩ := h.fresh hst
    decide
  | true =>
    rcases h.started hst with ⟨-, -, rfl⟩ | ⟨-, -, rfl⟩ | ⟨-, -, -, rfl | rfl⟩ |
      ⟨-, -, -, rfl | rfl⟩ <;> decide

/-- A running session is in the first stage. -/
theorem LifeInv.of_running {m : List StateT} {s : Session τ} (h : LifeInv m s)
    (hs : s.state = .running) : s.startPc.started = true ∧ s.closeWins = 0 ∧ m = [.running] := by
  cases hst : s.startPc.started with
  | false =>
    have hstopped := (h.fresh hst).1
    rw [hs] at hstopped
    cases hstopped
  | true =>
    rcases h.started hst with ⟨-, hwins, rfl⟩ | ⟨hs', -⟩ | ⟨hs', -⟩ | ⟨hs', -⟩
    · exact ⟨rfl, hwins, rfl⟩
    all_goals
      rw [hs] at hs'
      cases hs'

/-- A session that can be closed has not been closed. -/
theorem LifeInv.of_closable {m : List StateT} {s : Session τ} (h : LifeInv m s)
    (hs : s.state.closable = true) :
    s.startPc.started = true ∧ s.closeWins = 0 ∧
      (m = [.running] ∨ m = [.running, .stopRequested]) := by
  cases hst : s.startPc.started with
  | false =>
    rw [(h.fresh hst).1] at hs
    cases hs
  | true =>
    rcases h.started hst with ⟨-, hwins, rfl⟩ | ⟨-, hwins, rfl⟩ | ⟨hs', -⟩ | ⟨hs', -⟩
    · exact ⟨rfl, hwins, .inl rfl⟩
    · exact ⟨rfl, hwins, .inr rfl⟩
    all_goals
      rw [hs'] at hs
      cases hs

/-- `close_impl()` is running, so the session is being closed. -/
theorem LifeInv.of_impl {m : List StateT} {s : Session τ} (h : LifeInv m s)
    (hborn : s.impls 0 ≠ .unborn) (hfin : s.impls 0 ≠ .finished) :
    s.startPc.started = true ∧ s.state = .stopping ∧ s.closeWins = 1 ∧
      (m = [.running, .stopping] ∨ m = [.running, .stopRequested, .stopping]) := by
  have hwins : s.closeWins ≠ 0 := fun hzero => hborn (h.unborn 0 (by omega))
  cases hst : s.startPc.started with
  | false => exact absurd (h.fresh hst).2.1 hwins
  | true =>
    rcases h.started hst with ⟨-, hzero, -⟩ | ⟨-, hzero, -⟩ | ⟨hs, hone, -, hm⟩ | ⟨-, -, hfin', -⟩
    · exact absurd hzero hwins
    · exact absurd hzero hwins
    · exact ⟨rfl, hs, hone, hm⟩
    · exact absurd hfin' hfin

/-- Only the run of `close_impl()` dispatched first exists. -/
theorem LifeInv.impl_eq_zero {m : List StateT} {s : Session τ} (h : LifeInv m s) {i : ℕ}
    (hi : s.impls i ≠ .unborn) : i = 0 := by
  by_contra hne
  have hle := h.closeWins_le
  exact hi (h.unborn i (by omega))

theorem StartPc.started_of_stop {pc pc' : StartPc} (h : pc.Stop pc') :
    pc'.started = pc.started := by
  cases h with
  | user => rfl
  | catchBlock hold =>
    rw [hold]
    rfl

theorem StartPc.started_of_catch {pc pc' : StartPc} (h : pc.Catch pc') :
    pc.started = true ∧ pc'.started = true := by
  cases h <;> exact ⟨rfl, rfl⟩

theorem LifeInv.called {m : List StateT} {s : Session τ} (h : LifeInv m s)
    (hpc : s.startPc ≠ .idle) : s.startCalled = true := by
  by_contra hcalled
  exact hpc (h.notCalled (Bool.eq_false_iff.mpr hcalled))

section Step

variable {m : List StateT} {s s' : Session τ} {a : Action τ} {es : List Event}

/-- `start()` stays on its side of the exchange, and nothing else changes that the invariant
speaks about. -/
theorem LifeInv.keep (h : LifeInv m s) (hes : stateMoves es = [])
    (hcalled : s'.startCalled = false → s'.startPc = .idle)
    (hside : s'.startPc.started = s.startPc.started) (hstate : s'.state = s.state)
    (hwins : s'.closeWins = s.closeWins) (himpls : s'.impls = s.impls) :
    LifeInv (m ++ stateMoves es) s' := by
  obtain ⟨h₁, h₂, h₃, h₄⟩ := h
  rw [hes, List.append_nil]
  constructor
  · exact hcalled
  · rwa [hside, hstate, hwins]
  · rwa [hside, Session.stage, hstate, hwins, himpls]
  · rwa [hwins, himpls]

/-- The moves that leave alone what the invariant speaks about. -/
theorem LifeInv.quiet (h : LifeInv m s) (hes : stateMoves es = [])
    (hcalled : s'.startCalled = s.startCalled) (hpc : s'.startPc = s.startPc)
    (hstate : s'.state = s.state) (hwins : s'.closeWins = s.closeWins)
    (himpls : s'.impls = s.impls) : LifeInv (m ++ stateMoves es) s' := by
  refine h.keep hes ?_ (by rw [hpc]) hstate hwins himpls
  rw [hcalled, hpc]
  exact h.notCalled

/-- The run of `close_impl()` goes on, and does not end. -/
theorem LifeInv.impl {i : ℕ} {pc : ImplPc} (h : LifeInv m s) (hes : stateMoves es = [])
    (hcalled : s'.startCalled = s.startCalled) (hpc : s'.startPc = s.startPc)
    (hstate : s'.state = s.state) (hwins : s'.closeWins = s.closeWins)
    (himpls : s'.impls = Function.update s.impls i pc) (hborn : s.impls i ≠ .unborn)
    (hold : s.impls i ≠ .finished) (hnew : pc ≠ .finished) : LifeInv (m ++ stateMoves es) s' := by
  obtain rfl := h.impl_eq_zero hborn
  obtain ⟨hst, hs, hone, hm⟩ := h.of_impl hborn hold
  rw [hes, List.append_nil]
  refine ⟨?_, fun hnot => ?_, fun _ => ?_, fun i hi => ?_⟩
  · rw [hcalled, hpc]
    exact h.notCalled
  · rw [hpc, hst] at hnot
    cases hnot
  · refine .inr (.inr (.inl ⟨hstate.trans hs, hwins.trans hone, ?_, hm⟩))
    rw [himpls, Function.update_self]
    exact hnew
  · rw [hwins] at hi
    rw [himpls, Function.update_of_ne (by omega)]
    exact h.unborn i hi

/-- `start()` does not go back before the exchange. -/
theorem Move.started (hm : Move s a es s') (hcalled : s.startCalled = false → s.startPc = .idle)
    (hst : s.startPc.started = true) : s'.startPc.started = true := by
  cases hm with
  | stopLate pc k q hstop | stopDelegates pc k q hstop | stopCloses pc k q hstop =>
    exact (StartPc.started_of_stop hstop).trans hst
  | startCalled io k q hnew =>
    rw [hcalled hnew] at hst
    cases hst
  | startCatch ex pc k q hcatch => exact (StartPc.started_of_catch hcatch).2
  | startRuns | startBusy | startSetup | startFails | startOwes | startConnects | startConnected
  | startReturns | startThrows => rfl
  | _ => exact hst

/-- One step keeps the life cycle: the four moves of `m_state` are the four stages. -/
theorem LifeInv.step (h : LifeInv m s) (hm : Move s a es s') : LifeInv (m ++ stateMoves es) s' := by
  have hnotIdle {pc : StartPc} (hpc : s.startPc = pc) (hne : pc ≠ .idle) {p : Prop}
      (hcalled : s.startCalled = false) : p := by
    rw [h.called (hpc ▸ hne)] at hcalled
    cases hcalled
  cases hm with
  | startRuns todo k q hpc hstate =>
    obtain ⟨-, hwins, rfl⟩ := h.fresh (by rw [hpc]; rfl)
    exact ⟨hnotIdle hpc nofun, nofun, fun _ => .inl ⟨rfl, hwins, rfl⟩, h.unborn⟩
  | stopDelegates pc k q hstop hact hrun hflag | stopCloses pc k q hstop hact hrun hflag =>
    obtain ⟨hst, hwins, rfl⟩ := h.of_running hrun
    have hst' : pc.started = true := (StartPc.started_of_stop hstop).trans hst
    refine ⟨hnotIdle rfl fun hidle => ?_, fun hnot => ?_, fun _ => .inr (.inl ⟨rfl, hwins, rfl⟩),
      h.unborn⟩
    · rw [hidle] at hst
      cases hst
    · cases hst'.symm.trans hnot
  | closeWins c cur k q hpc hstate =>
    obtain ⟨hst, hzero, hm⟩ := h.of_closable hstate
    refine ⟨h.notCalled, fun hnot => ?_, fun _ => ?_, fun i hi => ?_⟩
    · cases hst.symm.trans hnot
    · refine .inr (.inr (.inl ⟨rfl, ?_, ?_, ?_⟩))
      · show s.closeWins + 1 = 1
        rw [hzero]
      · show Function.update s.impls s.closeWins .dispatching 0 ≠ .finished
        rw [hzero, Function.update_self]
        exact nofun
      · exact hm.imp (fun hm => by rw [hm]; rfl) fun hm => by rw [hm]; rfl
    · have hi : s.closeWins + 1 ≤ i := hi
      show Function.update s.impls s.closeWins .dispatching i = .unborn
      rw [Function.update_of_ne (by omega)]
      exact h.unborn i (by omega)
  | implStops i k q hpc =>
    obtain rfl := h.impl_eq_zero (i := i) (by rw [hpc]; exact nofun)
    obtain ⟨hst, -, hone, hm⟩ := h.of_impl (by rw [hpc]; exact nofun) (by rw [hpc]; exact nofun)
    refine ⟨h.notCalled, fun hnot => ?_, fun _ => ?_, fun i hi => ?_⟩
    · cases hst.symm.trans hnot
    · refine .inr (.inr (.inr ⟨rfl, hone, ?_, ?_⟩))
      · show Function.update s.impls 0 .finished 0 = .finished
        rw [Function.update_self]
      · exact hm.imp (fun hm => by rw [hm]; rfl) fun hm => by rw [hm]; rfl
    · have hi : s.closeWins ≤ i := hi
      show Function.update s.impls 0 .finished i = .unborn
      rw [Function.update_of_ne (by omega)]
      exact h.unborn i hi
  | dispatch c i pc k q hpc himpl hnew =>
    refine h.impl rfl rfl rfl rfl rfl rfl (by rw [himpl]; nofun) (by rw [himpl]; nofun) ?_
    rcases hnew with rfl | rfl <;> exact nofun
  | implAdvance i pc k q hadvance =>
    refine h.impl rfl rfl rfl rfl rfl rfl (fun hu => ?_) (fun hf => ?_) fun hf => ?_
    · rw [hu] at hadvance
      cases hadvance
    · rw [hf] at hadvance
      cases hadvance
    · generalize s.impls i = old at hadvance
      cases hadvance <;> cases hf
  | implCloses ag ch i k q hpc =>
    exact h.impl rfl rfl rfl rfl rfl rfl (by rw [hpc]; nofun) (by rw [hpc]; nofun) nofun
  | implOwed i ex k q hpc =>
    exact h.impl rfl rfl rfl rfl rfl rfl (by rw [hpc]; nofun) (by rw [hpc]; nofun) nofun
  | implNotOwed i ex k q hpc =>
    exact h.impl rfl rfl rfl rfl rfl rfl (by rw [hpc]; nofun) (by rw [hpc]; nofun) nofun
  | stopLate pc k q hstop =>
    refine h.keep rfl (fun hcalled => ?_) (StartPc.started_of_stop hstop) rfl rfl rfl
    have hidle := h.notCalled hcalled
    cases hstop with
    | user => exact hidle
    | catchBlock hold => cases hold.symm.trans hidle
  | startCalled io k q hnew =>
    exact h.keep rfl nofun (by rw [h.notCalled hnew]; rfl) rfl rfl rfl
  | startBusy k q hpc hstate =>
    -- nobody else changes the state before `start()` has
    exact absurd (h.fresh (by rw [hpc]; rfl)).1 hstate
  | startSetup x todo k q hpc =>
    exact h.keep rfl (hnotIdle hpc nofun) (by rw [hpc]; rfl) rfl rfl rfl
  | startOwes ag ch k q hpc =>
    exact h.keep rfl (hnotIdle hpc nofun) (by rw [hpc]; rfl) rfl rfl rfl
  | startConnects k q hpc | startConnected k q hpc | startReturns k q hpc | startThrows k q hpc =>
    exact h.keep rfl (hnotIdle hpc nofun) (by rw [hpc]; rfl) rfl rfl rfl
  | startFails ex k q hcan =>
    have hst := StartPc.started_of_canFail hcan
    refine h.keep rfl (hnotIdle rfl fun hidle => ?_) (by rw [hst]; rfl) rfl rfl rfl
    rw [hidle] at hst
    cases hst
  | startCatch ex pc k q hcatch =>
    obtain ⟨hst, hst'⟩ := StartPc.started_of_catch hcatch
    refine h.keep rfl (hnotIdle rfl fun hidle => ?_) (hst'.trans hst.symm) rfl rfl rfl
    rw [hidle] at hst
    cases hst
  | _ => exact h.quiet rfl rfl rfl rfl rfl rfl

end Step

/-! ## The events of `close_impl()` -/

/-- `close_impl()` has closed the socket. -/
def ImplPc.closed : ImplPc → Bool
  | .unborn | .dispatching | .queued | .closeSocket => false
  | _ => true

/-- `close_impl()` has decided about `onDisconnected`. -/
def ImplPc.decided : ImplPc → Bool
  | .inDisconnected _ | .storeStopped | .finished => true
  | _ => false

/-- What a step means for `onDisconnected`: the decision stays as it is, and then nothing is
invoked, or it is made as the owed flag says. -/
theorem Move.decided {m : List StateT} {s s' : Session τ} {a : Action τ} {es : List Event}
    (hm : Move s a es s') (hl : LifeInv m s) :
    (s'.impls 0).decided = (s.impls 0).decided ∧ disconnects es = [] ∨
      (s.impls 0).decided = false ∧ (s'.impls 0).decided = true ∧
        s'.disconnectionCallbackOwed = s.disconnectionCallbackOwed ∧
        (disconnects es).length = if s.disconnectionCallbackOwed then 1 else 0 := by
  have hself (pc : ImplPc) : Function.update s.impls 0 pc 0 = pc := Function.update_self ..
  have hkeep {old pc : ImplPc} (hold : s.impls 0 = old) (hpc : pc.decided = old.decided) :
      (Function.update s.impls 0 pc 0).decided = (s.impls 0).decided ∧
        disconnects ([] : List Event) = [] := by
    rw [hself, hold, hpc]
    exact ⟨rfl, rfl⟩
  cases hm with
  | closeWins c cur k q hpc hstate =>
    have hzero := (hl.of_closable hstate).2.1
    refine .inl ?_
    show (Function.update s.impls s.closeWins .dispatching 0).decided = _ ∧ _
    rw [hzero]
    exact hkeep (hl.unborn 0 (by omega)) rfl
  | dispatch c i pc k q hpc himpl hnew =>
    obtain rfl := hl.impl_eq_zero (i := i) (by rw [himpl]; exact ImplPc.noConfusion)
    refine .inl (hkeep himpl ?_)
    rcases hnew with rfl | rfl <;> rfl
  | implAdvance i pc k q hadvance =>
    obtain rfl := hl.impl_eq_zero (i := i) (by intro hu; rw [hu] at hadvance; cases hadvance)
    refine .inl (hkeep rfl ?_)
    generalize s.impls 0 = old at hadvance
    cases hadvance <;> rfl
  | implCloses ag ch i k q hpc =>
    obtain rfl := hl.impl_eq_zero (i := i) (by rw [hpc]; exact ImplPc.noConfusion)
    exact .inl (hkeep hpc rfl)
  | implStops i k q hpc =>
    obtain rfl := hl.impl_eq_zero (i := i) (by rw [hpc]; exact ImplPc.noConfusion)
    exact .inl (hkeep hpc rfl)
  | implOwed i ex k q hpc howed =>
    obtain rfl := hl.impl_eq_zero (i := i) (by rw [hpc]; exact ImplPc.noConfusion)
    refine .inr ⟨by rw [hpc]; rfl, ?_, rfl, by rw [howed]; rfl⟩
    show (Function.update s.impls 0 (.inDisconnected ex) 0).decided = true
    rw [hself]
    rfl
  | implNotOwed i ex k q hpc howed =>
    obtain rfl := hl.impl_eq_zero (i := i) (by rw [hpc]; exact ImplPc.noConfusion)
    refine .inr ⟨by rw [hpc]; rfl, ?_, rfl, by rw [howed]; rfl⟩
    show (Function.update s.impls 0 .storeStopped 0).decided = true
    rw [hself]
    rfl
  | _ => exact .inl ⟨rfl, rfl⟩

/-- The socket has been closed `n` times and `onDisconnected` invoked with the exceptions `d`:
both happen in the only run of `close_impl()`, in this order and at most once. -/
structure ImplInv (n : ℕ) (d : List (Option Exn)) (s : Session τ) : Prop where
  closes : n = if (s.impls 0).closed then 1 else 0
  undecided : (s.impls 0).decided = false → d = []
  decided : d.length ≤ 1
  socket : s.socketOpen = !(s.impls 0).closed

theorem ImplInv.start : ImplInv 0 [] ({} : Session τ) where
  closes := rfl
  undecided _ := rfl
  decided := Nat.zero_le 1
  socket := rfl

section Step

/-- The moves that leave alone what the invariant speaks about. -/
theorem ImplInv.quiet {n : ℕ} {d : List (Option Exn)} {s s' : Session τ} {es : List Event}
    (h : ImplInv n d s) (hes : es.count .socketClosed = 0) (hdis : disconnects es = [])
    (himpls : s'.impls = s.impls) (hsocket : s'.socketOpen = s.socketOpen) :
    ImplInv (n + es.count .socketClosed) (d ++ disconnects es) s' := by
  obtain ⟨h₁, h₂, h₃, h₄⟩ := h
  rw [hes, Nat.add_zero, hdis, List.append_nil]
  constructor
  · rwa [himpls]
  · rwa [himpls]
  · exact h₃
  · rwa [himpls, hsocket]

/-- The run of `close_impl()` goes on, to a place where it has done as much. -/
theorem ImplInv.advance {n : ℕ} {d : List (Option Exn)} {s s' : Session τ} {es : List Event}
    {pc : ImplPc} (h : ImplInv n d s) (hes : es.count .socketClosed = 0)
    (hdis : disconnects es = []) (himpl : s'.impls 0 = pc)
    (hsocket : s'.socketOpen = s.socketOpen) (hclosed : pc.closed = (s.impls 0).closed)
    (hdecided : pc.decided = false → (s.impls 0).decided = false) :
    ImplInv (n + es.count .socketClosed) (d ++ disconnects es) s' := by
  rw [hes, Nat.add_zero, hdis, List.append_nil]
  constructor
  · rw [himpl, hclosed]
    exact h.closes
  · rw [himpl]
    exact fun hpc => h.undecided (hdecided hpc)
  · exact h.decided
  · rw [himpl, hsocket, hclosed]
    exact h.socket

theorem ImplInv.step {m : List StateT} {n : ℕ} {d : List (Option Exn)} {s s' : Session τ}
    {a : Action τ} {es : List Event} (h : ImplInv n d s) (hl : LifeInv m s) (hm : Move s a es s') :
    ImplInv (n + es.count .socketClosed) (d ++ disconnects es) s' := by
  have hself (pc : ImplPc) : Function.update s.impls 0 pc 0 = pc := Function.update_self ..
  cases hm with
  | implCloses ag ch i k q hpc =>
    obtain rfl := hl.impl_eq_zero (i := i) (by rw [hpc]; exact ImplPc.noConfusion)
    obtain ⟨hcloses, hundecided, hdecided, -⟩ := h
    rw [hpc] at hcloses hundecided
    refine ⟨?_, fun _ => ?_, ?_, ?_⟩
    · show n + 1 = if (Function.update s.impls 0 .readException 0).closed then 1 else 0
      rw [hself, hcloses]
      rfl
    · show d ++ [] = []
      rw [hundecided rfl, List.append_nil]
    · show (d ++ []).length ≤ 1
      rw [List.append_nil]
      exact hdecided
    · show false = !(Function.update s.impls 0 .readException 0).closed
      rw [hself]
      rfl
  | implOwed i ex k q hpc howed =>
    obtain rfl := hl.impl_eq_zero (i := i) (by rw [hpc]; exact ImplPc.noConfusion)
    obtain ⟨hcloses, hundecided, hdecided, hsocket⟩ := h
    rw [hpc] at hcloses hundecided hsocket
    refine ⟨?_, fun hpc' => ?_, ?_, ?_⟩
    · show n + 0 = if (Function.update s.impls 0 (.inDisconnected ex) 0).closed then 1 else 0
      rw [hself, hcloses]
      rfl
    · have hpc' : (Function.update s.impls 0 (.inDisconnected ex) 0).decided = false := hpc'
      rw [hself] at hpc'
      cases hpc'
    · show (d ++ [ex]).length ≤ 1
      rw [hundecided rfl]
      exact Nat.le_refl 1
    · show s.socketOpen = !(Function.update s.impls 0 (.inDisconnected ex) 0).closed
      rw [hself, hsocket]
      rfl
  | closeWins c cur k q hpc hstate =>
    have hzero := (hl.of_closable hstate).2.1
    have hunborn := hl.unborn 0 (by omega)
    have himpl : Function.update s.impls s.closeWins .dispatching 0 = .dispatching := by
      rw [hzero, Function.update_self]
    exact h.advance rfl rfl himpl rfl (by rw [hunborn]; rfl) fun _ => by rw [hunborn]; rfl
  | dispatch c i pc k q hpc himpl hnew =>
    obtain rfl := hl.impl_eq_zero (i := i) (by rw [himpl]; exact ImplPc.noConfusion)
    refine h.advance rfl rfl (hself pc) rfl ?_ fun _ => by rw [himpl]; rfl
    rw [himpl]
    rcases hnew with rfl | rfl <;> rfl
  | implAdvance i pc k q hadvance =>
    obtain rfl := hl.impl_eq_zero (i := i) (by intro hu; rw [hu] at hadvance; cases hadvance)
    refine h.advance rfl rfl (hself pc) rfl ?_ ?_
    · generalize s.impls 0 = old at hadvance
      cases hadvance <;> rfl
    · generalize s.impls 0 = old at hadvance
      cases hadvance <;> exact id
  | implNotOwed i ex k q hpc =>
    obtain rfl := hl.impl_eq_zero (i := i) (by rw [hpc]; exact ImplPc.noConfusion)
    exact h.advance rfl rfl (hself .storeStopped) rfl (by rw [hpc]; rfl) nofun
  | implStops i k q hpc =>
    obtain rfl := hl.impl_eq_zero (i := i) (by rw [hpc]; exact ImplPc.noConfusion)
    exact h.advance rfl rfl (hself .finished) rfl (by rw [hpc]; rfl) nofun
  | _ => exact h.quiet rfl rfl rfl rfl

end Step

section Runs

variable [DecidableEq τ] {C : Session τ → Action τ → Prop} {o : Options} {tr : List Event}
  {s : Session τ}

theorem lifeInv (h : (system τ o).Run C tr s) : LifeInv (stateMoves tr) s := by
  refine invariant_of_moves (I := fun tr s => LifeInv (stateMoves tr) s) .start ?_ h
  intro tr s a es s' _ _ hm ih
  rw [stateMoves_append]
  exact ih.step hm

theorem implInv (h : (system τ o).Run C tr s) :
    ImplInv (tr.count .socketClosed) (disconnects tr) s := by
  refine invariant_of_moves
    (I := fun tr s => ImplInv (tr.count .socketClosed) (disconnects tr) s) .start ?_ h
  intro tr s a es s' hrun _ hm ih
  rw [List.count_append, disconnects_append]
  exact ih.step (lifeInv hrun) hm

/-- A message is only accepted while the session is running. -/
theorem accepted_running (h : (system τ o).Run C tr s) {tr₁ tr₂ : List Event} {msg : Buffer}
    (htr : tr = tr₁ ++ .accepted msg :: tr₂) : stateMoves tr₁ = [.running] := by
  obtain ⟨t, a, t', hrun, -, hm⟩ := moment h htr
  have hrunning : t.state = .running := by
    cases hm <;> assumption
  exact ((lifeInv hrun).of_running hrunning).2.2

/-- **The life cycle.**  `m_state` only moves along one of the two paths, whatever the order of
the steps; the `close()` calls that win are as many as the moves to `stopping`, at most one;
the only run of `close_impl()` is number 0, which closes the socket and invokes `onDisconnected`
at most once; and nothing is accepted before the state has become `running` or after it has
left it. -/
theorem life_cycle (h : (system τ o).Reachable tr s) :
    LifePath (stateMoves tr) ∧ s.state = (stateMoves tr).getLastD .stopped ∧
      s.closeWins = (stateMoves tr).count .stopping ∧ s.closeWins ≤ 1 ∧
      (∀ i, s.impls i ≠ .unborn → i = 0) ∧
      tr.count .socketClosed ≤ 1 ∧ (disconnects tr).length ≤ 1 ∧
      ∀ tr₁ msg tr₂, tr = tr₁ ++ .accepted msg :: tr₂ → stateMoves tr₁ = [.running] := by
  have hlife := lifeInv h
  have himpl := implInv h
  refine ⟨hlife.path, hlife.state_eq, hlife.closeWins_eq, hlife.closeWins_le,
    fun i => hlife.impl_eq_zero, ?_, himpl.decided, fun tr₁ msg tr₂ => accepted_running h⟩
  rw [himpl.closes]
  split <;> omega

end Runs

section Sample

/-- `start()` on thread 0 with every operation succeeding, then `reader()` up to its first
`async_read_some`. -/
def connectRun : List (Action ℕ) :=
  .call (.thread 0) (.start false) :: List.replicate 9 (Action.step (.thread 0) .ok)
    ++ .runHandler :: List.replicate 2 (Action.step .strand .ok)

/-- `stop_async()` on thread 1 after that, and the teardown it dispatches to the strand. -/
def stopRun : List (Action ℕ) :=
  connectRun ++ .call (.thread 1) .stopAsync :: List.replicate 4 (Action.step (.thread 1) .ok)
    ++ .runHandler :: List.replicate 5 (Action.step .strand .ok)

/-- A session that is connected and then stopped lives the graceful life. -/
theorem life_cycle_stopRun : ∃ tr s, (system ℕ {}).Reachable tr s ∧
    stateMoves tr = [.running, .stopRequested, .stopping, .stopped] ∧ LifePath (stateMoves tr) ∧
    s.state = .stopped ∧ disconnects tr = [none] := by
  have hrun := reachable_exec (M := system ℕ {}) (by decide : ((system ℕ {}).exec stopRun).isSome = true)
  have hmoves : stateMoves (((system ℕ {}).exec stopRun).get (by decide)).2
      = [.running, .stopRequested, .stopping, .stopped] := by decide
  obtain ⟨hpath, hstate, -⟩ := life_cycle hrun
  refine ⟨_, _, hrun, hmoves, hpath, ?_, by decide⟩
  rw [hstate, hmoves]
  rfl

end Sample

end TcpSession
