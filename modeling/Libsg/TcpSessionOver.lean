/-
# A session that is over

A `tcp_session` is over when its `start()` has returned or thrown and `m_state` has come to
`stopped`.  It stays so, shows nothing of a life any more, and says nothing to the user either
unless something read has been left behind (`Over.move`, `Over.silent`).  Where `start()` was
called on a thread outside the pool, it only throws once the session is over (`Begun.step`).
-/
import Libsg.TcpSessionEnd

namespace TcpSession

variable {τ : Type}

/-- `start()` has returned or thrown, and `m_state` is `stopped`. -/
structure Over (s : Session τ) : Prop where
  left : s.startPc = .returned ∨ s.startPc = .threw
  stopped : s.state = .stopped

/-- A session whose `start()` was called on a thread outside the pool. -/
structure Begun (s : Session τ) : Prop where
  called : s.startCalled = true
  apart : s.startInIoThread = false
  threw : s.startPc = .threw → s.state = .stopped

/-- What belongs to the life of a session: from `running` to `stopped`. -/
def Event.ofLife : Event → Bool
  | .accepted _ | .moved _ | .connected | .disconnected _ | .socketClosed => true
  | .refused _ | .asyncWrite _ | .closeCalled _ | .data _ => false

/-- What the session says to the user. -/
def Event.toUser : Event → Bool
  | .connected | .disconnected _ | .data _ => true
  | .accepted _ | .moved _ | .socketClosed | .refused _ | .asyncWrite _ | .closeCalled _ => false

section Step

variable {m : List StateT} {n : ℕ} {d : List (Option Exn)} {s s' : Session τ} {a : Action τ}
  {es : List Event}

/-- `start()` does nothing more. -/
theorem Move.startPc_eq (hm : Move s a es s') (hcalled : s.startCalled = true)
    (hleft : s.startPc = .returned ∨ s.startPc = .threw) : s'.startPc = s.startPc := by
  have hne {pc : StartPc} (hpc : s.startPc = pc) (hreturned : pc ≠ .returned)
      (hthrew : pc ≠ .threw) : False := by
    rcases hleft with hleft | hleft
    · exact hreturned (hpc.symm.trans hleft)
    · exact hthrew (hpc.symm.trans hleft)
  cases hm with
  | stopLate pc k q hstop | stopDelegates pc k q hstop | stopCloses pc k q hstop =>
    cases hstop with
    | user => rfl
    | catchBlock hpc => exact (hne hpc (by simp) (by simp)).elim
  | startCalled io k q hnew => cases hcalled.symm.trans hnew
  | startRuns todo k q hpc | startSetup x todo k q hpc | startOwes ag ch k q hpc =>
    exact (hne hpc (by simp) (by simp)).elim
  | startBusy k q hpc | startConnects k q hpc | startConnected k q hpc | startReturns k q hpc
  | startThrows k q hpc => exact (hne hpc (by simp) (by simp)).elim
  | startFails ex k q hcan =>
    rcases hleft with hleft | hleft
    · rw [hleft] at hcan
      cases hcan
    · rw [hleft] at hcan
      cases hcan
  | startCatch ex pc k q hcatch =>
    generalize hpc : s.startPc = old at hcatch hleft
    cases hcatch <;> rcases hleft with hleft | hleft <;> cases hleft
  | _ => rfl

theorem StartPc.started_of_left {pc : StartPc} (h : pc = .returned ∨ pc = .threw) :
    pc.started = true := by
  rcases h with rfl | rfl
  · rfl
  · rfl

/-- The one run of `close_impl()` has finished. -/
theorem Over.finished (h : Over s) (hl : LifeInv m s) : s.impls 0 = .finished := by
  rcases hl.started (StartPc.started_of_left h.left) with ⟨hs, -⟩ | ⟨hs, -⟩ | ⟨hs, -⟩ |
    ⟨-, -, hfin, -⟩
  · cases hs.symm.trans h.stopped
  · cases hs.symm.trans h.stopped
  · cases hs.symm.trans h.stopped
  · exact hfin

/-- A session that has been closed to the end is over. -/
theorem Over.of_finished (hl : LifeInv m s) (hleft : s.startPc = .returned ∨ s.startPc = .threw)
    (hfin : s.impls 0 = .finished) : Over s := by
  have hwins : s.closeWins ≠ 0 := by
    intro hzero
    rw [hl.unborn 0 (Nat.le_of_eq hzero)] at hfin
    cases hfin
  rcases hl.started (StartPc.started_of_left hleft) with ⟨-, hzero, -⟩ | ⟨-, hzero, -⟩ |
    ⟨-, -, hnot, -⟩ | ⟨hstopped, -⟩
  · exact absurd hzero hwins
  · exact absurd hzero hwins
  · exact absurd hfin hnot
  · exact ⟨hleft, hstopped⟩

/-- **A session that is over stays so, and shows nothing of a life.** -/
theorem Over.move (h : Over s) (hl : LifeInv m s) (hcalled : s.startCalled = true)
    (hm : Move s a es s') : Over s' ∧ ∀ e ∈ es, e.ofLife = false := by
  have hpc := hm.startPc_eq hcalled h.left
  have hfin := h.finished hl
  have hrest {i : ℕ} {pc : ImplPc} (hi : s.impls i = pc) (hborn : pc ≠ .unborn)
      (hpc : pc ≠ .finished) : False := by
    obtain rfl := hl.impl_eq_zero (i := i) (by rw [hi]; exact hborn)
    exact hpc (hi.symm.trans hfin)
  -- `m_state` is only changed while it can be closed, and by the one run of `close_impl()`
  suffices hstate : s'.state = .stopped ∧ ∀ e ∈ es, e.ofLife = false from
    ⟨⟨hpc ▸ h.left, hstate.1⟩, hstate.2⟩
  have hquiet (hs : s'.state = s.state) (hes : ∀ e ∈ es, e.ofLife = false) :
      s'.state = .stopped ∧ ∀ e ∈ es, e.ofLife = false := ⟨hs.trans h.stopped, hes⟩
  cases hm with
  | accept msg k q hrun | acceptSpawn msg k q hrun => cases hrun.symm.trans h.stopped
  | stopDelegates pc k q hstop hact hrun | stopCloses pc k q hstop hact hrun =>
    cases hrun.symm.trans h.stopped
  | closeWins c cur k q hc hstate =>
    rw [h.stopped] at hstate
    cases hstate
  | implCloses ag ch i k q hi => exact (hrest hi (by simp) (by simp)).elim
  | implOwed i ex k q hi => exact (hrest hi (by simp) (by simp)).elim
  | implStops i k q hi => exact (hrest hi (by simp) (by simp)).elim
  | startRuns todo k q hstart | startConnects k q hstart =>
    rcases h.left with hleft | hleft <;> cases hstart.symm.trans hleft
  | refuse | closeLoad | writerIssues | readerData => exact hquiet rfl (by simp [Event.ofLife])
  | _ => exact hquiet rfl (by simp)

/-- With nothing left to be read it says nothing to the user either. -/
theorem Over.silent (h : Over s) (hl : LifeInv m s) (hi : ImplInv n d s) (hs : SilentInv s)
    (hcalled : s.startCalled = true) (hm : Move s a es s') : ∀ e ∈ es, e.toUser = false := by
  have hlife := (h.move hl hcalled hm).2
  have hclosed : s.socketOpen = false := by
    rw [hi.socket, h.finished hl]
    rfl
  intro e he
  cases e with
  | data payload =>
    cases hm with
    | readerData b payload k q hpc => exact absurd hpc (hs hclosed b).2
    | _ => simp at he
  | connected => cases hlife _ he
  | disconnected ex => cases hlife _ he
  | _ => rfl

/-! ### `start()` waits -/

section Start

variable [DecidableEq τ] {o : Options} {ag : Agent τ} {k : List Frame} {ch : Choice}

/-- No other frame moves `start()`. -/
theorem frameStep_startPc {f : Frame} (hf : f ≠ .start)
    (h : frameStep o s ag k ch f = some (s', es)) : s'.startPc = s.startPc := by
  cases f with
  | start => exact absurd rfl hf
  | write msg => grind [frameStep, write, Session.setStack, Session.setWriter]
  | writeSpawn w =>
    have h : writeSpawn s ag k w ch = some (s', es) := h
    unfold writeSpawn at h
    split at h
    · cases h
      rfl
    · cases h
      rfl
    · split at h <;> cases h
      rfl
    · cases h
  | stopAsync => grind [frameStep, stopAsync, Session.setStack, Session.newClose, Session.addClose]
  | close c =>
    grind [frameStep, close, Session.setStack, Session.setClose, Session.setImpl, Session.post]
  | closeImpl i => grind [frameStep, closeImpl, Session.setStack, Session.setImpl]
  | reader =>
    grind [frameStep, reader, Session.setStack, Session.newClose, Session.addClose, Session.record]
  | writer w =>
    grind [frameStep, writer, writerSection, Session.setStack, Session.setWriter,
      Session.newClose, Session.addClose, Session.record]

theorem call_startPc {a : Agent τ} {c : Call} :
    (call s a c).startPc = s.startPc ∨ (call s a c).startPc = .compareExchange := by
  cases c with
  | start io =>
    rw [call]
    split
    · exact .inl rfl
    · exact .inr rfl
  | write msg => exact .inl rfl
  | stopAsync => exact .inl rfl
  | stopAsyncForce => exact .inl rfl

theorem runHandler_startPc {h : Handler} (hst : runHandler s h = some s') :
    s'.startPc = s.startPc := by
  unfold runHandler at hst
  split at hst
  all_goals
    split at hst <;> cases hst <;> rfl

/-- Outside an I/O thread `start()` throws when the session has stopped. -/
theorem step_threw (hst : step o s a = some (s', es)) (hwait : s.startPc = .catchWait)
    (hthrew : s'.startPc = .threw) : s.startInIoThread = true ∨ s.state = .stopped := by
  have hne (hpc : s'.startPc = s.startPc) : False := by
    rw [hthrew, hwait] at hpc
    cases hpc
  cases a with
  | call ag c =>
    simp only [step] at hst
    split at hst <;> cases hst
    rcases call_startPc (s := s) (a := ag) (c := c) with hpc | hpc
    · exact (hne hpc).elim
    · cases hthrew.symm.trans hpc
  | step ag ch =>
    simp only [step] at hst
    split at hst
    · cases hst
    · next f k hstack =>
      by_cases hf : f = .start
      · subst hf
        simp only [frameStep, start, hwait] at hst
        split at hst
        · next hdone => exact hdone
        · cases hst
      · exact (hne (frameStep_startPc hf hst)).elim
  | runHandler =>
    simp only [step] at hst
    split at hst
    · next hd q _ _ =>
      obtain ⟨t, ht, heq⟩ := Option.map_eq_some_iff.mp hst
      cases heq
      exact (hne (runHandler_startPc ht :)).elim
    · cases hst
  | readDone r => exact (hne (by grind [step, Session.post])).elim
  | writeDone w ec => exact (hne (by grind [step, Session.setWriter, Session.post])).elim

/-- **Every step keeps what is known of a session begun outside the pool.** -/
theorem Begun.step (h : Begun s) (hl : LifeInv m s) (hst : step o s a = some (s', es)) :
    Begun s' := by
  have hm := step_move hst
  have hwaited := step_threw hst
  constructor
  · cases hm with
    | startCalled => rfl
    | _ => exact h.called
  · cases hm with
    | startCalled io k q hnew => cases h.called.symm.trans hnew
    | _ => exact h.apart
  · intro hthrew
    -- either it had thrown before and is over, or it throws now, after the wait
    by_cases hleft : s.startPc = .threw
    · exact (Over.move ⟨.inr hleft, h.threw hleft⟩ hl h.called hm).1.stopped
    · cases hm with
      | startBusy k q hpc hstate => exact absurd (hl.fresh (by rw [hpc]; rfl)).1 hstate
      | startThrows k q hpc =>
        rcases hwaited hpc hthrew with hio | hstopped
        · cases h.apart.symm.trans hio
        · exact hstopped
      | stopLate pc k q hstop | stopDelegates pc k q hstop | stopCloses pc k q hstop =>
        cases hstop with
        | user => exact absurd hthrew hleft
        | catchBlock hpc => cases hthrew
      | startCatch ex pc k q hcatch =>
        have hthrew : pc = .threw := hthrew
        subst hthrew
        generalize s.startPc = old at hcatch
        cases hcatch
      | startCalled | startRuns | startSetup | startFails | startOwes | startConnects
      | startConnected | startReturns => cases hthrew
      | _ => exact absurd hthrew hleft

end Start

end Step

end TcpSession
