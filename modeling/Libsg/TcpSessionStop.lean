/-
# A requested stop is never stranded

`stop_async()` does not close the session itself while `m_write_scheduled` is set: it
leaves that to a `writer()` it knows only through the flag.  The invariant that makes
this safe (`DutyInv`) says what a set flag stands for: the writer spawned last is on
duty, or on its way into `close()` after a failed write, or the session is being closed
already.  So from the lock section that made the state `stop_requested` until the state
moves on, the stopper's own call of `close()` is pending, or a writer is there that
cannot end without calling `close()`.
-/
import Libsg.TcpSessionWriter

open TransitionSystem

namespace TcpSession

variable {τ : Type}

/-! ## Calls of `close()` -/

/-- The call has not decided yet. -/
def ClosePc.pending : ClosePc → Bool
  | .load | .compareExchange _ => true
  | _ => false

/-- The writer is inside `close()`, or about to call it. -/
def WriterPc.closesNext : WriterPc → Bool
  | .callClose | .closing _ => true
  | _ => false

/-- `write()` only spawns writers after `start()`. -/
def WritersStarted (s : Session τ) : Prop :=
  ∀ w, s.writers w ≠ .unborn → s.startPc.started = true

/-- A call of `close()` by a writer is its own, and shows that it was called; `called` are the
callers of `close()` so far. -/
structure CallInv (called : List Closer) (s : Session τ) : Prop where
  unborn : ∀ c, s.closeCalls ≤ c → (s.closes c).pc = .unborn
  own : ∀ w c, s.writers w = .closing c →
    c < s.closeCalls ∧ (s.closes c).caller = .writer w
  shown : ∀ w c, s.writers w = .closing c → (s.closes c).pc = .load ∨ .writer w ∈ called

/-- A writer's call of `close()` only returns when some call has won. -/
structure ReturnInv (s : Session τ) : Prop where
  dispatching : ∀ c i, (s.closes c).pc = .dispatch i → 0 < s.closeWins
  returned : ∀ w c, s.writers w = .closing c → (s.closes c).pc = .returned → 0 < s.closeWins

/-- What a set `m_write_scheduled` stands for. -/
def DutyInv (s : Session τ) : Prop :=
  s.writeScheduled = true → 0 < s.spawned ∧
    ((s.writers (s.spawned - 1)).onDuty = true ∨ (s.writers (s.spawned - 1)).closesNext = true ∨
      0 < s.closeWins)

/-- The callers of `close()`, in order. -/
def closers (tr : List Event) : List Closer :=
  tr.filterMap fun
    | .closeCalled caller => some caller
    | _ => none

@[simp] theorem closers_append (tr₁ tr₂ : List Event) :
    closers (tr₁ ++ tr₂) = closers tr₁ ++ closers tr₂ := by
  simp [closers]

theorem LifeInv.state_of_wins {m : List StateT} {s : Session τ} (h : LifeInv m s)
    (hwins : 0 < s.closeWins) : s.state.closable = false := by
  cases hst : s.startPc.started with
  | false =>
    have := (h.fresh hst).2.1
    omega
  | true =>
    rcases h.started hst with ⟨-, hw, -⟩ | ⟨-, hw, -⟩ | ⟨hs, -⟩ | ⟨hs, -⟩
    · omega
    · omega
    all_goals
      rw [hs]
      rfl

/-- A started session that can no longer be closed has been closed. -/
theorem LifeInv.wins_of_state {m : List StateT} {s : Session τ} (h : LifeInv m s)
    (hst : s.startPc.started = true) (hs : s.state.closable = false) : 0 < s.closeWins := by
  rcases h.started hst with ⟨hs', -⟩ | ⟨hs', -⟩ | ⟨-, hw, -⟩ | ⟨-, hw, -⟩
  · rw [hs'] at hs
    cases hs
  · rw [hs'] at hs
    cases hs
  · omega
  · omega

section Step

variable {m : List StateT} {called : List Closer} {s s' : Session τ} {a : Action τ}
  {es : List Event}

/-- A writer was there before, or is spawned by a `write()` to a running session. -/
theorem Move.born (hm : Move s a es s') {w : ℕ} (hw : s'.writers w ≠ .unborn) :
    s.writers w ≠ .unborn ∨ s.state = .running := by
  have hupdate {v : ℕ} {old pc : WriterPc} (hw : Function.update s.writers v pc w ≠ .unborn)
      (hold : s.writers v = old) (hborn : old ≠ .unborn) :
      s.writers w ≠ .unborn ∨ s.state = .running := by
    by_cases hwv : w = v
    · rw [hwv, hold]
      exact .inl hborn
    · rw [Function.update_of_ne hwv] at hw
      exact .inl hw
  cases hm with
  | acceptSpawn msg k q hrun hflag => exact .inr hrun
  | spawnThrows ag v k q hpc => exact hupdate hw hpc nofun
  | writerAdvance v pc k q hadvance =>
    exact hupdate hw rfl (WriterPc.ne_unborn_of_onDuty hadvance.onDuty.1)
  | writerFails v ex pc k q hfail =>
    exact hupdate hw rfl (WriterPc.ne_unborn_of_onDuty hfail.onDuty)
  | writeDone v b ec k q hpc => exact hupdate hw hpc nofun
  | writerIssues v b k q hpc => exact hupdate hw hpc nofun
  | writerTakes v k q hpc | writerLeaves v k q hpc | writerStops v k q hpc
  | writerCloses v k q hpc => exact hupdate hw hpc nofun
  | writerEnds v c k q hpc => exact hupdate hw hpc nofun
  | _ => exact .inl hw

theorem WritersStarted.step (h : WritersStarted s) (hl : LifeInv m s) (hm : Move s a es s') :
    WritersStarted s' := by
  intro w hw
  apply hm.started hl.notCalled
  rcases hm.born hw with hborn | hrun
  · exact h w hborn
  · exact (hl.of_running hrun).1

/-! ### Calls of `close()`, one change at a time -/

theorem CallInv.quiet (h : CallInv called s) (hes : closers es = []) (hcloses : s'.closes = s.closes)
    (hcalls : s'.closeCalls = s.closeCalls) (hwriters : s'.writers = s.writers) :
    CallInv (called ++ closers es) s' := by
  obtain ⟨h₁, h₂, h₃⟩ := h
  rw [hes, List.append_nil]
  constructor
  · rwa [hcalls, hcloses]
  · rwa [hwriters, hcloses, hcalls]
  · rwa [hwriters, hcloses]

/-- A call of `close()` begins; if a writer now waits for a call, it is this one. -/
theorem CallInv.begins {caller : Closer} (h : CallInv called s) (hes : closers es = [])
    (hcloses : s'.closes = Function.update s.closes s.closeCalls ⟨caller, .load⟩)
    (hcalls : s'.closeCalls = s.closeCalls + 1)
    (hwriters : ∀ w c, s'.writers w = .closing c →
      s.writers w = .closing c ∨ c = s.closeCalls ∧ caller = .writer w) :
    CallInv (called ++ closers es) s' := by
  rw [hes, List.append_nil]
  refine ⟨fun c hc => ?_, fun w c hw => ?_, fun w c hw => ?_⟩
  · rw [hcalls] at hc
    rw [hcloses, Function.update_of_ne (by omega)]
    exact h.unborn c (by omega)
  · rw [hcalls, hcloses]
    rcases hwriters w c hw with hold | ⟨rfl, hcaller⟩
    · obtain ⟨hlt, hcaller⟩ := h.own w c hold
      rw [Function.update_of_ne (Nat.ne_of_lt hlt)]
      exact ⟨Nat.lt_succ_of_lt hlt, hcaller⟩
    · rw [Function.update_self]
      exact ⟨Nat.lt_succ_self _, hcaller⟩
  · rw [hcloses]
    rcases hwriters w c hw with hold | ⟨rfl, -⟩
    · rw [Function.update_of_ne (Nat.ne_of_lt (h.own w c hold).1)]
      exact h.shown w c hold
    · rw [Function.update_self]
      exact .inl rfl

/-- A call of `close()` goes on; with its first step it has shown its caller. -/
theorem CallInv.goes {c : ℕ} {pc : ClosePc} (h : CallInv called s)
    (hcloses : s'.closes = Function.update s.closes c ⟨(s.closes c).caller, pc⟩)
    (hcalls : s'.closeCalls = s.closeCalls) (hwriters : s'.writers = s.writers)
    (hborn : (s.closes c).pc ≠ .unborn)
    (hshown : (s.closes c).pc = .load → (s.closes c).caller ∈ closers es) :
    CallInv (called ++ closers es) s' := by
  refine ⟨fun d hd => ?_, fun w d hw => ?_, fun w d hw => ?_⟩
  · rw [hcalls] at hd
    have hdc : d ≠ c := by
      rintro rfl
      exact hborn (h.unborn d hd)
    rw [hcloses, Function.update_of_ne hdc]
    exact h.unborn d hd
  · rw [hwriters] at hw
    obtain ⟨hlt, hcaller⟩ := h.own w d hw
    rw [hcalls, hcloses]
    refine ⟨hlt, ?_⟩
    by_cases hdc : d = c
    · rw [hdc, Function.update_self, ← hdc]
      exact hcaller
    · rw [Function.update_of_ne hdc]
      exact hcaller
  · rw [hwriters] at hw
    by_cases hdc : d = c
    · subst hdc
      rcases h.shown w d hw with hload | hcalled
      · rw [← (h.own w d hw).2]
        exact .inr (List.mem_append_right _ (hshown hload))
      · exact .inr (List.mem_append_left _ hcalled)
    · rw [hcloses, Function.update_of_ne hdc]
      exact (h.shown w d hw).imp_right (List.mem_append_left _)

/-- A writer goes on, and not into `close()`. -/
theorem closing_of_update {v w c : ℕ} {pc : WriterPc} (hpc : ∀ c, pc ≠ .closing c)
    (hv : Function.update s.writers w pc v = .closing c) : s.writers v = .closing c := by
  by_cases hvw : v = w
  · rw [hvw, Function.update_self] at hv
    exact absurd hv (hpc c)
  · rw [Function.update_of_ne hvw] at hv
    exact hv

theorem CallInv.writer {w : ℕ} {pc : WriterPc} (h : CallInv called s) (hes : closers es = [])
    (hwriters : s'.writers = Function.update s.writers w pc) (hpc : ∀ c, pc ≠ .closing c)
    (hcloses : s'.closes = s.closes) (hcalls : s'.closeCalls = s.closeCalls) :
    CallInv (called ++ closers es) s' := by
  rw [hes, List.append_nil]
  refine ⟨?_, fun v c hv => ?_, fun v c hv => ?_⟩
  · rw [hcalls, hcloses]
    exact h.unborn
  · rw [hwriters] at hv
    rw [hcalls, hcloses]
    exact h.own v c (closing_of_update hpc hv)
  · rw [hwriters] at hv
    rw [hcloses]
    exact h.shown v c (closing_of_update hpc hv)

theorem WriterPc.Advance.not_closing {pc pc' : WriterPc} (h : WriterPc.Advance pc pc') (c : ℕ) :
    pc' ≠ .closing c := by
  cases h <;> exact nofun

theorem WriterPc.Fail.not_closing {pc pc' : WriterPc} (h : WriterPc.Fail pc pc') (c : ℕ) :
    pc' ≠ .closing c := by
  cases h <;> exact nofun

theorem writerSection_not_closing (s : Session τ) (c : ℕ) :
    (if s.writeMsgs = [] then WriterPc.leaving else .issuing s.writeMsgs) ≠ .closing c := by
  split <;> exact nofun

theorem CallInv.step (h : CallInv called s) (hm : Move s a es s') :
    CallInv (called ++ closers es) s' := by
  cases hm with
  | closeLoad c pc k q hpc hnew =>
    -- the call leaves `load` and shows its caller in the same step
    exact h.goes rfl rfl rfl (by rw [hpc]; nofun) fun _ => List.mem_singleton_self _
  | closeRetry c cur pc k q hpc hnew =>
    exact h.goes rfl rfl rfl (by rw [hpc]; nofun) (by rw [hpc]; nofun)
  | closeWins c cur k q hpc hstate =>
    exact h.goes rfl rfl rfl (by rw [hpc]; nofun) (by rw [hpc]; nofun)
  | dispatch c i pc k q hpc himpl =>
    exact h.goes rfl rfl rfl (by rw [hpc]; nofun) (by rw [hpc]; nofun)
  | writerCloses w k q hpc =>
    refine h.begins rfl rfl rfl fun v c hv => ?_
    have hv : Function.update s.writers w (.closing s.closeCalls) v = .closing c := hv
    by_cases hvw : v = w
    · rw [hvw, Function.update_self, WriterPc.closing.injEq] at hv
      exact .inr ⟨hv.symm, by rw [hvw]⟩
    · rw [Function.update_of_ne hvw] at hv
      exact .inl hv
  | stopCloses | force | readerCloses => exact h.begins rfl rfl rfl fun _ _ hw => .inl hw
  | writerAdvance w pc k q hadvance => exact h.writer rfl rfl hadvance.not_closing rfl rfl
  | writerFails w ex pc k q hfail => exact h.writer rfl rfl hfail.not_closing rfl rfl
  | writerTakes w k q hpc => exact h.writer rfl rfl (writerSection_not_closing s) rfl rfl
  | acceptSpawn | spawnThrows | writeDone | writerIssues | writerLeaves | writerStops | writerEnds =>
    exact h.writer rfl rfl nofun rfl rfl
  | _ => exact h.quiet rfl rfl rfl rfl

theorem ReturnInv.quiet (h : ReturnInv s) (hcloses : s'.closes = s.closes)
    (hwins : s'.closeWins = s.closeWins) (hwriters : s'.writers = s.writers) : ReturnInv s' := by
  obtain ⟨h₁, h₂⟩ := h
  constructor
  · rwa [hcloses, hwins]
  · rwa [hwriters, hcloses, hwins]

/-- A call of `close()` begins. -/
theorem ReturnInv.begins {caller : Closer} (h : ReturnInv s)
    (hcloses : s'.closes = Function.update s.closes s.closeCalls ⟨caller, .load⟩)
    (hwins : s'.closeWins = s.closeWins)
    (hwriters : ∀ w c, s'.writers w = .closing c → c ≠ s.closeCalls → s.writers w = .closing c) :
    ReturnInv s' := by
  have hload : (s'.closes s.closeCalls).pc = .load := by rw [hcloses, Function.update_self]
  refine ⟨fun c i hc => ?_, fun w c hw hret => ?_⟩
  · have hnew : c ≠ s.closeCalls := by
      rintro rfl
      cases hload.symm.trans hc
    rw [hcloses, Function.update_of_ne hnew] at hc
    rw [hwins]
    exact h.dispatching c i hc
  · have hnew : c ≠ s.closeCalls := by
      rintro rfl
      cases hload.symm.trans hret
    rw [hcloses, Function.update_of_ne hnew] at hret
    rw [hwins]
    exact h.returned w c (hwriters w c hw hnew) hret

/-- A call of `close()` goes on; it only returns when some call has won. -/
theorem ReturnInv.goes {c : ℕ} {pc : ClosePc} (h : ReturnInv s)
    (hcloses : s'.closes = Function.update s.closes c ⟨(s.closes c).caller, pc⟩)
    (hwins : s'.closeWins = s.closeWins) (hwriters : s'.writers = s.writers)
    (hdispatch : ∀ i, pc ≠ .dispatch i)
    (hreturn : pc = .returned → ∀ w, s.writers w = .closing c → 0 < s.closeWins) :
    ReturnInv s' := by
  refine ⟨fun d i hd => ?_, fun w d hw hret => ?_⟩
  · rw [hwins]
    by_cases hdc : d = c
    · rw [hcloses, hdc, Function.update_self] at hd
      exact absurd hd (hdispatch i)
    · rw [hcloses, Function.update_of_ne hdc] at hd
      exact h.dispatching d i hd
  · rw [hwriters] at hw
    rw [hwins]
    by_cases hdc : d = c
    · rw [hcloses, hdc, Function.update_self] at hret
      exact hreturn hret w (hdc ▸ hw)
    · rw [hcloses, Function.update_of_ne hdc] at hret
      exact h.returned w d hw hret

/-- A writer goes on, and not into `close()`. -/
theorem ReturnInv.writer {w : ℕ} {pc : WriterPc} (h : ReturnInv s)
    (hwriters : s'.writers = Function.update s.writers w pc) (hpc : ∀ c, pc ≠ .closing c)
    (hcloses : s'.closes = s.closes) (hwins : s'.closeWins = s.closeWins) : ReturnInv s' := by
  refine ⟨?_, fun v c hv => ?_⟩
  · rw [hcloses, hwins]
    exact h.dispatching
  · rw [hwriters] at hv
    rw [hcloses, hwins]
    exact h.returned v c (closing_of_update hpc hv)

/-- Where a call of `close()` that has looked at the state goes. -/
theorem decides {pc : ClosePc}
    (hnew : pc = if s.state.closable then .compareExchange s.state else .returned) :
    (s.state.closable = true ∧ pc = .compareExchange s.state) ∨
      (s.state.closable = false ∧ pc = .returned) := by
  split at hnew
  · rename_i hcl
    exact .inl ⟨hcl, hnew⟩
  · rename_i hcl
    exact .inr ⟨Bool.eq_false_iff.mpr hcl, hnew⟩

theorem ReturnInv.step (h : ReturnInv s) (hl : LifeInv m s) (hw : WritersStarted s)
    (hm : Move s a es s') : ReturnInv s' := by
  -- a call returns at once only from a state that cannot be closed
  have hreturn {c : ℕ} {pc : ClosePc}
      (hnew : pc = if s.state.closable then .compareExchange s.state else .returned)
      (hret : pc = .returned) (w : ℕ) (hclosing : s.writers w = .closing c) : 0 < s.closeWins := by
    rcases decides hnew with ⟨-, hpc⟩ | ⟨hcl, -⟩
    · cases hpc.symm.trans hret
    · exact hl.wins_of_state (hw w (by rw [hclosing]; nofun)) hcl
  have hdispatch {pc : ClosePc}
      (hnew : pc = if s.state.closable then .compareExchange s.state else .returned) (i : ℕ) :
      pc ≠ .dispatch i := by
    rcases decides hnew with ⟨-, rfl⟩ | ⟨-, rfl⟩ <;> exact nofun
  cases hm with
  | closeLoad c pc k q hpc hnew => exact h.goes rfl rfl rfl (hdispatch hnew) (hreturn hnew)
  | closeRetry c cur pc k q hpc hnew => exact h.goes rfl rfl rfl (hdispatch hnew) (hreturn hnew)
  | dispatch c i pc k q hpc himpl hnew =>
    have hwon := h.dispatching c i hpc
    exact ⟨fun _ _ _ => hwon, fun _ _ _ _ => hwon⟩
  | closeWins c cur k q hpc hstate =>
    exact ⟨fun _ _ _ => Nat.succ_pos _, fun _ _ _ _ => Nat.succ_pos _⟩
  | writerCloses w k q hpc =>
    refine h.begins rfl rfl fun v c hv hne => ?_
    have hv : Function.update s.writers w (.closing s.closeCalls) v = .closing c := hv
    by_cases hvw : v = w
    · rw [hvw, Function.update_self, WriterPc.closing.injEq] at hv
      exact absurd hv.symm hne
    · rw [Function.update_of_ne hvw] at hv
      exact hv
  | stopCloses | force | readerCloses => exact h.begins rfl rfl fun _ _ hw _ => hw
  | writerAdvance w pc k q hadvance => exact h.writer rfl hadvance.not_closing rfl rfl
  | writerFails w ex pc k q hfail => exact h.writer rfl hfail.not_closing rfl rfl
  | writerTakes w k q hpc => exact h.writer rfl (writerSection_not_closing s) rfl rfl
  | acceptSpawn | spawnThrows | writeDone | writerIssues | writerLeaves | writerStops | writerEnds =>
    exact h.writer rfl nofun rfl rfl
  | _ => exact h.quiet rfl rfl rfl

/-- One writer goes on; if the flag stood for it, it still does. -/
theorem DutyInv.update {w : ℕ} {old pc : WriterPc} (h : DutyInv s)
    (hwriters : s'.writers = Function.update s.writers w pc)
    (hflag : s'.writeScheduled = s.writeScheduled) (hspawned : s'.spawned = s.spawned)
    (hwins : s'.closeWins = s.closeWins) (hold : s.writers w = old)
    (hpc : old.onDuty = true ∨ old.closesNext = true → pc.onDuty = true ∨ pc.closesNext = true) :
    DutyInv s' := by
  intro hset
  rw [hflag] at hset
  obtain ⟨hpos, hlast⟩ := h hset
  rw [hspawned, hwins, hwriters]
  refine ⟨hpos, ?_⟩
  by_cases hw : s.spawned - 1 = w
  · rw [hw, hold, ← or_assoc] at hlast
    rw [hw, Function.update_self, ← or_assoc]
    exact hlast.imp_left hpc
  · rw [Function.update_of_ne hw]
    exact hlast

theorem WriterPc.Fail.goes_on {pc pc' : WriterPc} (h : WriterPc.Fail pc pc') :
    pc'.onDuty = true ∨ pc'.closesNext = true := by
  cases h <;> first | exact .inl rfl | exact .inr rfl

theorem DutyInv.step (h : DutyInv s) (hw : WriterInv s) (hr : ReturnInv s) (hm : Move s a es s') :
    DutyInv s' := by
  cases hm with
  | writerEnds w c k q hpc hret =>
    -- a failed write leaves the flag set, but its call of `close()` did not return for nothing
    have hwon := hr.returned w c hpc hret
    intro hflag
    exact ⟨(h hflag).1, .inr (.inr hwon)⟩
  | writerTakes w k q hpc =>
    have hlast := (hw.duty w (by rw [hpc]; rfl)).2
    intro hflag
    refine ⟨Nat.lt_of_lt_of_eq (Nat.succ_pos w) hlast, .inl ?_⟩
    simp only [Session.sched, writerSection, Session.setWriter] at hflag ⊢
    rw [show s.spawned - 1 = w by omega, Function.update_self]
    split at hflag
    · cases hflag
    · rename_i hmsgs
      rw [if_neg hmsgs]
      rfl
  | acceptSpawn msg k q hrun hflag =>
    refine fun _ => ⟨Nat.succ_pos _, .inl ?_⟩
    show (Function.update s.writers s.spawned .toSpawn (s.spawned + 1 - 1)).onDuty = true
    rw [Nat.add_sub_cancel, Function.update_self]
    rfl
  | closeWins c cur k q hpc hstate =>
    intro hflag
    exact ⟨(h hflag).1, .inr (.inr (Nat.succ_pos _))⟩
  | writerAdvance w pc k q hadvance =>
    exact h.update rfl rfl rfl rfl rfl fun _ => .inl hadvance.onDuty.2
  | writerFails w ex pc k q hfail => exact h.update rfl rfl rfl rfl rfl fun _ => hfail.goes_on
  | spawnThrows | writeDone | writerIssues =>
    exact h.update rfl rfl rfl rfl rfl fun _ => .inl rfl
  | writerStops | writerCloses => exact h.update rfl rfl rfl rfl rfl fun _ => .inr rfl
  | writerLeaves w k q hpc =>
    refine h.update rfl rfl rfl rfl hpc fun hold => ?_
    rcases hold with hold | hold <;> cases hold
  | _ => exact h

end Step

/-! ## Who answers the stop -/

/-- The `co_spawn` of a `writer()` throws. -/
def Session.spawnThrows (s : Session τ) : Action τ → Bool
  | .step a .fail => match s.stack a with
    | .writeSpawn _ :: _ => true
    | _ => false
  | _ => false

/-- `co_spawn` does not throw in `write()`. -/
def spawnsSucceed (s : Session τ) (a : Action τ) : Prop := s.spawnThrows a = false

instance (s : Session τ) (a : Action τ) : Decidable (spawnsSucceed s a) :=
  inferInstanceAs (Decidable (_ = _))

/-- The writer has gone off duty and is about to see that the state has changed, or to close. -/
def WriterPc.departing : WriterPc → Bool
  | .leaving | .callClose | .closing _ => true
  | _ => false

theorem WriterPc.departing_of_closesNext {pc : WriterPc} (h : pc.closesNext = true) :
    pc.departing = true := by
  cases pc with
  | callClose => rfl
  | closing c => rfl
  | _ => cases h

theorem WriterPc.not_departing_of_onDuty {pc : WriterPc} (h : pc.onDuty = true) :
    pc.departing = false := by
  cases pc <;> first | rfl | cases h

/-- Call number `c` is one made by `stop_async()` that is still on its way. -/
def Session.stopPending (s : Session τ) (c : ℕ) : Prop :=
  (s.closes c).caller = .stopAsync ∧ (s.closes c).pc.pending = true

/-- Writer `w` has `m_write_scheduled` set for it, or is past the section in which it cleared it
(or failed) and has not left `close()`. -/
def Session.answers (s : Session τ) (w : ℕ) : Prop :=
  (s.writeScheduled = true ∧ (s.writers w).onDuty = true) ∨ (s.writers w).departing = true

/-- In `stop_requested` somebody answers the stop. -/
def StopInv (s : Session τ) : Prop :=
  s.state = .stopRequested → (∃ c, s.stopPending c) ∨ ∃ w, s.answers w

section Step

variable {m : List StateT} {called : List Closer} {s s' : Session τ} {a : Action τ}
  {es : List Event}

/-- Until the state moves on, the call of `close()` stays pending. -/
theorem stopPending_step (hc : CallInv called s) (hm : Move s a es s') {c : ℕ}
    (h : s.stopPending c) (hs : s'.state = .stopRequested) : s'.stopPending c := by
  have hadd {caller : Closer} :
      (Function.update s.closes s.closeCalls ⟨caller, .load⟩ c).caller = .stopAsync ∧
        (Function.update s.closes s.closeCalls ⟨caller, .load⟩ c).pc.pending = true := by
    have hne : c ≠ s.closeCalls := by
      rintro rfl
      have hpending := h.2
      rw [hc.unborn _ (Nat.le_refl _)] at hpending
      cases hpending
    rw [Function.update_of_ne hne]
    exact h
  have hset {d : ℕ} {pc : ClosePc} (hpc : (s.closes d).pc.pending = true → pc.pending = true) :
      (Function.update s.closes d ⟨(s.closes d).caller, pc⟩ c).caller = .stopAsync ∧
        (Function.update s.closes d ⟨(s.closes d).caller, pc⟩ c).pc.pending = true := by
    by_cases hcd : c = d
    · subst hcd
      rw [Function.update_self]
      exact ⟨h.1, hpc h.2⟩
    · rw [Function.update_of_ne hcd]
      exact h
  have hload {pc : ClosePc} (hs : s.state = .stopRequested)
      (hnew : pc = if s.state.closable then .compareExchange s.state else .returned) :
      pc.pending = true := by
    rw [hnew, hs]
    rfl
  cases hm with
  | stopCloses | force | readerCloses | writerCloses => exact hadd
  | closeLoad d pc k q hpc hnew => exact hset fun _ => hload hs hnew
  | closeRetry d cur pc k q hpc hnew => exact hset fun _ => hload hs hnew
  | closeWins d cur k q hpc hstate => cases hs
  | dispatch d i pc k q hpc himpl =>
    refine hset fun hpending => ?_
    rw [hpc] at hpending
    cases hpending
  | _ => exact h

/-- A writer goes on, and goes on answering. -/
theorem Session.answers.update {v w : ℕ} {old pc : WriterPc} (h : s.answers w)
    (hwriters : s'.writers = Function.update s.writers v pc)
    (hflag : s'.writeScheduled = s.writeScheduled) (hold : s.writers v = old)
    (hpc : old.onDuty = true ∧ pc.onDuty = true ∨ pc.departing = true) : s'.answers w := by
  unfold Session.answers at *
  rw [hwriters, hflag]
  by_cases hwv : w = v
  · rw [hwv, hold] at h
    rw [hwv, Function.update_self]
    rcases hpc with ⟨hduty, hduty'⟩ | hdeparting
    · refine .inl ⟨?_, hduty'⟩
      rcases h with ⟨hset, -⟩ | hdeparting
      · exact hset
      · rw [WriterPc.not_departing_of_onDuty hduty] at hdeparting
        cases hdeparting
    · exact .inr hdeparting
  · rw [Function.update_of_ne hwv]
    exact h

theorem WriterPc.Fail.answers {pc pc' : WriterPc} (h : WriterPc.Fail pc pc') :
    pc.onDuty = true ∧ pc'.onDuty = true ∨ pc'.departing = true := by
  cases h <;> first | exact .inl ⟨rfl, rfl⟩ | exact .inr rfl

/-- Until the state moves on, the writer goes on answering: it can only leave through `close()`,
whose return means that the state has moved on. -/
theorem answers_step (hl : LifeInv m s) (hw : WriterInv s) (hr : ReturnInv s) (hm : Move s a es s')
    {w : ℕ} (h : s.answers w) (hs : s.state = .stopRequested) : s'.answers w := by
  cases hm with
  | accept msg k q hrun | acceptSpawn msg k q hrun => cases hs.symm.trans hrun
  | writerLeaves v k q hpc hrun => cases hs.symm.trans hrun
  | writerTakes v k q hpc =>
    have hduty : (s.writers v).onDuty = true := by
      rw [hpc]
      rfl
    unfold Session.answers
    simp only [Session.sched, writerSection, Session.setWriter]
    by_cases hwv : w = v
    · rw [hwv, Function.update_self]
      split
      · exact .inr rfl
      · exact .inl ⟨(hw.duty v hduty).1, rfl⟩
    · -- only one writer is on duty, so `w` is on its way out
      rw [Function.update_of_ne hwv]
      rcases h with ⟨-, hw'⟩ | hdeparting
      · exact absurd (hw.unique hw' hduty) hwv
      · exact .inr hdeparting
  | writerEnds v c k q hpc hret =>
    have hclosed := hl.state_of_wins (hr.returned v c hpc hret)
    rw [hs] at hclosed
    cases hclosed
  | spawnThrows ag v k q hpc => exact h.update rfl rfl hpc (.inl ⟨rfl, rfl⟩)
  | writerAdvance v pc k q hadvance => exact h.update rfl rfl rfl (.inl hadvance.onDuty)
  | writerFails v ex pc k q hfail => exact h.update rfl rfl rfl hfail.answers
  | writeDone v b ec k q hpc => exact h.update rfl rfl hpc (.inl ⟨rfl, rfl⟩)
  | writerIssues v b k q hpc => exact h.update rfl rfl hpc (.inl ⟨rfl, rfl⟩)
  | writerStops v k q hpc | writerCloses v k q hpc => exact h.update rfl rfl hpc (.inr rfl)
  | _ => exact h

theorem StopInv.step (h : StopInv s) (hl : LifeInv m s) (hw : WriterInv s) (hr : ReturnInv s)
    (hc : CallInv called s) (hd : DutyInv s) (hm : Move s a es s') : StopInv s' := by
  intro hs
  by_cases hbefore : s.state = .stopRequested
  · rcases h hbefore with ⟨c, hpending⟩ | ⟨w, hanswers⟩
    · exact .inl ⟨c, stopPending_step hc hm hpending hs⟩
    · exact .inr ⟨w, answers_step hl hw hr hm hanswers hbefore⟩
  · cases hm with
    | stopCloses pc k q hpc hact hrun hflag =>
      refine .inl ⟨s.closeCalls, ?_⟩
      simp [Session.stopPending, Session.sched, Session.addClose, ClosePc.pending]
    | stopDelegates pc k q hpc hact hrun hflag =>
      -- the flag stands for the last writer, since nobody has closed a running session
      refine .inr ⟨s.spawned - 1, ?_⟩
      obtain ⟨-, hduty | hcloses | hwon⟩ := hd hflag
      · exact .inl ⟨hflag, hduty⟩
      · exact .inr (WriterPc.departing_of_closesNext hcloses)
      · have hclosed := hl.state_of_wins hwon
        rw [hrun] at hclosed
        cases hclosed
    | closeWins | implStops | startRuns =>
      simp only [Session.sched, Session.setImpl, Session.setClose] at hs
      cases hs
    | _ => exact absurd hs hbefore

/-- A writer that has ended after the state had left `running` has called `close()`. -/
def EndsClosed (w : ℕ) (called : List Closer) (s : Session τ) : Prop :=
  s.startPc.started = true ∧ s.state ≠ .running ∧
    (s.writers w = .finished → .writer w ∈ called)

/-- A session that has left `running` does not come back to it. -/
theorem Move.not_running (hm : Move s a es s') (hst : s.startPc.started = true)
    (hs : s.state ≠ .running) : s'.state ≠ .running := by
  cases hm with
  | startRuns todo k q hpc =>
    rw [hpc] at hst
    cases hst
  | stopDelegates | stopCloses | closeWins | implStops => exact nofun
  | _ => exact hs

theorem WriterPc.ne_finished_of_onDuty {pc : WriterPc} (h : pc.onDuty = true) :
    pc ≠ .finished := by
  rintro rfl
  cases h

theorem WriterPc.Fail.ne_finished {pc pc' : WriterPc} (h : WriterPc.Fail pc pc') :
    pc' ≠ .finished := by
  cases h <;> exact nofun

/-- A writer has ended before, or it ends while the session is running, or with the return of its
call of `close()`. -/
theorem Move.finished (hm : Move s a es s') {w : ℕ} (hw : s'.writers w = .finished) :
    s.writers w = .finished ∨ s.state = .running ∨
      ∃ c, s.writers w = .closing c ∧ (s.closes c).pc = .returned := by
  have hupdate {v : ℕ} {pc : WriterPc} (hw : Function.update s.writers v pc w = .finished)
      (hpc : pc ≠ .finished) : s.writers w = .finished := by
    by_cases hwv : w = v
    · rw [hwv, Function.update_self] at hw
      exact absurd hw hpc
    · rw [Function.update_of_ne hwv] at hw
      exact hw
  cases hm with
  | writerLeaves v k q hpc hrun => exact .inr (.inl hrun)
  | writerEnds v c k q hpc hret =>
    have hw : Function.update s.writers v .finished w = .finished := hw
    by_cases hwv : w = v
    · exact .inr (.inr ⟨c, hwv ▸ hpc, hret⟩)
    · rw [Function.update_of_ne hwv] at hw
      exact .inl hw
  | writerAdvance v pc k q hadvance =>
    exact .inl (hupdate hw (WriterPc.ne_finished_of_onDuty hadvance.onDuty.2))
  | writerFails v ex pc k q hfail => exact .inl (hupdate hw hfail.ne_finished)
  | writerTakes v k q hpc => exact .inl (hupdate hw (by split <;> exact nofun))
  | acceptSpawn | spawnThrows | writeDone | writerIssues | writerStops | writerCloses =>
    exact .inl (hupdate hw nofun)
  | _ => exact .inl hw

theorem EndsClosed.step {w : ℕ} (h : EndsClosed w called s) (hc : CallInv called s)
    (hl : s.startCalled = false → s.startPc = .idle) (hm : Move s a es s') :
    EndsClosed w (called ++ closers es) s' := by
  obtain ⟨hstarted, hstate, hend⟩ := h
  refine ⟨hm.started hl hstarted, hm.not_running hstarted hstate, fun hfin => ?_⟩
  apply List.mem_append_left
  rcases hm.finished hfin with hold | hrun | ⟨c, hclosing, hret⟩
  · exact hend hold
  · exact absurd hrun hstate
  · -- the call it ends with has left `load`
    refine (hc.shown w c hclosing).resolve_left fun hload => ?_
    cases hload.symm.trans hret

end Step

/-! ## Runs -/

section Runs

variable [DecidableEq τ] {C : Session τ → Action τ → Prop} {o : Options} {tr : List Event}
  {s : Session τ}

theorem writersStarted (h : (system τ o).Run C tr s) : WritersStarted s := by
  refine invariant_of_moves (I := fun _ s => WritersStarted s) ?_ ?_ h
  · intro w hw
    cases hw rfl
  · intro tr s a es s' hrun _ hm ih
    exact ih.step (lifeInv hrun) hm

theorem callInv (h : (system τ o).Run C tr s) : CallInv (closers tr) s := by
  refine invariant_of_moves (I := fun tr s => CallInv (closers tr) s) ?_ ?_ h
  · exact ⟨fun _ _ => rfl, fun _ _ hw => WriterPc.noConfusion hw,
      fun _ _ hw => WriterPc.noConfusion hw⟩
  · intro tr s a es s' _ _ hm ih
    rw [closers_append]
    exact ih.step hm

theorem returnInv (h : (system τ o).Run C tr s) : ReturnInv s := by
  refine invariant_of_moves (I := fun _ s => ReturnInv s) ?_ ?_ h
  · exact ⟨fun _ _ hc => ClosePc.noConfusion hc, fun _ _ hw => WriterPc.noConfusion hw⟩
  · intro tr s a es s' hrun _ hm ih
    exact ih.step (lifeInv hrun) (writersStarted hrun) hm

theorem dutyInv (h : (system τ o).Run C tr s) : DutyInv s := by
  refine invariant_of_moves (I := fun _ s => DutyInv s) ?_ ?_ h
  · intro hflag
    cases hflag
  · intro tr s a es s' hrun _ hm ih
    exact ih.step (writerInv hrun) (returnInv hrun) hm

theorem stopInv (h : (system τ o).Run C tr s) : StopInv s := by
  refine invariant_of_moves (I := fun _ s => StopInv s) ?_ ?_ h
  · intro hs
    cases hs
  · intro tr s a es s' hrun _ hm ih
    exact ih.step (lifeInv hrun) (writerInv hrun) (returnInv hrun) (callInv hrun) (dutyInv hrun) hm

theorem WriterPc.Advance.ne_lost {pc pc' : WriterPc} (h : WriterPc.Advance pc pc') :
    pc' ≠ .lost := by
  cases h <;> exact nofun

theorem WriterPc.Fail.ne_lost {pc pc' : WriterPc} (h : WriterPc.Fail pc pc') : pc' ≠ .lost := by
  cases h <;> exact nofun

/-- Without a throwing `co_spawn` no writer is lost. -/
theorem not_lost (h : (system τ o).Run spawnsSucceed tr s) (w : ℕ) : s.writers w ≠ .lost := by
  refine invariant_of_moves (I := fun _ s => ∀ w, s.writers w ≠ .lost) ?_ ?_ h w
  · intro w hw
    cases hw
  · intro tr s a es s' _ hC hm ih v
    have hupdate {w : ℕ} {pc : WriterPc} (hpc : pc ≠ .lost) :
        Function.update s.writers w pc v ≠ .lost := by
      by_cases hvw : v = w
      · rw [hvw, Function.update_self]
        exact hpc
      · rw [Function.update_of_ne hvw]
        exact ih v
    cases hm with
    | spawnThrows ag w k q hpc ha htop =>
      cases hk : s.stack ag with
      | nil => simp [hk] at htop
      | cons f k' => simp_all [spawnsSucceed, Session.spawnThrows]
    | writerAdvance w pc k q hadvance => exact hupdate hadvance.ne_lost
    | writerFails w ex pc k q hfail => exact hupdate hfail.ne_lost
    | writerTakes w k q hpc => exact hupdate (by split <;> exact nofun)
    | acceptSpawn | writeDone | writerIssues | writerLeaves | writerStops | writerCloses
    | writerEnds => exact hupdate nofun
    | _ => exact ih v

/-- From a state that has left `running`, a writer only ends after it has called `close()`. -/
theorem ends_closed {D : Session τ → Action τ → Prop} (h : (system τ o).Run D tr s)
    (hs : s.state = .stopRequested) {w : ℕ} (hw : s.writers w ≠ .finished) {tr' : List Event}
    {t : Session τ} (hrun : (system τ o).RunFrom D s tr' t) (hend : t.writers w = .finished) :
    .writer w ∈ closers (tr ++ tr') := by
  suffices hall : EndsClosed w (closers (tr ++ tr')) t from hall.2.2 hend
  refine RunFrom.invariant (I := fun tr' t => EndsClosed w (closers (tr ++ tr')) t) hrun ?_ ?_
  · have hlife := lifeInv h
    refine ⟨?_, by rw [hs]; exact StateT.noConfusion, fun hfin => absurd hfin hw⟩
    by_contra hnot
    have hfresh := (hlife.fresh (Bool.eq_false_iff.mpr hnot)).1
    rw [hs] at hfresh
    cases hfresh
  · intro tr' t a u es hpart _ hst ih
    have hwhole := h.append hpart
    rw [← List.append_assoc, closers_append]
    exact ih.step (callInv hwhole) (lifeInv hwhole).notCalled (step_move hst)

/-- **A requested stop is never stranded.**  While the state is `stop_requested` and no `co_spawn`
has thrown, a call of `close()` made by `stop_async()` is pending, or a writer exists that has
`m_write_scheduled` set, or has just cleared it and is about to close; and that writer cannot end
without having called `close()`. -/
theorem stop_not_stranded (h : (system τ o).Run spawnsSucceed tr s)
    (hs : s.state = .stopRequested) :
    (∃ c, s.stopPending c) ∨
      ∃ w, s.answers w ∧ s.writers w ≠ .lost ∧
        ∀ tr' t, (system τ o).RunFrom spawnsSucceed s tr' t → t.writers w = .finished →
          .writer w ∈ closers (tr ++ tr') := by
  rcases stopInv h hs with hpending | ⟨w, hanswers⟩
  · exact .inl hpending
  · refine .inr ⟨w, hanswers, not_lost h w, fun tr' t => ends_closed h hs ?_⟩
    intro hfin
    rcases hanswers with ⟨-, hduty⟩ | hdeparting
    · rw [hfin] at hduty
      cases hduty
    · rw [hfin] at hdeparting
      cases hdeparting

end Runs

section Sample

/-- `stop_async()` on thread 2 finds `m_write_scheduled` set, because writer 0 is writing. -/
def delegateRun : List (Action ℕ) :=
  connectRun ++ ([
    .call (.thread 1) (.write [1]), .step (.thread 1) .ok, .step (.thread 1) .ok,
    .runHandler, .step .strand .ok, .step .strand .ok,
    .call (.thread 2) .stopAsync, .step (.thread 2) .ok] : List (Action ℕ))

/-- Then the write completes, and the writer finds the queue empty. -/
def clearedRun : List (Action ℕ) :=
  delegateRun ++ ([.writeDone 0 none, .runHandler, .step .strand .ok, .step .strand .ok] : List (Action ℕ))

/-- A stop that is delegated to writer 0 is answered. -/
theorem stop_not_stranded_delegateRun : ∃ tr s, (system ℕ {}).Run spawnsSucceed tr s ∧
    s.state = .stopRequested ∧ s.writeScheduled = true ∧
    ((∃ c, s.stopPending c) ∨
      ∃ w, s.answers w ∧ s.writers w ≠ .lost ∧
        ∀ tr' t, (system ℕ {}).RunFrom spawnsSucceed s tr' t → t.writers w = .finished →
          .writer w ∈ closers (tr ++ tr')) := by
  have hrun := run_exec
    (by decide : (system ℕ {}).execMeets spawnsSucceed _ delegateRun = true) (by decide)
  exact ⟨_, _, hrun, by decide, by decide, stop_not_stranded hrun (by decide)⟩

/-- Between the section in which the writer clears `m_write_scheduled` and its call of `close()`,
the flag is clear and no other call of `close()` is pending. -/
theorem flag_clear_clearedRun : ∃ tr s, (system ℕ {}).Run spawnsSucceed tr s ∧
    s.state = .stopRequested ∧ (∀ c, ¬ s.stopPending c) ∧ s.writeScheduled = false := by
  have hrun := run_exec
    (by decide : (system ℕ {}).execMeets spawnsSucceed _ clearedRun = true) (by decide)
  refine ⟨_, _, hrun, by decide, ?_, by decide⟩
  rintro c ⟨-, hpending⟩
  rw [(callInv hrun).unborn c (by rw [show Session.closeCalls _ = 0 by decide]; omega)] at hpending
  cases hpending

end Sample

end TcpSession
