/-
# The end of a `tcp_session`

When nothing of a session is queued or executing on its strand, and no read or write is
pending, its `close_impl()` has ended, unless the teardown waits for a thread outside the
strand (`finished_of_idle`).

And the reader shows no data once `close_impl()` has closed the socket, unless the bytes
of a completed read were queued behind that (`SilentInv`).
-/
import Libsg.TcpSessionStop
import Libsg.TcpSessionControl

open TransitionSystem

namespace TcpSession

variable {τ : Type}

/-! ## The reader -/

/-- The reader is spawned when `start()` returns, and only ends when the session has been
closed. -/
structure ReaderInv (s : Session τ) : Prop where
  spawned : s.readerPc ≠ .unborn ↔ s.startPc = .returned
  own : ∀ c, s.readerPc = .closing c → c < s.closeCalls
  returned : ∀ c, s.readerPc = .closing c → (s.closes c).pc = .returned → 0 < s.closeWins
  finished : s.readerPc = .finished → 0 < s.closeWins

/-- The catch block of `start()` has stopped the session before it ends. -/
def CatchInv (s : Session τ) : Prop :=
  s.startPc = .catchWait ∨ s.startPc = .threw → s.state ≠ .running

/-- Every call of `close()` that has won has its `close_impl()`. -/
def WonInv (s : Session τ) : Prop := ∀ i, i < s.closeWins → s.impls i ≠ .unborn

/-- `close_impl()` closes the socket while the bytes of a completed read are queued behind it. -/
def Session.closesBeforeRead (s : Session τ) : Action τ → Bool
  | .step a _ => match s.stack a with
    | .closeImpl i :: _ => decide (s.impls i = .closeSocket) && match s.readerPc with
      | .resumed (.ok _) => true
      | _ => false
    | _ => false
  | _ => false

/-- What has been read is passed on before `close_impl()` closes the socket. -/
def readsBeforeClose (s : Session τ) (a : Action τ) : Prop := s.closesBeforeRead a = false

instance (s : Session τ) (a : Action τ) : Decidable (readsBeforeClose s a) :=
  inferInstanceAs (Decidable (_ = _))

/-- With the socket closed the reader has nothing to pass on. -/
def SilentInv (s : Session τ) : Prop :=
  s.socketOpen = false → ∀ b, s.readerPc ≠ .resumed (.ok b) ∧ s.readerPc ≠ .completed (.ok b)

section Step

variable {m : List StateT} {s s' : Session τ} {a : Action τ} {es : List Event}

theorem ReaderInv.initial : ReaderInv ({} : Session τ) where
  spawned := by simp
  own _ h := by cases h
  returned _ h := by cases h
  finished h := by cases h

theorem ReaderInv.quiet (h : ReaderInv s) (hreader : s'.readerPc = s.readerPc)
    (hstart : s'.startPc = s.startPc) (hcloses : s'.closes = s.closes)
    (hcalls : s'.closeCalls = s.closeCalls) (hwins : s'.closeWins = s.closeWins) :
    ReaderInv s' := by
  obtain ⟨h₁, h₂, h₃, h₄⟩ := h
  constructor
  · rwa [hreader, hstart]
  · rwa [hreader, hcalls]
  · rwa [hreader, hcloses, hwins]
  · rwa [hreader, hwins]

/-- `start()` goes on, and does not return. -/
theorem ReaderInv.starts (h : ReaderInv s) (hpc : s.startPc ≠ .returned)
    (hpc' : s'.startPc ≠ .returned) (hreader : s'.readerPc = s.readerPc) : ReaderInv s' := by
  have hunborn : s'.readerPc = .unborn := by
    rw [hreader]
    by_contra hborn
    exact hpc (h.spawned.mp hborn)
  refine ⟨?_, fun c hc => ?_, fun c hc => ?_, fun hfin => ?_⟩
  · rw [hunborn]
    exact ⟨fun hne => absurd rfl hne, fun hret => absurd hret hpc'⟩
  · cases hunborn.symm.trans hc
  · cases hunborn.symm.trans hc
  · cases hunborn.symm.trans hfin

/-- A call of `close()` begins; if the reader now waits for a call, it is this one. -/
theorem ReaderInv.begins {caller : Closer} (h : ReaderInv s)
    (hspawned : s'.readerPc ≠ .unborn ↔ s'.startPc = .returned)
    (hcloses : s'.closes = Function.update s.closes s.closeCalls ⟨caller, .load⟩)
    (hcalls : s'.closeCalls = s.closeCalls + 1) (hwins : s'.closeWins = s.closeWins)
    (hclosing : ∀ c, s'.readerPc = .closing c → s.readerPc = .closing c ∨ c = s.closeCalls)
    (hfin : s'.readerPc = .finished → s.readerPc = .finished) : ReaderInv s' := by
  refine ⟨hspawned, fun c hc => ?_, fun c hc hret => ?_, fun hf => ?_⟩
  · rw [hcalls]
    rcases hclosing c hc with hold | rfl
    · exact Nat.lt_succ_of_lt (h.own c hold)
    · exact Nat.lt_succ_self _
  · rw [hcloses] at hret
    rw [hwins]
    rcases hclosing c hc with hold | rfl
    · rw [Function.update_of_ne (Nat.ne_of_lt (h.own c hold))] at hret
      exact h.returned c hold hret
    · rw [Function.update_self] at hret
      cases hret
  · rw [hwins]
    exact h.finished (hfin hf)

/-- A call of `close()` goes on; the reader's only returns when some call has won. -/
theorem ReaderInv.calls {c : ℕ} {pc : ClosePc} (h : ReaderInv s)
    (hcloses : s'.closes = Function.update s.closes c ⟨(s.closes c).caller, pc⟩)
    (hcalls : s'.closeCalls = s.closeCalls) (hreader : s'.readerPc = s.readerPc)
    (hstart : s'.startPc = s.startPc) (hwins : s'.closeWins = s.closeWins)
    (hpc : pc = .returned → s.readerPc ≠ .unborn → 0 < s.closeWins) : ReaderInv s' := by
  refine ⟨?_, ?_, fun d hd hret => ?_, ?_⟩
  · rw [hreader, hstart]
    exact h.spawned
  · rw [hreader, hcalls]
    exact h.own
  · rw [hreader] at hd
    rw [hwins]
    by_cases hdc : d = c
    · rw [hcloses, hdc, Function.update_self] at hret
      exact hpc hret (by rw [hd]; nofun)
    · rw [hcloses, Function.update_of_ne hdc] at hret
      exact h.returned d hd hret
  · rw [hreader, hwins]
    exact h.finished

/-- The reader goes on, and not into `close()`. -/
theorem ReaderInv.reads {old pc : ReaderPc} (h : ReaderInv s) (hold : s.readerPc = old)
    (hborn : old ≠ .unborn) (hreader : s'.readerPc = pc) (hborn' : pc ≠ .unborn)
    (hclosing : ∀ c, pc ≠ .closing c) (hfin : pc = .finished → 0 < s.closeWins)
    (hstart : s'.startPc = s.startPc) (hwins : s'.closeWins = s.closeWins) : ReaderInv s' := by
  refine ⟨?_, fun c hc => ?_, fun c hc => ?_, ?_⟩
  · rw [hreader, hstart]
    exact ⟨fun _ => h.spawned.mp (hold ▸ hborn), fun _ => hborn'⟩
  · exact absurd (hreader.symm.trans hc) (hclosing c)
  · exact absurd (hreader.symm.trans hc) (hclosing c)
  · rw [hreader, hwins]
    exact hfin

theorem ReaderPc.Advance.within {socketOpen : Bool} {pc pc' : ReaderPc}
    (h : ReaderPc.Advance socketOpen pc pc') :
    pc ≠ .unborn ∧ pc' ≠ .unborn ∧ (∀ c, pc' ≠ .closing c) ∧ pc' ≠ .finished := by
  cases h <;> exact ⟨nofun, nofun, nofun, nofun⟩

theorem StartPc.Catch.ne_returned {pc pc' : StartPc} (h : pc.Catch pc') :
    pc ≠ .returned ∧ pc' ≠ .returned := by
  cases h <;> exact ⟨nofun, nofun⟩

theorem ReaderInv.step (h : ReaderInv s) (hl : LifeInv m s) (hm : Move s a es s') :
    ReaderInv s' := by
  -- the reader's call returns at once only from a state that cannot be closed
  have hreturn {pc : ClosePc}
      (hnew : pc = if s.state.closable then .compareExchange s.state else .returned)
      (hret : pc = .returned) (hborn : s.readerPc ≠ .unborn) : 0 < s.closeWins := by
    rcases decides hnew with ⟨-, hpc⟩ | ⟨hcl, -⟩
    · cases hpc.symm.trans hret
    · exact hl.wins_of_state (by rw [h.spawned.mp hborn]; rfl) hcl
  cases hm with
  | closeLoad c pc k q hpc hnew => exact h.calls rfl rfl rfl rfl rfl (hreturn hnew)
  | closeRetry c cur pc k q hpc hnew => exact h.calls rfl rfl rfl rfl rfl (hreturn hnew)
  | closeWins c cur k q hpc hstate =>
    exact ⟨h.spawned, h.own, fun _ _ _ => Nat.succ_pos _, fun _ => Nat.succ_pos _⟩
  | dispatch c i pc k q hpc himpl hnew =>
    refine h.calls rfl rfl rfl rfl rfl fun _ _ => ?_
    by_contra hnone
    rw [hl.unborn i (by omega)] at himpl
    cases himpl
  | force | writerCloses =>
    exact h.begins h.spawned rfl rfl rfl (fun _ hc => .inl hc) id
  | stopLate pc k q hstop | stopDelegates pc k q hstop =>
    cases hstop with
    | user => exact h.quiet rfl rfl rfl rfl rfl
    | catchBlock hpc => exact h.starts (by rw [hpc]; nofun) nofun rfl
  | stopCloses pc k q hstop =>
    cases hstop with
    | user => exact h.begins h.spawned rfl rfl rfl (fun _ hc => .inl hc) id
    | catchBlock hpc => exact h.starts (by rw [hpc]; nofun) nofun rfl
  | readerAdvance ex pc k q hadvance =>
    obtain ⟨hborn, hborn', hclosing, hfin⟩ := hadvance.within
    exact h.reads rfl hborn rfl hborn' hclosing (fun hf => absurd hf hfin) rfl rfl
  | readerFails ag ex k q hpc =>
    have hborn : s.readerPc ≠ .unborn := by
      rintro hunborn
      rw [hunborn] at hpc
      rcases hpc with hpc | hpc <;> cases hpc
    exact h.reads rfl hborn rfl nofun nofun nofun rfl rfl
  | readerData b payload k q hpc => exact h.reads hpc nofun rfl nofun nofun nofun rfl rfl
  | readDone r k q hpc => exact h.reads hpc nofun rfl nofun nofun nofun rfl rfl
  | readerEnds c k q hpc hret =>
    exact h.reads hpc nofun rfl nofun nofun (fun _ => h.returned c hpc hret) rfl rfl
  | readerCloses k q hpc =>
    refine h.begins ⟨fun _ => h.spawned.mp (by rw [hpc]; nofun), fun _ => nofun⟩ rfl rfl rfl
      (fun c hc => .inr ?_) nofun
    exact (ReaderPc.closing.inj hc).symm
  | startReturns k q hpc => exact ⟨⟨fun _ => rfl, fun _ => nofun⟩, nofun, nofun, nofun⟩
  | startCalled io k q hnew => exact h.starts (by rw [hl.notCalled hnew]; nofun) nofun rfl
  | startSetup x todo k q hpc => exact h.starts (by rw [hpc]; nofun) nofun rfl
  | startOwes ag ch k q hpc => exact h.starts (by rw [hpc]; nofun) nofun rfl
  | startRuns todo k q hpc => exact h.starts (by rw [hpc]; nofun) nofun rfl
  | startBusy k q hpc | startConnects k q hpc | startConnected k q hpc | startThrows k q hpc =>
    exact h.starts (by rw [hpc]; nofun) nofun rfl
  | startFails ex k q hcan =>
    refine h.starts (fun hpc => ?_) nofun rfl
    rw [hpc] at hcan
    cases hcan
  | startCatch ex pc k q hcatch => exact h.starts hcatch.ne_returned.1 hcatch.ne_returned.2 rfl
  | _ => exact h.quiet rfl rfl rfl rfl rfl

theorem StartPc.Catch.not_ended {pc pc' : StartPc} (h : pc.Catch pc') :
    ¬ (pc' = .catchWait ∨ pc' = .threw) := by
  cases h <;> rintro (hpc | hpc) <;> cases hpc

theorem CatchInv.of_ne (hwait : s.startPc ≠ .catchWait) (hthrew : s.startPc ≠ .threw) :
    CatchInv s :=
  fun hpc => hpc.elim (fun heq => absurd heq hwait) fun heq => absurd heq hthrew

theorem CatchInv.step (h : CatchInv s) (hl : LifeInv m s) (hm : Move s a es s') : CatchInv s' := by
  cases hm with
  | stopLate pc k q hstop hrun => exact fun _ => hrun
  | stopDelegates | stopCloses | closeWins | implStops => exact fun _ => nofun
  | startBusy k q hpc hstate => exact absurd (hl.fresh (by rw [hpc]; rfl)).1 hstate
  | startThrows k q hpc => exact fun _ => h (.inl hpc)
  | startCatch ex pc k q hcatch => exact fun hpc => absurd hpc hcatch.not_ended
  | startCalled | startRuns | startSetup | startFails | startOwes | startConnects | startConnected
  | startReturns => exact .of_ne nofun nofun
  | _ => exact h

theorem WonInv.step (h : WonInv s) (hm : Move s a es s') : WonInv s' := by
  have hupdate {i j : ℕ} {pc : ImplPc} (hpc : pc ≠ .unborn) (hi : i ≠ j → i < s.closeWins) :
      Function.update s.impls j pc i ≠ .unborn := by
    by_cases hij : i = j
    · rw [hij, Function.update_self]
      exact hpc
    · rw [Function.update_of_ne hij]
      exact h i (hi hij)
  intro i hi
  cases hm with
  | closeWins =>
    have hi : i < s.closeWins + 1 := hi
    exact hupdate nofun fun hne => by omega
  | dispatch c j pc k q hpc himpl hnew =>
    refine hupdate ?_ fun _ => hi
    rcases hnew with rfl | rfl <;> exact nofun
  | implAdvance j pc k q hadvance =>
    refine hupdate (fun hpc => ?_) fun _ => hi
    generalize s.impls j = old at hadvance
    cases hadvance <;> cases hpc
  | implCloses | implOwed | implNotOwed | implStops => exact hupdate nofun fun _ => hi
  | _ => exact h i hi

/-- The reader passes on what it has read. -/
theorem ReaderPc.Advance.of_completed {socketOpen : Bool} {pc pc' : ReaderPc} {b : Buffer}
    (h : ReaderPc.Advance socketOpen pc pc') :
    pc' ≠ .resumed (.ok b) ∧ (pc' = .completed (.ok b) → pc = .resumed (.ok b)) := by
  cases h with
  | resume r =>
    refine ⟨nofun, fun hpc => ?_⟩
    rw [ReaderPc.completed.inj hpc]
  | _ => exact ⟨nofun, nofun⟩

theorem SilentInv.step (h : SilentInv s) (hc : ControlInv s) (hread : readsBeforeClose s a)
    (hm : Move s a es s') : SilentInv s' := by
  cases hm with
  | implCloses ag ch i k q hpc ha htop =>
    intro _ b
    obtain ⟨k', hk⟩ := List.head?_eq_some_iff.mp htop
    obtain rfl := hc.eq_strand (.closeImpl i) hk
    refine ⟨fun hr => ?_, fun hr => ?_⟩
    · -- the completed read would be queued behind
      have hr' : s.readerPc = .resumed (.ok b) := hr
      simp [readsBeforeClose, ha, Session.closesBeforeRead, hk, hpc, hr'] at hread
    · -- the reader would be on top of the strand's stack
      have hr' : s.readerPc = .completed (.ok b) := hr
      have hhead := hc.reader (by rw [hr']; rfl)
      rw [htop] at hhead
      cases hhead
  | readerAdvance ex pc k q hadvance =>
    intro hclosed b
    obtain ⟨hresumed, hcompleted⟩ := hadvance.of_completed (b := b)
    exact ⟨hresumed, fun hpc => (h hclosed b).1 (hcompleted hpc)⟩
  | readDone r k q hpc hok hact =>
    intro hclosed b
    refine ⟨fun hr => ?_, nofun⟩
    rw [ReaderPc.resumed.inj hr] at hok
    cases hclosed.symm.trans (hok rfl)
  | readerFails | readerData | readerCloses | readerEnds | startReturns =>
    exact fun _ _ => ⟨nofun, nofun⟩
  | _ => exact h

end Step

/-! ## Runs -/

section Runs

variable [DecidableEq τ] {C : Session τ → Action τ → Prop} {o : Options} {tr : List Event}
  {s : Session τ}

theorem readerInv (h : (system τ o).Run C tr s) : ReaderInv s := by
  refine invariant_of_moves (I := fun _ s => ReaderInv s) .initial ?_ h
  intro tr s a es s' hrun _ hm ih
  exact ih.step (lifeInv hrun) hm

theorem catchInv (h : (system τ o).Run C tr s) : CatchInv s := by
  refine invariant_of_moves (I := fun _ s => CatchInv s) ?_ ?_ h
  · rintro (hpc | hpc) <;> cases hpc
  · intro tr s a es s' hrun _ hm ih
    exact ih.step (lifeInv hrun) hm

theorem wonInv (h : (system τ o).Run C tr s) : WonInv s := by
  refine invariant_of_moves (I := fun _ s => WonInv s) ?_ ?_ h
  · intro i hi
    cases hi
  · intro tr s a es s' _ _ hm ih
    exact ih.step hm

theorem silentInv (h : (system τ o).Run readsBeforeClose tr s) : SilentInv s := by
  refine invariant_of_moves (I := fun _ s => SilentInv s) ?_ ?_ h
  · intro hs
    cases hs
  · intro tr s a es s' hrun hC hm ih
    exact ih.step (controlInv hrun) hC hm

/-! ## Nobody is stranded -/

/-- The session's teardown waits for a thread outside the strand: for a call of `close()`, or for
a `write()` that has not spawned its `writer()` (which it never does once that has thrown). -/
def Session.inHands (s : Session τ) : Bool :=
  decide (s.impls 0 = .dispatching) || (List.range s.closeCalls).any (fun c => (s.closes c).pc.pending)
    || (List.range s.spawned).any fun w => s.writers w = .toSpawn || s.writers w = .lost

/-- Nothing of the session is queued or executing on the strand, or pending in the socket. -/
structure Session.Idle (s : Session τ) : Prop where
  queue : s.queue = []
  stack : s.stack .strand = []
  reading : s.readerPc ≠ .reading
  writing : ∀ w b, s.writers w ≠ .writing b

omit [DecidableEq τ] in
theorem ControlInv.away (hc : ControlInv s) (hidle : s.Idle) (h : Handler) : s.place h = .away := by
  cases hplace : s.place h with
  | away => rfl
  | waiting =>
    have hmem := hc.waiting h hplace
    rw [hidle.queue] at hmem
    cases hmem
  | active =>
    have hmem := hc.active h hplace
    rw [hidle.stack] at hmem
    cases hmem

/-- The last `close_impl()` has ended, or was never begun. -/
theorem impl_of_idle (h : (system τ o).Run C tr s) (hidle : s.Idle) (hhands : s.inHands = false) :
    s.impls 0 = .unborn ∨ s.impls 0 = .finished := by
  have haway := (controlInv h).away hidle (.closeImpl 0)
  simp only [Session.place] at haway
  cases hpc : s.impls 0 with
  | unborn => exact .inl rfl
  | finished => exact .inr rfl
  | dispatching =>
    simp only [Session.inHands, hpc, decide_true, Bool.true_or] at hhands
    cases hhands
  | _ =>
    rw [hpc] at haway
    cases haway

/-- A writer on duty that the strand does not have waits to be spawned or for its socket, or was
lost. -/
theorem WriterPc.onDuty_away {pc : WriterPc} (hduty : pc.onDuty = true) (haway : pc.place = .away) :
    pc = .toSpawn ∨ pc = .lost ∨ ∃ b, pc = .writing b := by
  cases pc with
  | toSpawn => exact .inl rfl
  | lost => exact .inr (.inl rfl)
  | writing b => exact .inr (.inr ⟨b, rfl⟩)
  | unborn => cases hduty
  | finished => cases hduty
  | _ => cases haway

theorem WriterPc.active_of_departing {pc : WriterPc} (h : pc.departing = true) :
    pc.place = .active := by
  cases pc with
  | leaving => rfl
  | callClose => rfl
  | closing c => rfl
  | _ => cases h

/-- A requested stop is not left to a session that is idle. -/
theorem not_stopRequested_of_idle (h : (system τ o).Run C tr s) (hidle : s.Idle)
    (hhands : s.inHands = false) : s.state ≠ .stopRequested := by
  intro hs
  simp only [Session.inHands, Bool.or_eq_false_iff, List.any_eq_false, List.mem_range] at hhands
  obtain ⟨⟨-, hclose⟩, hwrite⟩ := hhands
  rcases stopInv h hs with ⟨c, -, hpending⟩ | ⟨w, hanswers⟩
  · refine hclose c ?_ hpending
    by_contra hge
    rw [(callInv h).unborn c (by omega)] at hpending
    cases hpending
  · have haway := (controlInv h).away hidle (.writer w)
    simp only [Session.place] at haway
    have hlost : s.writers w ≠ .toSpawn ∧ s.writers w ≠ .lost := by
      by_cases hw : w < s.spawned
      · simpa using hwrite w hw
      · rw [(writerInv h).unborn w (by omega)]
        exact ⟨WriterPc.noConfusion, WriterPc.noConfusion⟩
    rcases hanswers with ⟨-, hduty⟩ | hdeparting
    · rcases WriterPc.onDuty_away hduty haway with hpc | hpc | ⟨b, hpc⟩
      · exact hlost.1 hpc
      · exact hlost.2 hpc
      · exact hidle.writing w b hpc
    · rw [WriterPc.active_of_departing hdeparting] at haway
      cases haway

/-- **A session whose `start()` has ended is finished when its strand is idle**, unless its
teardown waits for another thread. -/
theorem finished_of_idle (h : (system τ o).Run C tr s)
    (hend : s.startPc = .returned ∨ s.startPc = .threw) (hidle : s.Idle)
    (hhands : s.inHands = false) : s.impls 0 = .finished := by
  have hst : s.startPc.started = true := by rcases hend with hpc | hpc <;> rw [hpc] <;> rfl
  refine (impl_of_idle h hidle hhands).resolve_left fun hunborn => ?_
  rcases (lifeInv h).started hst with ⟨hs, -⟩ | ⟨hs, -⟩ | ⟨-, hwins, -⟩ | ⟨-, -, hfin, -⟩
  · -- a running session has a reader, which has not ended
    rcases hend with hpc | hpc
    · have hborn := (readerInv h).spawned.mpr hpc
      have haway := (controlInv h).away hidle .reader
      simp only [Session.place] at haway
      cases hr : s.readerPc with
      | unborn => exact hborn hr
      | reading => exact hidle.reading hr
      | finished =>
        have hclosed := (lifeInv h).state_of_wins ((readerInv h).finished hr)
        rw [hs] at hclosed
        cases hclosed
      | _ =>
        rw [hr] at haway
        cases haway
    · exact catchInv h (.inr hpc) hs
  · exact not_stopRequested_of_idle h hidle hhands hs
  · exact wonInv h 0 (by omega) hunborn
  · rw [hunborn] at hfin
    cases hfin

end Runs

end TcpSession
