/-
# Who may change what in a `tcp_server`

`m_mutex_start_stop` is held from the lock in `start()` to its return or throw, and from
the lock in `stop_async()` until the earlier stop thread has been joined (`LockInv`).
Listeners and stop threads are numbered, and so not there before their number has been
given out (`NumberInv`).  A listener only calls `stop_async()` where it waits for it
(`WaitInv`), so that the holder of the lock is past it (`HolderInv`).

What a step means for the lock and for one listener is said once (`Locking`,
`ListenerChange`), and the invariants follow from that.
-/
import Libsg.TcpServerMove
import Mathlib.Tactic.Common

open TransitionSystem

namespace TcpServer

/-! ## The lock -/

/-- The places between the lock of `m_mutex_start_stop` and its release. -/
def CallPc.locked : CallPc → Bool
  | .idle | .startExchange _ | .startLock _ | .stopLock => false
  | _ => true

/-- Who is past the lock holds it. -/
def LockInv (s : Server) : Prop := ∀ t, (s.callers t).locked = true → s.mutex = some t

/-- Who holds the lock is past it. -/
def HolderInv (s : Server) : Prop := ∀ t, s.mutex = some t → (s.callers t).locked = true

theorem LockInv.unique {s : Server} (h : LockInv s) {t u : Tid} (ht : (s.callers t).locked = true)
    (hu : (s.callers u).locked = true) : t = u := by
  have ht' := h t ht
  rw [h u hu] at ht'
  exact (Option.some.inj ht').symm

/-- While nobody holds the lock, nobody is past it. -/
theorem LockInv.free {s : Server} (h : LockInv s) (hfree : s.mutex = none) (t : Tid) :
    (s.callers t).locked = false := by
  rw [Bool.eq_false_iff]
  intro ht
  rw [h t ht] at hfree
  cases hfree

theorem CallPc.locked_of_canFail {pc : CallPc} (h : pc.canFail = true) : pc.locked = true := by
  cases pc <;> first | rfl | cases h

theorem CallPc.ne_idle_of_locked {pc : CallPc} (h : pc.locked = true) : pc ≠ .idle := by
  rintro rfl
  cases h

/-- What a step means for the lock, and for the one call of `start()` or `stop_async()` that it
is part of. -/
inductive Locking (s s' : Server) : Prop
  | apart (hcallers : s'.callers = s.callers) (hmutex : s'.mutex = s.mutex)
  /-- on the same side of the lock; only user threads begin such a call -/
  | stays (t : Tid) (pc : CallPc) (hcallers : s'.callers = Function.update s.callers t pc)
      (hpc : pc.locked = (s.callers t).locked) (hmutex : s'.mutex = s.mutex)
      (hcalled : s.callers t = .idle → ∃ n, t = .user n)
  /-- a listener calls `stop_async()` -/
  | calls (l : ℕ) (hcallers : s'.callers = Function.update s.callers (.listener l) .stopLock)
      (hmutex : s'.mutex = s.mutex) (hold : (s.listeners l).pc = .callStop)
      (hnew : (s'.listeners l).pc = .stopping)
  | locks (t : Tid) (pc : CallPc) (hcallers : s'.callers = Function.update s.callers t pc)
      (hcalled : s.callers t ≠ .idle) (hfree : s.mutex = none) (hpc : pc.locked = true)
      (hmutex : s'.mutex = some t)
  | unlocks (t : Tid) (pc : CallPc) (hcallers : s'.callers = Function.update s.callers t pc)
      (hold : (s.callers t).locked = true) (hpc : pc.locked = false) (hmutex : s'.mutex = none)

section Step

variable {o : TcpSession.Options} {s s' : Server} {a : Action} {es : List Event}

theorem Move.locking (hm : Move o s a es s') : Locking s s' := by
  have hstays {t : Tid} {pc old : CallPc} (hcallers : s'.callers = Function.update s.callers t pc)
      (hold : s.callers t = old) (hne : old ≠ .idle) (hpc : pc.locked = old.locked)
      (hmutex : s'.mutex = s.mutex) : Locking s s' :=
    .stays t pc hcallers (by rw [hold, hpc]) hmutex fun hidle => absurd (hold.symm.trans hidle) hne
  cases hm with
  | callStart n eps hpc => exact .stays _ _ rfl (by rw [hpc]; rfl) rfl fun _ => ⟨n, rfl⟩
  | callStop n hpc => exact .stays _ _ rfl (by rw [hpc]; rfl) rfl fun _ => ⟨n, rfl⟩
  | startBusy t eps hpc | startTakes t eps hpc | startResets t eps hpc | startBinds t eps hpc =>
    exact hstays rfl hpc nofun rfl rfl
  | startClears t hpc | startCreates t hpc | startSpawns t hpc | startInvokes t hpc
  | startInvoked t hpc | startWorks t hpc | workersFail t hpc | monitorFails t hpc | runStops t hpc
  | runJoins t hpc | catchResets t hpc | stopIgnored t hpc => exact hstays rfl hpc nofun rfl rfl
  | startIds t ch eps hpc => exact hstays rfl hpc nofun rfl rfl
  | startFails t ch hpc =>
    have hlocked := CallPc.locked_of_canFail hpc
    exact hstays rfl rfl (CallPc.ne_idle_of_locked hlocked) hlocked.symm rfl
  | startLocks t eps hpc hfree => exact .locks t _ rfl (by rw [hpc]; nofun) hfree rfl rfl
  | stopBegins t hpc hfree => exact .locks t _ rfl (by rw [hpc]; nofun) hfree rfl rfl
  | startReturns t hpc | catchStores t hpc => exact .unlocks t _ rfl (by rw [hpc]; rfl) rfl rfl
  | stopEnds t k hpc => exact .unlocks t _ rfl (by rw [hpc]; rfl) rfl rfl
  | listenerStops l hlive hpc =>
    refine .calls l rfl rfl hpc ?_
    simp only [Server.setListenerPc, Server.setListener, Function.update_self]
  | _ => exact .apart rfl rfl

theorem LockInv.step (h : LockInv s) (hm : Move o s a es s') : LockInv s' := by
  intro u hu
  cases hm.locking with
  | apart hcallers hmutex =>
    rw [hcallers] at hu
    rw [hmutex]
    exact h u hu
  | stays t pc hcallers hpc hmutex =>
    rw [hmutex]
    apply h
    by_cases htu : u = t
    · rw [hcallers, htu, Function.update_self, hpc] at hu
      rw [htu]
      exact hu
    · rw [hcallers, Function.update_of_ne htu] at hu
      exact hu
  | calls l hcallers hmutex =>
    by_cases htu : u = .listener l
    · rw [hcallers, htu, Function.update_self] at hu
      cases hu
    · rw [hcallers, Function.update_of_ne htu] at hu
      rw [hmutex]
      exact h u hu
  | locks t pc hcallers hcalled hfree hpc hmutex =>
    by_cases htu : u = t
    · rw [hmutex, htu]
    · rw [hcallers, Function.update_of_ne htu, h.free hfree] at hu
      cases hu
  | unlocks t pc hcallers hold hpc hmutex =>
    by_cases htu : u = t
    · rw [hcallers, htu, Function.update_self, hpc] at hu
      cases hu
    · rw [hcallers, Function.update_of_ne htu] at hu
      exact absurd (h.unique hu hold) htu

end Step

/-! ## Listeners -/

/-- The places of `listener()` that it does not leave by itself. -/
def ListenerPc.waits : ListenerPc → Bool
  | .unborn | .starting _ | .stopping => true
  | _ => false

/-- What a step means for listener `l`. -/
inductive ListenerChange (s s' : Server) (l : ℕ) : Prop
  | stays (hpc : (s'.listeners l).pc = (s.listeners l).pc)
      (hpool : (s'.listeners l).pool = (s.listeners l).pool)
  | spawned (t : Tid) (ht : s.callers t = .startSpawn)
      (ht' : s'.callers t = .invokeStartedListening) (hl : l ∈ s.acceptors)
      (hpool : (s'.listeners l).pool = s.pool)
  | goes (hold : (s.listeners l).pc.waits = false)
      (hpool : (s'.listeners l).pool = (s.listeners l).pool)
  /-- `start()` of the session has ended -/
  | started (i : ℕ) (hold : (s.listeners l).pc = .starting i)
      (hret : (s.conns i).session.stack (.thread (.listener l)) = [])
      (hpool : (s'.listeners l).pool = (s.listeners l).pool)
  /-- its call of `stop_async()` has returned -/
  | stopped (hold : (s.listeners l).pc = .stopping) (hret : s.callers (.listener l) = .idle)
      (hpool : (s'.listeners l).pool = (s.listeners l).pool)

theorem ListenerPc.Advance.not_waits {stop : Bool} {pc pc' : ListenerPc}
    (h : ListenerPc.Advance stop pc pc') : pc.waits = false := by
  cases h <;> rfl

theorem Listener.Resume.not_waits {L L' : Listener} (h : L.Resume L') : L.pc.waits = false := by
  cases h with
  | start h | accepted r h | timer h =>
    rw [h]
    rfl

theorem Listener.Resume.pool_eq {L L' : Listener} (h : L.Resume L') : L'.pool = L.pool := by
  cases h <;> rfl

theorem closeAcceptor_pc {L : Listener} (hwaits : L.pc.waits = true) :
    (closeAcceptor L).pc = L.pc := by
  cases hpc : L.pc <;> rw [hpc] at hwaits <;> simp [closeAcceptor, hpc] <;> cases hwaits

theorem pc_ite {p : Prop} [Decidable p] {L L' : Listener} (h : L.pc = L'.pc) :
    (if p then L else L').pc = L'.pc := by
  split
  · exact h
  · rfl

theorem pool_ite {p : Prop} [Decidable p] {L L' : Listener} (h : L.pool = L'.pool) :
    (if p then L else L').pool = L'.pool := by
  split
  · exact h
  · rfl

section Step

variable {o : TcpSession.Options} {s s' : Server} {a : Action} {es : List Event}

/-- One listener has changed. -/
theorem ListenerChange.update {l l' : ℕ} {L : Listener}
    (hlisteners : s'.listeners = Function.update s.listeners l' L)
    (hchange : s'.listeners l' = L → ListenerChange s s' l') : ListenerChange s s' l := by
  by_cases hl : l = l'
  · subst hl
    apply hchange
    rw [hlisteners, Function.update_self]
  · have hsame : s'.listeners l = s.listeners l := by rw [hlisteners, Function.update_of_ne hl]
    exact .stays (by rw [hsame]) (by rw [hsame])

theorem Move.listener (hm : Move o s a es s') (l : ℕ) : ListenerChange s s' l := by
  have hgoes {l' : ℕ} {L : Listener} (hlisteners : s'.listeners = Function.update s.listeners l' L)
      (hold : (s.listeners l').pc.waits = false) (hpool : L.pool = (s.listeners l').pool) :
      ListenerChange s s' l :=
    .update hlisteners fun hnew => .goes hold (by rw [hnew, hpool])
  cases hm with
  | startSpawns t hpc =>
    by_cases hl : l ∈ s.acceptors
    · refine .spawned t hpc ?_ hl ?_
      · simp only [Server.setCaller, Function.update_self]
      · simp only [Server.setCaller, if_pos hl]
    · refine .stays ?_ ?_ <;> simp only [Server.setCaller, if_neg hl]
  | startBinds | stopperPosts | stopperCloses => exact .stays (pc_ite rfl) (pool_ite rfl)
  | listenerAdvance l' pc hlive hpc => exact hgoes rfl hpc.not_waits rfl
  | listenerReports l' ec hlive hpc | listenerRecords l' ec hlive hpc | acceptDone l' ec hlive hpc =>
    exact hgoes rfl (by rw [hpc]; rfl) rfl
  | listenerAccepts l' hlive hpc | listenerDrops l' hlive hpc | listenerCreates l' hlive hpc
  | listenerStops l' hlive hpc | listenerEnds l' hlive hpc | timerDone l' hlive hpc =>
    exact hgoes rfl (by rw [hpc]; rfl) rfl
  | listenerStarted l' i hlive hpc hret =>
    exact .update rfl fun hnew => .started i hpc hret (by rw [hnew])
  | listenerStopped l' hlive hpc hret =>
    exact .update rfl fun hnew => .stopped hpc hret (by rw [hnew])
  | listenerResumes l' L hlive hres => exact hgoes rfl hres.not_waits hres.pool_eq
  | runClose l' hlive hposted hpc =>
    cases hwaits : (s.listeners l').pc.waits with
    | false => exact hgoes rfl hwaits rfl
    | true =>
      refine .update rfl fun hnew => .stays ?_ ?_
      · rw [hnew, closeAcceptor_pc hwaits]
      · rw [hnew]
        rfl
  | _ => exact .stays rfl rfl

end Step

/-! ## Numbers -/

/-- What has not been numbered is not there, and the acceptors that `start()` is about to give to
listeners have none yet. -/
structure NumberInv (s : Server) : Prop where
  stoppers : ∀ k, s.stopperCount ≤ k → s.stoppers k = .unborn
  listeners : ∀ l, s.listenerCount ≤ l → (s.listeners l).pc = .unborn
  acceptors : ∀ l ∈ s.acceptors, l < s.listenerCount
  spawning : ∀ t, s.callers t = .startSpawn → ∀ l ∈ s.acceptors, (s.listeners l).pc = .unborn

theorem NumberInv.start : NumberInv {} where
  stoppers _ _ := rfl
  listeners _ _ := rfl
  acceptors _ h := by cases h
  spawning _ h := by cases h

section Step

variable {o : TcpSession.Options} {s s' : Server} {a : Action} {es : List Event}

theorem Move.listenerCount_le (hm : Move o s a es s') : s.listenerCount ≤ s'.listenerCount := by
  cases hm with
  | startBinds t eps hpc hlen => exact Nat.le_add_right _ _
  | _ => exact Nat.le_refl _

theorem NumberInv.step_stoppers (h : NumberInv s) (hm : Move o s a es s') (k : ℕ)
    (hk : s'.stopperCount ≤ k) : s'.stoppers k = .unborn := by
  have hborn {j : ℕ} {pc : StopperPc} (hk : s.stopperCount ≤ k) (hj : s.stoppers j ≠ .unborn) :
      Function.update s.stoppers j pc k = .unborn := by
    rw [Function.update_of_ne]
    · exact h.stoppers k hk
    · rintro rfl
      exact hj (h.stoppers k hk)
  cases hm with
  | stopBegins t hpc =>
    have hk : s.stopperCount + 1 ≤ k := hk
    show Function.update s.stoppers s.stopperCount _ k = _
    rw [Function.update_of_ne (by omega)]
    exact h.stoppers k (by omega)
  | stopperStops j i todo hpc | stopperStopped j i todo hpc => exact hborn hk (by rw [hpc]; nofun)
  | stopperPosts j hpc | stopperCloses j hpc | stopperAwaits j hpc | stopperSkips j hpc
  | listenersGone j hpc | stopperCopies j hpc | stopperWaits j hpc | sessionsGone j hpc
  | stopperStopsContext j hpc | stopperNoContext j hpc | contextGone j hpc | stopperEnds j hpc =>
    exact hborn hk (by rw [hpc]; nofun)
  | _ => exact h.stoppers k hk

theorem NumberInv.step_listeners (h : NumberInv s) (hm : Move o s a es s') (l : ℕ)
    (hl : s'.listenerCount ≤ l) : (s'.listeners l).pc = .unborn := by
  have hcount := hm.listenerCount_le
  have hunborn := h.listeners l (by omega)
  cases hm.listener l with
  | stays hpc hpool => rw [hpc, hunborn]
  | spawned t ht ht' hmem =>
    have hlt := h.acceptors l hmem
    omega
  | goes hold | started i hold | stopped hold =>
    rw [hunborn] at hold
    cases hold

theorem NumberInv.step_acceptors (h : NumberInv s) (hm : Move o s a es s') :
    ∀ l ∈ s'.acceptors, l < s'.listenerCount := by
  intro l hl
  cases hm with
  | startBinds t eps hpc hlen => exact (List.mem_range'_1.mp hl).2
  | startClears | catchResets => cases hl
  | _ => exact h.acceptors l hl

/-- Who is about to spawn the listeners was so before, or has just bound the acceptors. -/
theorem Move.spawning (hm : Move o s a es s') {t : Tid} (ht : s'.callers t = .startSpawn) :
    s.callers t = .startSpawn ∧ s'.acceptors ⊆ s.acceptors ∨
      ∀ l ∈ s'.acceptors, s.listenerCount ≤ l := by
  have hkeep {u : Tid} {pc : CallPc} (hu : Function.update s.callers u pc t = .startSpawn)
      (hpc : pc ≠ .startSpawn) : s.callers t = .startSpawn := by
    by_cases htu : t = u
    · rw [htu, Function.update_self] at hu
      exact absurd hu hpc
    · rw [Function.update_of_ne htu] at hu
      exact hu
  cases hm with
  | startBinds u eps hpc hlen => exact .inr fun l hl => (List.mem_range'_1.mp hl).1
  | startClears | catchResets => exact .inr fun l hl => by cases hl
  | callStart | callStop | startBusy | startTakes | startLocks | startResets | startIds | startFails
  | startCreates | startSpawns | startInvokes | startInvoked | startWorks | startReturns
  | workersFail | monitorFails | runStops | runJoins | catchStores | stopIgnored | stopBegins
  | stopEnds | listenerStops => exact .inl ⟨hkeep ht nofun, List.Subset.refl _⟩
  | _ => exact .inl ⟨ht, List.Subset.refl _⟩

theorem NumberInv.step_spawning (h : NumberInv s) (hl : LockInv s) (hm : Move o s a es s') {t : Tid}
    (ht : s'.callers t = .startSpawn) : ∀ l ∈ s'.acceptors, (s'.listeners l).pc = .unborn := by
  intro l hmem
  have hunborn : (s.listeners l).pc = .unborn := by
    rcases hm.spawning ht with ⟨hold, hsub⟩ | hnew
    · exact h.spawning t hold l (hsub hmem)
    · exact h.listeners l (hnew l hmem)
  cases hm.listener l with
  | stays hpc hpool => rw [hpc, hunborn]
  | spawned u hu hu' hold =>
    -- nobody else could have been about to spawn them
    rcases hm.spawning ht with ⟨hpc, -⟩ | hnew
    · have htu : t = u := hl.unique (by rw [hpc]; rfl) (by rw [hu]; rfl)
      rw [htu, hu'] at ht
      cases ht
    · have hlt := h.acceptors l hold
      have hle := hnew l hmem
      omega
  | goes hold | started i hold | stopped hold =>
    rw [hunborn] at hold
    cases hold

theorem NumberInv.step (h : NumberInv s) (hl : LockInv s) (hm : Move o s a es s') :
    NumberInv s' where
  stoppers := h.step_stoppers hm
  listeners := h.step_listeners hm
  acceptors := h.step_acceptors hm
  spawning _ ht := h.step_spawning hl hm ht

end Step

/-! ## Calls by listeners -/

/-- A listener is inside `stop_async()` only where it waits for it. -/
def WaitInv (s : Server) : Prop :=
  ∀ l, s.callers (.listener l) ≠ .idle → (s.listeners l).pc = .stopping

section Step

variable {o : TcpSession.Options} {s s' : Server} {a : Action} {es : List Event}

/-- A listener that is in a call was in it before, or has just called `stop_async()`. -/
theorem Locking.listener {l : ℕ} (h : Locking s s') (hl : s'.callers (.listener l) ≠ .idle) :
    s.callers (.listener l) ≠ .idle ∨ (s'.listeners l).pc = .stopping := by
  cases h with
  | apart hcallers hmutex =>
    rw [hcallers] at hl
    exact .inl hl
  | stays t pc hcallers hpc hmutex hcalled =>
    refine .inl fun hidle => ?_
    by_cases htl : Tid.listener l = t
    · obtain ⟨n, hn⟩ := hcalled (htl ▸ hidle)
      rw [hn] at htl
      cases htl
    · rw [hcallers, Function.update_of_ne htl] at hl
      exact hl hidle
  | calls l' hcallers hmutex hold hnew =>
    by_cases hll : l = l'
    · exact .inr (hll ▸ hnew)
    · rw [hcallers, Function.update_of_ne (fun heq => hll (Tid.listener.inj heq))] at hl
      exact .inl hl
  | locks t pc hcallers hcalled =>
    refine .inl fun hidle => ?_
    by_cases htl : Tid.listener l = t
    · exact hcalled (htl ▸ hidle)
    · rw [hcallers, Function.update_of_ne htl] at hl
      exact hl hidle
  | unlocks t pc hcallers hold =>
    refine .inl fun hidle => ?_
    by_cases htl : Tid.listener l = t
    · exact CallPc.ne_idle_of_locked hold (htl ▸ hidle)
    · rw [hcallers, Function.update_of_ne htl] at hl
      exact hl hidle

theorem WaitInv.step (h : WaitInv s) (hn : NumberInv s) (hm : Move o s a es s') : WaitInv s' := by
  intro l hl
  rcases hm.locking.listener hl with hcalling | hnew
  · have hstopping := h l hcalling
    cases hm.listener l with
    | stays hpc hpool => rw [hpc, hstopping]
    | spawned t ht ht' hmem =>
      rw [hn.spawning t ht l hmem] at hstopping
      cases hstopping
    | goes hold | started i hold =>
      rw [hstopping] at hold
      cases hold
    | stopped hold hret => exact absurd hret hcalling
  · exact hnew

theorem HolderInv.step (h : HolderInv s) (hw : WaitInv s) (hm : Move o s a es s') :
    HolderInv s' := by
  intro u hu
  cases hm.locking with
  | apart hcallers hmutex =>
    rw [hmutex] at hu
    rw [hcallers]
    exact h u hu
  | stays t pc hcallers hpc hmutex =>
    rw [hmutex] at hu
    have hlocked := h u hu
    rw [hcallers]
    by_cases htu : u = t
    · rw [htu, Function.update_self, hpc, ← htu]
      exact hlocked
    · rw [Function.update_of_ne htu]
      exact hlocked
  | calls l hcallers hmutex hold =>
    rw [hmutex] at hu
    have hlocked := h u hu
    have hne : u ≠ .listener l := by
      rintro rfl
      have hpc := hw l (CallPc.ne_idle_of_locked hlocked)
      rw [hold] at hpc
      cases hpc
    rw [hcallers, Function.update_of_ne hne]
    exact hlocked
  | locks t pc hcallers hcalled hfree hpc hmutex =>
    rw [hmutex, Option.some.injEq] at hu
    rw [hcallers, ← hu, Function.update_self]
    exact hpc
  | unlocks t pc hcallers hold hpc hmutex =>
    rw [hmutex] at hu
    cases hu

end Step

/-! ## Runs -/

section Runs

variable {C : Server → Action → Prop} {o : TcpSession.Options} {tr : List Event} {s : Server}

theorem lockInv (h : (system o).Run C tr s) : LockInv s := by
  refine invariant_of_moves (I := fun _ s => LockInv s) ?_ ?_ h
  · intro t ht
    cases ht
  · intro tr s a es s' _ _ hm ih
    exact ih.step hm

theorem numberInv (h : (system o).Run C tr s) : NumberInv s := by
  refine invariant_of_moves (I := fun _ s => NumberInv s) .start ?_ h
  intro tr s a es s' hrun _ hm ih
  exact ih.step (lockInv hrun) hm

theorem waitInv (h : (system o).Run C tr s) : WaitInv s := by
  refine invariant_of_moves (I := fun _ s => WaitInv s) ?_ ?_ h
  · intro l hl
    exact absurd rfl hl
  · intro tr s a es s' hrun _ hm ih
    exact ih.step (numberInv hrun) hm

theorem holderInv (h : (system o).Run C tr s) : HolderInv s := by
  refine invariant_of_moves (I := fun _ s => HolderInv s) ?_ ?_ h
  · intro t ht
    cases ht
  · intro tr s a es s' hrun _ hm ih
    exact ih.step (waitInv hrun) hm

end Runs

end TcpServer
