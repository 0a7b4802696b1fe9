/-
# The error a `tcp_server` reports

An observer notes the accepts that fail fatally on an open acceptor, and the calls of
`record_error()`, since `start()` last cleared `m_last_error`.  `last_error()` is the first
of the errors recorded, and an error is only recorded if an accept failed with it: closing
an acceptor makes no listener record anything.
-/
import Libsg.TcpServerClosing

open TransitionSystem

namespace TcpServer

open TcpSession (Choice)

/-! ## The observer -/

/-- The errors that end a listener and are recorded. -/
def AcceptError.isFatal (ec : AcceptError) : Bool :=
  !ec.isTransient && decide (ec ≠ .operationAborted)

/-- What the listeners of a run have met: listeners with errors, in order. -/
structure ErrorLog where
  /-- the accepts that failed fatally on an open acceptor -/
  failed : List (ℕ × AcceptError) := []
  /-- the calls of `record_error()` -/
  recorded : List (ℕ × AcceptError) := []
  deriving DecidableEq, Repr

/-- The accept that fails fatally on an open acceptor in this step. -/
def Server.failsNow (s : Server) : Action → List (ℕ × AcceptError)
  | .acceptDone l (some ec) =>
    if ec.isFatal ∧ (s.listeners l).acceptorOpen then [(l, ec)] else []
  | _ => []

/-- The call of `record_error()` in this step. -/
def Server.recordsNow (s : Server) : Action → List (ℕ × AcceptError)
  | .listener l _ => match (s.listeners l).pc with
    | .recordError ec => [(l, ec)]
    | _ => []
  | _ => []

/-- `start()` clears `m_last_error` in this step. -/
def Server.clearsError (s : Server) : Action → Bool
  | .caller t ch => match s.callers t with
    | .startId _ => decide (ch ≠ .fail)
    | _ => false
  | _ => false

def ErrorLog.note (g : ErrorLog) (s : Server) (a : Action) : ErrorLog :=
  if s.clearsError a then {}
  else { failed := g.failed ++ s.failsNow a, recorded := g.recorded ++ s.recordsNow a }

/-- A server beside the observer. -/
def watched (o : TcpSession.Options) : TransitionSystem (Server × ErrorLog) Action Event :=
  (system o).observed {} ErrorLog.note

/-- The next step of listener `l` begins an `async_accept`. -/
def Server.startsAccept (s : Server) (l : ℕ) : Prop :=
  (s.listeners l).pc = .loop ∧ s.executes (s.listeners l).pool = true ∧ s.stopInOperation = false

/-! ## Errors on their way -/

/-- The fatal error of an accept that the listener has not recorded. -/
def ListenerPc.error : ListenerPc → Option AcceptError
  | .resumed (some ec) | .completed (some ec) => if ec.isFatal then some ec else none
  | .recordError ec => some ec
  | _ => none

/-- `start()` has cleared `m_last_error`, and has no workers yet. -/
def CallPc.blank : CallPc → Bool
  | .startClear | .startContext => true
  | pc => pc.creating

theorem CallPc.early_of_blank {pc : CallPc} (h : pc.blank = true) : pc.early = true := by
  cases pc <;> first | rfl | cases h

theorem ListenerPc.Advance.error {stop : Bool} {pc pc' : ListenerPc} (h : pc.Advance stop pc') :
    pc'.error = pc.error := by
  cases h with
  | transient ec h =>
    show none = if ec.isFatal then some ec else none
    rw [AcceptError.isFatal, h]
    rfl
  | fatal ec h hne =>
    show some ec = if ec.isFatal then some ec else none
    rw [AcceptError.isFatal, h, decide_eq_true hne]
    rfl
  | _ => rfl

theorem Listener.Resume.error {L L' : Listener} (h : L.Resume L') : L'.pc.error = L.pc.error := by
  cases h with
  | start h | timer h => rw [h]; rfl
  | accepted r h =>
    rw [h]
    cases r <;> rfl

theorem closeAcceptor_error (L : Listener) : (closeAcceptor L).pc.error = L.pc.error := by
  unfold closeAcceptor
  cases L.pc <;> rfl

theorem live_of_error {pc : ListenerPc} {ec : AcceptError} (h : pc.error = some ec) :
    pc.live = true := by
  cases pc <;> first | rfl | cases h

theorem error_resumed {r : AcceptResult} {ec : AcceptError}
    (h : (ListenerPc.resumed r).error = some ec) : r = some ec ∧ ec.isFatal = true := by
  cases r with
  | none => cases h
  | some ec' =>
    have h' : (if ec'.isFatal then some ec' else none) = some ec := h
    split at h'
    · next hfatal =>
      cases h'
      exact ⟨rfl, hfatal⟩
    · cases h'

section Step

variable {o : TcpSession.Options} {s s' : Server} {a : Action} {es : List Event}

/-- Of a listener that changes only the others, and what it keeps, are as before. -/
theorem error_of_update {j l : ℕ} {L : Listener} {ec : AcceptError}
    (hlisteners : s'.listeners = Function.update s.listeners j L)
    (hexecutes : ∀ p, s'.executes p = s.executes p) (hpool : L.pool = (s.listeners j).pool)
    (hL : L.pc.error = some ec → (s.listeners j).pc.error = some ec)
    (hexec : s'.executes (s'.listeners l).pool = true)
    (herror : (s'.listeners l).pc.error = some ec) :
    s.executes (s.listeners l).pool = true ∧ (s.listeners l).pc.error = some ec := by
  rw [hexecutes] at hexec
  rw [hlisteners] at hexec herror
  by_cases hlj : l = j
  · subst hlj
    rw [Function.update_self] at hexec herror
    exact ⟨hpool ▸ hexec, hL herror⟩
  · rw [Function.update_of_ne hlj] at hexec herror
    exact ⟨hexec, herror⟩

/-- **An error on its way** in a run that goes on was on its way before, or an accept has failed. -/
theorem Move.error_new (hm : Move o s a es s') (hspawn : SpawnInv s) {l : ℕ} {ec : AcceptError}
    (hexec : s'.executes (s'.listeners l).pool = true)
    (herror : (s'.listeners l).pc.error = some ec) :
    s.executes (s.listeners l).pool = true ∧ (s.listeners l).pc.error = some ec ∨
      a = .acceptDone l (some ec) ∧ ec.isFatal = true ∧
        s.takesHandlers (s.listeners l).pool = true ∧ (s.listeners l).pc = .accepting := by
  have hnone (hworkers : s'.workers = false) : False := by
    rw [(pool_of_executes hexec).2.1] at hworkers
    cases hworkers
  have hsame (hpc : (s'.listeners l).pc = (s.listeners l).pc)
      (hpool : (s'.listeners l).pool = (s.listeners l).pool)
      (hexecutes : ∀ p, s'.executes p = s.executes p) :
      s.executes (s.listeners l).pool = true ∧ (s.listeners l).pc.error = some ec := by
    rw [hexecutes, hpool] at hexec
    rw [hpc] at herror
    exact ⟨hexec, herror⟩
  have hlistener {j : ℕ} {L : Listener} (hlisteners : s'.listeners = Function.update s.listeners j L)
      (hexecutes : ∀ p, s'.executes p = s.executes p) (hpool : L.pool = (s.listeners j).pool)
      (hL : L.pc.error = some ec → (s.listeners j).pc.error = some ec) :
      s.executes (s.listeners l).pool = true ∧ (s.listeners l).pc.error = some ec :=
    error_of_update hlisteners hexecutes hpool hL hexec herror
  cases hm with
  | startCreates t hpc hover => exact (hnone rfl).elim
  | runJoins t hpc hidle => exact (hnone rfl).elim
  | monitorJoins hpc hstop hidle => exact (hnone rfl).elim
  | catchResets t hpc hover =>
    have hcontext := (pool_of_executes hexec).1
    cases hcontext
  | startBinds t eps hpc hlen | stopperPosts k hpc hlive ha | stopperCloses k hpc hdead ha =>
    exact .inl (hsame (pc_ite rfl) (pool_ite rfl) fun _ => rfl)
  | startSpawns t hpc =>
    left
    by_cases hl : l ∈ s.acceptors
    · simp [Server.setCaller, hl, ListenerPc.error] at herror
    · simp only [Server.setCaller, if_neg hl] at hexec herror
      exact ⟨hexec, herror⟩
  | startWorks t hpc =>
    -- its listeners are all at their beginning
    have herror' : (s.listeners l).pc.error = some ec := herror
    have hqueued := (hspawn.spawned t (by rw [hpc]; rfl) l
      (listens_eq_true.mpr ⟨(pool_of_executes hexec).2.2, live_of_error herror'⟩)).1
    rw [hqueued] at herror'
    cases herror'
  | listenerAdvance j pc hlive hpc =>
    exact .inl (hlistener rfl (fun _ => rfl) rfl (hpc.error ▸ ·))
  | listenerReports j ec' hlive hpc | listenerAccepts j hlive hpc | listenerDrops j hlive hpc
  | listenerCreates j hlive hpc | listenerStarted j i hlive hpc | listenerRecords j ec' hlive hpc
  | listenerStops j hlive hpc | listenerStopped j hlive hpc | listenerEnds j hlive hpc
  | timerDone j hlive hpc =>
    exact .inl (hlistener rfl (fun _ => rfl) rfl (by rintro ⟨⟩))
  | listenerResumes j L hlive hres =>
    exact .inl (hlistener rfl (fun _ => rfl) hres.live.2.2 (hres.error ▸ ·))
  | runClose j hlive hposted hpc =>
    exact .inl (hlistener rfl (fun _ => rfl) rfl ((closeAcceptor_error _) ▸ ·))
  | acceptDone j r hlive hpc hr ha =>
    by_cases hlj : l = j
    · subst hlj
      right
      have herror' : (ListenerPc.resumed r).error = some ec := by
        rw [← herror]
        simp [Server.setListenerPc, Server.setListener]
      obtain ⟨rfl, hfatal⟩ := error_resumed herror'
      exact ⟨ha, hfatal, hlive, hpc⟩
    · left
      simp only [Server.setListenerPc, Server.setListener, Function.update_of_ne hlj] at hexec herror
      exact ⟨hexec, herror⟩
  | _ => exact .inl ⟨hexec, herror⟩

/-- **An error on its way** in the current run stays there until the listener records it, or the
next run begins. -/
theorem Move.error_old (hm : Move o s a es s') {l : ℕ} {ec : AcceptError}
    (hpool : (s.listeners l).pool = s.pool) (herror : (s.listeners l).pc.error = some ec) :
    ((s'.listeners l).pool = s'.pool ∧ (s'.listeners l).pc.error = some ec) ∨
      (∃ ch, a = .listener l ch ∧ (s.listeners l).pc = .recordError ec) ∨
      ∃ t, (s.callers t).blank = true := by
  have hsame (hpc : (s'.listeners l).pc = (s.listeners l).pc)
      (hpools : (s'.listeners l).pool = (s.listeners l).pool) (hcurrent : s'.pool = s.pool) :
      (s'.listeners l).pool = s'.pool ∧ (s'.listeners l).pc.error = some ec := by
    rw [hpc, hpools, hcurrent]
    exact ⟨hpool, herror⟩
  have hlistener {j : ℕ} {L : Listener} (hlisteners : s'.listeners = Function.update s.listeners j L)
      (hcurrent : s'.pool = s.pool) (hL : L.pool = (s.listeners j).pool)
      (hpc : (s.listeners j).pc.error = some ec → L.pc.error = some ec) :
      (s'.listeners l).pool = s'.pool ∧ (s'.listeners l).pc.error = some ec := by
    rw [hlisteners, hcurrent]
    by_cases hlj : l = j
    · subst hlj
      rw [Function.update_self, hL]
      exact ⟨hpool, hpc herror⟩
    · rw [Function.update_of_ne hlj]
      exact ⟨hpool, herror⟩
  cases hm with
  | startCreates t hpc hover => exact .inr (.inr ⟨t, by rw [hpc]; rfl⟩)
  | startSpawns t hpc => exact .inr (.inr ⟨t, by rw [hpc]; rfl⟩)
  | startBinds t eps hpc hlen | stopperPosts k hpc hlive ha | stopperCloses k hpc hdead ha =>
    exact .inl (hsame (pc_ite rfl) (pool_ite rfl) rfl)
  | listenerAdvance j pc hlive hpc => exact .inl (hlistener rfl rfl rfl (hpc.error ▸ ·))
  | listenerReports j ec' hlive hpc | listenerAccepts j hlive hpc | listenerDrops j hlive hpc
  | listenerCreates j hlive hpc | listenerStarted j i hlive hpc | listenerStops j hlive hpc
  | listenerStopped j hlive hpc | listenerEnds j hlive hpc | acceptDone j r hlive hpc
  | timerDone j hlive hpc =>
    refine .inl (hlistener rfl rfl rfl fun hno => ?_)
    rw [hpc] at hno
    cases hno
  | listenerRecords j ec' hlive hpc ha =>
    by_cases hlj : l = j
    · subst hlj
      obtain ⟨ch, rfl⟩ := ha
      rw [hpc] at herror
      cases herror
      exact .inr (.inl ⟨ch, rfl, hpc⟩)
    · simp only [Server.setListenerPc, Server.setListener, Function.update_of_ne hlj]
      exact .inl ⟨hpool, herror⟩
  | listenerResumes j L hlive hres =>
    exact .inl (hlistener rfl rfl hres.live.2.2 (hres.error ▸ ·))
  | runClose j hlive hposted hpc =>
    exact .inl (hlistener rfl rfl rfl (closeAcceptor_error _).trans)
  | _ => exact .inl ⟨hpool, herror⟩

/-- `start()` comes to where nothing has been recorded by clearing `m_last_error`. -/
theorem Move.blank_new (hm : Move o s a es s') {u : Tid} (hu : (s'.callers u).blank = true) :
    (s.callers u).blank = true ∨ s.clearsError a = true := by
  have hcaller {t : Tid} {pc : CallPc} (hcallers : s'.callers = Function.update s.callers t pc)
      (hpc : pc.blank = true → (s.callers t).blank = true ∨ s.clearsError a = true) :
      (s.callers u).blank = true ∨ s.clearsError a = true := by
    rw [hcallers] at hu
    by_cases hut : u = t
    · subst hut
      rw [Function.update_self] at hu
      exact hpc hu
    · rw [Function.update_of_ne hut] at hu
      exact .inl hu
  cases hm with
  | callStart n eps hpc | callStop n hpc => exact hcaller (t := .user n) rfl nofun
  | startIds t ch eps hpc ha hch =>
    subst ha
    refine hcaller (t := t) rfl fun _ => .inr ?_
    simp only [Server.clearsError, hpc]
    exact decide_eq_true hch
  | startClears t hpc | startCreates t hpc hover | startBinds t eps hpc hlen | startSpawns t hpc
  | startInvokes t hpc | startInvoked t hpc =>
    exact hcaller (t := t) rfl fun _ => .inl (by rw [hpc]; rfl)
  | startBusy t eps hpc hrun | startTakes t eps hpc hrun | startLocks t eps hpc hfree
  | startResets t eps hpc ha | startWorks t hpc | startReturns t hpc | runStops t hpc
  | runJoins t hpc hidle | catchResets t hpc hover | catchStores t hpc
  | stopIgnored t hpc hfree hstop | stopBegins t hpc hfree hstop | stopEnds t k hpc hjoin =>
    exact hcaller (t := t) rfl nofun
  | startFails t ch hpc ha hch | workersFail t hpc ha | monitorFails t hpc ha =>
    exact hcaller (t := t) rfl nofun
  | listenerStops l hlive hpc => exact hcaller (t := .listener l) rfl nofun
  | _ => exact .inl hu

/-! ## What the observer notes -/

theorem mem_failsNow {l : ℕ} {ec : AcceptError} (h : (l, ec) ∈ s.failsNow a) :
    a = .acceptDone l (some ec) ∧ ec.isFatal = true ∧ (s.listeners l).acceptorOpen = true := by
  cases a with
  | acceptDone j r =>
    cases r with
    | none => cases h
    | some ec' =>
      simp only [Server.failsNow] at h
      split at h
      · next hfails =>
        cases List.mem_singleton.mp h
        exact ⟨rfl, hfails⟩
      · cases h
  | _ => cases h

theorem mem_recordsNow {l : ℕ} {ec : AcceptError} (h : (l, ec) ∈ s.recordsNow a) :
    ∃ ch, a = .listener l ch ∧ (s.listeners l).pc = .recordError ec := by
  cases a with
  | listener j ch =>
    simp only [Server.recordsNow] at h
    split at h
    · next ec' hpc =>
      cases List.mem_singleton.mp h
      exact ⟨ch, rfl, hpc⟩
    · cases h
  | _ => cases h

/-- An accept that fails fatally has its error on its way. -/
theorem step_fails {l : ℕ} {ec : AcceptError} (hstep : step o s a = some (s', es))
    (h : (l, ec) ∈ s.failsNow a) :
    s.takesHandlers (s.listeners l).pool = true ∧ (s'.listeners l).pool = s'.pool ∧
      (s'.listeners l).pc.error = some ec := by
  obtain ⟨rfl, hfatal, -⟩ := mem_failsNow h
  simp only [step] at hstep
  split at hstep
  · next haccepting =>
    cases hstep
    refine ⟨haccepting.2.1, ?_, ?_⟩
    · rw [Server.setListenerPc, Server.setListener]
      simp only [Function.update_self]
      exact (pool_of_executes (executes_of_takesHandlers haccepting.2.1)).2.2
    · rw [Server.setListenerPc, Server.setListener]
      simp only [Function.update_self]
      exact if_pos hfatal
  · cases hstep

/-- `record_error()` keeps the error that is there. -/
theorem step_records {l : ℕ} {ec : AcceptError} (hstep : step o s a = some (s', es))
    (h : (l, ec) ∈ s.recordsNow a) :
    s.executes (s.listeners l).pool = true ∧ s.recordsNow a = [(l, ec)] ∧
      s'.lastError = (s.lastError <|> some ec) := by
  obtain ⟨ch, rfl, hpc⟩ := mem_recordsNow h
  have hrecords : s.recordsNow (.listener l ch) = [(l, ec)] := by
    simp only [Server.recordsNow, hpc]
  simp only [step, listener, hpc, ListenerPc.executing, if_true] at hstep
  split at hstep
  · next hexec =>
    cases hstep
    exact ⟨hexec, hrecords, rfl⟩
  · cases hstep

/-- `start()` clears the error. -/
theorem step_clears (hstep : step o s a = some (s', es)) (h : s.clearsError a = true) :
    ∃ t eps, s.callers t = .startId eps ∧ s' = { s with
      lastId := 0, endpoints := eps, lastError := none }.setCaller t .startClear := by
  cases a with
  | caller t ch =>
    simp only [Server.clearsError] at h
    split at h
    · next eps hpc =>
      simp only [step, caller, hpc, if_neg (of_decide_eq_true h)] at hstep
      cases hstep
      exact ⟨t, eps, hpc, rfl⟩
    · cases h
  | _ => cases h

/-- **What a step does to `m_last_error`** that does not clear it. -/
theorem step_lastError (hstep : step o s a = some (s', es)) (hclear : s.clearsError a = false) :
    s'.lastError = (s.lastError <|> (s.recordsNow a).head?.map Prod.snd) := by
  cases hrecords : s.recordsNow a with
  | nil =>
    have hkeep : (s.lastError <|> none) = s.lastError := by simp
    show s'.lastError = (s.lastError <|> none)
    rw [hkeep]
    cases step_move hstep with
    | startIds t ch eps hpc ha hch =>
      subst ha
      simp only [Server.clearsError, hpc] at hclear
      exact absurd (of_decide_eq_false hclear) (not_not.mpr hch)
    | listenerRecords l ec hexec hpc ha =>
      obtain ⟨ch, rfl⟩ := ha
      simp [Server.recordsNow, hpc] at hrecords
    | _ => rfl
  | cons f fs =>
    have hmem : (f.1, f.2) ∈ s.recordsNow a := by
      rw [hrecords]
      exact List.mem_cons_self
    exact (step_records hstep hmem).2.2

/-- What the observer knows of a server. -/
structure LogInv (s : Server) (g : ErrorLog) : Prop where
  first : s.lastError = g.recorded.head?.map Prod.snd
  found : ∀ l ec, s.executes (s.listeners l).pool = true → (s.listeners l).pc.error = some ec →
    (l, ec) ∈ g.failed
  known : ∀ f ∈ g.recorded, f ∈ g.failed
  kept : ∀ f ∈ g.failed, f ∈ g.recorded ∨
    (s.listeners f.1).pool = s.pool ∧ (s.listeners f.1).pc.error = some f.2
  blank : ∀ t, (s.callers t).blank = true → g.failed = []

namespace LogInv

variable {g : ErrorLog}

theorem start : LogInv {} {} where
  first := rfl
  found _ _ h := by cases h
  known _ h := by cases h
  kept _ h := by cases h
  blank _ _ := rfl

/-- `start()` clears the error while nothing runs. -/
theorem clears (hearly : EarlyInv s) {t : Tid} {eps : List EndPoint}
    (hpc : s.callers t = .startId eps) (hs' : s' = { s with
      lastId := 0, endpoints := eps, lastError := none }.setCaller t .startClear) :
    LogInv s' {} := by
  refine ⟨?_, fun l ec hexec _ => ?_, nofun, nofun, fun _ _ => rfl⟩
  · rw [hs']
    rfl
  · have hnone := hearly t (by rw [hpc]; rfl)
    have hworkers := (pool_of_executes hexec).2.1
    rw [hs'] at hworkers
    rw [show s.workers = true from hworkers] at hnone
    cases hnone

theorem step (h : LogInv s g) (hearly : EarlyInv s) (hspawn : SpawnInv s) (hclosing : ClosingInv s)
    (hstep : (system o).step s a = some (s', es)) : LogInv s' (g.note s a) := by
  have hm := step_move hstep
  cases hclear : s.clearsError a with
  | true =>
    obtain ⟨t, eps, hpc, hs'⟩ := step_clears hstep hclear
    rw [ErrorLog.note, if_pos hclear]
    exact clears hearly hpc hs'
  | false =>
    rw [ErrorLog.note, if_neg (Bool.eq_false_iff.mp hclear)]
    refine ⟨?_, fun l ec hexec herror => ?_, fun f hf => ?_, fun f hf => ?_, fun t ht => ?_⟩
    · rw [step_lastError hstep hclear, h.first]
      cases g.recorded <;> simp
    · apply List.mem_append.mpr
      rcases hm.error_new hspawn hexec herror with ⟨hold, herr⟩ | ⟨rfl, hfatal, htakes, hpc⟩
      · exact .inl (h.found l ec hold herr)
      · right
        have hopen := hclosing.accepting l htakes hpc
        rw [Server.failsNow, if_pos ⟨hfatal, hopen⟩]
        exact List.mem_singleton.mpr rfl
    · apply List.mem_append.mpr
      left
      rcases List.mem_append.mp hf with hold | hnew
      · exact h.known f hold
      · obtain ⟨ch, -, hpc⟩ := mem_recordsNow hnew
        exact h.found f.1 f.2 (step_records hstep hnew).1 (by rw [hpc]; rfl)
    · rcases List.mem_append.mp hf with hold | hnew
      · rcases h.kept f hold with hrecorded | ⟨hpool, herror⟩
        · exact .inl (List.mem_append_left _ hrecorded)
        · rcases hm.error_old hpool herror with hstays | ⟨ch, rfl, hpc⟩ | ⟨t, ht⟩
          · exact .inr hstays
          · -- the listener records it now
            left
            apply List.mem_append_right
            simp only [Server.recordsNow, hpc]
            exact List.mem_singleton.mpr rfl
          · rw [h.blank t ht] at hold
            cases hold
      · exact .inr (step_fails hstep hnew).2
    · rcases hm.blank_new ht with hblank | hclears
      · have hidle := hearly t (CallPc.early_of_blank hblank)
        have hnone : s.failsNow a = [] := by
          apply List.eq_nil_iff_forall_not_mem.mpr
          rintro ⟨l, ec⟩ hnew
          have htakes := (step_fails hstep hnew).1
          rw [(pool_of_executes (executes_of_takesHandlers htakes)).2.1] at hidle
          cases hidle
        rw [h.blank t hblank, hnone]
        rfl
      · rw [hclear] at hclears
        cases hclears

end LogInv

end Step

/-! ## The result -/

namespace LogInv

variable {s : Server} {g : ErrorLog}

/-- Without an accept that failed there is no error. -/
theorem lastError_none (h : LogInv s g) (hnone : g.failed = []) : s.lastError = none := by
  have hempty : g.recorded = [] := by
    apply List.eq_nil_iff_forall_not_mem.mpr
    intro f hf
    have hfailed := h.known f hf
    rw [hnone] at hfailed
    cases hfailed
  rw [h.first, hempty]
  rfl

/-- Once the listeners have left, every accept that failed has been recorded. -/
theorem recorded_of_gone (h : LogInv s g) (hgone : s.Gone) {f : ℕ × AcceptError}
    (hf : f ∈ g.failed) : f ∈ g.recorded := by
  rcases h.kept f hf with hrecorded | ⟨hpool, herror⟩
  · exact hrecorded
  · have hleft := hgone f.1
    rw [listens_eq_true.mpr ⟨hpool, live_of_error herror⟩] at hleft
    cases hleft

end LogInv

/-- Whoever begins to accept has an open acceptor. -/
theorem ClosingInv.not_closing {s : Server} (h : ClosingInv s) {l : ℕ} (hstarts : s.startsAccept l) :
    (s.listeners l).closing = false := by
  obtain ⟨hpc, hexec, hclear⟩ := hstarts
  rw [Bool.eq_false_iff]
  intro hno
  have hset := h.closing l hexec (by rw [hpc]; rfl) hno
  rw [hclear] at hset
  cases hset

/-- In every phase the acceptors are closed in time. -/
theorem closesInTime_of_phase {s : Server} (hphase : s.control.Phase) (a : Action) :
    closesInTime s a := by
  cases a with
  | stopper k =>
    show (decide (s.stoppers k = .closeAcceptors) && !s.acceptors.isEmpty && !s.stopInOperation) =
      false
    by_cases hpc : s.stoppers k = .closeAcceptors
    · have hstop : s.stopInOperation = true := (hphase.of_live (k := k) (by
        show (s.stoppers k).live = true
        rw [hpc]
        rfl)).stop
      rw [hstop, Bool.not_true, Bool.and_false]
    · rw [decide_eq_false hpc, Bool.false_and, Bool.false_and]
  | caller t ch =>
    unfold closesInTime Server.closesLate
    dsimp only
    cases hpc : s.callers t with
    | startReset eps =>
      rw [Bool.true_and]
      exact (hphase.at hpc rfl).2.2.workers
    | _ => rfl
  | _ => rfl

section Runs

variable {C : Server → Action → Prop} {o : TcpSession.Options} {tr : List Event} {s : Server}
  {g : ErrorLog}

theorem logInv (hC : ∀ s a, C s a → closesInTime s a)
    (h : (watched o).Run (fun p a => C p.1 a) tr (s, g)) : LogInv s g := by
  refine Run.invariant (I := fun _ p => LogInv p.1 p.2) .start ?_ h
  intro tr p a p' es hrun _ hst ih
  obtain ⟨hstep, hnote⟩ := observed_step.mp hst
  have hserver := hrun.unobserved
  rw [hnote]
  exact ih.step (earlyInv hC hserver) (spawnInv hC hserver) (closingInv hC hserver) hstep

/-- **`last_error()` is the first fatal error of an accept that a listener recorded, and nothing
else.**  No listener begins to accept on an acceptor that is closed or about to be, so that closing
it makes no listener record an error; and once they have all left, every accept that failed has been
recorded. -/
theorem first_accept_error (h : (watched o).Run (fun p a => closesInTime p.1 a) tr (s, g)) :
    s.lastError = g.recorded.head?.map Prod.snd ∧
    (g.failed = [] → s.lastError = none) ∧
    (∀ f ∈ g.recorded, f ∈ g.failed) ∧
    (s.Gone → ∀ f ∈ g.failed, f ∈ g.recorded) ∧
    ∀ l, s.startsAccept l → (s.listeners l).acceptorOpen = true ∧
      (s.listeners l).closePosted = false := by
  have hlog := logInv (fun _ _ => id) h
  have hclosing := closingInv (fun _ _ => id) h.unobserved
  refine ⟨hlog.first, hlog.lastError_none, hlog.known, fun hgone f => hlog.recorded_of_gone hgone,
    fun l hstarts => ?_⟩
  have hopen := hclosing.not_closing hstarts
  exact ⟨closing_eq_false hopen, (Bool.or_eq_false_iff.mp hopen).1⟩

/-- While no `start()` fails the acceptors are always closed in time, and a server that is off has
recorded every accept that failed in its last run. -/
theorem error_of_off (h : (system o).Run startsSucceed tr s) (hoff : s.running = false) :
    ∃ g, (watched o).Run (fun p a => closesInTime p.1 a) tr (s, g) ∧
      s.lastError = g.recorded.head?.map Prod.snd ∧ ∀ f, f ∈ g.recorded ↔ f ∈ g.failed := by
  have htime : (system o).Run closesInTime tr s :=
    h.meets fun tr t a hrun _ => closesInTime_of_phase (phase (fun _ _ => id) hrun) a
  obtain ⟨g, hg⟩ : ∃ g, (watched o).Run (fun p a => closesInTime p.1 a) tr (s, g) := htime.observed
  have hlog := logInv (fun _ _ => id) hg
  have hgone := (goneInv_countInv (fun _ _ => id) h).1.off hoff
  exact ⟨g, hg, hlog.first, fun f => ⟨hlog.known f, hlog.recorded_of_gone hgone⟩⟩

end Runs

section Sample

/-- Two listeners wait; an accept of the second fails fatally, and it stops the server.  The first
is woken by the `close` of its acceptor. -/
def cascadeRun : List Action := List.flatten
  [.callStart 0 [⟨"::1", 80⟩, ⟨"::1", 81⟩] :: List.replicate 6 (.caller (.user 0) .ok),
   .caller (.user 0) (.bound [⟨"::1", 80⟩, ⟨"::1", 81⟩])
     :: List.replicate 5 (.caller (.user 0) .ok),
   List.replicate 2 (.listener 0 .ok), List.replicate 2 (.listener 1 .ok),
   .acceptDone 1 (some (.other 22)) :: List.replicate 4 (.listener 1 .ok),
   List.replicate 2 (.caller (.listener 1) .ok), List.replicate 2 (.listener 1 .ok),
   [.stopper 0, .runClose 0, .runClose 1], List.replicate 3 (.listener 0 .ok),
   .caller (.listener 0) .ok :: List.replicate 2 (.listener 0 .ok),
   List.replicate 6 (.stopper 0), List.replicate 4 .monitor, List.replicate 2 (.stopper 0)]

/-- The server has stopped, and reports the error of the second listener only. -/
theorem first_accept_error_cascadeRun : ∃ tr s g,
    (watched {}).Run (fun p a => closesInTime p.1 a) tr (s, g) ∧ s.running = false ∧
    g.recorded = [(1, .other 22)] ∧ s.lastError = some (.other 22) := by
  have hexec : ((watched {}).exec cascadeRun).map (fun r => (r.1.1.running, r.1.2.recorded)) =
      some (false, [(1, .other 22)]) := by decide +kernel
  obtain ⟨⟨⟨s, g⟩, tr⟩, hr, hproj⟩ := Option.map_eq_some_iff.mp hexec
  have hrun : (watched {}).Run (fun p a => closesInTime p.1 a) tr (s, g) :=
    runFrom_of_execFrom (by decide +kernel) hr
  obtain ⟨hoff, hrecorded⟩ := Prod.mk.inj hproj
  refine ⟨tr, s, g, hrun, hoff, hrecorded, ?_⟩
  rw [(first_accept_error hrun).1, show g.recorded = [(1, .other 22)] from hrecorded]
  rfl

/-- A `start()` fails; the stop thread of a `stop_async()` after it comes to close the acceptors
when the next `start()` is inside `OnStartedListening`, and ends before that returns. -/
def lateCloseRun : List Action := List.flatten
  [failRun, .callStop 1 :: List.replicate 2 (.caller (.user 1) .ok), startRun.take 10,
   List.replicate 8 (.stopper 0), startRun.drop 10, [.listener 1 .ok]]

/-- The listener accepts, which fails with `bad_descriptor`, and stops the server. -/
def badDescriptorRun : List Action := List.flatten
  [.listener 1 .ok :: .acceptDone 1 (some (.other 9)) :: List.replicate 4 (.listener 1 .ok),
   List.replicate 2 (.caller (.listener 1) .ok), List.replicate 2 (.listener 1 .ok),
   [.stopper 1, .runClose 1, .drain], List.replicate 4 .monitor, List.replicate 7 (.stopper 1)]

/-- A listener begins to accept on an acceptor that a stop thread has closed; the error of that is
recorded, and reported by the server when it has stopped, though no accept has failed on an open
acceptor. -/
theorem closed_acceptor_error :
    (∃ tr p, (watched {}).Reachable tr p ∧ p.1.startsAccept 1 ∧
      (p.1.listeners 1).acceptorOpen = false) ∧
    ∃ tr p, (watched {}).Reachable tr p ∧ p.1.running = false ∧ p.1.cycleActive = false ∧
      p.2.failed = [] ∧ p.1.lastError = some (.other 9) := by
  constructor
  · have hexec : ((watched {}).exec lateCloseRun).map (fun r => ((r.1.1.listeners 1).pc,
        r.1.1.executes (r.1.1.listeners 1).pool, r.1.1.stopInOperation,
        (r.1.1.listeners 1).acceptorOpen)) = some (.loop, true, false, false) := by decide +kernel
    obtain ⟨⟨p, tr⟩, hr, hproj⟩ := Option.map_eq_some_iff.mp hexec
    simp only [Prod.mk.injEq] at hproj
    obtain ⟨hpc, hexecutes, hclear, hclosed⟩ := hproj
    exact ⟨tr, p, runFrom_of_execFrom (execMeets_anyStep _ _) hr, ⟨hpc, hexecutes, hclear⟩, hclosed⟩
  · have hexec : ((watched {}).exec (List.flatten [lateCloseRun, badDescriptorRun])).map
        (fun r => (r.1.1.running, r.1.1.cycleActive, r.1.2.failed, r.1.1.lastError)) =
        some (false, false, [], some (.other 9)) := by decide +kernel
    obtain ⟨⟨p, tr⟩, hr, hproj⟩ := Option.map_eq_some_iff.mp hexec
    simp only [Prod.mk.injEq] at hproj
    exact ⟨tr, p, runFrom_of_execFrom (execMeets_anyStep _ _) hr, hproj⟩

end Sample

end TcpServer
