/-
# The order of the callbacks of a session

`OnSessionDataAvailable` comes after `OnSessionCreated` in every run.  `OnDisconnected`
comes after it unless the teardown of the session is faster than the accepting thread:
the session can be found in `m_sessions` before `OnSessionCreated` is invoked, and when
another thread stops it then, `close_impl()` finds the callback owed already.

`OnSessionDataAvailable` comes before `OnDisconnected`, and the session can be looked up
in it, unless `close_impl()` closes the socket while the bytes of a completed read are
queued behind it on the strand: the reader passes them on all the same.
-/
import Libsg.TcpServerRegistry

open TransitionSystem

namespace TcpServer

open TcpSession (Session Frame Agent StartPc ImplPc Choice)

/-- `OnSessionCreated` has been invoked. -/
def OnConnPc.invoked : OnConnPc → Bool
  | .inCreated | .returned | .threw => true
  | _ => false

/-- `close_impl()` of a session finds `onDisconnected` owed before `OnSessionCreated` has been
invoked: between the two stands the accepting thread, or a throwing `emplace`. -/
def Server.disconnectsEarly (s : Server) : Action → Bool
  | .session i (.step a _) => match (s.conns i).session.stack a with
    | .closeImpl j :: _ => (match (s.conns i).session.impls j with
      | .checkOwed _ => (s.conns i).session.disconnectionCallbackOwed
      | _ => false) && !(s.conns i).onConn.invoked
    | _ => false
  | _ => false

/-- `OnSessionCreated` is invoked before `close_impl()` looks whether `onDisconnected` is owed. -/
def createsInTime (s : Server) (a : Action) : Prop := s.disconnectsEarly a = false

instance (s : Server) (a : Action) : Decidable (createsInTime s a) :=
  inferInstanceAs (Decidable (_ = _))

/-- `close_impl()` of a session closes the socket before what was read has been passed on. -/
def Server.closesBeforeRead (s : Server) : Action → Bool
  | .session i b => (s.conns i).session.closesBeforeRead b
  | _ => false

/-- What was read is passed on before the socket is closed, and `start()` leaves no worker of an
earlier pool behind. -/
def readsInTime (s : Server) (a : Action) : Prop :=
  s.closesBeforeRead a = false ∧ resetsInTime s a

instance (s : Server) (a : Action) : Decidable (readsInTime s a) :=
  inferInstanceAs (Decidable (_ ∧ _))

/-- The events tell how far the closures have come. -/
structure ShownInv (tr : List Event) (s : Server) : Prop where
  created : ∀ i, (s.conns i).onConn.invoked = true → .created i ∈ tr
  disconnected : ∀ i ex, .disconnected i ex ∈ tr → (s.conns i).onStop ≠ .idle
  erased : ∀ i, .erased i ∈ tr → (s.conns i).onStop ≠ .idle

/-- `OnDisconnected` waits for `OnSessionCreated`. -/
def OrderInv (s : Server) : Prop :=
  ∀ i, (s.conns i).onStop ≠ .idle → (s.conns i).onConn.invoked = true

section Step

variable {o : TcpSession.Options} {s s' : Server} {a : Action} {tr es : List Event}

/-- The session invokes `onConnected` only once, so `onConn` has not begun. -/
theorem ConnInv.onConn_of_connected {c : Conn} {sess : Session Tid}
    {b : TcpSession.Action Tid} (h : ConnInv c)
    (hstep : TcpSession.step o c.session b = some (sess, [.connected])) : c.onConn = .idle := by
  cases TcpSession.step_move hstep with
  | startConnects k q hpc => exact h.abreast.eq_idle (by rw [hpc]; rfl) (by simp [hpc])

/-- In time means that `OnSessionCreated` has been invoked. -/
theorem invoked_of_disconnected {j : ℕ} {b : TcpSession.Action Tid} {sess : Session Tid}
    {ex : Option TcpSession.Exn} (hcond : createsInTime s (.session j b))
    (hstep : TcpSession.step o (s.conns j).session b = some (sess, [.disconnected ex])) :
    (s.conns j).onConn.invoked = true := by
  cases TcpSession.step_move hstep with
  | implOwed i ex k q hpc howed ag ch ha htop =>
    obtain ⟨k', hk⟩ := List.head?_eq_some_iff.mp htop
    simpa [createsInTime, Server.disconnectsEarly, ha, hk, hpc, howed] using hcond

theorem ShownInv.start : ShownInv [] {} where
  created _ h := by cases h
  disconnected _ _ h := by cases h
  erased _ h := by cases h

theorem ShownInv.quiet (h : ShownInv tr s) (hconns : s'.conns = s.conns)
    (hdis : ∀ i ex, .disconnected i ex ∉ es) (her : ∀ i, .erased i ∉ es) :
    ShownInv (tr ++ es) s' := by
  obtain ⟨h₁, h₂, h₃⟩ := h
  constructor
  · rw [hconns]
    exact fun i hi => List.mem_append_left _ (h₁ i hi)
  · rw [hconns]
    exact fun i ex hmem => h₂ i ex ((List.mem_append.mp hmem).resolve_right (hdis i ex))
  · rw [hconns]
    exact fun i hmem => h₃ i ((List.mem_append.mp hmem).resolve_right (her i))

/-- One connection goes on, and shows at most that. -/
theorem ShownInv.update {j : ℕ} {c : Conn} (h : ShownInv tr s)
    (hconns : s'.conns = Function.update s.conns j c)
    (hcreated : c.onConn.invoked = true → (s.conns j).onConn.invoked = true ∨ .created j ∈ es)
    (hstop : (s.conns j).onStop ≠ .idle → c.onStop ≠ .idle)
    (hdis : ∀ i ex, .disconnected i ex ∈ es → i = j ∧ (s.conns j).onStop ≠ .idle)
    (her : ∀ i, .erased i ∈ es → i = j ∧ (s.conns j).onStop ≠ .idle) :
    ShownInv (tr ++ es) s' := by
  have hback {i : ℕ} (hi : (s.conns i).onStop ≠ .idle) : (s'.conns i).onStop ≠ .idle := by
    rw [hconns]
    by_cases hij : i = j
    · rw [hij, Function.update_self]
      exact hstop (hij ▸ hi)
    · rw [Function.update_of_ne hij]
      exact hi
  refine ⟨fun i hi => ?_, fun i ex hmem => hback ?_, fun i hmem => hback ?_⟩
  · rw [hconns] at hi
    by_cases hij : i = j
    · rw [hij, Function.update_self] at hi
      rw [hij]
      rcases hcreated hi with hold | hnew
      · exact List.mem_append_left _ (h.created j hold)
      · exact List.mem_append_right _ hnew
    · rw [Function.update_of_ne hij] at hi
      exact List.mem_append_left _ (h.created i hi)
  · rcases List.mem_append.mp hmem with hold | hnew
    · exact h.disconnected i ex hold
    · obtain ⟨rfl, hne⟩ := hdis i ex hnew
      exact hne
  · rcases List.mem_append.mp hmem with hold | hnew
    · exact h.erased i hold
    · obtain ⟨rfl, hne⟩ := her i hnew
      exact hne

theorem ShownInv.step (h : ShownInv tr s) (hc : ConnsInv s) (hm : Move o s a es s') :
    ShownInv (tr ++ es) s' := by
  have hunborn := hc.unborn s.connCount (Nat.le_refl _)
  cases hm with
  | listenerCreates l hlive hpc =>
    exact h.update rfl nofun (by rw [hunborn]; exact fun hne => hne) nofun nofun
  | session j b sess es ha hj hallow hstep =>
    refine h.update rfl (fun hinvoked => .inl ?_) (fun hne => ?_) (fun i ex hmem => ?_)
      fun i hmem => ?_
    · rcases enter_cases { s.conns j with session := sess } es with ⟨rfl, henter⟩ |
        ⟨ex, rfl, henter⟩ | henter
      · rw [henter] at hinvoked
        cases hinvoked
      · rw [henter] at hinvoked
        exact hinvoked
      · rw [henter] at hinvoked
        exact hinvoked
    · rcases enter_cases { s.conns j with session := sess } es with ⟨rfl, henter⟩ |
        ⟨ex, rfl, henter⟩ | henter
      · rw [henter]
        exact hne
      · rw [henter]
        exact nofun
      · rw [henter]
        exact hne
    · simp at hmem
    · simp at hmem
  | counts | emplaces | emplaceThrows => exact h.update rfl nofun id nofun nofun
  | stopperStops => exact h.update rfl (fun hinvoked => .inl hinvoked) id nofun nofun
  | creates j hlive hpc =>
    exact h.update rfl (fun _ => .inr List.mem_cons_self) id (by simp) (by simp)
  | created j pc hlive hpc => exact h.update rfl (fun _ => .inl (by rw [hpc]; rfl)) id nofun nofun
  | disconnects j ex hlive hpc =>
    refine h.update rfl (fun hinvoked => .inl hinvoked) (fun _ => nofun) (fun i ex' hmem => ?_)
      (by simp)
    rw [List.mem_singleton, Event.disconnected.injEq] at hmem
    exact ⟨hmem.1, by rw [hpc]; nofun⟩
  | disconnected => exact h.update rfl (fun hinvoked => .inl hinvoked) (fun _ => nofun) nofun nofun
  | erases j hlive hpc =>
    refine h.update rfl (fun hinvoked => .inl hinvoked) (fun _ => nofun) (by simp) fun i hmem => ?_
    rw [List.mem_singleton, Event.erased.injEq] at hmem
    exact ⟨hmem, by rw [hpc]; nofun⟩
  | releases => exact h.update rfl (fun hinvoked => .inl hinvoked) (fun _ => nofun) nofun nofun
  | _ => exact h.quiet rfl (by simp) (by simp)

/-- One connection goes on, in order. -/
theorem OrderInv.update {j : ℕ} {c : Conn} (h : OrderInv s)
    (hconns : s'.conns = Function.update s.conns j c)
    (hc : c.onStop ≠ .idle → c.onConn.invoked = true) : OrderInv s' := by
  intro i hi
  rw [hconns] at hi ⊢
  by_cases hij : i = j
  · rw [hij, Function.update_self] at hi ⊢
    exact hc hi
  · rw [Function.update_of_ne hij] at hi ⊢
    exact h i hi

theorem OrderInv.step (h : OrderInv s) (hc : ConnsInv s) (hcond : createsInTime s a)
    (hm : Move o s a es s') : OrderInv s' := by
  -- before `OnSessionCreated` has been invoked, `on_session_stopped()` has not begun
  have hnone {j : ℕ} {pc : OnConnPc} (hpc : (s.conns j).onConn = pc) (hinvoked : pc.invoked = false)
      {p : Prop} (hstop : (s.conns j).onStop ≠ .idle) : p := by
    have hold := h j hstop
    rw [hpc, hinvoked] at hold
    cases hold
  cases hm with
  | listenerCreates l hlive hpc => exact h.update rfl fun hstop => absurd rfl hstop
  | session j b sess es ha hj hallow hstep =>
    refine h.update rfl fun hstop => ?_
    rcases enter_cases { s.conns j with session := sess } es with ⟨rfl, henter⟩ |
      ⟨ex, rfl, henter⟩ | henter
    · rw [henter] at hstop
      exact hnone ((hc.conn j hj).onConn_of_connected hstep) rfl hstop
    · rw [henter]
      exact invoked_of_disconnected (ha ▸ hcond) hstep
    · rw [henter] at hstop ⊢
      exact h j hstop
  | counts j hlive hpc | emplaces j hlive hpc | emplaceThrows j hlive hpc | creates j hlive hpc =>
    exact h.update rfl fun hstop => hnone hpc rfl hstop
  | created j pc hlive hpc hnew =>
    refine h.update rfl fun _ => ?_
    rcases hnew with rfl | rfl <;> rfl
  | stopperStops k j => exact h.update rfl fun hstop => h j hstop
  | disconnects j ex hlive hpc => exact h.update rfl fun _ => h j (by rw [hpc]; nofun)
  | disconnected j hlive hpc | erases j hlive hpc | releases j hlive hpc =>
    exact h.update rfl fun _ => h j (by rw [hpc]; nofun)
  | _ => exact h

end Step

/-! ## Runs -/

section Runs

variable {C : Server → Action → Prop} {o : TcpSession.Options} {tr tr₁ tr₂ es : List Event}
  {s s' : Server} {a : Action} {i : ℕ} {payload : Option TcpSession.Buffer}

theorem shownInv (h : (system o).Run C tr s) : ShownInv tr s := by
  refine invariant_of_moves (I := fun tr s => ShownInv tr s) .start ?_ h
  intro tr s a es s' hrun _ hm ih
  exact ih.step (connsInv hrun) hm

theorem orderInv (h : (system o).Run createsInTime tr s) : OrderInv s := by
  refine invariant_of_moves (I := fun _ s => OrderInv s) ?_ ?_ h
  · intro i hi
    exact absurd rfl hi
  · intro tr s a es s' hrun hC hm ih
    exact ih.step (connsInv hrun) hC hm

/-- The data callback of a session is invoked by its reader, on the strand, with bytes it has
read. -/
theorem reader_of_data (h : (system o).Run C tr s) (hm : Move o s a es s')
    (hdata : .session i (.data payload) ∈ es) :
    i < s.connCount ∧ s.executes (s.conns i).pool = true ∧
      (∃ bytes, (s.conns i).session.readerPc = .completed (.ok bytes)) ∧
      s'.sessions = s.sessions ∧ (s'.conns i).id = (s.conns i).id := by
  cases hm with
  | session j b sess es ha hj hallow hstep =>
    obtain ⟨e, he, heq⟩ := List.mem_map.mp hdata
    cases heq
    cases TcpSession.step_move hstep with
    | readerData bytes payload k q hpc ag ch ha htop =>
      obtain ⟨k', hk⟩ := List.head?_eq_some_iff.mp htop
      obtain rfl := ((connsInv h).conn i hj).control.eq_strand .reader hk
      rw [ha] at hallow
      refine ⟨hj, (Bool.and_eq_true_iff.mp hallow).1, ⟨bytes, hpc⟩, rfl, ?_⟩
      simp [Server.setConn]
    | _ => simp at he
  | _ => simp at hdata

/-- A session with a reader has been through `onConn`. -/
theorem returned_of_reader (h : (system o).Run C tr s) (hi : i < s.connCount)
    (hreader : (s.conns i).session.readerPc ≠ .unborn) : (s.conns i).onConn = .returned := by
  have hpc := (TcpSession.readerInv (session_run h i)).spawned.mp hreader
  have habreast := ((connsInv h).conn i hi).abreast
  cases honConn : (s.conns i).onConn with
  | returned => rfl
  | idle =>
    have hidle := habreast.idle honConn
    rw [hpc] at hidle
    simp [early, caught] at hidle
  | emplaceThrew | threw =>
    have hfailed := habreast.failed (by simp [honConn])
    rw [hpc] at hfailed
    simp [caught] at hfailed
  | _ =>
    have hinside := habreast.inside (by rw [honConn]; rfl)
    rw [hpc] at hinside
    cases hinside

/-- `OnSessionCreated` comes before every `OnSessionDataAvailable`, in every run. -/
theorem created_before_data (h : (system o).Run C tr s)
    (htr : tr = tr₁ ++ .session i (.data payload) :: tr₂) : .created i ∈ tr₁ := by
  obtain ⟨t, a, t', hrun, -, hm⟩ := moment h htr
  obtain ⟨hi, -, ⟨bytes, hpc⟩, -⟩ := reader_of_data hrun hm List.mem_cons_self
  have hreturned := returned_of_reader hrun hi (by rw [hpc]; exact TcpSession.ReaderPc.noConfusion)
  exact (shownInv hrun).created i (by rw [hreturned]; rfl)

/-- **Created first.**  Unless `close_impl()` of a session finds `onDisconnected` owed before
`OnSessionCreated` has been invoked, `OnSessionCreated` comes before `OnDisconnected` and before
every `OnSessionDataAvailable` of the session. -/
theorem created_first (h : (system o).Run createsInTime tr s) (i : ℕ) :
    (∀ tr₁ ex tr₂, tr = tr₁ ++ .disconnected i ex :: tr₂ → .created i ∈ tr₁) ∧
      ∀ tr₁ payload tr₂, tr = tr₁ ++ .session i (.data payload) :: tr₂ → .created i ∈ tr₁ := by
  refine ⟨fun tr₁ ex tr₂ htr => ?_, fun tr₁ payload tr₂ => created_before_data h⟩
  obtain ⟨t, a, t', hrun, -, hm⟩ := moment h htr
  have hstop : (t.conns i).onStop ≠ .idle := by
    generalize hes : [Event.disconnected i ex] = es at hm
    cases hm with
    | disconnects j ex hlive hpc =>
      cases hes
      rw [hpc]
      exact OnStopPc.noConfusion
    | session j b sess es ha hj hallow hstep =>
      cases es <;> simp at hes
    | _ => cases hes
  exact (shownInv hrun).created i (orderInv hrun i hstop)

/-- The session of a connection passes on what it has read before its socket is closed. -/
theorem silentInv_session (h : (system o).Run readsInTime tr s) (i : ℕ) :
    TcpSession.SilentInv (s.conns i).session :=
  TcpSession.silentInv (h.project (projects i (fun _ _ _ => rfl) fun _ _ hC => hC.1))

/-- While `on_session_stopped()` of a session goes on, or after it, its socket is closed. -/
theorem socket_closed_of_onStop (h : (system o).Run C tr s) (hi : i < s.connCount)
    (hstop : (s.conns i).onStop ≠ .idle) : (s.conns i).session.socketOpen = false := by
  have habreast := ((connsInv h).conn i hi).abreast
  have hsocket := (TcpSession.implInv (session_run h i)).socket
  have hdecided : ((s.conns i).session.impls 0).decided = true := by
    by_contra hnot
    exact hstop (habreast.stop_idle (Bool.eq_false_iff.mpr hnot))
  rw [hsocket]
  cases hpc : (s.conns i).session.impls 0 <;> rw [hpc] at hdecided <;> first | rfl | cases hdecided

theorem findSession_isSome {id : ℕ} :
    (s.findSession id).isSome = true ↔ id ∈ s.sessions.map Prod.fst := by
  rw [Server.findSession, Option.isSome_map, List.find?_isSome, List.mem_map]
  constructor
  · rintro ⟨p, hp, heq⟩
    exact ⟨p, hp, of_decide_eq_true heq⟩
  · rintro ⟨p, hp, rfl⟩
    exact ⟨p, hp, decide_eq_true rfl⟩

/-- **No data after the end.**  Unless `close_impl()` closes the socket before the bytes of a
completed read have been passed on, and unless `start()` hands out ids anew while workers are
running, a session's `OnSessionDataAvailable` is invoked before its `OnDisconnected`, and before it
is erased; and at the start of the callback its id can be looked up. -/
theorem no_data_after_end (h : (system o).Run readsInTime tr s)
    (hstep : (system o).step s a = some (s', es)) (hdata : .session i (.data payload) ∈ es) :
    (∀ ex, .disconnected i ex ∉ tr) ∧ .erased i ∉ tr ∧
      (s'.findSession (s'.conns i).id).isSome = true := by
  obtain ⟨hi, hlive, ⟨bytes, hpc⟩, hsessions, hid⟩ := reader_of_data h (step_move hstep) hdata
  have hidle : (s.conns i).onStop = .idle := by
    by_contra hstop
    exact (silentInv_session h i (socket_closed_of_onStop h hi hstop) bytes).2 hpc
  refine ⟨fun ex hmem => (shownInv h).disconnected i ex hmem hidle,
    fun hmem => (shownInv h).erased i hmem hidle, ?_⟩
  have hreturned := returned_of_reader h hi (by rw [hpc]; exact TcpSession.ReaderPc.noConfusion)
  rw [findSession_isSome, hsessions, hid]
  exact registeredInv (fun _ _ hC => hC.2) h i hi (pool_of_executes hlive).2.2
    (by rw [hreturned]; rfl) (by rw [hidle]; rfl)

end Runs

section Sample

/-- User thread 0 starts the server on one endpoint. -/
def startRun : List Action :=
  .callStart 0 [⟨"::1", 80⟩] :: (List.replicate 6 (Action.caller (.user 0) .ok)
    ++ Action.caller (.user 0) (.bound [⟨"::1", 80⟩])
      :: List.replicate 5 (Action.caller (.user 0) .ok))

/-- Its listener accepts a connection, starts its session, and puts it into `m_sessions`. -/
def publishRun : List Action :=
  startRun ++ ([.listener 0 .ok, .listener 0 .ok, .acceptDone 0 none] : List Action)
    ++ List.replicate 5 (Action.listener 0 .ok)
    ++ List.replicate 7 (Action.session 0 (.step (.thread (.listener 0)) .ok))
    ++ List.replicate 2 (Action.onConn 0 .ok)

/-- Then it invokes `OnSessionCreated`, and the reader begins to read. -/
def readRun : List Action :=
  publishRun ++ List.replicate 2 (Action.onConn 0 .ok)
    ++ List.replicate 2 (Action.session 0 (.step (.thread (.listener 0)) .ok))
    ++ ([.listener 0 .ok, .session 0 .runHandler] : List Action)
    ++ List.replicate 2 (Action.session 0 (.step .strand .ok))

/-- User thread 5 stops the session, which queues `close_impl()`. -/
def disconnectRun : List Action :=
  .session 0 (.call (.thread (.user 5)) .stopAsync)
    :: List.replicate 4 (Action.session 0 (.step (.thread (.user 5)) .ok))

/-- `close_impl()` and `on_session_stopped()` run. -/
def closeRun : List Action :=
  .session 0 .runHandler :: (List.replicate 3 (Action.session 0 (.step .strand .ok))
    ++ List.replicate 4 (Action.onStop 0) ++ List.replicate 2 (Action.session 0 (.step .strand .ok)))

/-- The read completes with one byte. -/
def bytesRun : List Action := [.session 0 (.readDone (.ok [1]))]

/-- The reader is resumed. -/
def resumeRun : List Action := [.session 0 .runHandler]

/-- A session that is stopped after `OnSessionCreated`. -/
theorem created_first_closeRun : ∃ tr s, (system {}).Run createsInTime tr s ∧
    .disconnected 0 none ∈ tr ∧
    (∀ tr₁ ex tr₂, tr = tr₁ ++ .disconnected 0 ex :: tr₂ → .created 0 ∈ tr₁) ∧
      ∀ tr₁ payload tr₂, tr = tr₁ ++ .session 0 (.data payload) :: tr₂ → .created 0 ∈ tr₁ := by
  have hrun := run_exec (by decide : (system {}).execMeets createsInTime _
    (readRun ++ disconnectRun ++ closeRun) = true) (by decide)
  exact ⟨_, _, hrun, by decide, created_first hrun 0⟩

/-- A session that is stopped as soon as it can be found: `OnDisconnected` is invoked, and
`OnSessionCreated` is not. -/
theorem disconnected_before_created : ∃ tr s, (system {}).Reachable tr s ∧
    .disconnected 0 none ∈ tr ∧ .created 0 ∉ tr :=
  ⟨_, _, reachable_exec
    (by decide : ((system {}).exec (publishRun ++ disconnectRun ++ closeRun)).isSome = true),
    by decide, by decide⟩

/-- A read that completes while nobody stops the session. -/
theorem no_data_after_end_readRun : ∃ tr s s' es, (system {}).Run readsInTime tr s ∧
    (system {}).step s (.session 0 (.step .strand .ok)) = some (s', es) ∧
    .session 0 (.data (some [1])) ∈ es ∧
    (∀ ex, .disconnected 0 ex ∉ tr) ∧ .erased 0 ∉ tr ∧
      (s'.findSession (s'.conns 0).id).isSome = true := by
  have hrun := run_exec (by decide : (system {}).execMeets readsInTime _
    (readRun ++ bytesRun ++ resumeRun) = true) (by decide)
  have hstep : ((system {}).step (((system {}).exec (readRun ++ bytesRun ++ resumeRun)).get
    (by decide)).1 (.session 0 (.step .strand .ok))).isSome = true := by decide
  exact ⟨_, _, _, _, hrun, (Option.some_get hstep).symm, by decide,
    no_data_after_end hrun (Option.some_get hstep).symm (by decide : Event.session 0 (.data (some [1])) ∈ _)⟩

/-- The read completes between the stop of the session and `close_impl()`. -/
def lateReadRun : List Action :=
  readRun ++ disconnectRun ++ bytesRun ++ closeRun ++ resumeRun
    ++ ([.session 0 (.step .strand .ok)] : List Action)

/-- Then `OnSessionDataAvailable` is invoked after `OnDisconnected` and the erasure, and the id
cannot be looked up in it. -/
theorem data_after_end : ∃ tr s, (system {}).Reachable (tr ++ [.session 0 (.data (some [1]))]) s ∧
    .disconnected 0 none ∈ tr ∧ .erased 0 ∈ tr ∧ s.findSession (s.conns 0).id = none := by
  have hrun := reachable_exec (by decide : ((system {}).exec lateReadRun).isSome = true)
  have htr : (((system {}).exec lateReadRun).get (by decide)).2 =
      (((system {}).exec lateReadRun).get (by decide)).2.dropLast
        ++ [.session 0 (.data (some [1]))] := by decide
  rw [htr] at hrun
  exact ⟨_, _, hrun, by decide, by decide, by decide⟩

end Sample

end TcpServer
