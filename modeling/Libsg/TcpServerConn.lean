/-
# The connections of a `tcp_server`

What holds of one connection in every reachable state, whatever the other threads do
(`ConnInv`): how far its session's `start()` has come goes with how far `onConn` has
come, and `close_impl()` goes with `on_session_stopped()`.  Until `onConn` has put the
session into `m_sessions`, only the accepting thread can reach it, so it is still
untouched; from this follows that inside a server `start()` never stores the owed flag
late.

The server only acts on the session of a connection by steps of `tcp_session`
(`projects`), so that what is proved of sessions holds of every connection.
-/
import Libsg.TcpServerLock
import Libsg.TcpSessionEnd

open TransitionSystem

namespace TcpServer

open TcpSession (Session Frame Agent StartPc ImplPc Choice ControlInv LifeInv Turn)

/-! ## The closures and the session -/

/-- `start()` has not left `onConnected`. -/
def early : StartPc → Bool
  | .compareExchange | .setup _ | .invokeConnected | .inConnected => true
  | _ => false

/-- `start()` is in its catch block, or has thrown. -/
def caught : StartPc → Bool
  | .catchLoad _ | .catchRecord _ | .catchStop | .catchWait | .threw => true
  | _ => false

/-- `onConn` has begun and has not ended. -/
def OnConnPc.inside : OnConnPc → Bool
  | .counting | .emplacing | .invoking | .inCreated => true
  | _ => false

/-- `on_session_stopped()` has begun and has not ended. -/
def OnStopPc.inside : OnStopPc → Bool
  | .idle | .returned => false
  | _ => true

/-- `close_impl()` is inside `onDisconnected`. -/
def inCallback : ImplPc → Bool
  | .inDisconnected _ => true
  | _ => false

/-- Only the thread of listener `l` has been at the session: it is inside `start()`. -/
structure Untouched (l : ℕ) (s : Session Tid) : Prop where
  stack : ∀ a, s.stack a = if a = .thread (.listener l) then [.start] else []
  queue : s.queue = []
  reader : s.readerPc = .unborn
  writers : ∀ w, s.writers w = .unborn
  impls : ∀ i, s.impls i = .unborn

/-- `start()` goes with `onConn`, and `close_impl()` with `on_session_stopped()`. -/
structure Conn.Abreast (c : Conn) : Prop where
  idle : c.onConn = .idle →
    early c.session.startPc = true ∧ c.session.startPc ≠ .inConnected ∨
      caught c.session.startPc = true
  inside : c.onConn.inside = true → c.session.startPc = .inConnected
  returned : c.onConn = .returned → c.session.startPc = .inConnected ∨
    c.session.startPc = .spawnReader ∨ c.session.startPc = .returned ∨
      caught c.session.startPc = true
  failed : c.onConn = .emplaceThrew ∨ c.onConn = .threw →
    c.session.startPc = .inConnected ∨ caught c.session.startPc = true
  owed : c.session.disconnectionCallbackOwed = true ↔
    c.onConn ≠ .idle ∨ c.session.startPc = .invokeConnected
  stopIdle : c.onStop = .idle → inCallback (c.session.impls 0) = false
  stopInside : c.onStop.inside = true → inCallback (c.session.impls 0) = true
  stopReturned : c.onStop = .returned → (c.session.impls 0).decided = true
  paired : (c.session.impls 0 = .storeStopped ∨ c.session.impls 0 = .finished) →
    c.session.disconnectionCallbackOwed = true → c.onStop = .returned

/-- `onConn` only begins when `start()` invokes `onConnected`. -/
theorem Conn.Abreast.eq_idle {c : Conn} (h : c.Abreast) (hpc : early c.session.startPc = true)
    (hne : c.session.startPc ≠ .inConnected) : c.onConn = .idle := by
  cases honConn : c.onConn with
  | idle => rfl
  | returned =>
    rcases h.returned honConn with h' | h' | h' | h'
    · exact absurd h' hne
    · rw [h'] at hpc
      cases hpc
    · rw [h'] at hpc
      cases hpc
    · cases hs : c.session.startPc <;> simp [hs, early, caught] at hpc h'
  | emplaceThrew | threw =>
    rcases h.failed (by simp [honConn]) with h' | h'
    · exact absurd h' hne
    · cases hs : c.session.startPc <;> simp [hs, early, caught] at hpc h'
  | _ => exact absurd (h.inside (by rw [honConn]; rfl)) hne

theorem decided_of_inCallback {pc : ImplPc} (h : inCallback pc = true) : pc.decided = true := by
  cases pc <;> first | rfl | cases h

theorem OnConnPc.inside_of_ended {pc : OnConnPc} {ch : Choice} (h : pc.ended ch = true) :
    pc.inside = false := by
  cases pc <;> first | rfl | cases h

/-- **What holds of a connection.** -/
structure ConnInv (c : Conn) : Prop where
  control : ControlInv c.session
  life : ∃ m, LifeInv m c.session
  called : c.session.startCalled = true
  starter : ∀ a, Frame.start ∈ c.session.stack a → a = .thread (.listener c.listener)
  live : c.session.startPc.live = true →
    Frame.start ∈ c.session.stack (.thread (.listener c.listener))
  untouched : c.onConn.published = false → early c.session.startPc = true →
    Untouched c.listener c.session
  abreast : c.Abreast

/-! ## A new connection -/

/-- The session of a new connection. -/
theorem untouched_new (l : ℕ) :
    Untouched l (TcpSession.call {} (.thread (.listener l)) (.start true)) where
  stack a := by by_cases ha : a = .thread (.listener l) <;> simp [TcpSession.call, Session.setStack, ha]
  queue := rfl
  reader := rfl
  writers _ := rfl
  impls _ := rfl

theorem Untouched.mem_stack {l : ℕ} {s : Session Tid} (h : Untouched l s) (a : Agent Tid) :
    Frame.start ∈ s.stack a ↔ a = .thread (.listener l) := by
  rw [h.stack]
  split <;> simp_all

theorem ConnInv.new (l p id : ℕ) :
    ConnInv { session := TcpSession.call {} (.thread (.listener l)) (.start true), id := id,
              listener := l, pool := p } := by
  have hsession := untouched_new l
  have hcontrol := TcpSession.call_control (a := .thread (Tid.listener l)) ControlInv.initial
    (.start true) fun h => by cases h
  have hmove : TcpSession.Move ({} : Session Tid) (.call (.thread (.listener l)) (.start true)) []
      (TcpSession.call {} (.thread (.listener l)) (.start true)) := TcpSession.call_move _ _ rfl
  have hlife := LifeInv.start.step hmove
  exact
    { control := hcontrol
      life := ⟨_, hlife⟩
      called := rfl
      starter := fun a => (hsession.mem_stack a).mp
      live := fun _ => (hsession.mem_stack _).mpr rfl
      untouched := fun _ _ => hsession
      abreast :=
        { idle := fun _ => .inl ⟨rfl, by simp [TcpSession.call, Session.setStack]⟩
          inside := fun h => by cases h
          returned := fun h => by cases h
          failed := fun h => by rcases h with h | h <;> cases h
          owed := by simp [TcpSession.call, Session.setStack]
          stopIdle := fun _ => rfl
          stopInside := fun h => by cases h
          stopReturned := fun h => by cases h
          paired := fun h => by rcases h with h | h <;> cases h } }

/-! ## A step of the session -/

@[simp] theorem Conn.enter_session (c : Conn) (es : List TcpSession.Event) :
    (c.enter es).session = c.session := by
  unfold Conn.enter
  split <;> rfl

@[simp] theorem Conn.enter_listener (c : Conn) (es : List TcpSession.Event) :
    (c.enter es).listener = c.listener := by
  unfold Conn.enter
  split <;> rfl

@[simp] theorem Conn.enter_pool (c : Conn) (es : List TcpSession.Event) :
    (c.enter es).pool = c.pool := by
  unfold Conn.enter
  split <;> rfl

@[simp] theorem Conn.enter_id (c : Conn) (es : List TcpSession.Event) :
    (c.enter es).id = c.id := by
  unfold Conn.enter
  split <;> rfl

section Session

variable {o : TcpSession.Options} {s : Server} {c : Conn} {b : TcpSession.Action Tid}
  {sess : Session Tid} {es : List TcpSession.Event}

/-- An untouched session only makes steps of `start()`. -/
theorem Untouched.step (h : Untouched c.listener c.session) (hpub : c.onConn.published = false)
    (hallow : s.allows c b = true) (hstep : TcpSession.step o c.session b = some (sess, es)) :
    ∃ ch, b = .step (.thread (.listener c.listener)) ch ∧
      TcpSession.start o c.session (.thread (.listener c.listener)) [] ch = some (sess, es) := by
  cases b with
  | call a cl =>
    exfalso
    cases a with
    | strand =>
      simp [TcpSession.step, Session.canCall, h.stack] at hstep
    | thread t =>
      cases t with
      | user n =>
        rw [Server.allows, hpub] at hallow
        cases hallow
      | listener l =>
        simp only [Server.allows, Bool.and_eq_true, decide_eq_true_eq] at hallow
        rw [hallow.2] at hpub
        cases hpub
      | stopper k => cases hallow
  | step a ch =>
    by_cases ha : a = .thread (.listener c.listener)
    · subst ha
      refine ⟨ch, rfl, ?_⟩
      simpa [TcpSession.step, h.stack, TcpSession.frameStep] using hstep
    · simp [TcpSession.step, h.stack, ha] at hstep
  | runHandler => simp [TcpSession.step, h.stack, h.queue] at hstep
  | readDone r => simp [TcpSession.step, h.reader] at hstep
  | writeDone w ec => simp [TcpSession.step, h.writers] at hstep

/-- While `start()` has not left `onConnected`, it leaves the session untouched. -/
theorem Untouched.start {l : ℕ} {ch : Choice} {a : Agent Tid} {k : List Frame}
    (h : Untouched l c.session) (hstep : TcpSession.start o c.session a k ch = some (sess, es))
    (hpc : early sess.startPc = true) : Untouched l sess := by
  obtain ⟨h₁, h₂, h₃, h₄, h₅⟩ := h
  unfold TcpSession.start at hstep
  split at hstep
  · split at hstep <;> cases hstep
    · exact ⟨h₁, h₂, h₃, h₄, h₅⟩
    · cases hpc
  · split at hstep
    · cases hstep
      cases hpc
    · split at hstep <;> cases hstep
      exact ⟨h₁, h₂, h₃, h₄, h₅⟩
  · cases hstep
    exact ⟨h₁, h₂, h₃, h₄, h₅⟩
  · cases hstep
    exact ⟨h₁, h₂, h₃, h₄, h₅⟩
  · cases hstep
    split at hpc <;> cases hpc
  · split at hstep <;> cases hstep <;> cases hpc
  · cases hstep
    split at hpc <;> cases hpc
  · cases hstep
    cases hpc
  · -- whatever `stop_async()` does, `start()` goes on in the catch block
    simp only [Option.some.injEq] at hstep
    unfold TcpSession.stopAsync at hstep
    split at hstep
    · cases hstep
      cases hpc
    · split at hstep <;> cases hstep <;> cases hpc
  · split at hstep <;> cases hstep
    cases hpc
  · cases hstep

section Step

theorem live_of_canFail {pc : StartPc} (h : pc.canFail = true) : pc.live = true := by
  cases pc <;> first | rfl | cases h

theorem caught_of_catch {pc pc' : StartPc} (h : pc.Catch pc') :
    caught pc = true ∧ caught pc' = true := by
  cases h <;> exact ⟨rfl, rfl⟩

theorem live_of_catch {pc pc' : StartPc} (h : pc.Catch pc') : pc.live = true := by
  cases h <;> rfl

theorem not_early_of_caught {pc : StartPc} (h : caught pc = true) : early pc = false := by
  cases pc <;> first | rfl | cases h

/-- A session that has not left `onConnected` was there before. -/
theorem early_of_move (hm : TcpSession.Move c.session b es sess)
    (hcalled : c.session.startCalled = true) (hpc : early sess.startPc = true) :
    early c.session.startPc = true := by
  cases hm with
  | stopLate pc k q hstop | stopDelegates pc k q hstop | stopCloses pc k q hstop =>
    cases hstop with
    | user => exact hpc
    | catchBlock hold => cases hpc
  | startCalled io k q hnew =>
    rw [hcalled] at hnew
    cases hnew
  | startRuns todo k q hold =>
    rw [hold]
    rfl
  | startSetup x todo k q hold =>
    rw [hold]
    rfl
  | startOwes ag ch k q hold =>
    rw [hold]
    rfl
  | startConnects k q hold =>
    rw [hold]
    rfl
  | startBusy | startFails | startConnected | startReturns | startThrows => cases hpc
  | startCatch ex pc k q hcatch =>
    have hlate := not_early_of_caught (caught_of_catch hcatch).2
    cases hlate.symm.trans hpc
  | _ => exact hpc

/-- A `start()` that is going on was going on before. -/
theorem live_of_move (hm : TcpSession.Move c.session b es sess)
    (hcalled : c.session.startCalled = true) (hpc : sess.startPc.live = true) :
    c.session.startPc.live = true := by
  cases hm with
  | stopLate pc k q hstop | stopDelegates pc k q hstop | stopCloses pc k q hstop =>
    cases hstop with
    | user => exact hpc
    | catchBlock hold =>
      rw [hold]
      rfl
  | startCalled io k q hnew =>
    rw [hcalled] at hnew
    cases hnew
  | startFails ex k q hcan => exact live_of_canFail hcan
  | startCatch ex pc k q hcatch => exact live_of_catch hcatch
  | startRuns todo k q hold =>
    rw [hold]
    rfl
  | startSetup x todo k q hold =>
    rw [hold]
    rfl
  | startOwes ag ch k q hold =>
    rw [hold]
    rfl
  | startConnects k q hold | startConnected k q hold =>
    rw [hold]
    rfl
  | startBusy | startReturns | startThrows => cases hpc
  | _ => exact hpc

theorem startCalled_of_move (hm : TcpSession.Move c.session b es sess)
    (hcalled : c.session.startCalled = true) : sess.startCalled = true := by
  cases hm <;> first | exact hcalled | rfl

/-- `start()` only leaves `onConnected` when `onConn` has ended in the same way. -/
theorem ConnInv.ended_of_allows {a : Agent Tid} {ch : Choice} (h : ConnInv c)
    (hallow : s.allows c (.step a ch) = true) (htop : (c.session.stack a).head? = some .start)
    (hpc : c.session.startPc = .inConnected) : c.onConn.ended ch = true := by
  obtain ⟨k, hk⟩ := List.head?_eq_some_iff.mp htop
  obtain rfl := h.starter a (by rw [hk]; exact List.mem_cons_self)
  simpa [Server.allows, hk, hpc] using And.right (Bool.and_eq_true_iff.mp hallow)

/-- `close_impl()` only leaves `onDisconnected` when `on_session_stopped()` has returned. -/
theorem ConnInv.returned_of_allows {a : Agent Tid} {ch : Choice} {i : ℕ} {ex : Option TcpSession.Exn}
    (h : ConnInv c) (hallow : s.allows c (.step a ch) = true)
    (htop : (c.session.stack a).head? = some (.closeImpl i))
    (hpc : c.session.impls i = .inDisconnected ex) : c.onStop = .returned := by
  obtain ⟨k, hk⟩ := List.head?_eq_some_iff.mp htop
  obtain rfl := h.control.eq_strand (.closeImpl i) hk
  simpa [Server.allows, hk, hpc] using And.right (Bool.and_eq_true_iff.mp hallow)

/-! #### One change at a time -/

section Abreast

variable {c' : Conn}

theorem Conn.Abreast.quiet (h : c.Abreast) (hconn : c'.onConn = c.onConn)
    (hstop : c'.onStop = c.onStop) (hstart : c'.session.startPc = c.session.startPc)
    (howed : c'.session.disconnectionCallbackOwed = c.session.disconnectionCallbackOwed)
    (himpl : c'.session.impls 0 = c.session.impls 0) : c'.Abreast := by
  obtain ⟨h₁, h₂, h₃, h₄, h₅, h₆, h₇, h₈, h₉⟩ := h
  constructor <;> simp only [hconn, hstop, hstart, howed, himpl] <;> assumption

/-- Outside `onConnected` and not past it, `onConn` has not begun. -/
theorem Conn.Abreast.not_inside (h : c.Abreast) (hpc : c.session.startPc ≠ .inConnected) :
    c.onConn.inside = false :=
  Bool.eq_false_iff.mpr fun hin => hpc (h.inside hin)

/-- `start()` is now in its catch block, or has thrown. -/
theorem Conn.Abreast.catches (h : c.Abreast) (hcaught : caught c'.session.startPc = true)
    (hout : c.onConn.inside = false) (hpc : c.session.startPc ≠ .invokeConnected)
    (hconn : c'.onConn = c.onConn) (hstop : c'.onStop = c.onStop)
    (howed : c'.session.disconnectionCallbackOwed = c.session.disconnectionCallbackOwed)
    (himpl : c'.session.impls 0 = c.session.impls 0) : c'.Abreast := by
  obtain ⟨h₁, h₂, h₃, h₄, h₅, h₆, h₇, h₈, h₉⟩ := h
  have hpc' : c'.session.startPc ≠ .invokeConnected := by
    intro heq
    rw [heq] at hcaught
    cases hcaught
  constructor <;> simp only [hconn, hstop, howed, himpl]
  · exact fun _ => .inr hcaught
  · intro hin
    rw [hout] at hin
    cases hin
  · exact fun _ => .inr (.inr (.inr hcaught))
  · exact fun _ => .inr hcaught
  · rw [h₅]
    exact or_congr_right ⟨fun heq => absurd heq hpc, fun heq => absurd heq hpc'⟩
  all_goals assumption

/-- `start()` goes on before it stores the owed flag. -/
theorem Conn.Abreast.prepares (h : c.Abreast) (hidle : c.onConn = .idle)
    (hearly : early c'.session.startPc = true) (hne : c'.session.startPc ≠ .inConnected)
    (hpc : c.session.startPc ≠ .invokeConnected) (hpc' : c'.session.startPc ≠ .invokeConnected)
    (hconn : c'.onConn = c.onConn) (hstop : c'.onStop = c.onStop)
    (howed : c'.session.disconnectionCallbackOwed = c.session.disconnectionCallbackOwed)
    (himpl : c'.session.impls 0 = c.session.impls 0) : c'.Abreast := by
  obtain ⟨h₁, h₂, h₃, h₄, h₅, h₆, h₇, h₈, h₉⟩ := h
  constructor <;> simp only [hconn, hstop, howed, himpl]
  · exact fun _ => .inl ⟨hearly, hne⟩
  · intro hin
    rw [hidle] at hin
    cases hin
  · intro hreturned
    rw [hidle] at hreturned
    cases hreturned
  · intro hfailed
    rw [hidle] at hfailed
    rcases hfailed with hfailed | hfailed <;> cases hfailed
  · rw [h₅]
    exact or_congr_right ⟨fun heq => absurd heq hpc, fun heq => absurd heq hpc'⟩
  all_goals assumption

/-- `start()` goes on after `onConn` has returned. -/
theorem Conn.Abreast.proceeds (h : c.Abreast) (hret : c.onConn = .returned)
    (hnew : c'.session.startPc = .spawnReader ∨ c'.session.startPc = .returned)
    (hconn : c'.onConn = c.onConn) (hstop : c'.onStop = c.onStop)
    (howed : c'.session.disconnectionCallbackOwed = c.session.disconnectionCallbackOwed)
    (himpl : c'.session.impls 0 = c.session.impls 0) : c'.Abreast := by
  obtain ⟨h₁, h₂, h₃, h₄, h₅, h₆, h₇, h₈, h₉⟩ := h
  have hne : c.onConn ≠ .idle := by
    rw [hret]
    exact nofun
  constructor <;> simp only [hconn, hstop, howed, himpl]
  · exact fun hidle => absurd hidle hne
  · intro hin
    rw [hret] at hin
    cases hin
  · exact fun _ => hnew.elim (fun h => .inr (.inl h)) fun h => .inr (.inr (.inl h))
  · intro hfailed
    rw [hret] at hfailed
    rcases hfailed with hfailed | hfailed <;> cases hfailed
  · exact ⟨fun _ => .inl hne, fun _ => h₅.mpr (.inl hne)⟩
  all_goals assumption

/-- Past `onConnected`, and not by an exception, `onConn` has returned. -/
theorem Conn.Abreast.eq_returned (h : c.Abreast) (hpc : c.session.startPc = .spawnReader) :
    c.onConn = .returned := by
  obtain ⟨hidle, hinside, -, hfailed, -⟩ := h
  rw [hpc] at hidle hinside hfailed
  cases honConn : c.onConn with
  | returned => rfl
  | idle =>
    rcases hidle honConn with ⟨hearly, -⟩ | hcaught
    · cases hearly
    · cases hcaught
  | emplaceThrew => rcases hfailed (.inl honConn) with hpc' | hcaught <;> contradiction
  | threw => rcases hfailed (.inr honConn) with hpc' | hcaught <;> contradiction
  | _ => cases hinside (by rw [honConn]; rfl)

/-- `on_session_stopped()` only begins when `close_impl()` has decided to invoke it. -/
theorem Conn.Abreast.stop_idle (h : c.Abreast) (hpc : (c.session.impls 0).decided = false) :
    c.onStop = .idle := by
  have hreturned := h.stopReturned
  have hinside := h.stopInside
  cases honStop : c.onStop with
  | idle => rfl
  | returned =>
    rw [hreturned honStop] at hpc
    cases hpc
  | _ =>
    rw [decided_of_inCallback (hinside (by rw [honStop]; rfl))] at hpc
    cases hpc

/-- `close_impl()` goes on before it looks at the owed flag. -/
theorem Conn.Abreast.undecided {pc : ImplPc} (h : c.Abreast)
    (hold : (c.session.impls 0).decided = false) (himpl : c'.session.impls 0 = pc)
    (hnew : pc.decided = false) (hconn : c'.onConn = c.onConn)
    (hstop : c'.onStop = c.onStop) (hstart : c'.session.startPc = c.session.startPc)
    (howed : c'.session.disconnectionCallbackOwed = c.session.disconnectionCallbackOwed) :
    c'.Abreast := by
  have hidle : c'.onStop = .idle := hstop.trans (h.stop_idle hold)
  obtain ⟨h₁, h₂, h₃, h₄, h₅, -⟩ := h
  constructor <;> simp only [hconn, hidle, hstart, howed]
  · assumption
  · assumption
  · assumption
  · assumption
  · assumption
  · intro _
    rw [himpl]
    cases pc <;> first | rfl | cases hnew
  · exact nofun
  · exact nofun
  · rw [himpl]
    rintro (rfl | rfl) <;> cases hnew

/-- `close_impl()` is past `on_session_stopped()`, or has found the flag clear. -/
theorem Conn.Abreast.decides {pc : ImplPc} (h : c.Abreast) (himpl : c'.session.impls 0 = pc)
    (hnew : pc = .storeStopped ∨ pc = .finished) (hold : c.onStop.inside = false)
    (hpaired : c.session.disconnectionCallbackOwed = true → c.onStop = .returned)
    (hconn : c'.onConn = c.onConn) (hstop : c'.onStop = c.onStop)
    (hstart : c'.session.startPc = c.session.startPc)
    (howed : c'.session.disconnectionCallbackOwed = c.session.disconnectionCallbackOwed) :
    c'.Abreast := by
  obtain ⟨h₁, h₂, h₃, h₄, h₅, -⟩ := h
  constructor <;> simp only [hconn, hstop, hstart, howed]
  · assumption
  · assumption
  · assumption
  · assumption
  · assumption
  · rintro -
    rw [himpl]
    rcases hnew with rfl | rfl <;> rfl
  · intro hin
    rw [hold] at hin
    cases hin
  · rintro -
    rw [himpl]
    rcases hnew with rfl | rfl <;> rfl
  · exact fun _ => hpaired

end Abreast

theorem OnConnPc.returned_of_ended {pc : OnConnPc} {ch : Choice} (h : pc.ended ch = true)
    (hch : ch ≠ .fail) : pc = .returned := by
  cases pc <;> cases ch <;> first | rfl | exact absurd rfl hch | cases h

/-- The session enters and leaves its callbacks together with the closures. -/
theorem ConnInv.abreast_step (h : ConnInv c) (hallow : s.allows c b = true)
    (hm : TcpSession.Move c.session b es sess) : ({ c with session := sess }.enter es).Abreast := by
  obtain ⟨m, hl⟩ := h.life
  have ha := h.abreast
  have hself (pc : ImplPc) : Function.update c.session.impls 0 pc 0 = pc := Function.update_self ..
  cases hm with
  | stopLate pc k q hstop | stopDelegates pc k q hstop | stopCloses pc k q hstop =>
    cases hstop with
    | user => exact ha.quiet rfl rfl rfl rfl rfl
    | catchBlock hold =>
      exact ha.catches rfl (ha.not_inside (by rw [hold]; nofun)) (by rw [hold]; nofun) rfl rfl rfl rfl
  | startCalled io k q hnew =>
    rw [h.called] at hnew
    cases hnew
  | startRuns todo k q hold =>
    have hidle := ha.eq_idle (by rw [hold]; rfl) (by rw [hold]; nofun)
    exact ha.prepares hidle rfl nofun (by rw [hold]; nofun) nofun rfl rfl rfl rfl
  | startSetup x todo k q hold =>
    have hidle := ha.eq_idle (by rw [hold]; rfl) (by rw [hold]; nofun)
    exact ha.prepares hidle rfl nofun (by rw [hold]; nofun) nofun rfl rfl rfl rfl
  | startBusy k q hold | startThrows k q hold =>
    exact ha.catches rfl (ha.not_inside (by rw [hold]; nofun)) (by rw [hold]; nofun) rfl rfl rfl rfl
  | startCatch ex pc k q hcatch =>
    obtain ⟨hold, hnew⟩ := caught_of_catch hcatch
    refine ha.catches hnew (ha.not_inside fun heq => ?_) (fun heq => ?_) rfl rfl rfl rfl
    · rw [heq] at hold
      cases hold
    · rw [heq] at hold
      cases hold
  | startFails ex k q hpc ag hact htop =>
    have hout : c.onConn.inside = false := by
      by_cases hin : c.session.startPc = .inConnected
      · exact OnConnPc.inside_of_ended (h.ended_of_allows (hact ▸ hallow) htop hin)
      · exact ha.not_inside hin
    refine ha.catches rfl hout (fun heq => ?_) rfl rfl rfl rfl
    rw [heq] at hpc
    cases hpc
  | startOwes ag ch k q hold =>
    -- nobody else has been at the session, so no `close_impl()` has read the flag
    have hidle := ha.eq_idle (by rw [hold]; rfl) (by rw [hold]; nofun)
    have himpl := (h.untouched (by rw [hidle]; rfl) (by rw [hold]; rfl)).impls 0
    have hnone {p : Prop} {pc : OnConnPc} (hne : pc ≠ .idle) (heq : c.onConn = pc) : p :=
      absurd (heq.symm.trans hidle) hne
    refine ⟨fun _ => .inl ⟨rfl, nofun⟩, fun hin => ?_, hnone nofun, fun hf => ?_,
      ⟨fun _ => .inr rfl, fun _ => rfl⟩, ha.stopIdle, ha.stopInside, ha.stopReturned, ?_⟩
    · have hin : c.onConn.inside = true := hin
      rw [hidle] at hin
      cases hin
    · exact hf.elim (hnone nofun) (hnone nofun)
    · rintro (hpc | hpc) <;> cases himpl.symm.trans hpc
  | startConnects k q hold =>
    have hidle := ha.eq_idle (by rw [hold]; rfl) (by rw [hold]; nofun)
    refine ⟨nofun, fun _ => rfl, nofun, fun hf => ?_,
      ⟨fun _ => .inl nofun, fun _ => ha.owed.mpr (.inr hold)⟩, ha.stopIdle, ha.stopInside,
      ha.stopReturned, ha.paired⟩
    rcases hf with hf | hf <;> cases hf
  | startConnected k q hold ag ch hact hch htop =>
    have hended := h.ended_of_allows (hact ▸ hallow) htop hold
    exact ha.proceeds (OnConnPc.returned_of_ended hended hch) (.inl rfl) rfl rfl rfl rfl
  | startReturns k q hold => exact ha.proceeds (ha.eq_returned hold) (.inr rfl) rfl rfl rfl rfl
  | closeWins c₀ cur k q hpc hstate =>
    by_cases hfirst : c.session.closeWins = 0
    · have hunborn := hl.unborn 0 (Nat.le_of_eq hfirst)
      have hfirst' : Function.update c.session.impls c.session.closeWins .dispatching 0 =
          .dispatching := by rw [hfirst, Function.update_self]
      exact ha.undecided (by rw [hunborn]; rfl) hfirst' rfl rfl rfl rfl rfl
    · exact ha.quiet rfl rfl rfl rfl (Function.update_of_ne (Ne.symm hfirst) _ _)
  | dispatch c₀ i pc k q hpc himpl hnew =>
    obtain rfl := hl.impl_eq_zero (i := i) (by rw [himpl]; nofun)
    refine ha.undecided (by rw [himpl]; rfl) (hself pc) ?_ rfl rfl rfl rfl
    rcases hnew with rfl | rfl <;> rfl
  | implCloses ag ch i k q hpc =>
    obtain rfl := hl.impl_eq_zero (i := i) (by rw [hpc]; nofun)
    exact ha.undecided (by rw [hpc]; rfl) (hself .readException) rfl rfl rfl rfl rfl
  | implAdvance i pc k q hadvance hdone =>
    obtain rfl := hl.impl_eq_zero (i := i) (by rintro hu; rw [hu] at hadvance; cases hadvance)
    generalize hold : c.session.impls 0 = old at hadvance
    cases hadvance with
    | run => exact ha.undecided (by rw [hold]; rfl) (hself .closeSocket) rfl rfl rfl rfl rfl
    | read ex => exact ha.undecided (by rw [hold]; rfl) (hself (.checkOwed ex)) rfl rfl rfl rfl rfl
    | done ex =>
      obtain ⟨ag, ch, hact, htop⟩ := hdone ex hold
      have hret := h.returned_of_allows (hact ▸ hallow) htop hold
      exact ha.decides (hself .storeStopped) (.inl rfl) (by rw [hret]; rfl) (fun _ => hret) rfl rfl
        rfl rfl
  | implOwed i ex k q hpc =>
    obtain rfl := hl.impl_eq_zero (i := i) (by rw [hpc]; nofun)
    refine ⟨ha.idle, ha.inside, ha.returned, ha.failed, ha.owed, nofun, fun _ => ?_, nofun, ?_⟩
    · show inCallback (Function.update c.session.impls 0 (.inDisconnected ex) 0) = true
      rw [hself]
      rfl
    · rintro (heq | heq) <;> cases (hself _).symm.trans heq
  | implNotOwed i ex k q hpc howed =>
    obtain rfl := hl.impl_eq_zero (i := i) (by rw [hpc]; nofun)
    have hidle := ha.stop_idle (by rw [hpc]; rfl)
    refine ha.decides (hself .storeStopped) (.inl rfl) (by rw [hidle]; rfl) (fun ho => ?_) rfl rfl rfl
      rfl
    rw [howed] at ho
    cases ho
  | implStops i k q hpc =>
    obtain rfl := hl.impl_eq_zero (i := i) (by rw [hpc]; nofun)
    have hout : c.onStop.inside = false := by
      rw [Bool.eq_false_iff]
      intro hin
      have hcallback := ha.stopInside hin
      rw [hpc] at hcallback
      cases hcallback
    exact ha.decides (hself .finished) (.inr rfl) hout (ha.paired (.inl hpc)) rfl rfl rfl rfl
  | _ => exact ha.quiet rfl rfl rfl rfl rfl

theorem published_of_enter (h : ConnInv c) (hm : TcpSession.Move c.session b es sess)
    (hpub : ({ c with session := sess }.enter es).onConn.published = false) :
    c.onConn.published = false := by
  cases hm with
  | startConnects k q hpc =>
    rw [h.abreast.eq_idle (by rw [hpc]; rfl) (by simp [hpc])]
    rfl
  | _ => exact hpub

/-- **A step of the session keeps the invariant of its connection.** -/
theorem ConnInv.session_step (h : ConnInv c) (hallow : s.allows c b = true)
    (hstep : TcpSession.step o c.session b = some (sess, es)) :
    ConnInv ({ c with session := sess }.enter es) := by
  have hm := TcpSession.step_move hstep
  have hturn := TcpSession.step_turn h.control h.called hstep
  obtain ⟨m, hl⟩ := h.life
  refine
    { control := ?_, life := ?_, called := ?_, starter := ?_, live := ?_, untouched := ?_
      abreast := h.abreast_step hallow hm }
  · rw [Conn.enter_session]
    exact h.control.step hstep
  · rw [Conn.enter_session]
    exact ⟨_, hl.step hm⟩
  · rw [Conn.enter_session]
    exact startCalled_of_move hm h.called
  · intro a ha
    rw [Conn.enter_session] at ha
    rw [Conn.enter_listener]
    by_cases hag : a = b.agent
    · subst hag
      exact h.starter _ (hturn.start ha)
    · have ha' : Frame.start ∈ sess.stack a := ha
      rw [hturn.others a hag] at ha'
      exact h.starter a ha'
  · intro hpc
    rw [Conn.enter_session] at hpc ⊢
    rw [Conn.enter_listener]
    have hmem := h.live (live_of_move hm h.called hpc)
    by_cases hag : .thread (.listener c.listener) = b.agent
    · rw [hag] at hmem ⊢
      exact hturn.live hmem hpc
    · show Frame.start ∈ sess.stack (.thread (.listener c.listener))
      rw [hturn.others _ hag]
      exact hmem
  · intro hpub hpc
    rw [Conn.enter_session] at hpc ⊢
    rw [Conn.enter_listener]
    have hpub' := published_of_enter h hm hpub
    have huntouched := h.untouched hpub' (early_of_move hm h.called hpc)
    obtain ⟨ch, -, hstart⟩ := huntouched.step hpub' hallow hstep
    exact huntouched.start hstart hpc

end Step

end Session

/-! ## The other steps of a connection -/

/-- A stop thread calls `stop_async()` of a published session. -/
theorem ConnInv.stopBy {c : Conn} (h : ConnInv c) (hpub : c.onConn.published = true) (k : ℕ) :
    ConnInv (c.stopBy k) where
  control := by
    have hcall := TcpSession.call_control (a := .thread (Tid.stopper k)) h.control .stopAsync
      fun _ hst => by cases hst
    exact hcall
  life := by
    obtain ⟨m, hl⟩ := h.life
    have hmove : TcpSession.Move c.session (.call (.thread (.stopper k)) .stopAsync) []
        (TcpSession.call c.session (.thread (.stopper k)) .stopAsync) := TcpSession.call_move _ _ rfl
    exact ⟨_, hl.step hmove⟩
  called := h.called
  starter a ha := by
    refine h.starter a ?_
    simp only [Conn.stopBy, TcpSession.call, Session.setStack, Function.update_apply] at ha
    split at ha
    · rename_i heq
      rw [heq]
      simpa using ha
    · exact ha
  live hpc := by
    have hmem := h.live hpc
    simp only [Conn.stopBy, TcpSession.call, Session.setStack, Function.update_apply]
    rwa [if_neg (by simp)]
  untouched hpub' _ := by
    rw [show (c.stopBy k).onConn = c.onConn from rfl, hpub] at hpub'
    cases hpub'
  abreast := ⟨h.abreast.idle, h.abreast.inside, h.abreast.returned, h.abreast.failed,
    h.abreast.owed, h.abreast.stopIdle, h.abreast.stopInside, h.abreast.stopReturned,
    h.abreast.paired⟩

/-- A step of `onConn`. -/
theorem ConnInv.onConn_step {c : Conn} (h : ConnInv c) (pc : OnConnPc)
    (hin : c.onConn.inside = true) (hpub : c.onConn.published = true → pc.published = true)
    (hne : pc ≠ .idle) : ConnInv { c with onConn := pc } where
  control := h.control
  life := h.life
  called := h.called
  starter := h.starter
  live := h.live
  untouched hpub' := h.untouched (by
    rw [Bool.eq_false_iff]
    intro hp
    rw [hpub hp] at hpub'
    cases hpub')
  abreast := by
    obtain ⟨h₁, h₂, h₃, h₄, h₅, h₆, h₇, h₈, h₉⟩ := h.abreast
    have hconnected := h₂ hin
    have hidle : c.onConn ≠ .idle := by
      intro hidle
      rw [hidle] at hin
      cases hin
    exact
      { idle := fun heq => absurd heq hne
        inside := fun _ => hconnected
        returned := fun _ => .inl hconnected
        failed := fun _ => .inl hconnected
        owed := ⟨fun _ => .inl hne, fun _ => h₅.mpr (.inl hidle)⟩
        stopIdle := h₆
        stopInside := h₇
        stopReturned := h₈
        paired := h₉ }

/-- A step of `on_session_stopped()`. -/
theorem ConnInv.onStop_step {c : Conn} (h : ConnInv c) (pc : OnStopPc)
    (hin : c.onStop.inside = true) (hnew : pc.inside = true ∨ pc = .returned) :
    ConnInv { c with onStop := pc } where
  control := h.control
  life := h.life
  called := h.called
  starter := h.starter
  live := h.live
  untouched := h.untouched
  abreast := by
    obtain ⟨h₁, h₂, h₃, h₄, h₅, h₆, h₇, h₈, h₉⟩ := h.abreast
    have himpl := h₇ hin
    refine ⟨h₁, h₂, h₃, h₄, h₅, ?_, fun _ => himpl, fun _ => decided_of_inCallback himpl, ?_⟩
    · rintro rfl
      rcases hnew with hnew | hnew <;> cases hnew
    · rintro (hpc | hpc) <;> rw [show c.session.impls 0 = _ from hpc] at himpl <;> cases himpl

/-! ## All connections -/

/-- The connections a stop thread still has before it. -/
def StopperPc.todo : StopperPc → List ℕ
  | .disconnecting todo => todo
  | .inStopAsync _ todo => todo
  | _ => []

/-- Connection `j` has been put into `m_sessions`. -/
def Server.Listed (s : Server) (j : ℕ) : Prop :=
  j < s.connCount ∧ (s.conns j).onConn.published = true

/-- **What holds of the connections.** -/
structure ConnsInv (s : Server) : Prop where
  unborn : ∀ i, s.connCount ≤ i → s.conns i = {}
  conn : ∀ i, i < s.connCount → ConnInv (s.conns i)
  stopper : ∀ i k, (s.conns i).session.stack (.thread (.stopper k)) ≠ [] →
    ∃ todo, s.stoppers k = .inStopAsync i todo
  entries : ∀ p ∈ s.sessions, s.Listed p.2
  todo : ∀ k, ∀ j ∈ (s.stoppers k).todo, s.Listed j

theorem ConnsInv.start : ConnsInv {} where
  unborn _ _ := rfl
  conn i h := by cases h
  stopper _ _ h := absurd rfl h
  entries _ h := by cases h
  todo _ _ h := by cases h

/-- Only a connection that is there has got anywhere. -/
theorem ConnsInv.lt_of_onConn {s : Server} (h : ConnsInv s) {i : ℕ}
    (hpc : (s.conns i).onConn ≠ .idle) : i < s.connCount := by
  by_contra hge
  rw [h.unborn i (by omega)] at hpc
  exact hpc rfl

theorem ConnsInv.lt_of_onStop {s : Server} (h : ConnsInv s) {i : ℕ}
    (hpc : (s.conns i).onStop ≠ .idle) : i < s.connCount := by
  by_contra hge
  rw [h.unborn i (by omega)] at hpc
  exact hpc rfl

section Step

variable {o : TcpSession.Options} {s s' : Server} {a : Action} {es : List Event}

/-- One connection has changed, and has not been taken back. -/
theorem Server.Listed.update {i j : ℕ} {c : Conn} (h : s.Listed j)
    (hconns : s'.conns = Function.update s.conns i c) (hcount : s.connCount ≤ s'.connCount)
    (hpub : (s.conns i).onConn.published = true → c.onConn.published = true) : s'.Listed j := by
  refine ⟨Nat.lt_of_lt_of_le h.1 hcount, ?_⟩
  by_cases hij : j = i
  · rw [hconns, hij, Function.update_self]
    exact hpub (hij ▸ h.2)
  · rw [hconns, Function.update_of_ne hij]
    exact h.2

/-- What is in `m_sessions` was put there by `onConn`, which does not take it back. -/
theorem Server.Listed.step {j : ℕ} (h : s.Listed j) (hc : ConnsInv s) (hm : Move o s a es s') :
    s'.Listed j := by
  have hnone {i : ℕ} {pc pc' : OnConnPc} (hold : (s.conns i).onConn = pc)
      (hunpub : pc.published = false) : (s.conns i).onConn.published = true →
        pc'.published = true := by
    intro hpub
    rw [hold, hunpub] at hpub
    cases hpub
  cases hm with
  | listenerCreates l hlive hpc =>
    refine h.update rfl (Nat.le_succ _) fun hpub => ?_
    rw [hc.unborn _ (Nat.le_refl _)] at hpub
    cases hpub
  | session i b sess es ha hi hallow hstep =>
    refine h.update rfl (Nat.le_refl _) fun hpub => ?_
    by_contra hpub'
    have hold := published_of_enter (hc.conn i hi) (TcpSession.step_move hstep)
      (Bool.eq_false_iff.mpr hpub')
    rw [hpub] at hold
    cases hold
  | stopperStops | disconnects | disconnected | erases | releases =>
    exact h.update rfl (Nat.le_refl _) id
  | counts i hlive hpc | emplaceThrows i hlive hpc =>
    exact h.update rfl (Nat.le_refl _) (hnone hpc rfl)
  | emplaces | creates => exact h.update rfl (Nat.le_refl _) fun _ => rfl
  | created i pc hlive hpc hnew =>
    refine h.update rfl (Nat.le_refl _) fun _ => ?_
    rcases hnew with rfl | rfl <;> rfl
  | _ => exact h

theorem ConnsInv.step_unborn (h : ConnsInv s) (hm : Move o s a es s') (i : ℕ)
    (hi : s'.connCount ≤ i) : s'.conns i = {} := by
  have hborn {j : ℕ} {c : Conn} (hi : s.connCount ≤ i) (hj : j < s.connCount) :
      Function.update s.conns j c i = {} := by
    rw [Function.update_of_ne (by omega)]
    exact h.unborn i hi
  cases hm with
  | listenerCreates l hlive hpc =>
    have hi : s.connCount + 1 ≤ i := hi
    simp only [Server.setConn, Server.setListenerPc, Server.setListener]
    rw [Function.update_of_ne (by omega)]
    exact h.unborn i (by omega)
  | stopperStops k j todo hpc =>
    exact hborn hi (h.todo k j (by rw [hpc]; exact List.mem_cons_self)).1
  | session j b sess es ha hj hallow hstep => exact hborn hi hj
  | counts j hlive hpc | emplaces j hlive hpc | emplaceThrows j hlive hpc | creates j hlive hpc =>
    exact hborn hi (h.lt_of_onConn (by simp [hpc]))
  | created j pc hlive hpc => exact hborn hi (h.lt_of_onConn (by simp [hpc]))
  | disconnects j ex hlive hpc => exact hborn hi (h.lt_of_onStop (by simp [hpc]))
  | disconnected j hlive hpc | erases j hlive hpc | releases j hlive hpc =>
    exact hborn hi (h.lt_of_onStop (by simp [hpc]))
  | _ => exact h.unborn i hi

/-- One connection has changed, and keeps its invariant. -/
theorem ConnsInv.update (h : ConnsInv s) {j : ℕ} {c : Conn}
    (hc : ConnInv (s.conns j) → ConnInv c) {i : ℕ} (hi : i < s.connCount) :
    ConnInv (Function.update s.conns j c i) := by
  by_cases hij : i = j
  · subst hij
    rw [Function.update_self]
    exact hc (h.conn i hi)
  · rw [Function.update_of_ne hij]
    exact h.conn i hi

theorem ConnsInv.step_conn (h : ConnsInv s) (hm : Move o s a es s') (i : ℕ)
    (hi : i < s'.connCount) : ConnInv (s'.conns i) := by
  cases hm with
  | listenerCreates l hlive hpc =>
    simp only [Server.setConn, Server.setListenerPc, Server.setListener] at hi ⊢
    by_cases hij : i = s.connCount
    · rw [hij, Function.update_self]
      exact .new l _ _
    · rw [Function.update_of_ne hij]
      exact h.conn i (by omega)
  | stopperStops k j todo hpc =>
    have hj := h.todo k j (by rw [hpc]; exact List.mem_cons_self)
    exact h.update (fun hc => hc.stopBy hj.2 k) hi
  | session j b sess es ha hj hallow hstep =>
    exact h.update (fun hc => hc.session_step hallow hstep) hi
  | counts j hlive hpc =>
    exact h.update (fun hc => hc.onConn_step _ (by rw [hpc]; rfl)
      (by rw [hpc]; exact fun hp => by cases hp) (by simp)) hi
  | emplaces j hlive hpc =>
    exact h.update (fun hc => hc.onConn_step _ (by rw [hpc]; rfl) (fun _ => rfl) (by simp)) hi
  | emplaceThrows j hlive hpc =>
    exact h.update (fun hc => hc.onConn_step _ (by rw [hpc]; rfl)
      (by rw [hpc]; exact fun hp => by cases hp) (by simp)) hi
  | creates j hlive hpc =>
    exact h.update (fun hc => hc.onConn_step _ (by rw [hpc]; rfl) (fun _ => rfl) (by simp)) hi
  | created j pc hlive hpc hnew =>
    refine h.update (fun hc => hc.onConn_step pc (by rw [hpc]; rfl) ?_ ?_) hi
    · rcases hnew with rfl | rfl <;> exact fun _ => rfl
    · rcases hnew with rfl | rfl <;> simp
  | disconnects j ex hlive hpc =>
    exact h.update (fun hc => hc.onStop_step _ (by rw [hpc]; rfl) (.inl rfl)) hi
  | disconnected j hlive hpc =>
    exact h.update (fun hc => hc.onStop_step _ (by rw [hpc]; rfl) (.inl rfl)) hi
  | erases j hlive hpc =>
    exact h.update (fun hc => hc.onStop_step _ (by rw [hpc]; rfl) (.inl rfl)) hi
  | releases j hlive hpc =>
    exact h.update (fun hc => hc.onStop_step _ (by rw [hpc]; rfl) (.inr rfl)) hi
  | _ => exact h.conn i hi

theorem ConnsInv.step_stopper (h : ConnsInv s) (hn : NumberInv s) (hm : Move o s a es s')
    (i k : ℕ) (hk : (s'.conns i).session.stack (.thread (.stopper k)) ≠ []) :
    ∃ todo, s'.stoppers k = .inStopAsync i todo := by
  have hstopper := h.stopper i k
  have hsame {j : ℕ} {c : Conn}
      (hk : (Function.update s.conns j c i).session.stack (.thread (.stopper k)) ≠ [])
      (hc : c.session = (s.conns j).session) :
      ∃ todo, s.stoppers k = .inStopAsync i todo := by
    refine hstopper ?_
    by_cases hij : i = j
    · rwa [hij, Function.update_self, hc, ← hij] at hk
    · rwa [Function.update_of_ne hij] at hk
  have hother {k' : ℕ} {pc old : StopperPc} (hk : (s.conns i).session.stack (.thread (.stopper k)) ≠ [])
      (hold : s.stoppers k' = old) (hne : ∀ todo, old ≠ .inStopAsync i todo) :
      ∃ todo, Function.update s.stoppers k' pc k = .inStopAsync i todo := by
    obtain ⟨todo, htodo⟩ := hstopper hk
    have hkk : k ≠ k' := by
      rintro rfl
      exact hne todo (hold.symm.trans htodo)
    exact ⟨todo, by rw [Function.update_of_ne hkk, htodo]⟩
  cases hm with
  | listenerCreates l hlive hpc =>
    refine hstopper ?_
    simp only [Server.setConn, Server.setListenerPc, Server.setListener] at hk
    by_cases hij : i = s.connCount
    · rw [hij, Function.update_self] at hk
      exact absurd ((untouched_new l).stack (.thread (.stopper k))) hk
    · rwa [Function.update_of_ne hij] at hk
  | session j b sess es ha hj hallow hstep =>
    refine hstopper ?_
    simp only [Server.setConn] at hk
    by_cases hij : i = j
    · subst hij
      rw [Function.update_self, Conn.enter_session] at hk
      have hc := h.conn i hj
      by_cases hag : .thread (.stopper k) = b.agent
      · -- the stop thread itself makes the step, so it was inside `stop_async()`
        cases b with
        | call ag cl =>
          obtain rfl : .thread (.stopper k) = ag := hag
          cases hallow
        | step ag ch =>
          obtain rfl : .thread (.stopper k) = ag := hag
          intro hnil
          simp [TcpSession.step, hnil] at hstep
        | _ => cases hag
      · have hk' : sess.stack (.thread (.stopper k)) ≠ [] := hk
        rwa [(TcpSession.step_turn hc.control hc.called hstep).others _ hag] at hk'
    · rwa [Function.update_of_ne hij] at hk
  | stopperStops k' j todo hpc =>
    simp only [Server.setConn, Server.setStopper] at hk ⊢
    by_cases hkk : k = k'
    · subst hkk
      by_cases hij : i = j
      · exact ⟨todo, by rw [Function.update_self, hij]⟩
      · rw [Function.update_of_ne hij] at hk
        obtain ⟨todo', htodo⟩ := hstopper hk
        rw [hpc] at htodo
        cases htodo
    · rw [Function.update_of_ne hkk]
      refine hstopper ?_
      by_cases hij : i = j
      · subst hij
        rw [Function.update_self] at hk
        simpa [Conn.stopBy, TcpSession.call, Session.setStack, hkk] using hk
      · rwa [Function.update_of_ne hij] at hk
  | stopperStopped k' j todo hpc hret =>
    obtain ⟨todo', htodo⟩ := hstopper hk
    simp only [Server.setStopper] at hk ⊢
    by_cases hkk : k = k'
    · subst hkk
      rw [hpc] at htodo
      cases htodo
      exact absurd hret hk
    · exact ⟨todo', by rw [Function.update_of_ne hkk, htodo]⟩
  | counts | emplaces | emplaceThrows | creates | created | disconnects | disconnected | erases
  | releases => exact hsame hk rfl
  | stopBegins => exact hother hk (hn.stoppers _ (Nat.le_refl _)) (by simp)
  | stopperPosts k' hpc | stopperCloses k' hpc | stopperAwaits k' hpc | stopperSkips k' hpc
  | listenersGone k' hpc | stopperCopies k' hpc | stopperWaits k' hpc | sessionsGone k' hpc
  | stopperStopsContext k' hpc | stopperNoContext k' hpc | contextGone k' hpc
  | stopperEnds k' hpc => exact hother hk hpc (by simp)
  | _ => exact hstopper hk

theorem mem_emplace {m : List (ℕ × ℕ)} {id i : ℕ} {p : ℕ × ℕ} (h : p ∈ emplace m id i) :
    p ∈ m ∨ p = (id, i) := by
  unfold emplace at h
  split at h
  · exact .inl h
  · simpa using h

theorem ConnsInv.step_entries (h : ConnsInv s) (hm : Move o s a es s') :
    ∀ p ∈ s'.sessions, s'.Listed p.2 := by
  have hkeep : ∀ j, s.Listed j → s'.Listed j := fun j hj => hj.step h hm
  intro p hp
  cases hm with
  | emplaces i hlive hpc =>
    rcases mem_emplace hp with hp | rfl
    · exact hkeep _ (h.entries p hp)
    · refine ⟨h.lt_of_onConn (i := i) (by rw [hpc]; exact OnConnPc.noConfusion), ?_⟩
      simp only [Server.setConn, Function.update_self]
      rfl
  | erases i hlive hpc => exact hkeep _ (h.entries p (List.mem_of_mem_filter hp))
  | _ => exact hkeep _ (h.entries p hp)

theorem ConnsInv.step_todo (h : ConnsInv s) (hm : Move o s a es s') :
    ∀ k, ∀ j ∈ (s'.stoppers k).todo, s'.Listed j := by
  have hkeep : ∀ j, s.Listed j → s'.Listed j := fun j hj => hj.step h hm
  intro k j hj
  have htodo := h.todo k
  have hset {k' : ℕ} {pc : StopperPc} (hpc : ∀ j ∈ pc.todo, s.Listed j)
      (hj : j ∈ (Function.update s.stoppers k' pc k).todo) : s'.Listed j := by
    by_cases hkk : k = k'
    · rw [hkk, Function.update_self] at hj
      exact hkeep _ (hpc j hj)
    · rw [Function.update_of_ne hkk] at hj
      exact hkeep _ (htodo j hj)
  cases hm with
  | stopperCopies k' hpc =>
    refine hset (fun j hj => ?_) hj
    obtain ⟨p, hp, rfl⟩ := List.mem_map.mp hj
    exact h.entries p hp
  | stopperStops k' i todo hpc =>
    refine hset (fun j hj => ?_) hj
    exact h.todo k' j (by rw [hpc]; exact List.mem_cons_of_mem _ hj)
  | stopperStopped k' i todo hpc =>
    refine hset (fun j hj => ?_) hj
    exact h.todo k' j (by rw [hpc]; exact hj)
  | stopBegins | stopperPosts | stopperCloses | stopperAwaits | stopperSkips | listenersGone
  | stopperWaits | sessionsGone | stopperStopsContext | stopperNoContext | contextGone
  | stopperEnds => exact hset (fun j hj => by cases hj) hj
  | _ => exact hkeep _ (htodo j hj)

theorem ConnsInv.step (h : ConnsInv s) (hn : NumberInv s) (hm : Move o s a es s') :
    ConnsInv s' where
  unborn := h.step_unborn hm
  conn := h.step_conn hm
  stopper := h.step_stopper hn hm
  entries := h.step_entries hm
  todo := h.step_todo hm

end Step

/-! ## Runs -/

/-- What the session of connection `i` has shown. -/
def sessionEvents (i : ℕ) (tr : List Event) : List TcpSession.Event :=
  tr.filterMap fun
    | .session j e => if j = i then some e else none
    | _ => none

@[simp] theorem sessionEvents_append (i : ℕ) (tr₁ tr₂ : List Event) :
    sessionEvents i (tr₁ ++ tr₂) = sessionEvents i tr₁ ++ sessionEvents i tr₂ := by
  simp [sessionEvents]

theorem sessionEvents_map (i j : ℕ) (es : List TcpSession.Event) :
    sessionEvents i (es.map (.session j)) = if j = i then es else [] := by
  unfold sessionEvents
  rw [List.filterMap_map]
  split
  · rename_i h
    simp [h]
  · rename_i h
    simp [h]

section Runs

variable {C : Server → Action → Prop} {o : TcpSession.Options} {tr : List Event} {s : Server}

theorem connsInv (h : (system o).Run C tr s) : ConnsInv s := by
  refine invariant_of_moves (I := fun _ s => ConnsInv s) .start ?_ h
  intro tr s a es s' hrun _ hm ih
  exact ih.step (numberInv hrun) hm

/-- The server acts on the session of connection `i` by steps of that session, or leaves it
alone. -/
theorem projects {D : Session Tid → TcpSession.Action Tid → Prop} (i : ℕ)
    (hcall : ∀ sess a c, D sess (.call a c))
    (hsession : ∀ s b, C s (.session i b) → D (s.conns i).session b) :
    Projects (system o) C (TcpSession.system Tid o) D (fun s => (s.conns i).session)
      (sessionEvents i) where
  start := rfl
  nil := rfl
  append := sessionEvents_append i
  step := by
    intro tr s a s' es hrun hC hst
    have hconns := connsInv hrun
    have hm : Move o s a es s' := step_move hst
    cases hm with
    | listenerCreates l hlive hpc =>
      simp only [Server.setConn, Server.setListenerPc, Server.setListener]
      by_cases hi : i = s.connCount
      · right
        rw [hi, Function.update_self, hconns.unborn _ (Nat.le_refl _)]
        exact ⟨.call (.thread (.listener l)) (.start true), hcall _ _ _, rfl⟩
      · left
        rw [Function.update_of_ne hi]
        exact ⟨rfl, rfl⟩
    | stopperStops k j todo hpc =>
      simp only [Server.setConn, Server.setStopper]
      by_cases hi : i = j
      · right
        subst hi
        have hnil : (s.conns i).session.stack (.thread (.stopper k)) = [] := by
          by_contra hne
          obtain ⟨todo', htodo⟩ := hconns.stopper i k hne
          rw [hpc] at htodo
          cases htodo
        refine ⟨.call (.thread (.stopper k)) .stopAsync, hcall _ _ _, ?_⟩
        rw [Function.update_self]
        simp [TcpSession.system, TcpSession.step, Session.canCall, hnil, Conn.stopBy, sessionEvents]
      · left
        rw [Function.update_of_ne hi]
        exact ⟨rfl, rfl⟩
    | session j b sess es ha hj hallow hstep =>
      rw [sessionEvents_map]
      simp only [Server.setConn]
      by_cases hi : i = j
      · right
        subst hi
        subst ha
        refine ⟨b, hsession s b hC, ?_⟩
        rw [Function.update_self, Conn.enter_session, if_pos rfl]
        exact hstep
      · left
        rw [Function.update_of_ne hi, if_neg (Ne.symm hi)]
        exact ⟨rfl, rfl⟩
    | counts j | emplaces j | emplaceThrows j | creates j | created j | disconnects j | disconnected j
    | erases j | releases j =>
      left
      simp only [Server.setConn]
      by_cases hi : i = j
      · subst hi
        rw [Function.update_self]
        exact ⟨rfl, rfl⟩
      · rw [Function.update_of_ne hi]
        exact ⟨rfl, rfl⟩
    | _ => exact .inl ⟨rfl, rfl⟩

/-- **The session of every connection makes a run of `tcp_session`.** -/
theorem session_run (h : (system o).Run C tr s) (i : ℕ) :
    (TcpSession.system Tid o).Run anyStep (sessionEvents i tr) (s.conns i).session :=
  h.project (projects i (fun _ _ _ => trivial) fun _ _ _ => trivial)

end Runs

end TcpServer
