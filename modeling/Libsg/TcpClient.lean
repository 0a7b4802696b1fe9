/-
# `tcp_client`: one connection after another

The client of `net/src/tcp_client.cpp` owns the pool its sessions run in and one session at a time:
`connect()` stops the session there is, waits until it has stopped, and starts a new one.  The calls
of `connect()` and `disconnect()` come from threads outside the pool, one after the other, since the
client has no lock; from a callback of a session they throw at once.  Whatever the sessions do
meanwhile, and whoever else calls into them, the lives of the sessions follow one another
(`one_at_a_time`), and a call that waits for a session does not wait for nothing (`wait_ends`).

Sessions are numbered in the order of their creation, over the whole history of the client.
-/
import Libsg.TcpSessionOver

open TransitionSystem

namespace TcpClient

open TcpSession (Session Options Over Begun)

variable {τ : Type}

/-! ## The client -/

inductive Call
  | connect
  | disconnect
  deriving DecidableEq, Repr

/-- Where `connect()` or `disconnect()` stands. -/
inductive CallPc (τ : Type)
  | idle
  /-- thread `t` is inside `m_session->stop_async()` -/
  | stopping (t : τ) (c : Call)
  /-- in `m_session->wait_until_stopped()` -/
  | waiting (t : τ) (c : Call)
  /-- `connect()` is about to run the pool, to resolve the endpoint and to connect the socket -/
  | opening (t : τ)
  /-- inside `m_session->start()` -/
  | starting (t : τ)
  deriving DecidableEq

/-- The thread that executes the call. -/
def CallPc.thread : CallPc τ → Option τ
  | .idle => none
  | .stopping t _ | .waiting t _ | .opening t | .starting t => some t

structure Client (τ : Type) where
  sessions : ℕ → Session τ := fun _ => {}
  created : ℕ := 0
  /-- `m_session` -/
  session : Option ℕ := none
  pc : CallPc τ := .idle

inductive Event
  | session (i : ℕ) (e : TcpSession.Event)
  | returned (c : Call)
  | threw (c : Call)
  deriving DecidableEq, Repr

inductive Action (τ : Type)
  /-- a thread outside the pool calls -/
  | call (t : τ) (c : Call)
  /-- a callback of session `i` calls -/
  | callInside (i : ℕ) (c : Call)
  /-- the call makes its next step; `ok` is false when no connection comes about -/
  | caller (ok : Bool)
  | session (i : ℕ) (a : TcpSession.Action τ)

namespace Client

variable (s : Client τ)

def setSession (i : ℕ) (sess : Session τ) : Client τ :=
  { s with sessions := Function.update s.sessions i sess }

@[simp] theorem setSession_self (i : ℕ) (sess : Session τ) :
    (s.setSession i sess).sessions i = sess := Function.update_self ..

theorem setSession_of_ne {i j : ℕ} (hji : j ≠ i) (sess : Session τ) :
    (s.setSession i sess).sessions j = s.sessions j := Function.update_of_ne hji ..

/-- `is_connected()` -/
def isConnected : Bool :=
  match s.session with
  | some i => (s.sessions i).state = .running
  | none => false

/-- Thread `t` executes nothing of a session. -/
def Outside (t : τ) : Prop := ∀ i < s.created, (s.sessions i).stack (.thread t) = []

instance (t : τ) : Decidable (s.Outside t) :=
  inferInstanceAs (Decidable (∀ i < s.created, (s.sessions i).stack (.thread t) = []))

variable [DecidableEq τ]

/-- User code on a thread only calls into a session while it is in no other call.  `onConnected` is
null: it calls nothing and does not throw. -/
def allows (i : ℕ) : TcpSession.Action τ → Bool
  | .call (.thread t) _ => s.Outside t ∧ s.pc.thread ≠ some t
  | .step a .fail =>
    !decide ((s.sessions i).startPc = .inConnected ∧ ((s.sessions i).stack a).head? = some .start)
  | _ => true

/-- `m_session->stop_async()` is called. -/
def stopAsync (i : ℕ) (t : τ) (c : Call) : Client τ :=
  { s.setSession i (TcpSession.call (s.sessions i) (.thread t) .stopAsync) with
    pc := .stopping t c }

end Client

variable [DecidableEq τ]

/-- `connect()` and `disconnect()` up to the call of `stop_async()`. -/
def call (s : Client τ) (t : τ) : Call → Client τ × List Event
  | .connect =>
    if s.isConnected then (s, [.threw .connect])
    else match s.session with
      | some i => (s.stopAsync i t .connect, [])
      | none => ({ s with pc := .opening t }, [])
  | .disconnect =>
    match s.session with
    | some i => (s.stopAsync i t .disconnect, [])
    | none => (s, [.returned .disconnect])

/-- The rest of them. -/
def caller (s : Client τ) (ok : Bool) : Option (Client τ × List Event) :=
  match s.pc, s.session with
  | .stopping t c, some i =>
    if (s.sessions i).stack (.thread t) = [] then some ({ s with pc := .waiting t c }, [])
    else none
  | .waiting t c, some i =>
    if (s.sessions i).state = .stopped then
      match c with
      | .connect => some ({ s with session := none, pc := .opening t }, [])
      | .disconnect => some ({ s with pc := .idle }, [.returned .disconnect])
    else none
  | .opening t, _ =>
    if ok then
      some ({ s.setSession s.created (TcpSession.call {} (.thread t) (.start false)) with
        created := s.created + 1, session := some s.created, pc := .starting t }, [])
    else some ({ s with pc := .idle }, [.threw .connect])
  | .starting _, some i =>
    match (s.sessions i).startPc with
    | .returned => some ({ s with pc := .idle }, [.returned .connect])
    -- the dead session is not left to `session()` and `is_connected()`
    | .threw => some ({ s with session := none, pc := .idle }, [.threw .connect])
    | _ => none
  | _, _ => none

/-- One action; `o i` are the options of the `i`-th session. -/
def step (o : ℕ → Options) (s : Client τ) : Action τ → Option (Client τ × List Event)
  | .call t c =>
    match s.pc with
    | .idle => if s.Outside t then some (call s t c) else none
    | _ => none
  -- `running_in_pool_thread()`
  | .callInside i c =>
    if i < s.created ∧ (s.sessions i).canCall .strand then some (s, [.threw c]) else none
  | .caller ok => caller s ok
  | .session i a =>
    if i < s.created ∧ s.allows i a then
      (TcpSession.step (o i) (s.sessions i) a).map fun r =>
        (s.setSession i r.1, r.2.map (.session i))
    else none

def system (τ : Type) [DecidableEq τ] (o : ℕ → Options) :
    TransitionSystem (Client τ) (Action τ) Event where
  start := {}
  step := step o

/-! ## What one step can do -/

variable {o : ℕ → Options} {s s' : Client τ}

/-- **What one step can do.** -/
inductive Move (o : ℕ → Options) (s : Client τ) : Action τ → List Event → Client τ → Prop
  | refuses {a} (c) : Move o s a [.threw c] s
  | opens {a} (t) (hnone : s.session = none) : Move o s a [] { s with pc := .opening t }
  | nothing {a} (hnone : s.session = none) : Move o s a [.returned .disconnect] s
  | stops {a} (i t c) (hpc : s.pc = .idle) (hsession : s.session = some i) (hout : s.Outside t) :
      Move o s a [] (s.stopAsync i t c)
  | waits {a} (t c) (hpc : s.pc = .stopping t c) : Move o s a [] { s with pc := .waiting t c }
  | reopens {a} (i t) (hpc : s.pc = .waiting t .connect) (hsession : s.session = some i)
      (hstopped : (s.sessions i).state = .stopped) :
      Move o s a [] { s with session := none, pc := .opening t }
  | disconnects {a} (i t) (hpc : s.pc = .waiting t .disconnect) (hsession : s.session = some i)
      (hstopped : (s.sessions i).state = .stopped) :
      Move o s a [.returned .disconnect] { s with pc := .idle }
  | creates {a} (t) (hpc : s.pc = .opening t) :
      Move o s a [] { s.setSession s.created (TcpSession.call {} (.thread t) (.start false)) with
        created := s.created + 1, session := some s.created, pc := .starting t }
  | fails {a} (t) (hpc : s.pc = .opening t) : Move o s a [.threw .connect] { s with pc := .idle }
  | connects {a} (i t) (hpc : s.pc = .starting t) (hsession : s.session = some i)
      (hreturned : (s.sessions i).startPc = .returned) :
      Move o s a [.returned .connect] { s with pc := .idle }
  | drops {a} (i t) (hpc : s.pc = .starting t) (hsession : s.session = some i)
      (hthrew : (s.sessions i).startPc = .threw) :
      Move o s a [.threw .connect] { s with session := none, pc := .idle }
  | session (i a sess es) (hi : i < s.created)
      (hstep : TcpSession.step (o i) (s.sessions i) a = some (sess, es)) :
      Move o s (.session i a) (es.map (.session i)) (s.setSession i sess)

theorem call_move {a : Action τ} {t : τ} {c : Call} (hpc : s.pc = .idle) (hout : s.Outside t) :
    Move o s a (call s t c).2 (call s t c).1 := by
  cases c with
  | connect =>
    rw [call]
    split
    · exact .refuses _
    · split
      · next i hsession => exact .stops i t _ hpc hsession hout
      · next hnone => exact .opens t hnone
  | disconnect =>
    rw [call]
    split
    · next i hsession => exact .stops i t _ hpc hsession hout
    · next hnone => exact .nothing hnone

theorem caller_move {a : Action τ} {ok : Bool} {es : List Event}
    (h : caller s ok = some (s', es)) : Move o s a es s' := by
  unfold caller at h
  split at h
  · next t c i hpc hsession =>
    split at h <;> cases h
    exact .waits t c hpc
  · next t c i hpc hsession =>
    split at h
    · next hstopped =>
      split at h
      · cases h
        exact .reopens i t hpc hsession hstopped
      · cases h
        exact .disconnects i t hpc hsession hstopped
    · cases h
  · next t hpc =>
    split at h
    · cases h
      exact .creates t hpc
    · cases h
      exact .fails t hpc
  · next t i hpc hsession =>
    split at h
    · next hreturned =>
      cases h
      exact .connects i t hpc hsession hreturned
    · next hthrew =>
      cases h
      exact .drops i t hpc hsession hthrew
    · cases h
  · cases h

theorem step_move {a : Action τ} {es : List Event} (h : step o s a = some (s', es)) :
    Move o s a es s' := by
  cases a with
  | call t c =>
    simp only [step] at h
    split at h
    · next hpc =>
      split at h
      · next hout =>
        have hm := call_move (o := o) (a := .call t c) (c := c) hpc hout
        rw [Option.some.inj h] at hm
        exact hm
      · cases h
    · cases h
  | callInside i c =>
    simp only [step] at h
    split at h <;> cases h
    exact .refuses c
  | caller ok => exact caller_move h
  | session i a =>
    simp only [step] at h
    split at h
    · next hi =>
      obtain ⟨⟨sess, es⟩, hstep, heq⟩ := Option.map_eq_some_iff.mp h
      cases heq
      exact .session i a sess es hi.1 hstep
    · cases h

/-! ## Every session is a session -/

/-- What session `i` has shown. -/
def eventsOf (i : ℕ) (tr : List Event) : List TcpSession.Event :=
  tr.filterMap fun
    | .session j e => if j = i then some e else none
    | _ => none

theorem eventsOf_append (i : ℕ) (tr₁ tr₂ : List Event) :
    eventsOf i (tr₁ ++ tr₂) = eventsOf i tr₁ ++ eventsOf i tr₂ := List.filterMap_append

theorem eventsOf_map (i j : ℕ) (es : List TcpSession.Event) :
    eventsOf i (es.map (.session j)) = if j = i then es else [] := by
  unfold eventsOf
  rw [List.filterMap_map]
  split
  · rename_i h
    simp [h]
  · rename_i h
    simp [h]

/-- The session the client has is the one created last. -/
structure NewestInv (s : Client τ) : Prop where
  unborn : ∀ i, s.created ≤ i → s.sessions i = {}
  newest : ∀ i, s.session = some i → i + 1 = s.created

omit [DecidableEq τ] in
theorem NewestInv.born (h : NewestInv s) {i : ℕ} (hsession : s.session = some i) :
    i < s.created := by
  rw [← h.newest i hsession]
  exact Nat.lt_succ_self i

omit [DecidableEq τ] in
theorem NewestInv.setSession (h : NewestInv s) {i : ℕ} (hi : i < s.created) (sess : Session τ) :
    NewestInv (s.setSession i sess) where
  unborn j hj := by
    have hj : s.created ≤ j := hj
    rw [s.setSession_of_ne (by omega)]
    exact h.unborn j hj
  newest := h.newest

theorem NewestInv.step {a : Action τ} {es : List Event} (h : NewestInv s) (hm : Move o s a es s') :
    NewestInv s' := by
  cases hm with
  | refuses | nothing => exact h
  | opens | waits | disconnects | fails | connects => exact ⟨h.unborn, h.newest⟩
  | reopens | drops => exact ⟨h.unborn, by simp⟩
  | stops i t c hpc hsession =>
    have hset := h.setSession (h.born hsession) (TcpSession.call (s.sessions i) (.thread t) .stopAsync)
    exact ⟨hset.unborn, hset.newest⟩
  | creates t hpc =>
    refine ⟨fun j hj => ?_, fun j hj => ?_⟩
    · have hj : s.created + 1 ≤ j := hj
      exact (s.setSession_of_ne (by omega) _).trans (h.unborn j (by omega))
    · rw [Option.some.inj hj]
  | session i a sess es hi => exact h.setSession hi sess

section Runs

variable {C : Client τ → Action τ → Prop} {tr : List Event}

theorem invariant_of_moves {I : List Event → Client τ → Prop} (hstart : I [] {})
    (hmove : ∀ tr s a es s', (system τ o).Run C tr s → C s a → Move o s a es s' → I tr s →
      I (tr ++ es) s')
    (h : (system τ o).Run C tr s) : I tr s := by
  refine Run.invariant (I := I) hstart ?_ h
  intro tr s a s' es hrun hC hst ih
  exact hmove tr s a es s' hrun hC (step_move hst) ih

theorem newestInv (h : (system τ o).Run C tr s) : NewestInv s := by
  refine invariant_of_moves (I := fun _ s => NewestInv s) ⟨fun _ _ => rfl, by simp⟩ ?_ h
  intro tr s a es s' _ _ hm ih
  exact ih.step hm

/-- Every session runs by itself. -/
theorem projects {D : Session τ → TcpSession.Action τ → Prop} (i : ℕ)
    (hcall : ∀ sess t c, D sess (.call (.thread t) c))
    (hsession : ∀ s b, C s (.session i b) → D (s.sessions i) b) :
    Projects (system τ o) C (TcpSession.system τ (o i)) D (fun s => s.sessions i)
      (eventsOf i) where
  start := rfl
  nil := rfl
  append := eventsOf_append i
  step := by
    intro tr s a s' es hrun hC hst
    have hnewest := newestInv hrun
    have hm : Move o s a es s' := step_move hst
    cases hm with
    | stops j t c hpc hsome hout =>
      by_cases hi : i = j
      · right
        subst hi
        have hstack := hout i (hnewest.born hsome)
        refine ⟨.call (.thread t) .stopAsync, hcall _ _ _, ?_⟩
        have hsess : (s.stopAsync i t c).sessions i =
            TcpSession.call (s.sessions i) (.thread t) .stopAsync := s.setSession_self ..
        rw [hsess]
        simp [TcpSession.system, TcpSession.step, Session.canCall, hstack, eventsOf]
      · left
        exact ⟨s.setSession_of_ne hi _, rfl⟩
    | creates t hpc =>
      by_cases hi : i = s.created
      · right
        subst hi
        refine ⟨.call (.thread t) (.start false), hcall _ _ _, ?_⟩
        rw [hnewest.unborn _ (Nat.le_refl _)]
        show _ = some ((s.setSession s.created _).sessions s.created, [])
        rw [s.setSession_self]
        rfl
      · left
        exact ⟨s.setSession_of_ne hi _, rfl⟩
    | session j b sess es hj hstep =>
      rw [eventsOf_map]
      by_cases hi : i = j
      · right
        subst hi
        refine ⟨b, hsession s b hC, ?_⟩
        rw [if_pos rfl, s.setSession_self]
        exact hstep
      · left
        rw [if_neg (Ne.symm hi)]
        exact ⟨s.setSession_of_ne hi _, rfl⟩
    | _ => exact .inl ⟨rfl, rfl⟩

theorem session_run (h : (system τ o).Run C tr s) (i : ℕ) :
    (TcpSession.system τ (o i)).Reachable (eventsOf i tr) (s.sessions i) :=
  h.project (projects i (fun _ _ _ => trivial) fun _ _ _ => trivial)

end Runs

/-! ## One session at a time -/

/-- Every session was begun outside the pool, and every session but the client's is over. -/
structure LivesInv (s : Client τ) : Prop where
  begun : ∀ i < s.created, Begun (s.sessions i)
  others : ∀ i < s.created, s.session ≠ some i → Over (s.sessions i)
  returned : (∀ t, s.pc ≠ .starting t) → ∀ i, s.session = some i →
    (s.sessions i).startPc = .returned
  opening : ∀ t, s.pc = .opening t → s.session = none

omit [DecidableEq τ] in
/-- A session has gone on. -/
theorem LivesInv.setSession (h : LivesInv s) {i : ℕ} {sess : Session τ} (hbegun : Begun sess)
    (hover : Over (s.sessions i) → Over sess)
    (hreturned : (s.sessions i).startPc = .returned → sess.startPc = .returned) :
    LivesInv (s.setSession i sess) := by
  constructor
  · intro j hj
    by_cases hji : j = i
    · rw [hji, s.setSession_self]
      exact hbegun
    · rw [s.setSession_of_ne hji]
      exact h.begun j hj
  · intro j hj hsession
    have hold := h.others j hj hsession
    by_cases hji : j = i
    · rw [hji, s.setSession_self]
      exact hover (hji ▸ hold)
    · rw [s.setSession_of_ne hji]
      exact hold
  · intro hpc j hsession
    have hold := h.returned hpc j hsession
    by_cases hji : j = i
    · rw [hji, s.setSession_self]
      exact hreturned (hji ▸ hold)
    · rw [s.setSession_of_ne hji]
      exact hold
  · exact h.opening

omit [DecidableEq τ] in
/-- The client gives up its session, which has stopped. -/
theorem LivesInv.release (h : LivesInv s) {i : ℕ} (hsession : s.session = some i)
    (hover : Over (s.sessions i)) (pc : CallPc τ) :
    LivesInv { s with session := none, pc := pc } := by
  refine ⟨h.begun, fun j hj _ => ?_, by simp, fun _ _ => rfl⟩
  by_cases hji : j = i
  · rw [hji]
    exact hover
  · refine h.others j hj fun hj => hji ?_
    exact Option.some.inj (hj.symm.trans hsession)

theorem LivesInv.step {a : Action τ} {es : List Event} (h : LivesInv s) (hn : NewestInv s)
    (hlife : ∀ i, ∃ m, TcpSession.LifeInv m (s.sessions i)) (hm : Move o s a es s') :
    LivesInv s' := by
  cases hm with
  | refuses | nothing => exact h
  | opens t hnone =>
    refine ⟨h.begun, h.others, fun _ i hi => ?_, fun _ _ => hnone⟩
    cases hnone.symm.trans hi
  | waits t c hpc =>
    exact ⟨h.begun, h.others, fun _ => h.returned (by simp [hpc]), by simp⟩
  | disconnects i t hpc =>
    exact ⟨h.begun, h.others, fun _ => h.returned (by simp [hpc]), by simp⟩
  | fails t hpc => exact ⟨h.begun, h.others, fun _ => h.returned (by simp [hpc]), by simp⟩
  | connects i t hpc hsession hreturned =>
    refine ⟨h.begun, h.others, fun _ j hj => ?_, by simp⟩
    obtain rfl := Option.some.inj (hsession.symm.trans hj)
    exact hreturned
  | reopens i t hpc hsession hstopped =>
    -- outside `m_session->start()` the client's session is one whose `start()` has returned
    exact h.release hsession ⟨.inl (h.returned (by simp [hpc]) i hsession), hstopped⟩ _
  | drops i t hpc hsession hthrew =>
    -- `start()` has waited until the session stopped before it threw
    exact h.release hsession ⟨.inr hthrew, (h.begun i (hn.born hsession)).threw hthrew⟩ _
  | stops i t c hpc hsession =>
    have hbegun := h.begun i (hn.born hsession)
    have hset : LivesInv (s.setSession i
        (TcpSession.call (s.sessions i) (.thread t) .stopAsync)) :=
      h.setSession ⟨hbegun.called, hbegun.apart, hbegun.threw⟩
        (fun hover => ⟨hover.left, hover.stopped⟩) id
    refine ⟨hset.begun, hset.others, fun _ => hset.returned ?_, fun _ hopening => ?_⟩
    · show ∀ t, s.pc ≠ .starting t
      simp [hpc]
    · cases hopening
  | creates t hpc =>
    -- the client had no session, so that all the others are over already
    have hnone := h.opening t hpc
    refine ⟨fun i hi => ?_, fun i hi hne => ?_, fun hpc => absurd rfl (hpc t), by simp⟩
    · by_cases hic : i = s.created
      · rw [hic]
        show Begun ((s.setSession s.created _).sessions s.created)
        rw [s.setSession_self]
        exact ⟨rfl, rfl, fun hthrew => by cases hthrew⟩
      · have hi : i < s.created + 1 := hi
        show Begun ((s.setSession s.created _).sessions i)
        rw [s.setSession_of_ne hic]
        exact h.begun i (by omega)
    · have hic : i ≠ s.created := fun heq => hne (congrArg some heq.symm)
      have hi : i < s.created + 1 := hi
      show Over ((s.setSession s.created _).sessions i)
      rw [s.setSession_of_ne hic]
      exact h.others i (by omega) (by simp [hnone])
  | session i a sess es hi hstep =>
    obtain ⟨m, hl⟩ := hlife i
    have hbegun := h.begun i hi
    have hmove := TcpSession.step_move hstep
    refine h.setSession (hbegun.step hl hstep)
      (fun hover => (hover.move hl hbegun.called hmove).1) fun hreturned => ?_
    rw [hmove.startPc_eq hbegun.called (.inl hreturned)]
    exact hreturned

/-- The sessions that the events of a kind belong to, one after the other. -/
def owners (p : TcpSession.Event → Bool) (tr : List Event) : List ℕ :=
  tr.filterMap fun
    | .session i e => if p e then some i else none
    | _ => none

theorem owners_append (p : TcpSession.Event → Bool) (tr₁ tr₂ : List Event) :
    owners p (tr₁ ++ tr₂) = owners p tr₁ ++ owners p tr₂ := List.filterMap_append

theorem mem_owners_map {p : TcpSession.Event → Bool} {i j : ℕ} {es : List TcpSession.Event} :
    i ∈ owners p (es.map (.session j)) ↔ i = j ∧ ∃ e ∈ es, p e = true := by
  unfold owners
  rw [List.filterMap_map, List.mem_filterMap]
  constructor
  · rintro ⟨e, he, hi⟩
    simp only [Function.comp_apply] at hi
    split at hi
    · next hp => exact ⟨(Option.some.inj hi).symm, e, he, hp⟩
    · cases hi
  · rintro ⟨rfl, e, he, hp⟩
    exact ⟨e, he, by simp [hp]⟩

/-- The events of a kind come in the order of the sessions. -/
structure OrderInv (p : TcpSession.Event → Bool) (tr : List Event) (s : Client τ) : Prop where
  sorted : (owners p tr).Pairwise (· ≤ ·)
  born : ∀ i ∈ owners p tr, i < s.created

omit [DecidableEq τ] in
/-- Whatever belongs to the kind comes from the newest session. -/
theorem OrderInv.append {p : TcpSession.Event → Bool} {tr es : List Event}
    (h : OrderInv p tr s) (hcreated : s.created ≤ s'.created)
    (hes : ∀ i ∈ owners p es, i + 1 = s.created) : OrderInv p (tr ++ es) s' where
  sorted := by
    rw [owners_append, List.pairwise_append]
    refine ⟨h.sorted, List.pairwise_of_forall_mem_list fun i hi j hj => ?_, fun i hi j hj => ?_⟩
    · have := hes i hi
      have := hes j hj
      omega
    · have := h.born i hi
      have := hes j hj
      omega
  born i hi := by
    rw [owners_append] at hi
    rcases List.mem_append.mp hi with hi | hi
    · exact Nat.lt_of_lt_of_le (h.born i hi) hcreated
    · have := hes i hi
      omega

/-- What a session has read it passes on before its socket is closed. -/
def readsInTime (s : Client τ) : Action τ → Prop
  | .session i a => TcpSession.readsBeforeClose (s.sessions i) a
  | _ => True

section Runs

variable {C : Client τ → Action τ → Prop} {tr : List Event}

theorem livesInv (h : (system τ o).Run C tr s) : LivesInv s := by
  refine invariant_of_moves (I := fun _ s => LivesInv s) ?_ ?_ h
  · exact ⟨by simp, by simp, by simp, by simp⟩
  · intro tr s a es s' hrun _ hm ih
    exact ih.step (newestInv hrun)
      (fun i => ⟨_, TcpSession.lifeInv (session_run hrun i)⟩) hm

/-- Events that no session shows once it is over come in the order of the sessions. -/
theorem ordered {p : TcpSession.Event → Bool}
    (hp : ∀ tr s i a sess es, (system τ o).Run C tr s → C s (.session i a) → i < s.created →
      TcpSession.Move (s.sessions i) a es sess → Over (s.sessions i) → ∀ e ∈ es, p e = false)
    (h : (system τ o).Run C tr s) : OrderInv p tr s := by
  refine invariant_of_moves (I := OrderInv p) ⟨List.Pairwise.nil, by simp [owners]⟩ ?_ h
  intro tr s a es s' hrun hC hm ih
  cases hm with
  | session i a sess es hi hstep =>
    refine ih.append (Nat.le_refl _) fun j hj => ?_
    obtain ⟨rfl, e, he, hpe⟩ := mem_owners_map.mp hj
    -- a session that is not the client's own is over and shows no event of the kind
    by_cases hsession : s.session = some j
    · exact (newestInv hrun).newest j hsession
    · have hover := (livesInv hrun).others j hi hsession
      have hnone := hp tr s j a sess es hrun hC hi (TcpSession.step_move hstep) hover e he
      cases hpe.symm.trans hnone
  | creates => exact ih.append (Nat.le_succ _) (by simp [owners])
  | _ => exact ih.append (Nat.le_refl _) (by simp [owners])

/-- **One connection at a time.**  Every session of the client lives as a `tcp_session` does, and
the lives follow one another: in the order of the sessions come their moves, their accepted
messages and their callbacks of connection and disconnection, and the data too where each session
passes on what it has read before it closes.  A session that has not stopped is the client's own,
`is_connected()` says whether one is running, and when `disconnect()` returns none is left. -/
theorem one_at_a_time (h : (system τ o).Reachable tr s) :
    (∀ i, (TcpSession.system τ (o i)).Reachable (eventsOf i tr) (s.sessions i)) ∧
      (owners TcpSession.Event.ofLife tr).Pairwise (· ≤ ·) ∧
      ((system τ o).Run readsInTime tr s →
        (owners TcpSession.Event.toUser tr).Pairwise (· ≤ ·)) ∧
      (∀ i, (s.sessions i).state ≠ .stopped → s.session = some i ∧ i + 1 = s.created) ∧
      (s.isConnected = true ↔ ∃ i, (s.sessions i).state = .running) ∧
      ∀ a s' es, (system τ o).step s a = some (s', es) → .returned .disconnect ∈ es →
        ∀ i, (s'.sessions i).state = .stopped := by
  have hnewest := newestInv h
  have hlives := livesInv h
  have hown : ∀ i, (s.sessions i).state ≠ .stopped → s.session = some i ∧ i + 1 = s.created := by
    intro i hi
    have hborn : i < s.created := by
      by_contra hunborn
      rw [hnewest.unborn i (by omega)] at hi
      exact hi rfl
    have hsession : s.session = some i := by
      by_contra hother
      exact hi (hlives.others i hborn hother).stopped
    exact ⟨hsession, hnewest.newest i hsession⟩
  refine ⟨session_run h, ?_, fun hread => ?_, hown, ?_, fun a s' es hst hes => ?_⟩
  · refine (ordered ?_ h).sorted
    intro tr s i a sess es hrun _ hi hm hover
    exact (hover.move (TcpSession.lifeInv (session_run hrun i)) ((livesInv hrun).begun i hi).called
      hm).2
  · refine (ordered ?_ hread).sorted
    intro tr s i a sess es hrun _ hi hm hover
    have hsess : (TcpSession.system τ (o i)).Run TcpSession.readsBeforeClose (eventsOf i tr)
        (s.sessions i) :=
      hrun.project (projects i (fun _ _ _ => rfl) fun _ _ hC => hC)
    exact hover.silent (TcpSession.lifeInv hsess) (TcpSession.implInv hsess)
      (TcpSession.silentInv hsess) ((livesInv hrun).begun i hi).called hm
  · rw [Client.isConnected]
    constructor
    · intro hconnected
      split at hconnected
      · next i _ => exact ⟨i, of_decide_eq_true hconnected⟩
      · cases hconnected
    · rintro ⟨i, hrunning⟩
      rw [(hown i (by simp [hrunning])).1]
      exact decide_eq_true hrunning
  · have hstopped {j : ℕ} (hj : s.session = some j → (s.sessions j).state = .stopped) :
        (s.sessions j).state = .stopped := by
      by_contra hne
      exact hne (hj (hown j hne).1)
    cases step_move hst with
    | nothing hnone =>
      intro i
      exact hstopped fun hi => by cases hnone.symm.trans hi
    | disconnects j t hpc hsession hj =>
      intro i
      refine hstopped fun hi => ?_
      rw [← Option.some.inj (hsession.symm.trans hi)]
      exact hj
    | _ => simp at hes

/-- **Nobody waits for nothing.**  When `connect()` or `disconnect()` waits for its session and
nothing of the session is queued or executing on the strand, pending in the socket, or left to
another thread that is stopping it or about to spawn its writer, the wait is over. -/
theorem wait_ends (h : (system τ o).Reachable tr s) {t : τ} {c : Call} {i : ℕ}
    (hpc : s.pc = .waiting t c) (hsession : s.session = some i) (hidle : (s.sessions i).Idle)
    (hhands : (s.sessions i).inHands = false) (ok : Bool) :
    ((system τ o).step s (.caller ok)).isSome = true := by
  have hrun := session_run h i
  have hreturned : (s.sessions i).startPc = .returned :=
    (livesInv h).returned (by simp [hpc]) i hsession
  have hfinished := TcpSession.finished_of_idle hrun (.inl hreturned) hidle hhands
  have hstopped : (s.sessions i).state = .stopped :=
    (Over.of_finished (TcpSession.lifeInv hrun) (.inl hreturned) hfinished).stopped
  show (caller s ok).isSome = true
  simp only [caller, hpc, hsession, if_pos hstopped]
  cases c with
  | connect => rfl
  | disconnect => rfl

end Runs

section Sample

/-- `connect()` on thread 0 after the session there was has stopped; session `i` is started. -/
def connectAgain (i : ℕ) : List (Action ℕ) :=
  .caller true :: List.replicate 9 (.session i (.step (.thread 0) .ok)) ++ [.caller true]

/-- The strand of session 0 takes its first handler, which makes `n` steps. -/
def handle (n : ℕ) : List (Action ℕ) :=
  .session 0 .runHandler :: List.replicate n (.session 0 (.step .strand .ok))

/-- `disconnect()` on thread 0 up to the wait for session 0, and its `close_impl()`. -/
def disconnectRun : List (Action ℕ) :=
  [[.call 0 .connect], connectAgain 0, handle 2, [.call 0 .disconnect],
    List.replicate 4 (.session 0 (.step (.thread 0) .ok)), [.caller true], handle 5].flatten

/-- Thread 0 connects, disconnects, and connects again. -/
def twiceRun : List (Action ℕ) :=
  [disconnectRun, [.caller true, .call 0 .connect, .session 0 (.step (.thread 0) .ok),
    .caller true, .caller true], connectAgain 1].flatten

theorem twiceRun_enabled : ((system ℕ fun _ => {}).exec twiceRun).isSome = true := by
  decide +kernel

/-- The second session begins to live after the first one has ended. -/
theorem one_at_a_time_twiceRun : ∃ tr s, (system ℕ fun _ => {}).Reachable tr s ∧
    owners TcpSession.Event.ofLife tr = [0, 0, 0, 0, 0, 0, 0, 1, 1] ∧
    (owners TcpSession.Event.ofLife tr).Pairwise (· ≤ ·) ∧
    (s.isConnected = true ↔ ∃ i, (s.sessions i).state = .running) := by
  have hrun := reachable_exec twiceRun_enabled
  obtain ⟨-, hsorted, -, -, hconnected, -⟩ := one_at_a_time hrun
  exact ⟨_, _, hrun, by decide +kernel, hsorted, hconnected⟩

/-- Thread 0 connects, and its `disconnect()` waits; the session stops, and its reader ends. -/
def waitRun : List (Action ℕ) :=
  [disconnectRun, [.session 0 (.readDone (.error .operationAborted))], handle 5].flatten

theorem waitRun_enabled : ((system ℕ fun _ => {}).exec waitRun).isSome = true := by
  decide +kernel

/-- Nothing is left of the session, and `disconnect()` can return. -/
theorem wait_ends_waitRun : ∃ tr s, (system ℕ fun _ => {}).Reachable tr s ∧
    s.pc = .waiting 0 .disconnect ∧
    ((system ℕ fun _ => {}).step s (.caller true)).isSome = true := by
  have hrun := reachable_exec waitRun_enabled
  have hwriter := TcpSession.writerInv (session_run hrun 0)
  have hpc : (((system ℕ fun _ => {}).exec waitRun).get waitRun_enabled).1.pc =
      .waiting 0 .disconnect := by decide +kernel
  refine ⟨_, _, hrun, hpc, wait_ends hrun hpc (i := 0) (by decide +kernel)
    ⟨by decide +kernel, by decide +kernel, by decide +kernel, fun w b => ?_⟩
    (by decide +kernel) true⟩
  rw [hwriter.unborn w]
  · simp
  · have hspawned : ((((system ℕ fun _ => {}).exec waitRun).get waitRun_enabled).1.sessions
        0).spawned = 0 := by decide +kernel
    rw [hspawned]
    exact Nat.zero_le w

end Sample

end TcpClient
