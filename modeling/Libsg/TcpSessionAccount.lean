/-
# Byte accounting and back-pressure

`write()` adds the size of a message to `m_queued_bytes` in the section in which it
queues it; `writer()` moves the size of a batch from there to `m_writing_bytes` in the
section in which it takes it.  `write()` refuses a message while the pending bytes are at
or over the high-water mark, and it tests them before the message is counted.

`Session.writes` and `Session.takes` tell these two sections from all other steps, which
leave the queue, the counters and the scheduling flag alone (`step_cases`).  The batch
taken last is kept beside the session.
-/
import Libsg.TcpSessionWriter

open TransitionSystem

namespace TcpSession

variable {τ : Type}

/-! ## Sizes -/

/-- The bytes of a list of messages. -/
def totalSize (bs : List Buffer) : ℕ := (bs.map List.length).sum

@[simp] theorem totalSize_nil : totalSize [] = 0 := rfl

@[simp] theorem totalSize_cons (b : Buffer) (bs : List Buffer) :
    totalSize (b :: bs) = b.length + totalSize bs := rfl

@[simp] theorem totalSize_append (bs cs : List Buffer) :
    totalSize (bs ++ cs) = totalSize bs + totalSize cs := by
  simp [totalSize]

/-- The `batch` sum of `writer()` is the number of bytes, as a `size_t`. -/
theorem batchSize_eq (bs : List Buffer) : batchSize bs = UInt64.ofNat (totalSize bs) := by
  induction bs with
  | nil => rfl
  | cons b bs ih =>
    have hcons : batchSize (b :: bs) = bufferSize b + batchSize bs := rfl
    rw [hcons, ih, totalSize_cons, UInt64.ofNat_add]
    rfl

/-! ## The two sections -/

/-- The message whose section in `write()` the action enters. -/
def Session.writes (s : Session τ) : Action τ → Option Buffer
  | .step a _ =>
    match s.stack a with
    | .write msg :: _ => some msg
    | _ => none
  | _ => none

/-- The action enters the section of `writer()`. -/
def Session.takes (s : Session τ) : Action τ → Bool
  | .step a _ =>
    match s.stack a with
    | .writer w :: _ => s.writers w = .locking
    | _ => false
  | _ => false

/-- The queue, the counters and the scheduling flag are left alone. -/
structure SameBytes (s s' : Session τ) : Prop where
  msgs : s'.writeMsgs = s.writeMsgs
  queued : s'.queuedBytes = s.queuedBytes
  writing : s'.writingBytes = s.writingBytes
  scheduled : s'.writeScheduled = s.writeScheduled

section Setters

variable {s s' : Session τ}

theorem SameBytes.refl (s : Session τ) : SameBytes s s := ⟨rfl, rfl, rfl, rfl⟩

theorem SameBytes.setStack [DecidableEq τ] (h : SameBytes s s') (a : Agent τ) (k : List Frame) :
    SameBytes s (s'.setStack a k) :=
  ⟨h.msgs, h.queued, h.writing, h.scheduled⟩

theorem SameBytes.setWriter (h : SameBytes s s') (w : ℕ) (pc : WriterPc) :
    SameBytes s (s'.setWriter w pc) :=
  ⟨h.msgs, h.queued, h.writing, h.scheduled⟩

theorem SameBytes.setClose (h : SameBytes s s') (c : ℕ) (pc : ClosePc) :
    SameBytes s (s'.setClose c pc) :=
  ⟨h.msgs, h.queued, h.writing, h.scheduled⟩

theorem SameBytes.setImpl (h : SameBytes s s') (i : ℕ) (pc : ImplPc) :
    SameBytes s (s'.setImpl i pc) :=
  ⟨h.msgs, h.queued, h.writing, h.scheduled⟩

theorem SameBytes.post (h : SameBytes s s') (handler : Handler) : SameBytes s (s'.post handler) :=
  ⟨h.msgs, h.queued, h.writing, h.scheduled⟩

end Setters

section Functions

variable [DecidableEq τ] {o : Options} {s s' : Session τ} {a : Agent τ} {k : List Frame}
  {ch : Choice} {es : List Event}

theorem writeSpawn_same {w : ℕ} (h : writeSpawn s a k w ch = some (s', es)) :
    SameBytes s s' ∧ acceptedMsgs es = [] ∧ asyncWrites es = [] := by
  unfold writeSpawn at h
  repeat' split at h
  all_goals cases h
  all_goals refine ⟨?_, rfl, rfl⟩
  · exact (((SameBytes.refl s).setWriter _ _).post _).setStack a k
  · exact ((SameBytes.refl s).setWriter _ _).setStack a k
  · exact ((SameBytes.refl s).setWriter _ _).setStack _ _

theorem stopAsync_same : SameBytes s (stopAsync s a k).1 ∧
    acceptedMsgs (stopAsync s a k).2 = [] ∧
    asyncWrites (stopAsync s a k).2 = [] := by
  unfold stopAsync
  repeat' split
  all_goals exact ⟨⟨rfl, rfl, rfl, rfl⟩, rfl, rfl⟩

theorem close_same {c : ℕ} (h : close s a k c ch = some (s', es)) :
    SameBytes s s' ∧ acceptedMsgs es = [] ∧ asyncWrites es = [] := by
  unfold close at h
  repeat' split at h
  all_goals cases h
  all_goals refine ⟨?_, rfl, rfl⟩
  · exact (SameBytes.refl s).setClose c _
  · exact ((SameBytes.refl s).setClose c _).setStack a k
  · have hwon : SameBytes s { s with state := .stopping, closeWins := s.closeWins + 1 } :=
      ⟨rfl, rfl, rfl, rfl⟩
    exact (hwon.setImpl _ _).setClose c _
  · exact (SameBytes.refl s).setClose c _
  · exact ((SameBytes.refl s).setClose c _).setStack a k
  · exact (((SameBytes.refl s).setClose c _).setImpl _ _).setStack _ _
  · exact ((((SameBytes.refl s).setClose c _).setImpl _ _).post _).setStack _ k

theorem closeImpl_same {i : ℕ} (h : closeImpl s a k i = some (s', es)) :
    SameBytes s s' ∧ acceptedMsgs es = [] ∧ asyncWrites es = [] := by
  unfold closeImpl at h
  repeat' split at h
  all_goals cases h
  all_goals exact ⟨⟨rfl, rfl, rfl, rfl⟩, rfl, rfl⟩

theorem start_same (h : start o s a k ch = some (s', es)) :
    SameBytes s s' ∧ acceptedMsgs es = [] ∧ asyncWrites es = [] := by
  unfold start at h
  split at h
  case h_9 =>
    have hstop := stopAsync_same (s := { s with startPc := .catchWait }) (a := a) (k := .start :: k)
    rw [Option.some.inj h] at hstop
    obtain ⟨⟨hmsgs, hqueued, hwriting, hscheduled⟩, hes, hout⟩ := hstop
    exact ⟨⟨hmsgs, hqueued, hwriting, hscheduled⟩, hes, hout⟩
  all_goals repeat' split at h
  all_goals cases h
  all_goals exact ⟨⟨rfl, rfl, rfl, rfl⟩, rfl, rfl⟩

theorem reader_same (h : reader o s k ch = some (s', es)) :
    SameBytes s s' ∧ acceptedMsgs es = [] ∧ asyncWrites es = [] := by
  unfold reader at h
  repeat' split at h
  all_goals cases h
  all_goals exact ⟨⟨rfl, rfl, rfl, rfl⟩, rfl, rfl⟩

theorem writer_same {w : ℕ} (h : writer o s k w = some (s', es)) (hpc : s.writers w ≠ .locking) :
    SameBytes s s' ∧ acceptedMsgs es = [] := by
  unfold writer at h
  repeat' split at h
  all_goals first | contradiction | cases h
  all_goals exact ⟨⟨rfl, rfl, rfl, rfl⟩, rfl⟩

theorem runHandler_same {h : Handler} (hrun : runHandler s h = some s') : SameBytes s s' := by
  unfold runHandler at hrun
  repeat' split at hrun
  all_goals cases hrun
  all_goals exact ⟨rfl, rfl, rfl, rfl⟩

/-- `write()` accepts a message. -/
structure Accepts (o : Options) (s s' : Session τ) (msg : Buffer) : Prop where
  running : s.state = .running
  room : o.writeHighWaterMark ≠ 0 → s.pendingBytes < o.writeHighWaterMark
  msgs : s'.writeMsgs = s.writeMsgs ++ [msg]
  queued : s'.queuedBytes = s.queuedBytes + bufferSize msg
  writing : s'.writingBytes = s.writingBytes
  scheduled : s'.writeScheduled = true

/-- `write()` refuses a message. -/
structure Refuses (o : Options) (s s' : Session τ) : Prop where
  full : s.state = .running →
    o.writeHighWaterMark ≠ 0 ∧ o.writeHighWaterMark ≤ s.pendingBytes
  same : SameBytes s s'

theorem write_cases (msg : Buffer) (h : write o s a k msg = (s', es)) :
    (Accepts o s s' msg ∧ es = [.accepted msg]) ∨ (Refuses o s s' ∧ es = [.refused msg]) := by
  unfold write at h
  split at h
  · next hrun =>
    cases h
    exact .inr ⟨⟨fun hyes => absurd hyes hrun, ⟨rfl, rfl, rfl, rfl⟩⟩, rfl⟩
  · next hrun =>
    have hrunning : s.state = .running := not_not.mp hrun
    split at h
    · next hfull =>
      cases h
      exact .inr ⟨⟨fun _ => hfull, ⟨rfl, rfl, rfl, rfl⟩⟩, rfl⟩
    · next hroom =>
      have hlt : o.writeHighWaterMark ≠ 0 → s.pendingBytes < o.writeHighWaterMark := by
        intro hmark
        rw [not_and] at hroom
        exact UInt64.not_le.mp (hroom hmark)
      dsimp only at h
      split at h
      · next hflag =>
        cases h
        exact .inl ⟨⟨hrunning, hlt, rfl, rfl, rfl, hflag⟩, rfl⟩
      · cases h
        exact .inl ⟨⟨hrunning, hlt, rfl, rfl, rfl, rfl⟩, rfl⟩

/-- All other calls leave them alone, and only `writer()` calls `async_write`. -/
theorem frameStep_same {f : Frame} (hwrite : ∀ msg, f ≠ .write msg)
    (htake : ∀ w, f = .writer w → s.writers w ≠ .locking)
    (h : frameStep o s a k ch f = some (s', es)) :
    SameBytes s s' ∧ acceptedMsgs es = [] ∧ ((∀ w, f ≠ .writer w) → asyncWrites es = []) := by
  cases f with
  | write msg => exact absurd rfl (hwrite msg)
  | writer w =>
    obtain ⟨hsame, hes⟩ := writer_same h (htake w rfl)
    exact ⟨hsame, hes, fun hno => absurd rfl (hno w)⟩
  | writeSpawn w =>
    obtain ⟨hsame, hes, hout⟩ := writeSpawn_same h
    exact ⟨hsame, hes, fun _ => hout⟩
  | stopAsync =>
    have hstop := stopAsync_same (s := s) (a := a) (k := k)
    rw [Option.some.inj h] at hstop
    obtain ⟨hsame, hes, hout⟩ := hstop
    exact ⟨hsame, hes, fun _ => hout⟩
  | close c =>
    obtain ⟨hsame, hes, hout⟩ := close_same h
    exact ⟨hsame, hes, fun _ => hout⟩
  | closeImpl i =>
    obtain ⟨hsame, hes, hout⟩ := closeImpl_same h
    exact ⟨hsame, hes, fun _ => hout⟩
  | start =>
    obtain ⟨hsame, hes, hout⟩ := start_same h
    exact ⟨hsame, hes, fun _ => hout⟩
  | reader =>
    obtain ⟨hsame, hes, hout⟩ := reader_same h
    exact ⟨hsame, hes, fun _ => hout⟩

/-- **What one step does to the queue and the counters.** -/
theorem step_cases {act : Action τ} (h : step o s act = some (s', es)) :
    (∃ msg, s.writes act = some msg ∧ s.takes act = false ∧
      ((Accepts o s s' msg ∧ es = [.accepted msg]) ∨ (Refuses o s s' ∧ es = [.refused msg]))) ∨
    (∃ w, s.writers w = .locking ∧ s.writes act = none ∧ s.takes act = true ∧
      s' = writerSection s w ∧ es = []) ∨
    (s.writes act = none ∧ s.takes act = false ∧ SameBytes s s' ∧ acceptedMsgs es = []) := by
  cases act with
  | call a c =>
    refine .inr (.inr ⟨rfl, rfl, ?_⟩)
    simp only [step] at h
    split at h
    · cases h
      refine ⟨?_, rfl⟩
      cases c with
      | start io =>
        unfold call
        dsimp only
        split
        · exact ⟨rfl, rfl, rfl, rfl⟩
        · exact ⟨rfl, rfl, rfl, rfl⟩
      | _ => exact ⟨rfl, rfl, rfl, rfl⟩
    · cases h
  | step a ch =>
    simp only [step] at h
    cases hstack : s.stack a with
    | nil =>
      rw [hstack] at h
      cases h
    | cons f k =>
      rw [hstack] at h
      dsimp only at h
      cases f with
      | write msg =>
        refine .inl ⟨msg, ?_, ?_, write_cases msg (Option.some.inj h)⟩
        · rw [Session.writes, hstack]
        · rw [Session.takes, hstack]
      | writer w =>
        have hwrites : s.writes (.step a ch) = none := by rw [Session.writes, hstack]
        have htakes : s.takes (.step a ch) = decide (s.writers w = .locking) := by
          rw [Session.takes, hstack]
        by_cases hpc : s.writers w = .locking
        · rw [frameStep, writer, hpc] at h
          cases h
          refine .inr (.inl ⟨w, hpc, hwrites, ?_, rfl, rfl⟩)
          rw [htakes, decide_eq_true hpc]
        · have htake : ∀ w', Frame.writer w = .writer w' → s.writers w' ≠ .locking := by
            intro w' hw'
            cases hw'
            exact hpc
          obtain ⟨hsame, hes, -⟩ := frameStep_same (fun _ hf => by cases hf) htake h
          refine .inr (.inr ⟨hwrites, ?_, hsame, hes⟩)
          rw [htakes, decide_eq_false hpc]
      | _ =>
        obtain ⟨hsame, hes, -⟩ :=
          frameStep_same (fun _ hf => by cases hf) (fun _ hf => by cases hf) h
        refine .inr (.inr ⟨?_, ?_, hsame, hes⟩)
        · rw [Session.writes, hstack]
        · rw [Session.takes, hstack]
  | runHandler =>
    refine .inr (.inr ⟨rfl, rfl, ?_⟩)
    simp only [step] at h
    split at h
    · obtain ⟨t, hrun, heq⟩ := Option.map_eq_some_iff.mp h
      cases heq
      obtain ⟨hmsgs, hqueued, hwriting, hscheduled⟩ := runHandler_same hrun
      exact ⟨⟨hmsgs, hqueued, hwriting, hscheduled⟩, rfl⟩
    · cases h
  | readDone r =>
    refine .inr (.inr ⟨rfl, rfl, ?_⟩)
    simp only [step] at h
    split at h
    · cases h
      exact ⟨⟨rfl, rfl, rfl, rfl⟩, rfl⟩
    · cases h
  | writeDone w ec =>
    refine .inr (.inr ⟨rfl, rfl, ?_⟩)
    simp only [step] at h
    split at h
    · split at h
      · cases h
        exact ⟨⟨rfl, rfl, rfl, rfl⟩, rfl⟩
      · cases h
    · cases h

end Functions

/-! ## The batch taken last -/

structure Audit (τ : Type) where
  session : Session τ
  /-- The batch `writer()` took last. -/
  lastBatch : List Buffer

/-- A step of the session, with the batch it takes. -/
def auditStep [DecidableEq τ] (o : Options) (p : Audit τ) (a : Action τ) :
    Option (Audit τ × List Event) :=
  (step o p.session a).map fun (s, es) =>
    (⟨s, if p.session.takes a then p.session.writeMsgs else p.lastBatch⟩, es)

def auditSystem (τ : Type) [DecidableEq τ] (o : Options) :
    TransitionSystem (Audit τ) (Action τ) Event where
  start := ⟨{}, []⟩
  step := auditStep o

/-- The counters are the sizes of what they count. -/
structure AccountInv (p : Audit τ) : Prop where
  queued : p.session.queuedBytes = batchSize p.session.writeMsgs
  writing : p.session.writingBytes = batchSize p.lastBatch

section Step

variable [DecidableEq τ] {o : Options} {p p' : Audit τ} {a : Action τ} {es : List Event}

theorem AccountInv.step (h : AccountInv p) (hstep : auditStep o p a = some (p', es)) :
    AccountInv p' := by
  obtain ⟨hqueued, hwriting⟩ := h
  obtain ⟨⟨s', les⟩, hsession, heq⟩ := Option.map_eq_some_iff.mp hstep
  cases heq
  rcases step_cases hsession with
    ⟨msg, -, htakes, ⟨haccepts, -⟩ | ⟨hrefuses, -⟩⟩ | ⟨w, -, -, htakes, rfl, -⟩ |
    ⟨-, htakes, hsame, -⟩
  · constructor
    · show s'.queuedBytes = batchSize s'.writeMsgs
      rw [haccepts.queued, haccepts.msgs, hqueued, batchSize, batchSize, List.map_append,
        List.sum_append]
      simp
    · show s'.writingBytes = batchSize (if p.session.takes a then _ else _)
      rw [htakes, haccepts.writing]
      exact hwriting
  · constructor
    · show s'.queuedBytes = batchSize s'.writeMsgs
      rw [hrefuses.same.queued, hrefuses.same.msgs]
      exact hqueued
    · show s'.writingBytes = batchSize (if p.session.takes a then _ else _)
      rw [htakes, hrefuses.same.writing]
      exact hwriting
  · constructor
    · show p.session.queuedBytes - batchSize p.session.writeMsgs = 0
      rw [hqueued, UInt64.sub_self]
    · show batchSize p.session.writeMsgs = batchSize (if p.session.takes a then _ else _)
      rw [htakes]
      rfl
  · constructor
    · show s'.queuedBytes = batchSize s'.writeMsgs
      rw [hsame.queued, hsame.msgs]
      exact hqueued
    · show s'.writingBytes = batchSize (if p.session.takes a then _ else _)
      rw [htakes, hsame.writing]
      exact hwriting

/-- The bytes the session has not passed on. -/
def Audit.pending (p : Audit τ) : ℕ := totalSize p.session.writeMsgs + totalSize p.lastBatch

omit [DecidableEq τ] in
theorem AccountInv.pendingBytes (h : AccountInv p) :
    p.session.pendingBytes = UInt64.ofNat p.pending := by
  rw [Session.pendingBytes, h.queued, h.writing, batchSize_eq, batchSize_eq, Audit.pending,
    UInt64.ofNat_add]

/-- A step that accepts `msg` adds its bytes to the pending ones; no other step adds any. -/
theorem pending_step (hstep : auditStep o p a = some (p', es)) :
    (∃ msg, es = [.accepted msg] ∧ Accepts o p.session p'.session msg ∧
      p'.pending = p.pending + msg.length) ∨
    (acceptedMsgs es = [] ∧ p'.pending ≤ p.pending) := by
  obtain ⟨⟨s', les⟩, hsession, heq⟩ := Option.map_eq_some_iff.mp hstep
  cases heq
  unfold Audit.pending
  dsimp only
  rcases step_cases hsession with
    ⟨msg, -, htakes, ⟨haccepts, hes⟩ | ⟨hrefuses, rfl⟩⟩ | ⟨w, -, -, htakes, rfl, rfl⟩ |
    ⟨-, htakes, hsame, hes⟩
  · refine .inl ⟨msg, hes, haccepts, ?_⟩
    rw [htakes, haccepts.msgs, totalSize_append, totalSize_cons, totalSize_nil]
    simp only [Bool.false_eq_true, if_false]
    omega
  · refine .inr ⟨rfl, ?_⟩
    rw [htakes, hrefuses.same.msgs]
    simp
  · refine .inr ⟨rfl, ?_⟩
    rw [htakes]
    simp [writerSection, Session.setWriter]
  · refine .inr ⟨hes, ?_⟩
    rw [htakes, hsame.msgs]
    simp

end Step

/-! ## Runs -/

section Runs

variable [DecidableEq τ] {o : Options} {tr : List Event} {p : Audit τ}

theorem accountInv (h : (auditSystem τ o).Reachable tr p) : AccountInv p := by
  refine Run.invariant (I := fun _ p => AccountInv p) ⟨rfl, rfl⟩ ?_ h
  intro tr p a p' es _ _ hstep ih
  exact ih.step hstep

/-- With a high-water mark, and unless the counters can wrap, the pending bytes stay below the mark
until a message is accepted. -/
theorem pending_le (h : (auditSystem τ o).Reachable tr p) (hmark : o.writeHighWaterMark ≠ 0)
    {largest : ℕ} (hlargest : ∀ msg ∈ acceptedMsgs tr, msg.length ≤ largest)
    (hsmall : o.writeHighWaterMark.toNat - 1 + largest < 2 ^ 64) :
    p.pending ≤ o.writeHighWaterMark.toNat - 1 + largest := by
  refine Run.invariant (I := fun tr p => (∀ msg ∈ acceptedMsgs tr, msg.length ≤ largest) →
    p.pending ≤ o.writeHighWaterMark.toNat - 1 + largest) ?_ ?_ h hlargest
  · intro _
    exact Nat.zero_le _
  · intro tr p a p' es hrun _ hstep ih hbound
    have hbefore := ih fun msg hmem => hbound msg (by
      rw [acceptedMsgs_append]
      exact List.mem_append_left _ hmem)
    rcases pending_step hstep with ⟨msg, rfl, haccepts, hadds⟩ | ⟨-, hle⟩
    · -- the message was accepted because the pending bytes were below the mark
      have hroom := UInt64.lt_iff_toNat_lt.mp (haccepts.room hmark)
      rw [(accountInv hrun).pendingBytes, UInt64.toNat_ofNat',
        Nat.mod_eq_of_lt (Nat.lt_of_le_of_lt hbefore hsmall)] at hroom
      have hmsg := hbound msg (by
        rw [acceptedMsgs_append]
        exact List.mem_append_right _ (List.mem_singleton.mpr rfl))
      omega
    · exact Nat.le_trans hle hbefore

/-- The counters stay below the mark and the largest message, whether or not they can wrap. -/
theorem pendingBytes_le (h : (auditSystem τ o).Reachable tr p) (hmark : o.writeHighWaterMark ≠ 0)
    {largest : ℕ} (hlargest : ∀ msg ∈ acceptedMsgs tr, msg.length ≤ largest) :
    p.session.pendingBytes.toNat ≤ o.writeHighWaterMark.toNat - 1 + largest := by
  by_cases hsmall : o.writeHighWaterMark.toNat - 1 + largest < 2 ^ 64
  · rw [(accountInv h).pendingBytes, UInt64.toNat_ofNat']
    exact Nat.le_trans (Nat.mod_le _ _) (pending_le h hmark hlargest hsmall)
  · have hlt := p.session.pendingBytes.toNat_lt
    omega

/-- **Byte accounting and back-pressure**, for any calls of `write()` and of the stops among the
steps of the coroutines.  Outside the sections the counters are the sizes of the queue and of
the batch taken last, so the subtraction in `writer()` does not underflow; with a high-water
mark the pending bytes never exceed the mark less one and the largest message.  `write()`
accepts a message exactly when the session runs and the pending bytes are below the mark;
when it refuses one, the queue, the counters and the scheduling flag are left alone. -/
theorem accounting (o : Options) :
    (∀ tr p, (auditSystem τ o).Reachable tr p →
      p.session.queuedBytes = UInt64.ofNat (totalSize p.session.writeMsgs) ∧
      p.session.writingBytes = UInt64.ofNat (totalSize p.lastBatch) ∧
      batchSize p.session.writeMsgs ≤ p.session.queuedBytes ∧
      (o.writeHighWaterMark ≠ 0 → ∀ largest, (∀ msg ∈ acceptedMsgs tr, msg.length ≤ largest) →
        p.session.pendingBytes.toNat ≤ o.writeHighWaterMark.toNat - 1 + largest ∧
        (o.writeHighWaterMark.toNat - 1 + largest < 2 ^ 64 →
          p.pending ≤ o.writeHighWaterMark.toNat - 1 + largest))) ∧
    (∀ p a p' es, (auditSystem τ o).step p a = some (p', es) →
      (∀ msg, p.session.writes a = some msg →
        if p.session.state = .running ∧
          (o.writeHighWaterMark ≠ 0 → p.session.pendingBytes < o.writeHighWaterMark) then
          es = [.accepted msg] ∧ Accepts o p.session p'.session msg
        else es = [.refused msg] ∧ SameBytes p.session p'.session) ∧
      ∀ msg, .accepted msg ∈ es → p.session.writes a = some msg) := by
  refine ⟨fun tr p h => ?_, fun p a p' es hstep => ?_⟩
  · have hinv := accountInv h
    refine ⟨hinv.queued.trans (batchSize_eq _), hinv.writing.trans (batchSize_eq _),
      UInt64.le_of_eq hinv.queued.symm, fun hmark largest hlargest => ?_⟩
    exact ⟨pendingBytes_le h hmark hlargest, pending_le h hmark hlargest⟩
  · obtain ⟨⟨s', les⟩, hsession, heq⟩ := Option.map_eq_some_iff.mp hstep
    cases heq
    rcases step_cases hsession with
      ⟨msg, hwrites, -, ⟨haccepts, rfl⟩ | ⟨hrefuses, rfl⟩⟩ | ⟨w, -, hwrites, -, -, rfl⟩ |
      ⟨hwrites, -, -, hes⟩
    · constructor
      · intro msg' hmsg'
        rw [hwrites] at hmsg'
        cases hmsg'
        rw [if_pos ⟨haccepts.running, haccepts.room⟩]
        exact ⟨rfl, haccepts⟩
      · intro msg' hmem
        cases List.mem_singleton.mp hmem
        exact hwrites
    · constructor
      · intro msg' hmsg'
        rw [hwrites] at hmsg'
        cases hmsg'
        rw [if_neg]
        · exact ⟨rfl, hrefuses.same⟩
        · rintro ⟨hrunning, hroom⟩
          obtain ⟨hmark, hle⟩ := hrefuses.full hrunning
          exact UInt64.not_le.mpr (hroom hmark) hle
      · intro msg' hmem
        cases List.mem_singleton.mp hmem
    · constructor
      · intro msg' hmsg'
        rw [hwrites] at hmsg'
        cases hmsg'
      · nofun
    · constructor
      · intro msg' hmsg'
        rw [hwrites] at hmsg'
        cases hmsg'
      · intro msg' hmem
        have hacc : msg' ∈ acceptedMsgs es := List.mem_filterMap.mpr ⟨_, hmem, rfl⟩
        rw [hes] at hacc
        cases hacc

end Runs

section Sample

/-- A message over the mark of 4 bytes is accepted while nothing is pending, a second one is
refused, and the writer takes the first. -/
def markRun : List (Action ℕ) :=
  List.flatten [connectRun,
    [.call (.thread 1) (.write [1, 2, 3, 4, 5, 6]), .step (.thread 1) .ok,
     .call (.thread 2) (.write [7]), .step (.thread 2) .ok, .step (.thread 1) .ok,
     .runHandler, .step .strand .ok]]

theorem accounting_markRun : ∃ tr p,
    (auditSystem ℕ { writeHighWaterMark := 4 }).Reachable tr p ∧
    tr = [.moved .running, .connected, .accepted [1, 2, 3, 4, 5, 6], .refused [7]] ∧
    p.lastBatch = [[1, 2, 3, 4, 5, 6]] ∧ p.session.queuedBytes = 0 ∧
    p.session.writingBytes = 6 ∧ p.session.pendingBytes.toNat ≤ 4 - 1 + 6 := by
  have hexec : ((auditSystem ℕ { writeHighWaterMark := 4 }).exec markRun).map
      (fun r => (r.2, r.1.session.writeMsgs, r.1.lastBatch)) =
      some ([.moved .running, .connected, .accepted [1, 2, 3, 4, 5, 6], .refused [7]], [],
        [[1, 2, 3, 4, 5, 6]]) := by decide +kernel
  obtain ⟨⟨p, tr⟩, hrun, heq⟩ := Option.map_eq_some_iff.mp hexec
  simp only [Prod.mk.injEq] at heq
  obtain ⟨htr, hmsgs, hlast⟩ := heq
  have hreach := runFrom_of_execFrom (execMeets_anyStep _ _) hrun
  obtain ⟨hqueued, hwriting, -, hbound⟩ := (accounting { writeHighWaterMark := 4 }).1 _ _ hreach
  rw [hmsgs] at hqueued
  rw [hlast] at hwriting
  refine ⟨tr, p, hreach, htr, hlast, hqueued, hwriting, ?_⟩
  refine (hbound (by decide) 6 ?_).1
  rw [htr]
  intro msg hmem
  cases List.mem_singleton.mp hmem
  decide

end Sample

end TcpSession
