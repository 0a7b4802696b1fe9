/-
# `pending_bytes()` without the lock

A batch that has been subtracted when `m_queued_bytes` is loaded, and not been stored when
`m_writing_bytes` is, is in neither counter.  A call of `pending_bytes()` keeps the batch
whose move it saw last in the counter it loaded first; `countsEveryBatch` compares that
with what the other counter shows.  What a call knows between its two loads is
`HoldsQueued` or `HoldsWriting`, and every operation keeps it.
-/
import Libsg.TcpSessionPolling

open TransitionSystem

namespace TcpSession

variable {τ : Type}

/-! ## The condition -/

/-- The second load of a call shows that no batch is in neither counter: the batch subtracted last
when `m_queued_bytes` was loaded has been stored when `m_writing_bytes` is, or is no larger
than what is stored there.  And the bytes unsent stay below half of what a counter holds. -/
def countsEveryBatch (p : Polled τ) : PollAction τ → Prop
  | .session a =>
    match p.session.writes a with
    | some msg => p.unsent + msg.length < 2 ^ 63
    | none => True
  | .loadQueued t =>
    match p.polls t with
    | .loadedWriting _ value batch _ =>
      p.subtracted.last ≤ batch.last ∨ p.subtracted.size p.accepted ≤ value.toNat
    | _ => True
  | .loadWriting t =>
    match p.polls t with
    | .loadedQueued _ _ batch _ =>
      batch.last ≤ p.stored.last ∨ batch.size p.accepted ≤ p.writingBytes.toNat
    | _ => True
  | _ => True

instance (p : Polled τ) (a : PollAction τ) : Decidable (countsEveryBatch p a) := by
  unfold countsEveryBatch
  split
  · split <;> infer_instance
  · split <;> infer_instance
  · split <;> infer_instance
  · infer_instance

/-! ## The calls of `pending_bytes()` -/

/-- What a call knows that has loaded `m_queued_bytes`.  When nothing was queued and something has
been unsent ever since, every batch moved since has bytes. -/
structure HoldsQueued (p : Polled τ) (n : ℕ) (value : UInt64) (batch : Range) (drained : Bool) :
    Prop where
  accepted : n ≤ p.accepted.length
  first : batch.first ≤ p.sent
  last : batch.last ≤ p.accepted.length
  counts : value.toNat = totalSize ((p.accepted.take n).drop batch.last)
  small : value.toNat < 2 ^ 63
  moving : batch.last ≤ p.stored.last ∨
    ((∃ b, p.sectionPc = .subtracted b) ∧ p.subtracted = batch ∧ n = p.accepted.length)
  busy : drained = false → value = 0 → batch.size p.accepted ≠ 0 ∧
    p.subtracted.size p.accepted ≠ 0 ∧
    (∀ b, p.sectionPc = .swapped b → totalSize b ≠ 0) ∧
    (batch.last ≤ p.stored.last → p.stored.size p.accepted ≠ 0)

/-- What a call knows that has loaded `m_writing_bytes`. -/
structure HoldsWriting (p : Polled τ) (n : ℕ) (value : UInt64) (batch : Range) : Prop where
  accepted : n ≤ p.accepted.length
  first : batch.first ≤ p.sent
  last : batch.last ≤ p.accepted.length
  counts : value.toNat = batch.size p.accepted
  small : value.toNat < 2 ^ 63

def PollPc.Holds (p : Polled τ) : PollPc → Prop
  | .idle => True
  | .loadedQueued n value batch drained => HoldsQueued p n value batch drained
  | .loadedWriting n value batch _ => HoldsWriting p n value batch

/-- The counters cannot wrap. -/
structure SmallInv (p : Polled τ) : Prop where
  unsent : p.unsent < 2 ^ 63
  subtracted : p.subtracted.size p.accepted < 2 ^ 63
  stored : p.stored.size p.accepted < 2 ^ 63

/-- What holds while every batch is counted. -/
structure CallsInv (p : Polled τ) : Prop where
  polling : PollingInv p
  small : SmallInv p
  calls : ∀ t, (p.polls t).Holds p

section Calls

variable {p p' : Polled τ} {n : ℕ} {value : UInt64} {batch : Range} {drained : Bool}

theorem PollingInv.sent_le (h : PollingInv p) : p.sent ≤ p.accepted.length := by
  have hlast := h.sent.last
  unfold Polled.taken at hlast
  split at hlast
  · next b hpc =>
    have hqueue := congrArg List.length h.queue
    rw [hpc, List.length_drop, List.length_append] at hqueue
    have hheld : (SectionPc.swapped b).held.length = b.length := rfl
    have hle := h.le
    dsimp only at hlast
    omega
  · exact Nat.le_trans hlast h.le

/-- More messages, more of them sent. -/
theorem HoldsQueued.of (h : HoldsQueued p n value batch drained) (xs : List Buffer)
    (haccepted : p'.accepted = p.accepted ++ xs) (hsent : p.sent ≤ p'.sent) {drained' : Bool}
    (hmoving : batch.last ≤ p'.stored.last ∨
      ((∃ b, p'.sectionPc = .subtracted b) ∧ p'.subtracted = batch ∧ n = p'.accepted.length))
    (hbusy : drained' = false → value = 0 → batch.size p'.accepted ≠ 0 ∧
      p'.subtracted.size p'.accepted ≠ 0 ∧
      (∀ b, p'.sectionPc = .swapped b → totalSize b ≠ 0) ∧
      (batch.last ≤ p'.stored.last → p'.stored.size p'.accepted ≠ 0)) :
    HoldsQueued p' n value batch drained' := by
  have hlength : p.accepted.length ≤ p'.accepted.length := by
    rw [haccepted, List.length_append]
    exact Nat.le_add_right _ _
  refine ⟨Nat.le_trans h.accepted hlength, Nat.le_trans h.first hsent, Nat.le_trans h.last hlength,
    ?_, h.small, hmoving, hbusy⟩
  rw [haccepted, List.take_append_of_le_length h.accepted]
  exact h.counts

theorem HoldsWriting.of (h : HoldsWriting p n value batch) (xs : List Buffer)
    (haccepted : p'.accepted = p.accepted ++ xs) (hsent : p.sent ≤ p'.sent) :
    HoldsWriting p' n value batch := by
  have hlength : p.accepted.length ≤ p'.accepted.length := by
    rw [haccepted, List.length_append]
    exact Nat.le_add_right _ _
  refine ⟨Nat.le_trans h.accepted hlength, Nat.le_trans h.first hsent, Nat.le_trans h.last hlength,
    ?_, h.small⟩
  rw [haccepted, Range.size_append h.last]
  exact h.counts

theorem HoldsQueued.see (h : HoldsQueued p n value batch drained) :
    HoldsQueued p.see n value batch drained :=
  ⟨h.accepted, h.first, h.last, h.counts, h.small, h.moving, h.busy⟩

theorem HoldsWriting.see (h : HoldsWriting p n value batch) : HoldsWriting p.see n value batch :=
  ⟨h.accepted, h.first, h.last, h.counts, h.small⟩

theorem SmallInv.see (h : SmallInv p) : SmallInv p.see :=
  ⟨h.unsent, h.subtracted, h.stored⟩

/-- A call sees whether anything is unsent. -/
theorem PollPc.Holds.see {pc : PollPc} (h : pc.Holds p) {d : Bool}
    (hqueued : ∀ n value batch drained, HoldsQueued p n value batch drained →
      HoldsQueued p' n value batch (drained || d))
    (hwriting : ∀ n value batch, HoldsWriting p n value batch → HoldsWriting p' n value batch) :
    (pc.see d).Holds p' := by
  cases pc with
  | idle => trivial
  | loadedQueued n value batch drained => exact hqueued _ _ _ _ h
  | loadedWriting n value batch drained => exact hwriting _ _ _ h

/-- Nothing has moved. -/
theorem HoldsQueued.same (h : HoldsQueued p n value batch drained) {q : Polled τ}
    (haccepted : q.accepted = p.accepted) (hsent : q.sent = p.sent)
    (hpc : q.sectionPc = p.sectionPc) (hsubtracted : q.subtracted = p.subtracted)
    (hstored : q.stored = p.stored) (d : Bool) :
    HoldsQueued q n value batch (drained || d) := by
  refine h.of [] ?_ (Nat.le_of_eq hsent.symm) ?_ ?_
  · rw [haccepted, List.append_nil]
  · rw [hpc, hsubtracted, hstored, haccepted]
    exact h.moving
  · intro hno hzero
    rw [Bool.or_eq_false_iff] at hno
    rw [hpc, hsubtracted, hstored, haccepted]
    exact h.busy hno.1 hzero

theorem SmallInv.same (h : SmallInv p) (haccepted : p'.accepted = p.accepted)
    (hsent : p'.sent = p.sent) (hsubtracted : p'.subtracted = p.subtracted)
    (hstored : p'.stored = p.stored) : SmallInv p' := by
  refine ⟨?_, ?_, ?_⟩
  · rw [Polled.unsent, haccepted, hsent]
    exact h.unsent
  · rw [haccepted, hsubtracted]
    exact h.subtracted
  · rw [haccepted, hstored]
    exact h.stored

/-- A step of the session that takes no batch. -/
theorem CallsInv.move [DecidableEq τ] {o : Options} {a : Action τ} (h : CallsInv p)
    {s : Session τ} {les : List Event} (hstep : step o p.session a = some (s, les))
    (htakes : p.session.takes a = false) (hopen : p.sectionPc ≠ .free → p.session.blocked a = false)
    (hcounts : countsEveryBatch p (.session a)) {q : Polled τ} (hq : q = { p with
      session := s
      queuedBytes := p.queuedBytes + batchSize (acceptedMsgs les)
      accepted := p.accepted ++ acceptedMsgs les
      sent := p.sent + p.session.completes a }) : CallsInv q.see := by
  have hpolling : PollingInv q := by
    rw [hq]
    exact h.polling.move hstep htakes hopen
  have haccepted : q.accepted = p.accepted ++ acceptedMsgs les := by rw [hq]
  have hsent : p.sent ≤ q.sent := by
    rw [hq]
    exact Nat.le_add_right _ _
  have hsubtracted : q.subtracted = p.subtracted := by rw [hq]
  have hstored : q.stored = p.stored := by rw [hq]
  have hpc : q.sectionPc = p.sectionPc := by rw [hq]
  have hpolls : q.polls = p.polls := by rw [hq]
  have hle := h.polling.le
  have hstoredLe := Nat.le_trans h.polling.stored_le hle
  -- while the section is open nothing is accepted
  have hnone : p.sectionPc ≠ .free → acceptedMsgs les = [] :=
    fun hne => (step_unblocked hstep (hopen hne)).2.2.2.1
  refine ⟨hpolling.see, ?_, fun t => ?_⟩
  · refine SmallInv.see ⟨?_, ?_, ?_⟩
    · have hdrop : (p.accepted ++ acceptedMsgs les).drop p.sent =
          p.accepted.drop p.sent ++ acceptedMsgs les :=
        List.drop_append_of_le_length h.polling.sent_le
      have hanti := totalSize_drop_anti q.accepted hsent
      rw [haccepted, hdrop, totalSize_append, ← haccepted] at hanti
      have hbefore := h.small.unsent
      rw [Polled.unsent] at hbefore ⊢
      unfold countsEveryBatch at hcounts
      dsimp only at hcounts
      rcases step_cases hstep with
        ⟨msg, hwrites, -, ⟨-, rfl⟩ | ⟨-, rfl⟩⟩ | ⟨w, -, -, hyes, -⟩ | ⟨-, -, -, hes⟩
      · rw [hwrites] at hcounts
        have hsingle : totalSize (acceptedMsgs [.accepted msg]) = msg.length := Nat.add_zero _
        rw [Polled.unsent] at hcounts
        dsimp only at hcounts
        omega
      · have hempty : totalSize (acceptedMsgs [.refused msg]) = 0 := rfl
        omega
      · rw [htakes] at hyes
        cases hyes
      · rw [hes, totalSize_nil] at hanti
        omega
    · rw [haccepted, hsubtracted, Range.size_append hle]
      exact h.small.subtracted
    · rw [haccepted, hstored, Range.size_append hstoredLe]
      exact h.small.stored
  · show ((q.polls t).see _).Holds q.see
    rw [hpolls]
    refine (h.calls t).see (fun n value batch drained hold => ?_) fun n value batch hold =>
      (hold.of _ haccepted hsent).see
    refine (hold.of _ haccepted hsent ?_ ?_).see
    · rw [hpc, hsubtracted, hstored, haccepted]
      refine hold.moving.imp id fun ⟨hb, hsame, hn⟩ => ⟨hb, hsame, ?_⟩
      obtain ⟨b, hb⟩ := hb
      rw [hnone (by rw [hb]; nofun), List.append_nil]
      exact hn
    · intro hno hzero
      rw [Bool.or_eq_false_iff] at hno
      obtain ⟨hbatch, hsub, hswapped, hsto⟩ := hold.busy hno.1 hzero
      rw [hpc, hsubtracted, hstored, haccepted, Range.size_append hold.last, Range.size_append hle,
        Range.size_append hstoredLe]
      exact ⟨hbatch, hsub, hswapped, hsto⟩

/-- The section of `writer()` takes the queue: what it takes is all that is unsent. -/
theorem CallsInv.take [DecidableEq τ] {o : Options} {a : Action τ} (h : CallsInv p)
    {s : Session τ} {les : List Event} (hstep : step o p.session a = some (s, les))
    (htakes : p.session.takes a = true) (hfree : p.sectionPc = .free) {q : Polled τ}
    (hq : q = { p with session := s, sectionPc := .swapped p.session.writeMsgs }) :
    CallsInv q.see := by
  have hpolling : PollingInv q := by
    rw [hq]
    exact h.polling.take hstep htakes hfree
  have haccepted : q.accepted = p.accepted ++ [] := by rw [hq, List.append_nil]
  have hsent : q.sent = p.sent := by rw [hq]
  have hsubtracted : q.subtracted = p.subtracted := by rw [hq]
  have hstored : q.stored = p.stored := by rw [hq]
  have hpc : q.sectionPc = .swapped p.session.writeMsgs := by rw [hq]
  have hpolls : q.polls = p.polls := by rw [hq]
  have hunsent : q.unsent = totalSize p.session.writeMsgs := by
    have hqueue := h.polling.queue
    rw [hfree] at hqueue
    rw [Polled.unsent, hpolling.sent_of_swapped hpc, haccepted, hsubtracted, List.append_nil, hqueue]
    rfl
  refine ⟨hpolling.see, ?_, fun t => ?_⟩
  · exact (h.small.same (by rw [hq]) hsent hsubtracted hstored).see
  · show ((q.polls t).see _).Holds q.see
    rw [hpolls]
    refine (h.calls t).see (fun n value batch drained hold => ?_) fun n value batch hold =>
      (hold.of _ haccepted (Nat.le_of_eq hsent.symm)).see
    refine (hold.of _ haccepted (Nat.le_of_eq hsent.symm) ?_ ?_).see
    · rw [hstored]
      refine hold.moving.imp id fun ⟨⟨b, hb⟩, _⟩ => ?_
      rw [hfree] at hb
      cases hb
    · intro hno hzero
      rw [Bool.or_eq_false_iff] at hno
      obtain ⟨hbatch, hsub, -, hsto⟩ := hold.busy hno.1 hzero
      have hunsentNe : q.unsent ≠ 0 := by simpa using hno.2
      rw [hsubtracted, hstored, haccepted, List.append_nil]
      refine ⟨hbatch, hsub, fun b hb => ?_, hsto⟩
      rw [hpc] at hb
      cases hb
      rwa [← hunsent]

/-- The batch is subtracted. -/
theorem CallsInv.subtract (h : CallsInv p) {b : List Buffer} (hpc : p.sectionPc = .swapped b)
    {q : Polled τ} (hq : q = { p with
      sectionPc := .subtracted b
      queuedBytes := p.queuedBytes - batchSize b
      subtracted := ⟨p.subtracted.last, p.subtracted.last + b.length⟩ }) : CallsInv q.see := by
  have hpolling : PollingInv q := by
    rw [hq]
    exact h.polling.subtract hpc
  have haccepted : q.accepted = p.accepted ++ [] := by rw [hq, List.append_nil]
  have hsent : q.sent = p.sent := by rw [hq]
  have hstored : q.stored = p.stored := by rw [hq]
  have hpc' : q.sectionPc = .subtracted b := by rw [hq]
  have hpolls : q.polls = p.polls := by rw [hq]
  have hsize : q.subtracted.size q.accepted = totalSize b := by
    have hranges := hpolling.ranges
    rw [Polled.Ranges, hpc'] at hranges
    rw [Range.size, hranges.2]
  refine ⟨hpolling.see, ?_, fun t => ?_⟩
  · refine SmallInv.see ⟨?_, ?_, ?_⟩
    · rw [Polled.unsent, haccepted, hsent, List.append_nil]
      exact h.small.unsent
    · -- the batch was unsent
      have hunsent := h.small.unsent
      have hqueue := h.polling.queue
      rw [hpc] at hqueue
      rw [Polled.unsent, h.polling.sent_of_swapped hpc, hqueue, totalSize_append] at hunsent
      have hheld : totalSize (SectionPc.swapped b).held = totalSize b := rfl
      omega
    · rw [haccepted, hstored, List.append_nil]
      exact h.small.stored
  · show ((q.polls t).see _).Holds q.see
    rw [hpolls]
    refine (h.calls t).see (fun n value batch drained hold => ?_) fun n value batch hold =>
      (hold.of _ haccepted (Nat.le_of_eq hsent.symm)).see
    refine (hold.of _ haccepted (Nat.le_of_eq hsent.symm) ?_ ?_).see
    · rw [hstored]
      refine hold.moving.imp id ?_
      rintro ⟨⟨b', hb'⟩, -⟩
      rw [hpc] at hb'
      cases hb'
    · intro hno hzero
      rw [Bool.or_eq_false_iff] at hno
      obtain ⟨hbatch, -, hswapped, hsto⟩ := hold.busy hno.1 hzero
      rw [hsize, hstored, haccepted, List.append_nil]
      refine ⟨hbatch, hswapped b hpc, fun b' hb' => ?_, hsto⟩
      rw [hpc'] at hb'
      cases hb'

/-- The batch is stored. -/
theorem CallsInv.store (h : CallsInv p) {b : List Buffer} (hpc : p.sectionPc = .subtracted b)
    {q : Polled τ} (hq : q = { p with
      sectionPc := .free, writingBytes := batchSize b, stored := p.subtracted }) :
    CallsInv q.see := by
  have hpolling : PollingInv q := by
    rw [hq]
    exact h.polling.store hpc
  have haccepted : q.accepted = p.accepted ++ [] := by rw [hq, List.append_nil]
  have hsent : q.sent = p.sent := by rw [hq]
  have hsubtracted : q.subtracted = p.subtracted := by rw [hq]
  have hstored : q.stored = p.subtracted := by rw [hq]
  have hpc' : q.sectionPc = .free := by rw [hq]
  have hpolls : q.polls = p.polls := by rw [hq]
  refine ⟨hpolling.see, ?_, fun t => ?_⟩
  · refine SmallInv.see ⟨?_, ?_, ?_⟩
    · rw [Polled.unsent, haccepted, hsent, List.append_nil]
      exact h.small.unsent
    · rw [haccepted, hsubtracted, List.append_nil]
      exact h.small.subtracted
    · rw [haccepted, hstored, List.append_nil]
      exact h.small.subtracted
  · show ((q.polls t).see _).Holds q.see
    rw [hpolls]
    refine (h.calls t).see (fun n value batch drained hold => ?_) fun n value batch hold =>
      (hold.of _ haccepted (Nat.le_of_eq hsent.symm)).see
    refine (hold.of _ haccepted (Nat.le_of_eq hsent.symm) (.inl ?_) ?_).see
    · rw [hstored]
      rcases hold.moving with hle | ⟨-, hsame, -⟩
      · exact Nat.le_trans hle h.polling.stored_le
      · exact Nat.le_of_eq (congrArg Range.last hsame.symm)
    · intro hno hzero
      rw [Bool.or_eq_false_iff] at hno
      obtain ⟨hbatch, hsub, -, -⟩ := hold.busy hno.1 hzero
      rw [hsubtracted, hstored, haccepted, List.append_nil]
      refine ⟨hbatch, hsub, fun b' hb' => ?_, fun _ => hsub⟩
      rw [hpc'] at hb'
      cases hb'

/-- A call goes on; nothing else does. -/
theorem CallsInv.setPoll (h : CallsInv p) (t : ℕ) {pc : PollPc}
    (hpc : (pc.see (decide (p.unsent = 0))).Holds p) : CallsInv (p.setPoll t pc).see := by
  refine ⟨(h.polling.setPoll t pc).see, ⟨h.small.unsent, h.small.subtracted, h.small.stored⟩,
    fun t' => ?_⟩
  show ((Function.update p.polls t pc t').see (decide (p.unsent = 0))).Holds _
  have hseen : ∀ {pc : PollPc}, pc.Holds p → pc.Holds (p.setPoll t pc).see := by
    intro pc hold
    cases pc with
    | idle => trivial
    | loadedQueued =>
      exact ⟨hold.accepted, hold.first, hold.last, hold.counts, hold.small, hold.moving, hold.busy⟩
    | loadedWriting => exact ⟨hold.accepted, hold.first, hold.last, hold.counts, hold.small⟩
  by_cases hne : t' = t
  · rw [hne, Function.update_self]
    cases pc with
    | idle => trivial
    | loadedQueued =>
      exact ⟨hpc.accepted, hpc.first, hpc.last, hpc.counts, hpc.small, hpc.moving, hpc.busy⟩
    | loadedWriting => exact ⟨hpc.accepted, hpc.first, hpc.last, hpc.counts, hpc.small⟩
  · rw [Function.update_of_ne hne]
    refine (h.calls t').see (fun n value batch drained hold => ?_) fun n value batch hold => ?_
    · exact hold.same (q := (p.setPoll t pc).see) rfl rfl rfl rfl rfl _
    · exact ⟨hold.accepted, hold.first, hold.last, hold.counts, hold.small⟩

/-- The counters, as numbers. -/
theorem CallsInv.queued_toNat (h : CallsInv p) :
    p.queuedBytes.toNat = totalSize (p.accepted.drop p.subtracted.last) := by
  have hle := h.polling.queued_le_unsent
  have hsmall := h.small.unsent
  rw [h.polling.queued, UInt64.toNat_ofNat', Nat.mod_eq_of_lt (by omega)]

theorem CallsInv.writing_toNat (h : CallsInv p) :
    p.writingBytes.toNat = p.stored.size p.accepted := by
  have hsmall := h.small.stored
  rw [h.polling.writing, UInt64.toNat_ofNat', Nat.mod_eq_of_lt (by omega)]

/-- `m_queued_bytes` is loaded first. -/
theorem CallsInv.holdsQueued (h : CallsInv p) : HoldsQueued p p.accepted.length p.queuedBytes
    p.subtracted (decide (p.unsent = 0)) := by
  have hqueued := h.queued_toNat
  have hle := h.polling.queued_le_unsent
  have hsmall := h.small.unsent
  refine ⟨Nat.le_refl _, h.polling.subtracted_first, h.polling.le, ?_, by omega, ?_, ?_⟩
  · rw [List.take_length]
    exact hqueued
  · have hranges := h.polling.ranges
    unfold Polled.Ranges at hranges
    split at hranges
    · exact .inl (Nat.le_of_eq (congrArg Range.last hranges.symm))
    · exact .inl (Nat.le_of_eq (congrArg Range.last hranges.symm))
    · next b hpc => exact .inr ⟨⟨b, hpc⟩, rfl, rfl⟩
  · intro hno hzero
    have hunsent : p.unsent ≠ 0 := by simpa using hno
    rw [hzero] at hqueued
    have hdrop : totalSize (p.accepted.drop p.subtracted.last) = 0 := hqueued.symm
    -- what is unsent is in the batch subtracted last
    have hbatch : p.subtracted.size p.accepted ≠ 0 := by
      have hsplit := totalSize_drop_sent_le p.accepted h.polling.subtracted_first
      rw [Polled.unsent] at hunsent
      omega
    refine ⟨hbatch, hbatch, fun b hpc => ?_, fun hlast => ?_⟩
    · rw [Polled.unsent, h.polling.sent_of_swapped hpc] at hunsent
      exact absurd hdrop hunsent
    · have hranges := h.polling.ranges
      unfold Polled.Ranges at hranges
      split at hranges
      · rwa [hranges]
      · rwa [hranges]
      · exact absurd (Range.size_eq_zero p.accepted (by omega)) hbatch

/-- `m_writing_bytes` is loaded first. -/
theorem CallsInv.holdsWriting (h : CallsInv p) :
    HoldsWriting p p.accepted.length p.writingBytes p.stored := by
  have hwriting := h.writing_toNat
  have hsmall := h.small.stored
  exact ⟨Nat.le_refl _, h.polling.stored_first, Nat.le_trans h.polling.stored_le h.polling.le,
    hwriting, by omega⟩

/-- **`m_queued_bytes` first**: the sum is enough exactly when the batch last subtracted is counted. -/
theorem HoldsQueued.polled (hinv : CallsInv p) (h : HoldsQueued p n value batch drained) :
    (p.owed n ≤ (value + p.writingBytes).toNat ↔
      batch.last ≤ p.stored.last ∨ batch.size p.accepted ≤ p.writingBytes.toNat) ∧
    ((batch.last ≤ p.stored.last ∨ batch.size p.accepted ≤ p.writingBytes.toNat) →
      value + p.writingBytes = 0 → (drained || decide (p.unsent = 0)) = true) := by
  have hwriting := hinv.writing_toNat
  have hsmall := hinv.small.stored
  have hvalue := h.small
  have hsum : (value + p.writingBytes).toNat = value.toNat + p.writingBytes.toNat := by
    rw [UInt64.toNat_add, Nat.mod_eq_of_lt (by omega)]
  constructor
  · constructor
    · intro howed
      rcases h.moving with hle | ⟨⟨b, hpc⟩, hbatch, hn⟩
      · exact .inl hle
      · -- the batch is in neither counter, and none of it has been sent
        refine .inr ?_
        have hsent := hinv.polling.sent_of_subtracted hpc
        have hsplit := totalSize_drop_eq p.accepted hinv.polling.subtracted
        have hcounts := h.counts
        rw [Polled.owed, hn, List.take_length, hsent, hsplit] at howed
        rw [hn, List.take_length, ← hbatch] at hcounts
        rw [← hbatch]
        show Range.size p.accepted ⟨p.subtracted.first, p.subtracted.last⟩ ≤ _
        omega
    · have hcounts := h.counts
      rintro (hle | hle)
      · have howed := p.owed_le n hinv.polling.stored_first
        have hanti := totalSize_drop_anti (p.accepted.take n) hle
        omega
      · have howed := p.owed_le n h.first
        omega
  · intro hcond hzero
    have hboth : value.toNat = 0 ∧ p.writingBytes.toNat = 0 := by
      rw [hzero] at hsum
      have hnat : (0 : UInt64).toNat = 0 := rfl
      omega
    cases drained with
    | true => rfl
    | false =>
      obtain ⟨hbatch, -, -, hstored⟩ := h.busy rfl (UInt64.toNat_inj.mp hboth.1)
      rcases hcond with hle | hle
      · exact absurd (by omega) (hstored hle)
      · exact absurd (by omega) hbatch

/-- **`m_writing_bytes` first.** -/
theorem HoldsWriting.polled (hinv : CallsInv p) (h : HoldsWriting p n value batch)
    (hcond : p.subtracted.last ≤ batch.last ∨ p.subtracted.size p.accepted ≤ value.toNat) :
    p.owed n ≤ (p.queuedBytes + value).toNat ∧
      (p.queuedBytes + value = 0 → p.unsent = 0) := by
  have hqueued := hinv.queued_toNat
  have hle := hinv.polling.queued_le_unsent
  have hsmall := hinv.small.unsent
  have hvalue := h.small
  have hcounts := h.counts
  have hsum : (p.queuedBytes + value).toNat = p.queuedBytes.toNat + value.toNat := by
    rw [UInt64.toNat_add, Nat.mod_eq_of_lt (by omega)]
  -- a range that begins with what has been sent, is counted, and is followed by what is queued
  obtain ⟨r, hfirst, hsize, hlast⟩ : ∃ r : Range, r.first ≤ p.sent ∧
      r.size p.accepted ≤ value.toNat ∧ p.subtracted.last ≤ r.last := by
    rcases hcond with hcond | hcond
    · exact ⟨batch, h.first, by omega, hcond⟩
    · exact ⟨p.subtracted, hinv.polling.subtracted_first, hcond, Nat.le_refl _⟩
  have hanti := totalSize_drop_anti p.accepted hlast
  constructor
  · have howed := p.owed_le n hfirst
    have htake : totalSize ((p.accepted.take n).drop r.last) ≤
        totalSize (p.accepted.drop r.last) := by
      rw [List.drop_take]
      have hsplit := congrArg totalSize
        (List.take_append_drop (n - r.last) (p.accepted.drop r.last))
      rw [totalSize_append] at hsplit
      omega
    omega
  · intro hzero
    rw [hzero] at hsum
    have hnat : (0 : UInt64).toNat = 0 := rfl
    have hunsent := totalSize_drop_sent_le p.accepted hfirst
    rw [Polled.unsent]
    omega

end Calls

/-! ## Runs -/

/-- A call that returned was not told too little, and zero only if nothing was unsent at some moment
during it. -/
def PollEvent.Sound : PollEvent → Prop
  | .session _ => True
  | .polled owed value drained => owed ≤ value.toNat ∧ (value = 0 → drained = true)

section Runs

variable [DecidableEq τ] {o : Options} {tr : List PollEvent} {p p' : Polled τ} {es : List PollEvent}

/-- One operation, while every batch is counted. -/
theorem CallsInv.step (h : CallsInv p) {a : PollAction τ} (hstep : pollStep o p a = some (p', es))
    (hcounts : countsEveryBatch p a) : CallsInv p' ∧ ∀ e ∈ es, e.Sound := by
  obtain ⟨⟨q, qes⟩, hop, heq⟩ := Option.map_eq_some_iff.mp hstep
  cases heq
  cases a with
  | session a =>
    obtain ⟨s, les, hsession, rfl, hopen, ⟨htakes, hfree, hq⟩ | ⟨htakes, hq⟩⟩ :=
      sessionStep_cases hop
    · refine ⟨h.take hsession htakes hfree hq, fun e he => ?_⟩
      obtain ⟨_, -, rfl⟩ := List.mem_map.mp he
      trivial
    · refine ⟨h.move hsession htakes hopen hcounts hq, fun e he => ?_⟩
      obtain ⟨_, -, rfl⟩ := List.mem_map.mp he
      trivial
  | subtract =>
    simp only [pollOperation] at hop
    split at hop
    · next b hpc =>
      cases hop
      exact ⟨h.subtract hpc rfl, nofun⟩
    · cases hop
  | store =>
    simp only [pollOperation] at hop
    split at hop
    · next b hpc =>
      cases hop
      exact ⟨h.store hpc rfl, nofun⟩
    · cases hop
  | loadQueued t =>
    simp only [pollOperation, loadQueued] at hop
    have hcall := h.calls t
    split at hop
    · cases hop
      exact ⟨h.setPoll t h.holdsQueued, nofun⟩
    · next n value batch drained hpc =>
      cases hop
      rw [hpc] at hcall
      rw [countsEveryBatch, hpc] at hcounts
      refine ⟨h.setPoll t trivial, fun e he => ?_⟩
      cases List.mem_singleton.mp he
      obtain ⟨howed, hzero⟩ := HoldsWriting.polled h hcall hcounts
      refine ⟨howed, fun hno => ?_⟩
      rw [hzero hno]
      simp
    · cases hop
  | loadWriting t =>
    simp only [pollOperation, loadWriting] at hop
    have hcall := h.calls t
    split at hop
    · cases hop
      exact ⟨h.setPoll t h.holdsWriting, nofun⟩
    · next n value batch drained hpc =>
      cases hop
      rw [hpc] at hcall
      rw [countsEveryBatch, hpc] at hcounts
      refine ⟨h.setPoll t trivial, fun e he => ?_⟩
      cases List.mem_singleton.mp he
      obtain ⟨hiff, hzero⟩ := HoldsQueued.polled h hcall
      exact ⟨hiff.mpr hcounts, hzero hcounts⟩
    · cases hop

theorem CallsInv.start : CallsInv (pollSystem τ o).start where
  polling := by
    refine ⟨.start, ⟨fun _ => trivial, fun _ => rfl, Nat.le_refl _, Nat.le_refl _⟩, Nat.le_refl _,
      rfl, rfl, rfl, rfl, Nat.le_refl _, Nat.le_refl _, fun hne => absurd rfl hne⟩
  small := ⟨Nat.two_pow_pos 63, Nat.two_pow_pos 63, Nat.two_pow_pos 63⟩
  calls _ := trivial

theorem callsInv (h : (pollSystem τ o).Run countsEveryBatch tr p) :
    CallsInv p ∧ ∀ e ∈ tr, e.Sound := by
  refine Run.invariant (I := fun tr p => CallsInv p ∧ ∀ e ∈ tr, e.Sound) ⟨.start, nofun⟩ ?_ h
  intro tr p a p' es _ hcounts hstep ⟨ih, hsound⟩
  obtain ⟨hinv, hes⟩ := ih.step hstep hcounts
  refine ⟨hinv, fun e he => ?_⟩
  rcases List.mem_append.mp he with he | he
  · exact hsound e he
  · exact hes e he

/-- **`pending_bytes()` does not under-report as long as no call sees a batch in neither counter**,
for any interleaving of the atomic operations and either order of the two loads.  In a run
that meets the condition every call returns at least the bytes accepted before it began that
have not been sent when it ends, and zero only if nothing accepted was unsent at some moment
during it.  When `m_queued_bytes` is loaded first, a call that does not meet the condition
returns too little. -/
theorem pending_bytes (o : Options) :
    (∀ tr p, (pollSystem τ o).Run countsEveryBatch tr p →
      ∀ owed value drained, .polled owed value drained ∈ tr →
        owed ≤ value.toNat ∧ (value = 0 → drained = true)) ∧
    (∀ tr p t n queued batch drained, (pollSystem τ o).Run countsEveryBatch tr p →
      p.polls t = .loadedQueued n queued batch drained →
      (p.owed n ≤ (queued + p.writingBytes).toNat ↔ countsEveryBatch p (.loadWriting t))) := by
  constructor
  · intro tr p hrun owed value drained hpolled
    exact (callsInv hrun).2 _ hpolled
  · intro tr p t n queued batch drained hrun hpc
    have hinv := (callsInv hrun).1
    have hcall := hinv.calls t
    rw [hpc] at hcall
    rw [countsEveryBatch, hpc]
    exact (HoldsQueued.polled hinv hcall).1

end Runs

section Sample

/-- A `write()` of two bytes that has returned, and the writer about to take them. -/
def acceptRun : List (PollAction ℕ) :=
  (List.flatten [connectRun,
    [.call (.thread 1) (.write [1, 2]), .step (.thread 1) .ok, .step (.thread 1) .ok,
     .runHandler]]).map .session

/-- Both loads come between the subtraction and the store: zero is returned, although `async_write`
has not even been called. -/
theorem pending_bytes_missed : ∃ tr p, (pollSystem ℕ {}).Reachable tr p ∧
    .polled 2 0 false ∈ tr ∧ p.session.stack (.thread 1) = [] ∧
    p.session.writers 0 = .issuing [[1, 2]] := by
  have hexec : ((pollSystem ℕ {}).exec (List.flatten [acceptRun,
      [.session (.step .strand .ok), .subtract, .loadQueued 5, .loadWriting 5]])).map
      (fun r => (r.2, r.1.session.stack (.thread 1), r.1.session.writers 0)) =
      some ([.session (.moved .running), .session .connected, .session (.accepted [1, 2]),
        .polled 2 0 false], [], .issuing [[1, 2]]) := by decide +kernel
  obtain ⟨⟨p, tr⟩, hrun, heq⟩ := Option.map_eq_some_iff.mp hexec
  simp only [Prod.mk.injEq] at heq
  obtain ⟨rfl, hstack, hwriter⟩ := heq
  exact ⟨_, p, runFrom_of_execFrom (execMeets_anyStep _ _) hrun, by simp, hstack, hwriter⟩

/-- The first load comes before the subtraction, and the second after the store. -/
theorem pending_bytes_counted : ∃ tr p, (pollSystem ℕ {}).Run countsEveryBatch tr p ∧
    .polled 2 4 false ∈ tr ∧ 2 ≤ (4 : UInt64).toNat := by
  have hexec : ((pollSystem ℕ {}).exec (List.flatten [acceptRun,
      [.loadQueued 5, .session (.step .strand .ok), .subtract, .store, .loadWriting 5]])).map
      Prod.snd =
      some [.session (.moved .running), .session .connected, .session (.accepted [1, 2]),
        .polled 2 4 false] := by decide +kernel
  obtain ⟨⟨p, tr⟩, hrun, rfl⟩ := Option.map_eq_some_iff.mp hexec
  have hmeets : (pollSystem ℕ {}).execMeets countsEveryBatch (pollSystem ℕ {}).start
      (List.flatten [acceptRun,
        [.loadQueued 5, .session (.step .strand .ok), .subtract, .store, .loadWriting 5]]) =
      true := by decide +kernel
  have hreach := runFrom_of_execFrom hmeets hrun
  exact ⟨_, p, hreach, by simp, ((pending_bytes {}).1 _ _ hreach 2 4 false (by simp)).1⟩

end Sample

end TcpSession
