/-
# The byte counters, operation by operation

`pending_bytes()` loads `m_queued_bytes` and `m_writing_bytes` one after the other, in
an order the language leaves open, and without the lock.  The section of `writer()` is
taken apart here: it takes the queue, subtracts the size of the batch from the one
counter and stores it in the other, and holds `m_write_mutex` meanwhile.

The messages are numbered in the order in which they were accepted, so that a batch is a
range of numbers.  `SentInv` says what has been sent of the batch taken last, and
`PollingInv` what the two counters hold at each place of the section.
-/
import Libsg.TcpSessionAccount

open TransitionSystem

namespace TcpSession

variable {τ : Type}

/-! ## The model -/

/-- Where the section of `writer()` is, with the batch it has taken. -/
inductive SectionPc
  | free
  | swapped (batch : List Buffer)
  | subtracted (batch : List Buffer)
  deriving DecidableEq, Repr

/-- The messages from number `first` up to `last`, not included. -/
structure Range where
  first : ℕ
  last : ℕ
  deriving DecidableEq, Repr

/-- Where a call of `pending_bytes()` is that has loaded one counter: how many messages had been
accepted then, the value, the batch the counter was changed for last, and whether nothing
accepted was unsent at some moment since. -/
inductive PollPc
  | idle
  | loadedQueued (accepted : ℕ) (value : UInt64) (batch : Range) (drained : Bool)
  | loadedWriting (accepted : ℕ) (value : UInt64) (batch : Range) (drained : Bool)
  deriving DecidableEq, Repr

structure Polled (τ : Type) where
  session : Session τ
  sectionPc : SectionPc
  /-- `m_queued_bytes`, operation by operation -/
  queuedBytes : UInt64
  /-- `m_writing_bytes`, operation by operation -/
  writingBytes : UInt64
  /-- the messages accepted so far -/
  accepted : List Buffer
  /-- how many of them `async_write` has completed for -/
  sent : ℕ
  /-- the batch subtracted last -/
  subtracted : Range
  /-- the batch stored last -/
  stored : Range
  polls : ℕ → PollPc

inductive PollAction (τ : Type)
  | session (a : Action τ)
  | subtract
  | store
  /-- the next load of `pending_bytes()`, called by `t` -/
  | loadQueued (t : ℕ)
  | loadWriting (t : ℕ)
  deriving DecidableEq

inductive PollEvent
  | session (e : Event)
  /-- `pending_bytes()` returned `value`, while `owed` bytes accepted before it began had not been
  sent when it ended. -/
  | polled (owed : ℕ) (value : UInt64) (drained : Bool)
  deriving DecidableEq, Repr

/-- The bytes of a range of messages. -/
def Range.size (l : List Buffer) (r : Range) : ℕ := totalSize ((l.take r.last).drop r.first)

/-- The bytes accepted that have not been sent. -/
def Polled.unsent (p : Polled τ) : ℕ := totalSize (p.accepted.drop p.sent)

/-- The bytes of the first `n` messages that have not been sent. -/
def Polled.owed (p : Polled τ) (n : ℕ) : ℕ := totalSize ((p.accepted.take n).drop p.sent)

/-- The action needs `m_write_mutex`, or is a step of `writer()`. -/
def Session.blocked (s : Session τ) : Action τ → Bool
  | .step a _ =>
    match s.stack a with
    | .write _ :: _ | .stopAsync :: _ | .writer _ :: _ => true
    | .start :: _ => s.startPc = .catchStop
    | _ => false
  | _ => false

/-- The messages of the `async_write` that completes. -/
def Session.completes (s : Session τ) : Action τ → ℕ
  | .writeDone w none =>
    match s.writers w with
    | .writing batch => batch.length
    | _ => 0
  | _ => 0

/-- A call in progress sees whether nothing is unsent. -/
def PollPc.see (drained : Bool) : PollPc → PollPc
  | .idle => .idle
  | .loadedQueued n value batch d => .loadedQueued n value batch (d || drained)
  | .loadedWriting n value batch d => .loadedWriting n value batch (d || drained)

def Polled.see (p : Polled τ) : Polled τ :=
  { p with polls := fun t => (p.polls t).see (p.unsent = 0) }

def Polled.setPoll (p : Polled τ) (t : ℕ) (pc : PollPc) : Polled τ :=
  { p with polls := Function.update p.polls t pc }

/-- A step of the session.  The section of `writer()` only takes the batch here. -/
def sessionStep [DecidableEq τ] (o : Options) (p : Polled τ) (a : Action τ) :
    Option (Polled τ × List PollEvent) :=
  if p.sectionPc ≠ .free ∧ p.session.blocked a = true then none
  else (step o p.session a).map fun (s, es) =>
    ({ p with
        session := s
        sectionPc := if p.session.takes a then .swapped p.session.writeMsgs else p.sectionPc
        queuedBytes := p.queuedBytes + batchSize (acceptedMsgs es)
        accepted := p.accepted ++ acceptedMsgs es
        sent := p.sent + p.session.completes a }, es.map .session)

/-- `m_queued_bytes.load()` of `pending_bytes()`. -/
def loadQueued (p : Polled τ) (t : ℕ) : Option (Polled τ × List PollEvent) :=
  match p.polls t with
  | .idle =>
    some (p.setPoll t (.loadedQueued p.accepted.length p.queuedBytes p.subtracted false), [])
  | .loadedWriting n value _ drained =>
    some (p.setPoll t .idle,
      [.polled (p.owed n) (p.queuedBytes + value) (drained || p.unsent = 0)])
  | .loadedQueued _ _ _ _ => none

/-- `m_writing_bytes.load()` of `pending_bytes()`. -/
def loadWriting (p : Polled τ) (t : ℕ) : Option (Polled τ × List PollEvent) :=
  match p.polls t with
  | .idle =>
    some (p.setPoll t (.loadedWriting p.accepted.length p.writingBytes p.stored false), [])
  | .loadedQueued n value _ drained =>
    some (p.setPoll t .idle,
      [.polled (p.owed n) (value + p.writingBytes) (drained || p.unsent = 0)])
  | .loadedWriting _ _ _ _ => none

/-- One atomic operation. -/
def pollOperation [DecidableEq τ] (o : Options) (p : Polled τ) :
    PollAction τ → Option (Polled τ × List PollEvent)
  | .session a => sessionStep o p a
  | .subtract =>
    match p.sectionPc with
    | .swapped batch =>
      some ({ p with
        sectionPc := .subtracted batch
        queuedBytes := p.queuedBytes - batchSize batch
        subtracted := ⟨p.subtracted.last, p.subtracted.last + batch.length⟩ }, [])
    | _ => none
  | .store =>
    match p.sectionPc with
    | .subtracted batch =>
      some ({ p with
        sectionPc := .free
        writingBytes := batchSize batch
        stored := p.subtracted }, [])
    | _ => none
  | .loadQueued t => loadQueued p t
  | .loadWriting t => loadWriting p t

def pollStep [DecidableEq τ] (o : Options) (p : Polled τ) (a : PollAction τ) :
    Option (Polled τ × List PollEvent) :=
  (pollOperation o p a).map fun (p, es) => (p.see, es)

/-- A session among any number of threads that call `pending_bytes()`. -/
def pollSystem (τ : Type) [DecidableEq τ] (o : Options) :
    TransitionSystem (Polled τ) (PollAction τ) PollEvent where
  start :=
    { session := {}
      sectionPc := .free
      queuedBytes := 0
      writingBytes := 0
      accepted := []
      sent := 0
      subtracted := ⟨0, 0⟩
      stored := ⟨0, 0⟩
      polls := fun _ => .idle }
  step := pollStep o

/-! ## Ranges of messages -/

theorem totalSize_drop_le (l : List Buffer) (i : ℕ) : totalSize (l.drop i) ≤ totalSize l := by
  have hsplit := congrArg totalSize (List.take_append_drop i l)
  rw [totalSize_append] at hsplit
  omega

theorem totalSize_drop_anti (l : List Buffer) {i j : ℕ} (h : i ≤ j) :
    totalSize (l.drop j) ≤ totalSize (l.drop i) := by
  have hdrop : l.drop j = (l.drop i).drop (j - i) := by
    rw [List.drop_drop]
    congr 1
    omega
  rw [hdrop]
  exact totalSize_drop_le _ _

theorem totalSize_take_mono (l : List Buffer) {m n : ℕ} (h : m ≤ n) :
    totalSize (l.take m) ≤ totalSize (l.take n) := by
  have htake : l.take m = (l.take n).take m := by
    rw [List.take_take, Nat.min_eq_left h]
  have hsplit := congrArg totalSize (List.take_append_drop m (l.take n))
  rw [totalSize_append] at hsplit
  rw [htake]
  omega

/-- From `first` on there are the messages of the range, and those after it. -/
theorem totalSize_drop_eq (l : List Buffer) {first last : ℕ} (h : first ≤ last) :
    totalSize (l.drop first) = Range.size l ⟨first, last⟩ + totalSize (l.drop last) := by
  have hsplit := congrArg totalSize (List.take_append_drop (last - first) (l.drop first))
  rw [totalSize_append, List.drop_drop, show first + (last - first) = last by omega] at hsplit
  rw [← hsplit, Range.size, List.drop_take]

/-- What has not been sent is in a range that begins no later, or comes after it. -/
theorem totalSize_drop_sent_le (l : List Buffer) {r : Range} {sent : ℕ} (h : r.first ≤ sent) :
    totalSize (l.drop sent) ≤ r.size l + totalSize (l.drop r.last) := by
  by_cases hle : r.first ≤ r.last
  · show totalSize (l.drop sent) ≤ Range.size l ⟨r.first, r.last⟩ + totalSize (l.drop r.last)
    rw [← totalSize_drop_eq l hle]
    exact totalSize_drop_anti l h
  · have hlast := totalSize_drop_anti l (show r.last ≤ sent by omega)
    omega

/-- Messages accepted later are in no earlier range. -/
theorem Range.size_append {l xs : List Buffer} {r : Range} (h : r.last ≤ l.length) :
    r.size (l ++ xs) = r.size l := by
  rw [Range.size, Range.size, List.take_append_of_le_length h]

theorem Range.size_take_le (l : List Buffer) (n : ℕ) (r : Range) :
    r.size (l.take n) ≤ r.size l := by
  rw [Range.size, Range.size, List.take_take, List.drop_take, List.drop_take]
  exact totalSize_take_mono _ (by omega)

/-- A range without messages has no bytes. -/
theorem Range.size_eq_zero (l : List Buffer) {r : Range} (h : r.last ≤ r.first) : r.size l = 0 := by
  rw [Range.size, List.drop_eq_nil_of_le (by rw [List.length_take]; omega)]
  rfl

/-- What is owed of the first `n` messages. -/
theorem Polled.owed_le (p : Polled τ) (n : ℕ) {r : Range} (h : r.first ≤ p.sent) :
    p.owed n ≤ r.size p.accepted + totalSize ((p.accepted.take n).drop r.last) := by
  have hle := totalSize_drop_sent_le (p.accepted.take n) h
  have hsize := Range.size_take_le p.accepted n r
  rw [Polled.owed]
  omega

/-! ## What has been sent -/

/-- The place of a writer agrees with what has been sent of the batch taken last. -/
def WriterPc.Placed (sent : ℕ) (taken : Range) : WriterPc → Prop
  | .issuing batch | .writing batch => sent = taken.first ∧ taken.first + batch.length = taken.last
  | .toSpawn | .queued | .locking | .resumed none | .completed none => sent = taken.last
  | _ => True

/-- All messages before the batch taken last have been sent; those of the batch have, when the writer
is about to take the next one or none is scheduled. -/
structure SentInv (s : Session τ) (sent : ℕ) (taken : Range) : Prop where
  placed : ∀ w, (s.writers w).Placed sent taken
  clear : s.writeScheduled = false → sent = taken.last
  first : taken.first ≤ sent
  last : sent ≤ taken.last

section Sent

variable {s s' : Session τ} {sent : ℕ} {taken : Range} {a : Action τ} {es : List Event}

theorem WriterPc.placed_of_offDuty {pc : WriterPc} (h : pc.onDuty = false) (sent : ℕ)
    (taken : Range) : pc.Placed sent taken := by
  cases pc with
  | unborn | leaving | callClose | closing | finished => trivial
  | _ => cases h

/-- One writer moves. -/
theorem SentInv.setWriter (h : SentInv s sent taken) {w : ℕ} {pc : WriterPc}
    (hpc : pc.Placed sent taken) (w' : ℕ) :
    (Function.update s.writers w pc w').Placed sent taken := by
  by_cases hw : w' = w
  · rw [hw, Function.update_self]
    exact hpc
  · rw [Function.update_of_ne hw]
    exact h.placed w'

/-- The steps that neither take a batch nor complete an `async_write`. -/
theorem SentInv.move (h : SentInv s sent taken) (hm : Move s a es s')
    (hdone : ∀ w ec, a ≠ .writeDone w ec)
    (htake : es = [] → ∀ w k q, s.writers w = .locking → s' ≠ (writerSection s w).sched k q) :
    SentInv s' sent taken := by
  cases hm with
  | acceptSpawn msg k q hrun hflag =>
    exact ⟨h.setWriter (h.clear hflag), nofun, h.first, h.last⟩
  | spawnThrows => exact ⟨h.setWriter trivial, h.clear, h.first, h.last⟩
  | writerAdvance w pc k q hpc =>
    have hplaced := h.placed w
    generalize s.writers w = pc₀ at hpc hplaced
    refine ⟨h.setWriter ?_, h.clear, h.first, h.last⟩
    cases hpc with
    | resume ec =>
      cases ec with
      | none => exact hplaced
      | some => trivial
    | spawn | spawnInPlace | run | again => exact hplaced
  | writerFails w ex pc k q hpc =>
    refine ⟨h.setWriter ?_, h.clear, h.first, h.last⟩
    generalize s.writers w = pc₀ at hpc
    cases hpc with
    | threw | load | skip | record => trivial
  | writeDone w b ec k q hpc hopen ha => exact absurd ha (hdone w ec)
  | writerTakes w k q hpc => exact absurd rfl (htake rfl w k q hpc)
  | writerIssues w b k q hpc =>
    have hplaced := h.placed w
    rw [hpc] at hplaced
    exact ⟨h.setWriter hplaced, h.clear, h.first, h.last⟩
  | writerLeaves | writerStops | writerCloses | writerEnds =>
    exact ⟨h.setWriter trivial, h.clear, h.first, h.last⟩
  | _ => exact ⟨h.placed, h.clear, h.first, h.last⟩

/-- A writer that takes a batch does not leave the queue and the flag alone. -/
theorem not_same_of_takes (hw : WriterInv s) {w : ℕ} (hpc : s.writers w = .locking)
    (k : Agent τ → List Frame) (q : List Handler) :
    ¬ SameBytes s ((writerSection s w).sched k q) := by
  intro hsame
  have hmsgs : [] = s.writeMsgs := hsame.msgs
  have hscheduled : (if s.writeMsgs = [] then false else s.writeScheduled) = s.writeScheduled :=
    hsame.scheduled
  rw [if_pos hmsgs.symm, (hw.duty w (by rw [hpc]; rfl)).1] at hscheduled
  cases hscheduled

theorem SentInv.step [DecidableEq τ] {o : Options} (h : SentInv s sent taken) (hw : WriterInv s)
    (hstep : step o s a = some (s', es)) :
    SentInv s' (sent + s.completes a)
      (if s.takes a then ⟨taken.last, taken.last + s.writeMsgs.length⟩ else taken) := by
  by_cases hdone : ∃ w ec, a = .writeDone w ec
  · obtain ⟨w, ec, rfl⟩ := hdone
    have htakes : s.takes (.writeDone w ec) = false := rfl
    rw [htakes, if_neg (by simp)]
    simp only [TcpSession.step] at hstep
    split at hstep
    · next b hpc =>
      have hplaced := h.placed w
      rw [hpc] at hplaced
      obtain ⟨hsent, hlast⟩ := hplaced
      split at hstep
      · cases hstep
        cases ec with
        | none =>
          -- the batch was the one taken last, and it is sent now
          have hcompletes : s.completes (.writeDone w none) = b.length := by
            rw [Session.completes, hpc]
          rw [hcompletes]
          have hall : sent + b.length = taken.last := by omega
          refine ⟨fun w' => ?_, fun _ => hall, by omega, by omega⟩
          by_cases hw' : w' = w
          · subst hw'
            show (Function.update s.writers w' _ w').Placed _ _
            rw [Function.update_self]
            exact hall
          · show (Function.update s.writers w _ w').Placed _ _
            rw [Function.update_of_ne hw']
            apply WriterPc.placed_of_offDuty
            rw [Bool.eq_false_iff]
            intro hduty
            exact hw' (hw.unique hduty (by rw [hpc]; rfl))
        | some ec => exact ⟨h.setWriter trivial, h.clear, h.first, h.last⟩
      · cases hstep
    · cases hstep
  · have hcompletes : s.completes a = 0 := by
      cases a with
      | writeDone w ec => exact absurd ⟨w, ec, rfl⟩ hdone
      | _ => rfl
    have hnot : ∀ w ec, a ≠ .writeDone w ec := fun w ec ha => hdone ⟨w, ec, ha⟩
    rw [hcompletes, Nat.add_zero]
    have hm := step_move hstep
    rcases step_cases hstep with
      ⟨msg, -, htakes, ⟨-, rfl⟩ | ⟨-, rfl⟩⟩ | ⟨w, hpc, -, htakes, rfl, rfl⟩ |
      ⟨-, htakes, hsame, -⟩
    · rw [htakes, if_neg (by simp)]
      exact h.move hm hnot (by simp)
    · rw [htakes, if_neg (by simp)]
      exact h.move hm hnot (by simp)
    · -- everything before the batch has been sent
      have hsent : sent = taken.last := by
        have hplaced := h.placed w
        rw [hpc] at hplaced
        exact hplaced
      have hduty := hw.duty w (by rw [hpc]; rfl)
      rw [htakes, if_pos rfl]
      refine ⟨fun w' => ?_, fun hclear => ?_, Nat.le_of_eq hsent.symm, ?_⟩
      · show (Function.update s.writers w _ w').Placed _ _
        by_cases hw' : w' = w
        · rw [hw', Function.update_self]
          split
          · trivial
          · exact ⟨hsent, rfl⟩
        · rw [Function.update_of_ne hw']
          apply WriterPc.placed_of_offDuty
          rw [Bool.eq_false_iff]
          intro hduty'
          exact hw' (hw.unique hduty' (by rw [hpc]; rfl))
      · have hflag : (if s.writeMsgs = [] then false else s.writeScheduled) = false := hclear
        split at hflag
        · next hempty =>
          rw [hempty, hsent]
          rfl
        · rw [hduty.1] at hflag
          cases hflag
      · show sent ≤ taken.last + s.writeMsgs.length
        omega
    · rw [htakes, if_neg (by simp)]
      refine h.move hm hnot fun _ w k q hpc heq => ?_
      subst heq
      exact not_same_of_takes hw hpc k q hsame

end Sent

/-! ## The counters -/

/-- The batch the section still has to subtract. -/
def SectionPc.held : SectionPc → List Buffer
  | .swapped batch => batch
  | _ => []

/-- The batch taken last. -/
def Polled.taken (p : Polled τ) : Range :=
  match p.sectionPc with
  | .swapped batch => ⟨p.subtracted.last, p.subtracted.last + batch.length⟩
  | _ => p.subtracted

/-- The batch stored last is the one subtracted last, or the one before it while the section is
between the two. -/
def Polled.Ranges (p : Polled τ) : Prop :=
  match p.sectionPc with
  | .free | .swapped _ => p.stored = p.subtracted
  | .subtracted batch => p.stored.last = p.subtracted.first ∧
      (p.accepted.take p.subtracted.last).drop p.subtracted.first = batch

/-- The counters hold the sizes of what has been accepted and not subtracted, and of the batch stored
last; while the section of `writer()` is open, what it has taken has not been passed on. -/
structure PollingInv (p : Polled τ) : Prop where
  writer : WriterInv p.session
  sent : SentInv p.session p.sent p.taken
  le : p.subtracted.last ≤ p.accepted.length
  queue : p.accepted.drop p.subtracted.last = p.sectionPc.held ++ p.session.writeMsgs
  queued : p.queuedBytes = UInt64.ofNat (totalSize (p.accepted.drop p.subtracted.last))
  writing : p.writingBytes = UInt64.ofNat (p.stored.size p.accepted)
  ranges : p.Ranges
  subtracted : p.subtracted.first ≤ p.subtracted.last
  stored : p.stored.first ≤ p.stored.last
  holding : p.sectionPc ≠ .free → p.sent = p.taken.first ∧
    ∀ w b, p.session.writers w ≠ .writing b

namespace PollingInv

variable {p p' : Polled τ}

theorem stored_le (h : PollingInv p) : p.stored.last ≤ p.subtracted.last := by
  have hranges := h.ranges
  unfold Polled.Ranges at hranges
  split at hranges
  · exact Nat.le_of_eq (congrArg Range.last hranges)
  · exact Nat.le_of_eq (congrArg Range.last hranges)
  · have := h.subtracted
    omega

theorem subtracted_first (h : PollingInv p) : p.subtracted.first ≤ p.sent := by
  have hfirst := h.sent.first
  unfold Polled.taken at hfirst
  split at hfirst
  · exact Nat.le_trans h.subtracted hfirst
  · exact hfirst

theorem stored_first (h : PollingInv p) : p.stored.first ≤ p.sent := by
  have hranges := h.ranges
  unfold Polled.Ranges at hranges
  have hfirst := h.subtracted_first
  split at hranges
  · rw [hranges]
    exact hfirst
  · rw [hranges]
    exact hfirst
  · have := h.stored
    omega

/-- While a batch has been taken and not been subtracted, all messages before it have been sent. -/
theorem sent_of_swapped (h : PollingInv p) {batch : List Buffer}
    (hpc : p.sectionPc = .swapped batch) : p.sent = p.subtracted.last := by
  have hsent := (h.holding (by rw [hpc]; nofun)).1
  rw [Polled.taken, hpc] at hsent
  exact hsent

theorem sent_of_subtracted (h : PollingInv p) {batch : List Buffer}
    (hpc : p.sectionPc = .subtracted batch) : p.sent = p.subtracted.first := by
  have hsent := (h.holding (by rw [hpc]; nofun)).1
  rw [Polled.taken, hpc] at hsent
  exact hsent

/-- What is counted as queued has not been sent. -/
theorem queued_le_unsent (h : PollingInv p) :
    totalSize (p.accepted.drop p.subtracted.last) ≤ p.unsent := by
  apply totalSize_drop_anti
  cases hpc : p.sectionPc with
  | swapped batch => exact Nat.le_of_eq (h.sent_of_swapped hpc)
  | free | subtracted =>
    have hlast := h.sent.last
    rw [Polled.taken, hpc] at hlast
    exact hlast

theorem see (h : PollingInv p) : PollingInv p.see :=
  ⟨h.writer, h.sent, h.le, h.queue, h.queued, h.writing, h.ranges, h.subtracted, h.stored, h.holding⟩

theorem setPoll (h : PollingInv p) (t : ℕ) (pc : PollPc) : PollingInv (p.setPoll t pc) :=
  ⟨h.writer, h.sent, h.le, h.queue, h.queued, h.writing, h.ranges, h.subtracted, h.stored, h.holding⟩

theorem subtract (h : PollingInv p) {batch : List Buffer} (hpc : p.sectionPc = .swapped batch) :
    PollingInv { p with
      sectionPc := .subtracted batch
      queuedBytes := p.queuedBytes - batchSize batch
      subtracted := ⟨p.subtracted.last, p.subtracted.last + batch.length⟩ } := by
  have hqueue : p.accepted.drop p.subtracted.last = batch ++ p.session.writeMsgs := by
    have hheld := h.queue
    rwa [hpc] at hheld
  have hsent := h.sent
  have hholding := h.holding (by rw [hpc]; nofun)
  have hranges := h.ranges
  rw [Polled.taken, hpc] at hsent hholding
  rw [Polled.Ranges, hpc] at hranges
  -- the batch comes first in what has not been subtracted
  have hdrop : p.accepted.drop (p.subtracted.last + batch.length) = p.session.writeMsgs := by
    rw [← List.drop_drop, hqueue]
    exact List.drop_left
  have htake : (p.accepted.take (p.subtracted.last + batch.length)).drop p.subtracted.last =
      batch := by
    rw [List.drop_take, hqueue, Nat.add_sub_cancel_left]
    exact List.take_left
  refine ⟨h.writer, hsent, ?_, hdrop, ?_, h.writing, ⟨?_, htake⟩, Nat.le_add_right _ _, h.stored,
    fun _ => hholding⟩
  · have hlength := congrArg List.length hqueue
    rw [List.length_drop, List.length_append] at hlength
    have hle := h.le
    show p.subtracted.last + batch.length ≤ p.accepted.length
    omega
  · show p.queuedBytes - batchSize batch = UInt64.ofNat (totalSize (p.accepted.drop _))
    rw [hdrop, h.queued, hqueue, batchSize_eq, totalSize_append, UInt64.ofNat_add, UInt64.add_comm, UInt64.add_sub_cancel]
  · show p.stored.last = p.subtracted.last
    rw [hranges]

theorem store (h : PollingInv p) {batch : List Buffer} (hpc : p.sectionPc = .subtracted batch) :
    PollingInv { p with
      sectionPc := .free
      writingBytes := batchSize batch
      stored := p.subtracted } := by
  have hqueue := h.queue
  have hsent := h.sent
  have hranges := h.ranges
  rw [hpc] at hqueue
  rw [Polled.taken, hpc] at hsent
  rw [Polled.Ranges, hpc] at hranges
  refine ⟨h.writer, hsent, h.le, hqueue, h.queued, ?_, rfl, h.subtracted, h.subtracted,
    fun hne => absurd rfl hne⟩
  show batchSize batch = UInt64.ofNat (p.subtracted.size p.accepted)
  rw [Range.size, hranges.2, batchSize_eq]

end PollingInv

section Session

variable [DecidableEq τ] {o : Options} {s s' : Session τ} {a : Action τ} {es : List Event}

/-- What does not need the mutex does not touch what it protects. -/
theorem step_unblocked (h : step o s a = some (s', es)) (hfree : s.blocked a = false) :
    s.writes a = none ∧ s.takes a = false ∧ SameBytes s s' ∧ acceptedMsgs es = [] ∧
      asyncWrites es = [] := by
  have hnone : s.writes a = none ∧ s.takes a = false := by
    cases a with
    | step ag ch =>
      unfold Session.blocked at hfree
      unfold Session.writes Session.takes
      dsimp only at hfree ⊢
      cases hstack : s.stack ag with
      | nil => exact ⟨rfl, rfl⟩
      | cons f k =>
        rw [hstack] at hfree
        cases f with
        | write | writer => cases hfree
        | _ => exact ⟨rfl, rfl⟩
    | _ => exact ⟨rfl, rfl⟩
  obtain ⟨hwrites, htakes⟩ := hnone
  have hout : asyncWrites es = [] := by
    cases a with
    | step ag ch =>
      simp only [step] at h
      cases hstack : s.stack ag with
      | nil =>
        rw [hstack] at h
        cases h
      | cons f k =>
        rw [hstack] at h
        dsimp only at h
        unfold Session.blocked at hfree
        dsimp only at hfree
        rw [hstack] at hfree
        have hwrite : ∀ msg, f ≠ .write msg := by
          rintro msg rfl
          cases hfree
        have hwriter : ∀ w, f ≠ .writer w := by
          rintro w rfl
          cases hfree
        exact (frameStep_same hwrite (fun w hw => absurd hw (hwriter w)) h).2.2 hwriter
    | runHandler =>
      simp only [step] at h
      split at h
      · obtain ⟨t, -, heq⟩ := Option.map_eq_some_iff.mp h
        cases heq
        rfl
      · cases h
    | call | readDone =>
      simp only [step] at h
      split at h
      · cases h
        rfl
      · cases h
    | writeDone w ec =>
      simp only [step] at h
      split at h
      · split at h
        · cases h
          rfl
        · cases h
      · cases h
  rcases step_cases h with
    ⟨msg, hsome, -⟩ | ⟨w, -, -, hyes, -⟩ | ⟨-, -, hsame, hes⟩
  · rw [hwrites] at hsome
    cases hsome
  · rw [htakes] at hyes
    cases hyes
  · exact ⟨hwrites, htakes, hsame, hes, hout⟩

omit [DecidableEq τ] in
theorem blocked_of_takes (h : s.takes a = true) : s.blocked a = true := by
  cases a with
  | step ag ch =>
    unfold Session.takes at h
    unfold Session.blocked
    dsimp only at h ⊢
    cases hstack : s.stack ag with
    | nil =>
      rw [hstack] at h
      cases h
    | cons f k =>
      rw [hstack] at h
      cases f with
      | writer => rfl
      | _ => cases h
  | _ => cases h

omit [DecidableEq τ] in
theorem completes_of_takes (h : s.takes a = true) : s.completes a = 0 := by
  cases a with
  | writeDone => cases h
  | _ => rfl

omit [DecidableEq τ] in
/-- Nothing completes while nothing is being written. -/
theorem completes_eq_zero (h : ∀ w b, s.writers w ≠ .writing b) : s.completes a = 0 := by
  unfold Session.completes
  split
  · split
    · next b hpc => exact absurd hpc (h _ b)
    · rfl
  · rfl

omit [DecidableEq τ] in
/-- Only `async_write` begins a write. -/
theorem writing_step (hm : Move s a es s') (hout : asyncWrites es = []) {w : ℕ} {b : List Buffer}
    (hw : s'.writers w = .writing b) : s.writers w = .writing b := by
  have hupdate : ∀ {w' : ℕ} {pc : WriterPc}, s'.writers = Function.update s.writers w' pc →
      pc ≠ .writing b → s.writers w = .writing b := by
    intro w' pc heq hpc
    rw [heq] at hw
    by_cases hne : w = w'
    · rw [hne, Function.update_self] at hw
      exact absurd hw hpc
    · rwa [Function.update_of_ne hne] at hw
  cases hm with
  | acceptSpawn | spawnThrows | writeDone | writerLeaves | writerStops | writerCloses | writerEnds =>
    exact hupdate rfl nofun
  | writerAdvance w' pc k q hpc =>
    generalize s.writers w' = pc₀ at hpc
    cases hpc with
    | spawn | spawnInPlace | run | resume | again => exact hupdate rfl nofun
  | writerFails w' ex pc k q hpc =>
    generalize s.writers w' = pc₀ at hpc
    cases hpc with
    | threw | load | skip | record => exact hupdate rfl nofun
  | writerTakes w' k q hpc =>
    refine hupdate rfl ?_
    split
    · nofun
    · nofun
  | writerIssues => cases hout
  | _ => exact hw

/-- What is queued grows by what is accepted, unless a batch is taken. -/
theorem writeMsgs_step (h : step o s a = some (s', es)) (htakes : s.takes a = false) :
    s'.writeMsgs = s.writeMsgs ++ acceptedMsgs es := by
  rcases step_cases h with
    ⟨msg, -, -, ⟨haccepts, rfl⟩ | ⟨hrefuses, rfl⟩⟩ | ⟨w, -, -, hyes, -⟩ | ⟨-, -, hsame, hes⟩
  · exact haccepts.msgs
  · rw [hrefuses.same.msgs]
    exact (List.append_nil _).symm
  · rw [htakes] at hyes
    cases hyes
  · rw [hsame.msgs, hes, List.append_nil]

end Session

section Session

variable [DecidableEq τ] {o : Options} {p p' : Polled τ} {a : Action τ} {es : List PollEvent}

theorem PollingInv.take (h : PollingInv p) {s : Session τ} {les : List Event}
    (hstep : step o p.session a = some (s, les)) (htakes : p.session.takes a = true)
    (hfree : p.sectionPc = .free) :
    PollingInv { p with session := s, sectionPc := .swapped p.session.writeMsgs } := by
  have hwriter := h.writer.step (step_move hstep)
  have hsent := h.sent.step h.writer hstep
  have hqueue := h.queue
  have hranges := h.ranges
  rw [hfree] at hqueue
  rw [Polled.Ranges, hfree] at hranges
  rw [completes_of_takes htakes, Nat.add_zero, htakes, if_pos rfl, Polled.taken, hfree] at hsent
  rcases step_cases hstep with
    ⟨msg, hwrites, hno, -⟩ | ⟨w, hpc, -, -, rfl, rfl⟩ | ⟨-, hno, -⟩
  · rw [htakes] at hno
    cases hno
  · have hall : p.sent = p.subtracted.last := by
      have hplaced := h.sent.placed w
      rw [hpc, Polled.taken, hfree] at hplaced
      exact hplaced
    refine ⟨hwriter, hsent, h.le, ?_, h.queued, h.writing, hranges, h.subtracted, h.stored,
      fun _ => ⟨hall, fun w' b hw' => ?_⟩⟩
    · show p.accepted.drop p.subtracted.last = p.session.writeMsgs ++ []
      rw [hqueue, List.append_nil]
      rfl
    · by_cases hne : w' = w
      · have hsame : (Function.update p.session.writers w
            (if p.session.writeMsgs = [] then .leaving else .issuing p.session.writeMsgs)) w' =
            .writing b := hw'
        rw [hne, Function.update_self] at hsame
        split at hsame
        · cases hsame
        · cases hsame
      · have hsame : (Function.update p.session.writers w
            (if p.session.writeMsgs = [] then .leaving else .issuing p.session.writeMsgs)) w' =
            .writing b := hw'
        rw [Function.update_of_ne hne] at hsame
        exact hne (h.writer.unique (by rw [hsame]; rfl) (by rw [hpc]; rfl))
  · rw [htakes] at hno
    cases hno

theorem PollingInv.move (h : PollingInv p) {s : Session τ} {les : List Event}
    (hstep : step o p.session a = some (s, les)) (htakes : p.session.takes a = false)
    (hopen : p.sectionPc ≠ .free → p.session.blocked a = false) :
    PollingInv { p with
      session := s
      queuedBytes := p.queuedBytes + batchSize (acceptedMsgs les)
      accepted := p.accepted ++ acceptedMsgs les
      sent := p.sent + p.session.completes a } := by
  have hwriter := h.writer.step (step_move hstep)
  have hsent := h.sent.step h.writer hstep
  rw [htakes, if_neg (by simp)] at hsent
  have hdrop : (p.accepted ++ acceptedMsgs les).drop p.subtracted.last =
      p.accepted.drop p.subtracted.last ++ acceptedMsgs les := List.drop_append_of_le_length h.le
  refine ⟨hwriter, hsent, ?_, ?_, ?_, ?_, ?_, h.subtracted, h.stored, fun hne => ?_⟩
  · show p.subtracted.last ≤ (p.accepted ++ acceptedMsgs les).length
    rw [List.length_append]
    exact Nat.le_add_right_of_le h.le
  · show (p.accepted ++ acceptedMsgs les).drop p.subtracted.last = p.sectionPc.held ++ s.writeMsgs
    rw [hdrop, h.queue, writeMsgs_step hstep htakes, List.append_assoc]
  · show p.queuedBytes + _ = UInt64.ofNat (totalSize ((p.accepted ++ _).drop p.subtracted.last))
    rw [hdrop, h.queued, totalSize_append, UInt64.ofNat_add, batchSize_eq]
  · show p.writingBytes = UInt64.ofNat (p.stored.size (p.accepted ++ acceptedMsgs les))
    rw [h.writing, Range.size_append (Nat.le_trans h.stored_le h.le)]
  · have hranges := h.ranges
    unfold Polled.Ranges at hranges ⊢
    dsimp only
    rwa [List.take_append_of_le_length h.le]
  · obtain ⟨hfirst, hwriting⟩ := h.holding hne
    obtain ⟨-, -, -, -, hout⟩ := step_unblocked hstep (hopen hne)
    constructor
    · show p.sent + p.session.completes a = p.taken.first
      rw [completes_eq_zero hwriting, Nat.add_zero, hfirst]
    · intro w b hw
      exact hwriting w b (writing_step (step_move hstep) hout hw)

/-- What a step of the session does to the counters and the section. -/
theorem sessionStep_cases (hstep : sessionStep o p a = some (p', es)) :
    ∃ s les, step o p.session a = some (s, les) ∧ es = les.map .session ∧
      (p.sectionPc ≠ .free → p.session.blocked a = false) ∧
      ((p.session.takes a = true ∧ p.sectionPc = .free ∧
        p' = { p with session := s, sectionPc := .swapped p.session.writeMsgs }) ∨
      (p.session.takes a = false ∧ p' = { p with
        session := s
        queuedBytes := p.queuedBytes + batchSize (acceptedMsgs les)
        accepted := p.accepted ++ acceptedMsgs les
        sent := p.sent + p.session.completes a })) := by
  unfold sessionStep at hstep
  split at hstep
  · cases hstep
  · next hnot =>
    obtain ⟨⟨s, les⟩, hsession, heq⟩ := Option.map_eq_some_iff.mp hstep
    cases heq
    have hopen : p.sectionPc ≠ .free → p.session.blocked a = false := by
      intro hne
      by_contra hblocked
      exact hnot ⟨hne, by simpa using hblocked⟩
    refine ⟨s, les, hsession, rfl, hopen, ?_⟩
    cases htakes : p.session.takes a with
    | true =>
      have hfree : p.sectionPc = .free := by
        by_contra hne
        have hno := hopen hne
        rw [blocked_of_takes htakes] at hno
        cases hno
      have hnone : acceptedMsgs les = [] := by
        rcases step_cases hsession with ⟨msg, -, hno, -⟩ | ⟨w, -, -, -, -, rfl⟩ | ⟨-, hno, -⟩
        · rw [htakes] at hno
          cases hno
        · rfl
        · rw [htakes] at hno
          cases hno
      refine .inl ⟨rfl, hfree, ?_⟩
      rw [hnone, completes_of_takes htakes, if_pos rfl, List.append_nil, Nat.add_zero]
      show _ = Polled.mk _ _ p.queuedBytes _ _ _ _ _ _
      rw [show p.queuedBytes + batchSize [] = p.queuedBytes from UInt64.add_zero _]
    | false => exact .inr ⟨rfl, rfl⟩

theorem PollingInv.session (h : PollingInv p) (hstep : sessionStep o p a = some (p', es)) :
    PollingInv p' := by
  obtain ⟨s, les, hsession, -, hopen, ⟨htakes, hfree, rfl⟩ | ⟨htakes, rfl⟩⟩ :=
    sessionStep_cases hstep
  · exact h.take hsession htakes hfree
  · exact h.move hsession htakes hopen

end Session

end TcpSession
