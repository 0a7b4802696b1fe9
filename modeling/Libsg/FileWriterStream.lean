/-
# The file writer on a stream that fails

`m_file` has the exception mask it was made with, so a file that cannot be opened, or a write
that fails, sets state bits and throws nothing.  `action()` looks at no bit: it counts the
bytes of every buffer that it has passed to `write()`, and its `catch` is never entered.

How much of the data the stream holds back is left open: what the file does not take of it in
`close()` is lost without a word.  The bytes counted were accepted, and every failed write has been
reported, exactly while no write has failed and nothing has been lost (`honest_iff`).
-/
import Libsg.FileWriter

open TransitionSystem

namespace FileWriter

/-! ## The model -/

/-- A `std::fstream`. -/
structure Stream where
  good : Bool
  isOpen : Bool
  /-- what it has accepted since it was opened -/
  accepted : Buffer
  /-- what it has not passed on to the file of that -/
  held : Buffer
  /-- what is in the file -/
  content : Buffer
  /-- `exceptions()`: a bit that is set is thrown -/
  throws : Bool
  deriving DecidableEq, Repr

/-- `std::fstream(path, mode)`, which may fail to open the file. -/
def Stream.open (opened : Bool) : Stream := ⟨opened, opened, [], [], [], false⟩

/-- The file takes `flushed` bytes of what is held. -/
def Stream.flush (file : Stream) (flushed : ℕ) : Stream :=
  { file with held := file.held.drop flushed, content := file.content ++ file.held.take flushed }

/-- `write()` of a buffer of which the stream is ready to take `taken` bytes, and of what it then
holds the file `flushed`; one that is not good takes none. -/
def Stream.write (file : Stream) (buff : Buffer) (taken flushed : ℕ) : Stream :=
  if file.good then
    Stream.flush { file with
      accepted := file.accepted ++ buff.take taken
      held := file.held ++ buff.take taken
      good := buff.length ≤ taken } flushed
  else file

/-- `close()`: what the file does not take is lost, and sets `failbit`. -/
def Stream.close (file : Stream) (flushed : ℕ) : Stream :=
  { file.flush flushed with
    good := file.good && (file.held.drop flushed).isEmpty, isOpen := false, held := [] }

/-- The writer and its stream; the `stream` of the writer is what it has passed to `write()`. -/
structure StreamState where
  writer : State
  file : Stream
  deriving DecidableEq, Repr

inductive StreamAction
  | start (opened : Bool)
  | writeAsync (buff : Buffer)
  | stop
  | release
  | join
  /-- one step of the writer's thread; the stream takes `taken` bytes of a buffer it is passed, and
  the file `flushed` of those the stream holds -/
  | writer (taken flushed : ℕ)
  deriving DecidableEq, Repr

inductive StreamEvent
  | control (e : Event)
  /-- `write()` has returned or thrown, with so many bytes of the buffer accepted -/
  | wrote (buff : Buffer) (accepted : ℕ)
  /-- `close()` has returned, and so many bytes did not get into the file -/
  | closed (lost : ℕ)
  /-- `m_on_error_cb` is invoked -/
  | error
  deriving DecidableEq, Repr

/-- A step of the controlling thread. -/
def StreamState.controls (sem : Semaphore) (s : StreamState) (a : Action) :
    Option (StreamState × List StreamEvent) :=
  (step sem s.writer a).map fun (writer, es) => ({ s with writer := writer }, es.map .control)

def streamStep (sem : Semaphore) (s : StreamState) :
    StreamAction → Option (StreamState × List StreamEvent)
  | .start opened =>
    if s.writer.writer.isSome then s.controls sem .start
    else { s with file := .open opened }.controls sem .start
  | .writeAsync buff => s.controls sem (.writeAsync buff)
  | .stop => s.controls sem .stop
  | .release => s.controls sem .release
  | .join => s.controls sem .join
  | .writer taken flushed =>
    match s.writer.writer with
    | some (.writing (buff :: _) _) =>
      let file := s.file.write buff taken flushed
      let threw := file.throws && !file.good
      (step sem s.writer (.writer (!threw))).map fun (writer, _) =>
        (⟨writer, file⟩, .wrote buff (file.accepted.length - s.file.accepted.length) ::
          if threw then [.error] else [])
    -- what `close()` throws is caught and forgotten
    | some .closing => (step sem s.writer (.writer true)).map fun (writer, _) =>
        if s.file.isOpen then
          (⟨writer, s.file.close flushed⟩, [.closed (s.file.held.drop flushed).length])
        else ({ s with writer := writer }, [])
    | _ => (step sem s.writer (.writer true)).map fun (writer, _) => ({ s with writer := writer }, [])

def streamSystem (sem : Semaphore) : TransitionSystem StreamState StreamAction StreamEvent :=
  ⟨⟨.init, .open false⟩, streamStep sem⟩

/-! ## What is hidden -/

/-- A buffer was not written completely: `write()` did not accept it all, or `close()` lost some. -/
def Incomplete (tr : List StreamEvent) : Prop :=
  (∃ buff accepted, .wrote buff accepted ∈ tr ∧ accepted < buff.length) ∨
    ∃ lost, .closed lost ∈ tr ∧ 0 < lost

/-- No failed write is hidden: the bytes counted were accepted, and when a buffer was not written
completely the error callback was invoked. -/
structure Honest (tr : List StreamEvent) (s : StreamState) : Prop where
  counted : s.writer.byteCount.toNat ≤ s.file.accepted.length
  reported : Incomplete tr → .error ∈ tr

/-- Every buffer passed to `write()` was accepted as a whole. -/
def Accepted (tr : List StreamEvent) : Prop :=
  ∀ buff accepted, .wrote buff accepted ∈ tr → accepted = buff.length

/-- And what the stream held when it was closed was taken as a whole. -/
def Complete (tr : List StreamEvent) : Prop :=
  Accepted tr ∧ ∀ lost, .closed lost ∈ tr → lost = 0

/-- What has been counted, and what is about to be, was accepted. -/
def Counted (s : StreamState) : Prop :=
  ∃ k n : ℕ, s.writer.byteCount = UInt64.ofNat k ∧
    s.writer.writer.elim 0 WriterPc.count = UInt64.ofNat n ∧ k + n ≤ s.file.accepted.length

structure StreamInv (tr : List StreamEvent) (s : StreamState) : Prop where
  mask : s.file.throws = false
  silent : .error ∉ tr
  bounded : ∀ buff accepted, .wrote buff accepted ∈ tr → accepted ≤ buff.length
  counted : Accepted tr → Counted s
  /-- while nothing is lost, all that was accepted is in the file or held -/
  kept : (∀ lost, .closed lost ∈ tr → lost = 0) → s.file.content ++ s.file.held = s.file.accepted

section Steps

variable {sem : Semaphore} {tr : List StreamEvent} {s : StreamState}

theorem Stream.write_throws (file : Stream) (buff : Buffer) (taken flushed : ℕ) :
    (file.write buff taken flushed).throws = file.throws := by
  unfold Stream.write
  split <;> rfl

theorem Stream.write_accepted (file : Stream) (buff : Buffer) (taken flushed : ℕ) :
    (file.write buff taken flushed).accepted =
      file.accepted ++ if file.good then buff.take taken else [] := by
  unfold Stream.write
  split
  · rfl
  · exact (List.append_nil _).symm

theorem Stream.flush_kept (file : Stream) (flushed : ℕ) :
    (file.flush flushed).content ++ (file.flush flushed).held = file.content ++ file.held := by
  rw [Stream.flush]
  dsimp only
  rw [List.append_assoc, List.take_append_drop]

/-- What `write()` accepts is in the file or held. -/
theorem Stream.write_kept {file : Stream} (h : file.content ++ file.held = file.accepted)
    (buff : Buffer) (taken flushed : ℕ) :
    (file.write buff taken flushed).content ++ (file.write buff taken flushed).held =
      (file.write buff taken flushed).accepted := by
  unfold Stream.write
  split
  · rw [Stream.flush_kept]
    show file.content ++ (file.held ++ buff.take taken) = file.accepted ++ buff.take taken
    rw [← h, List.append_assoc]
  · exact h

theorem Stream.close_kept {file : Stream} (h : file.content ++ file.held = file.accepted)
    {flushed : ℕ} (hlost : (file.held.drop flushed).length = 0) :
    (file.close flushed).content ++ (file.close flushed).held = (file.close flushed).accepted := by
  have hwhole := file.flush_kept flushed
  rw [show (file.flush flushed).held = [] from List.length_eq_zero_iff.mp hlost] at hwhole
  exact hwhole.trans h

theorem Stream.write_le (file : Stream) (buff : Buffer) (taken flushed : ℕ) :
    (file.write buff taken flushed).accepted.length - file.accepted.length ≤ buff.length := by
  rw [Stream.write_accepted, List.length_append, Nat.add_sub_cancel_left]
  split
  · exact List.length_take_le' _ _
  · exact Nat.zero_le _

/-- A write that is accepted as a whole. -/
theorem Stream.write_complete {file : Stream} {buff : Buffer} {taken flushed : ℕ}
    (h : (file.write buff taken flushed).accepted.length - file.accepted.length = buff.length) :
    (file.write buff taken flushed).accepted.length = file.accepted.length + buff.length := by
  rw [Stream.write_accepted, List.length_append] at h ⊢
  omega

/-- The controlling thread counts nothing. -/
theorem step_control {w w' : State} {a : Action} {es : List Event}
    (hstep : step sem w a = some (w', es)) (hwriter : ∀ accepted, a ≠ .writer accepted)
    (hstart : a = .start → w.writer.isSome = true) : w'.byteCount = w.byteCount ∧
      (w'.writer = w.writer ∨ w.writer = some .finished ∧ w'.writer = none) := by
  cases a with
  | start =>
    simp only [step] at hstep
    split at hstep
    · rw [if_pos (hstart rfl)] at hstep
      cases hstep
      exact ⟨rfl, .inl rfl⟩
    · cases hstep
  | writeAsync | release =>
    simp only [step] at hstep
    split at hstep <;> cases hstep <;> exact ⟨rfl, .inl rfl⟩
  | stop =>
    simp only [step] at hstep
    split at hstep
    · split at hstep <;> cases hstep <;> exact ⟨rfl, .inl rfl⟩
    · cases hstep
  | join =>
    simp only [step] at hstep
    split at hstep <;> cases hstep
    next hfinished => exact ⟨rfl, .inr ⟨hfinished.2, rfl⟩⟩
  | writer accepted => exact absurd rfl (hwriter accepted)

/-- The controlling thread shows nothing of the stream. -/
theorem mem_append_control {e : StreamEvent} {ces : List Event} (he : ∀ c, e ≠ .control c) :
    e ∈ tr ++ ces.map .control ↔ e ∈ tr := by
  rw [List.mem_append, or_iff_left]
  intro hmem
  obtain ⟨c, -, hc⟩ := List.mem_map.mp hmem
  exact he c hc.symm

theorem StreamInv.controls (h : StreamInv tr s) {a : Action} {s' : StreamState}
    {es : List StreamEvent} (hwriter : ∀ accepted, a ≠ .writer accepted)
    (hstart : a = .start → s.writer.writer.isSome = true)
    (hstep : s.controls sem a = some (s', es)) : StreamInv (tr ++ es) s' := by
  obtain ⟨⟨w, ces⟩, hw, heq⟩ := Option.map_eq_some_iff.mp hstep
  cases heq
  obtain ⟨hcount, hpc⟩ := step_control hw hwriter hstart
  refine ⟨h.mask, ?_, fun buff accepted hmem => ?_, fun haccepted => ?_, fun hlost => ?_⟩
  · rw [mem_append_control (by simp)]
    exact h.silent
  · exact h.bounded buff accepted ((mem_append_control (by simp)).mp hmem)
  · obtain ⟨k, n, hk, hn, hle⟩ := h.counted fun buff accepted hmem =>
      haccepted buff accepted (List.mem_append_left _ hmem)
    refine ⟨k, n, hcount.trans hk, ?_, hle⟩
    dsimp only
    rcases hpc with hsame | ⟨hfinished, hnone⟩
    · rw [hsame]
      exact hn
    · rw [hfinished] at hn
      rw [hnone]
      exact hn
  · exact h.kept fun lost hmem => hlost lost (List.mem_append_left _ hmem)

/-- A file is opened, or not, with nothing counted and nothing accepted. -/
theorem StreamInv.starts (h : StreamInv tr s) {opened : Bool} {s' : StreamState}
    {es : List StreamEvent} (hnone : ¬ s.writer.writer.isSome = true)
    (hstep : StreamState.controls sem { s with file := .open opened } .start = some (s', es)) :
    StreamInv (tr ++ es) s' := by
  obtain ⟨⟨w, ces⟩, hw, heq⟩ := Option.map_eq_some_iff.mp hstep
  cases heq
  simp only [step, if_neg hnone] at hw
  split at hw
  · cases hw
    refine ⟨rfl, ?_, fun buff accepted hmem => ?_,
      fun _ => ⟨0, 0, rfl, rfl, Nat.zero_le _⟩, fun _ => rfl⟩
    · rw [mem_append_control (by simp)]
      exact h.silent
    · exact h.bounded buff accepted ((mem_append_control (by simp)).mp hmem)
  · cases hw

/-- The writer's thread passes a buffer to `write()`. -/
theorem StreamInv.writes (h : StreamInv tr s) {buff : Buffer} {oldData : List Buffer}
    {count : UInt64} {taken flushed : ℕ} {w : State} {ces : List Event}
    (hpc : s.writer.writer = some (.writing (buff :: oldData) count))
    (hstep : step sem s.writer (.writer true) = some (w, ces)) :
    StreamInv (tr ++ [.wrote buff ((s.file.write buff taken flushed).accepted.length -
      s.file.accepted.length)]) ⟨w, s.file.write buff taken flushed⟩ := by
  refine ⟨(s.file.write_throws buff taken flushed).trans h.mask, ?_, fun buff' accepted hmem => ?_,
    fun haccepted => ?_, fun hlost => ?_⟩
  · rw [List.mem_append]
    rintro (hmem | hmem)
    · exact h.silent hmem
    · cases List.mem_singleton.mp hmem
  · rcases List.mem_append.mp hmem with hbefore | hnow
    · exact h.bounded buff' accepted hbefore
    · cases List.mem_singleton.mp hnow
      exact s.file.write_le buff taken flushed
  · obtain ⟨k, n, hk, hn, hle⟩ := h.counted fun buff accepted hmem =>
      haccepted buff accepted (List.mem_append_left _ hmem)
    have hwhole := Stream.write_complete
      (haccepted _ _ (List.mem_append_right _ (List.mem_singleton.mpr rfl)))
    rw [hpc] at hn
    obtain ⟨w₁, hw, heq⟩ := Option.map_eq_some_iff.mp hstep
    cases heq
    rw [hpc] at hw
    cases hw
    refine ⟨k, n + buff.length, hk, ?_, ?_⟩
    · rw [UInt64.ofNat_add, ← hn]
      rfl
    · dsimp only
      rw [hwhole]
      omega
  · exact Stream.write_kept (h.kept fun lost hmem => hlost lost (List.mem_append_left _ hmem))
      buff taken flushed

/-- The writer's thread closes the file. -/
theorem StreamInv.closes (h : StreamInv tr s) {flushed : ℕ} {w : State} {ces : List Event}
    (hpc : s.writer.writer = some .closing)
    (hstep : step sem s.writer (.writer true) = some (w, ces)) :
    StreamInv (tr ++ [.closed (s.file.held.drop flushed).length]) ⟨w, s.file.close flushed⟩ := by
  refine ⟨h.mask, ?_, fun buff accepted hmem => ?_, fun haccepted => ?_, fun hlost => ?_⟩
  · rw [List.mem_append]
    rintro (hmem | hmem)
    · exact h.silent hmem
    · cases List.mem_singleton.mp hmem
  · rcases List.mem_append.mp hmem with hbefore | hnow
    · exact h.bounded buff accepted hbefore
    · cases List.mem_singleton.mp hnow
  · obtain ⟨k, n, hk, hn, hle⟩ := h.counted fun buff accepted hmem =>
      haccepted buff accepted (List.mem_append_left _ hmem)
    obtain ⟨w₁, hw, heq⟩ := Option.map_eq_some_iff.mp hstep
    cases heq
    rw [hpc] at hw hn
    cases hw
    exact ⟨k, n, hk, hn, hle⟩
  · refine Stream.close_kept (h.kept fun lost hmem => hlost lost (List.mem_append_left _ hmem)) ?_
    exact hlost _ (List.mem_append_right _ (List.mem_singleton.mpr rfl))

/-- Only behind the loop over the buffers is anything counted. -/
theorem writerStep_count {w w' : State} {pc : WriterPc} (hstep : writerStep w true pc = some w')
    (hpc : ∀ oldData count, pc ≠ .writing oldData count) :
    w'.byteCount = w.byteCount ∧ w'.writer.elim 0 WriterPc.count = pc.count := by
  unfold writerStep at hstep
  split at hstep
  case h_1 | h_6 =>
    cases hstep
    dsimp only [Option.elim_some]
    split <;> exact ⟨rfl, rfl⟩
  case h_4 | h_5 => exact absurd rfl (hpc _ _)
  case h_7 =>
    split at hstep <;> cases hstep
    dsimp only [Option.elim_some]
    split <;> exact ⟨rfl, rfl⟩
  case h_2 | h_3 =>
    split at hstep <;> cases hstep
    exact ⟨rfl, rfl⟩
  case h_8 =>
    cases hstep
    exact ⟨rfl, rfl⟩
  case h_9 => cases hstep

/-- The other steps of the writer's thread. -/
theorem StreamInv.goesOn (h : StreamInv tr s) {w : State} {ces : List Event}
    (hpc : ∀ buff oldData count, s.writer.writer ≠ some (.writing (buff :: oldData) count))
    (hstep : step sem s.writer (.writer true) = some (w, ces)) :
    StreamInv tr { s with writer := w } := by
  refine ⟨h.mask, h.silent, h.bounded, fun haccepted => ?_, h.kept⟩
  obtain ⟨k, n, hk, hn, hle⟩ := h.counted haccepted
  obtain ⟨w₁, hbind, heq⟩ := Option.map_eq_some_iff.mp hstep
  cases heq
  obtain ⟨pc, hwriter, hw⟩ := Option.bind_eq_some_iff.mp hbind
  rw [hwriter] at hn hpc
  by_cases hwriting : ∃ oldData count, pc = .writing oldData count
  -- the batch is written: its count goes to `m_byte_count`
  · obtain ⟨oldData, count, rfl⟩ := hwriting
    cases oldData with
    | cons buff oldData => exact absurd rfl (hpc buff oldData count)
    | nil =>
      cases hw
      refine ⟨k + n, 0, ?_, rfl, hle⟩
      rw [UInt64.ofNat_add, ← hk, ← hn]
      rfl
  · obtain ⟨hcount, hsame⟩ := writerStep_count hw fun oldData count hpc =>
      hwriting ⟨oldData, count, hpc⟩
    exact ⟨k, n, hcount.trans hk, hsame.trans hn, hle⟩

theorem StreamInv.step (h : StreamInv tr s) {a : StreamAction} {s' : StreamState}
    {es : List StreamEvent} (hstep : streamStep sem s a = some (s', es)) :
    StreamInv (tr ++ es) s' := by
  cases a with
  | start opened =>
    simp only [streamStep] at hstep
    split at hstep
    · next hsome => exact h.controls (a := .start) (by simp) (fun _ => hsome) hstep
    · next hnone => exact h.starts hnone hstep
  | writeAsync buff => exact h.controls (a := .writeAsync buff) (by simp) (by simp) hstep
  | stop => exact h.controls (a := .stop) (by simp) (by simp) hstep
  | release => exact h.controls (a := .release) (by simp) (by simp) hstep
  | join => exact h.controls (a := .join) (by simp) (by simp) hstep
  | writer taken flushed =>
    simp only [streamStep] at hstep
    split at hstep
    · next buff oldData count hpc =>
      have hthrows := (s.file.write_throws buff taken flushed).trans h.mask
      rw [hthrows, Bool.false_and] at hstep
      obtain ⟨⟨w, ces⟩, hw, heq⟩ := Option.map_eq_some_iff.mp hstep
      cases heq
      exact h.writes hpc hw
    · next hpc =>
      obtain ⟨⟨w, ces⟩, hw, heq⟩ := Option.map_eq_some_iff.mp hstep
      dsimp only at heq
      split at heq
      · cases heq
        exact h.closes hpc hw
      · cases heq
        rw [List.append_nil]
        refine h.goesOn (fun buff oldData count hwriting => ?_) hw
        rw [hpc] at hwriting
        cases hwriting
    · next hpc _ =>
      obtain ⟨⟨w, ces⟩, hw, heq⟩ := Option.map_eq_some_iff.mp hstep
      cases heq
      rw [List.append_nil]
      exact h.goesOn hpc hw

end Steps

theorem streamInv {sem : Semaphore} {tr : List StreamEvent} {s : StreamState}
    (h : (streamSystem sem).Reachable tr s) : StreamInv tr s := by
  refine Run.invariant (I := StreamInv) ?_ ?_ h
  · exact ⟨rfl, by simp, by simp, fun _ => ⟨0, 0, rfl, rfl, Nat.le_refl 0⟩, fun _ => rfl⟩
  · intro tr s a s' es _ _ hstep ih
    exact ih.step hstep

/-- **The file writer hides no failed write exactly as long as no write fails and nothing is lost.**
Whatever the controlling thread does, whether files can be opened, how many bytes of which buffer
the stream accepts, and how many of them the file takes.  All that was accepted is then in the file,
or held until the stream is closed. -/
theorem honest_iff (sem : Semaphore) (tr : List StreamEvent) (s : StreamState)
    (h : (streamSystem sem).Reachable tr s) :
    (Honest tr s ↔ Complete tr) ∧
      (Complete tr → s.file.content ++ s.file.held = s.file.accepted) := by
  have hinv := streamInv h
  refine ⟨⟨fun hhonest => ⟨fun buff accepted hmem => ?_, fun lost hmem => ?_⟩,
    fun hcomplete => ⟨?_, ?_⟩⟩, fun hcomplete => hinv.kept hcomplete.2⟩
  · by_contra hne
    exact hinv.silent (hhonest.reported (.inl ⟨buff, accepted, hmem,
      Nat.lt_of_le_of_ne (hinv.bounded buff accepted hmem) hne⟩))
  · by_contra hne
    exact hinv.silent (hhonest.reported (.inr ⟨lost, hmem, Nat.pos_of_ne_zero hne⟩))
  · obtain ⟨k, n, hk, -, hle⟩ := hinv.counted hcomplete.1
    rw [hk, UInt64.toNat_ofNat']
    exact Nat.le_trans (Nat.mod_le _ _) (Nat.le_trans (Nat.le_add_right k n) hle)
  · rintro (⟨buff, accepted, hmem, hless⟩ | ⟨lost, hmem, hpos⟩)
    · exact absurd (hcomplete.1 buff accepted hmem) (Nat.ne_of_lt hless)
    · exact absurd (hcomplete.2 lost hmem) (Nat.ne_of_gt hpos)

/-- A writer is started, passed one buffer and stopped. -/
def wholeRun (opened : Bool) (taken flushed : ℕ) : List StreamAction :=
  List.flatten [[.start opened, .writeAsync [1, 2, 3], .release, .stop, .release],
    List.replicate 4 (.writer taken 0), List.replicate 3 (.writer taken flushed), [.join]]

/-- The stream takes the whole buffer of the first run, none of the second, and of the third it loses
the end in `close()`. -/
theorem honest_wholeRun :
    (∃ tr s, (streamSystem .saturating).Reachable tr s ∧ s.file.content = [1, 2, 3] ∧
      Honest tr s) ∧
    (∃ tr s, (streamSystem .saturating).Reachable tr s ∧ s.file.accepted = [] ∧ ¬ Honest tr s) ∧
    ∃ tr s, (streamSystem .saturating).Reachable tr s ∧ s.file.accepted = [1, 2, 3] ∧
      s.file.content = [1] ∧ ¬ Honest tr s := by
  have hgood : (streamSystem .saturating).exec (wholeRun true 3 3) = some
      (⟨⟨1, [], 3, true, [1, 2, 3], [1, 2, 3], none, .idle⟩,
        ⟨true, false, [1, 2, 3], [], [1, 2, 3], false⟩⟩,
       [.control .started, .control (.passed [1, 2, 3]), .wrote [1, 2, 3] 3, .closed 0,
        .control .stopped]) := rfl
  have hbad : (streamSystem .saturating).exec (wholeRun true 0 0) = some
      (⟨⟨1, [], 3, true, [1, 2, 3], [1, 2, 3], none, .idle⟩, ⟨false, false, [], [], [], false⟩⟩,
       [.control .started, .control (.passed [1, 2, 3]), .wrote [1, 2, 3] 0, .closed 0,
        .control .stopped]) := rfl
  have hloses : (streamSystem .saturating).exec (wholeRun true 3 1) = some
      (⟨⟨1, [], 3, true, [1, 2, 3], [1, 2, 3], none, .idle⟩,
        ⟨false, false, [1, 2, 3], [], [1], false⟩⟩,
       [.control .started, .control (.passed [1, 2, 3]), .wrote [1, 2, 3] 3, .closed 2,
        .control .stopped]) := rfl
  have hrun := runFrom_of_execFrom (C := anyStep) (execMeets_anyStep _ _) hgood
  have hfails := runFrom_of_execFrom (C := anyStep) (execMeets_anyStep _ _) hbad
  have hlost := runFrom_of_execFrom (C := anyStep) (execMeets_anyStep _ _) hloses
  refine ⟨⟨_, _, hrun, rfl, (honest_iff _ _ _ hrun).1.mpr ⟨fun buff accepted hmem => ?_,
    fun lost hmem => ?_⟩⟩, ⟨_, _, hfails, rfl, fun h => ?_⟩, _, _, hlost, rfl, rfl, fun h => ?_⟩
  · simp only [List.mem_cons, reduceCtorEq, StreamEvent.wrote.injEq, false_or, or_false,
      List.not_mem_nil] at hmem
    rw [hmem.1, hmem.2]
    rfl
  · simpa using hmem
  · have hcomplete := ((honest_iff _ _ _ hfails).1.mp h).1 [1, 2, 3] 0 (by decide)
    cases hcomplete
  · have hcomplete := ((honest_iff _ _ _ hlost).1.mp h).2 2 (by decide)
    cases hcomplete

/-- The file cannot be opened: three bytes are counted, none is written, nothing is reported. -/
theorem unopened_hidden : ∃ tr s, (streamSystem .saturating).Reachable tr s ∧
    tr.getLast? = some (.control .stopped) ∧ s.writer.byteCount = 3 ∧ s.file.accepted = [] ∧
    .error ∉ tr ∧ ¬ Honest tr s := by
  have hexec : (streamSystem .saturating).exec (wholeRun false 3 3) = some
      (⟨⟨1, [], 3, true, [1, 2, 3], [1, 2, 3], none, .idle⟩, ⟨false, false, [], [], [], false⟩⟩,
       [.control .started, .control (.passed [1, 2, 3]), .wrote [1, 2, 3] 0, .control .stopped]) :=
    rfl
  have hrun := runFrom_of_execFrom (C := anyStep) (execMeets_anyStep _ _) hexec
  refine ⟨_, _, hrun, rfl, rfl, rfl, by decide, fun h => ?_⟩
  have hcounted := h.counted
  revert hcounted
  decide

end FileWriter
