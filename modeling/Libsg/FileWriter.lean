/-
# The file writer

`file_writer.cpp` and `write_async` of `file_writer.h`.  One thread controls the
writer: it starts it, passes it buffers and stops it; the writer's own thread
sleeps on a semaphore, swaps the whole queue for an empty one and writes what it
has got.  The two threads take their steps in any order; a section under `m_mutex`
that the writer's thread goes through is one step, since nothing else is done in it.

The `std::binary_semaphore` is taken both as one that saturates and as one that
counts, the standard leaving a release of a full one undefined.

* `Inv` : what has been passed is on the stream, on its way to it, or in the queue;
* `writes_everything` : a stopped writer has written it all, once and in order;
* `stop_returns` : a `stop()` in progress can always be carried to its end.
-/
import Libsg.TransitionSystem
import Mathlib.Tactic.Common

open TransitionSystem

namespace FileWriter

/-- `sg::shared_c_buffer<std::byte>`: the bytes of one buffer. -/
abbrev Buffer := List UInt8

/-- `shared_c_buffer::size()`, a `size_t`. -/
def bufferSize (buff : Buffer) : UInt64 := UInt64.ofNat buff.length

/-- What a release does to a `std::binary_semaphore`. -/
inductive Semaphore
  | saturating
  | counting
  deriving DecidableEq, Repr

def Semaphore.release : Semaphore → ℕ → ℕ
  | .saturating, _ => 1
  | .counting, n => n + 1

/-! ## The two threads -/

/-- Where the writer's thread is in `action()`. -/
inductive WriterPc
  /-- at `if (!stop_tok.stop_requested())` -/
  | top
  /-- in `m_signal.acquire()` -/
  | acquiring
  /-- before the section that swaps the queue -/
  | swapping
  /-- in the loop over `m_old_data`, with `count` -/
  | writing (oldData : List Buffer) (count : UInt64)
  /-- at the `if` behind the loop -/
  | checking
  /-- before the section that looks for more data -/
  | looking
  /-- before `m_file.close()` -/
  | closing
  | finished
  deriving DecidableEq, Repr

/-- Where the controlling thread is. -/
inductive ControlPc
  | idle
  /-- in `write_async`, under `m_mutex`, before the release -/
  | writingAsync
  /-- in `stop()`, before the release -/
  | stopping
  /-- in `stop()`, at the join -/
  | joining
  deriving DecidableEq, Repr

structure State where
  /-- `m_signal` -/
  signal : ℕ
  /-- `m_data` -/
  data : List Buffer
  /-- `m_byte_count` -/
  byteCount : UInt64
  /-- of the stop source of `m_thread` -/
  stopRequested : Bool
  /-- what `m_file` has accepted since it was opened -/
  stream : Buffer
  /-- the content of the file of the run -/
  file : Buffer
  /-- `m_thread`; `none` when it is not joinable -/
  writer : Option WriterPc
  control : ControlPc
  deriving DecidableEq, Repr

def State.init : State := ⟨0, [], 0, false, [], [], none, .idle⟩

inductive Action
  | start
  | writeAsync (buff : Buffer)
  | stop
  /-- `m_signal.release()`, of either function -/
  | release
  /-- `m_thread.join()` returns -/
  | join
  /-- one step of the writer's thread; a write is accepted by the stream or throws -/
  | writer (accepted : Bool)
  deriving DecidableEq, Repr

inductive Event
  | started
  /-- `start()` throws: already running -/
  | refused
  | passed (buff : Buffer)
  /-- `stop()` returns -/
  | stopped
  deriving DecidableEq, Repr

/-- One step of `action()`. -/
def writerStep (s : State) (accepted : Bool) : WriterPc → Option State
  | .top => some { s with writer := some (if s.stopRequested then .swapping else .acquiring) }
  | .acquiring =>
    if 0 < s.signal then some { s with signal := s.signal - 1, writer := some .swapping } else none
  | .swapping =>
    if s.control = .writingAsync then none
    else some { s with data := [], writer := some (.writing s.data 0) }
  | .writing [] count =>
    some { s with byteCount := s.byteCount + count, writer := some .checking }
  | .writing (buff :: oldData) count =>
    if accepted then
      some { s with
        stream := s.stream ++ buff, writer := some (.writing oldData (count + bufferSize buff)) }
    else
      some { s with writer := some .closing }
  | .checking => some { s with writer := some (if s.stopRequested then .looking else .top) }
  | .looking =>
    if s.control = .writingAsync then none
    else some { s with writer := some (if s.data.isEmpty then .closing else .top) }
  | .closing => some { s with file := s.stream, writer := some .finished }
  | .finished => none

/-- `start()` on a writer that is not running. -/
def State.started (s : State) : State :=
  { s with
    byteCount := 0
    stopRequested := false
    stream := []
    file := []
    writer := some .top }

def step (sem : Semaphore) (s : State) : Action → Option (State × List Event)
  | .start =>
    if s.control = .idle then
      if s.writer.isSome then some (s, [.refused]) else some (s.started, [.started])
    else none
  | .writeAsync buff =>
    if s.control = .idle then
      some ({ s with data := s.data ++ [buff], control := .writingAsync }, [.passed buff])
    else none
  | .stop =>
    if s.control = .idle then
      if s.writer.isSome then some ({ s with stopRequested := true, control := .stopping }, [])
      else some (s, [.stopped])
    else none
  | .release =>
    match s.control with
    | .writingAsync => some ({ s with signal := sem.release s.signal, control := .idle }, [])
    | .stopping => some ({ s with signal := sem.release s.signal, control := .joining }, [])
    | .idle | .joining => none
  | .join =>
    if s.control = .joining ∧ s.writer = some .finished then
      some ({ s with writer := none, control := .idle }, [.stopped])
    else none
  | .writer accepted => (s.writer.bind (writerStep s accepted)).map fun s' => (s', [])

def system (sem : Semaphore) : TransitionSystem State Action Event := ⟨.init, step sem⟩

/-- The caller writes to a running writer only, and the stream accepts every write. -/
def Orderly (s : State) : Action → Prop
  | .writeAsync _ => s.writer.isSome = true
  | .writer accepted => accepted = true
  | _ => True

instance (s : State) : (a : Action) → Decidable (Orderly s a)
  | .writeAsync _ => inferInstanceAs (Decidable (s.writer.isSome = true))
  | .writer accepted => inferInstanceAs (Decidable (accepted = true))
  | .start | .stop | .release | .join => .isTrue trivial

/-- The buffers passed to `write_async` in the current run, in call order. -/
def passed (tr : List Event) : List Buffer :=
  tr.foldl (fun passed e =>
    match e with
    | .started => []
    | .passed buff => passed ++ [buff]
    | .refused | .stopped => passed) []

/-! ## The invariant -/

/-- What the writer's thread has swapped out and not written yet. -/
def WriterPc.oldData : WriterPc → List Buffer
  | .writing oldData _ => oldData
  | _ => []

/-- What it has written and not added to the total yet. -/
def WriterPc.count : WriterPc → UInt64
  | .writing _ count => count
  | _ => 0

/-- The writer's thread leaves the loop, or has left it. -/
def WriterPc.leaves : WriterPc → Bool
  | .closing | .finished => true
  | _ => false

/-- The controlling thread has requested the stop. -/
def ControlPc.inStop : ControlPc → Bool
  | .stopping | .joining => true
  | .idle | .writingAsync => false

/-- The invariant while there is a thread, which is at `pc`. -/
structure Running (tr : List Event) (s : State) (pc : WriterPc) : Prop where
  stream : s.stream ++ pc.oldData.flatten ++ s.data.flatten = (passed tr).flatten
  count : s.byteCount + pc.count = UInt64.ofNat s.stream.length
  asked : s.stopRequested = s.control.inStop
  looking : pc = .looking ∨ pc.leaves = true → s.stopRequested = true
  drained : pc.leaves = true → s.data = []
  closed : pc = .finished → s.file = s.stream

/-- The invariant while there is none. -/
structure Stopped (tr : List Event) (s : State) : Prop where
  control : s.control = .idle
  data : s.data = []
  file : s.file = (passed tr).flatten
  count : s.byteCount = UInt64.ofNat s.file.length

structure Inv (tr : List Event) (s : State) : Prop where
  running : ∀ pc, s.writer = some pc → Running tr s pc
  stopped : s.writer = none → Stopped tr s

theorem passed_append (tr : List Event) (e : Event) :
    passed (tr ++ [e]) =
      match e with
      | .started => []
      | .passed buff => passed tr ++ [buff]
      | .refused | .stopped => passed tr := by
  rw [passed, List.foldl_append]
  cases e <;> rfl

/-- Every step of the writer's thread moves what is passed on towards the stream. -/
theorem Running.writerStep {tr : List Event} {s s' : State} {pc : WriterPc}
    (h : Running tr s pc) (hstep : writerStep s true pc = some s') :
    ∃ pc', s'.writer = some pc' ∧ Running tr s' pc' := by
  obtain ⟨hstream, hcount, hasked, hlooking, hdrained, hclosed⟩ := h
  cases pc with
  | top =>
    cases hstep
    refine ⟨_, rfl, ?_⟩
    split
    · exact ⟨hstream, hcount, hasked, nofun, nofun, nofun⟩
    · exact ⟨hstream, hcount, hasked, nofun, nofun, nofun⟩
  | acquiring =>
    simp only [FileWriter.writerStep] at hstep
    split at hstep
    · cases hstep
      exact ⟨_, rfl, hstream, hcount, hasked, nofun, nofun, nofun⟩
    · cases hstep
  | swapping =>
    simp only [FileWriter.writerStep] at hstep
    split at hstep
    · cases hstep
    · cases hstep
      refine ⟨_, rfl, ?_, hcount, hasked, nofun, nofun, nofun⟩
      show s.stream ++ s.data.flatten ++ [] = _
      rw [List.append_nil, ← hstream]
      exact congrArg (· ++ s.data.flatten) (List.append_nil _).symm
  | writing oldData count =>
    cases oldData with
    | nil =>
      cases hstep
      refine ⟨_, rfl, hstream, ?_, hasked, nofun, nofun, nofun⟩
      show s.byteCount + count + 0 = _
      rw [UInt64.add_zero]
      exact hcount
    | cons buff oldData =>
      cases hstep
      refine ⟨_, rfl, ?_, ?_, hasked, nofun, nofun, nofun⟩
      · rw [← hstream]
        simp [WriterPc.oldData]
      · show s.byteCount + (count + bufferSize buff) = UInt64.ofNat (s.stream ++ buff).length
        rw [List.length_append, UInt64.ofNat_add, ← hcount, ← UInt64.add_assoc]
        rfl
  | checking =>
    cases hstep
    refine ⟨_, rfl, ?_⟩
    split
    · rename_i hstop
      exact ⟨hstream, hcount, hasked, fun _ => hstop, nofun, nofun⟩
    · exact ⟨hstream, hcount, hasked, nofun, nofun, nofun⟩
  | looking =>
    simp only [FileWriter.writerStep] at hstep
    split at hstep
    · cases hstep
    · cases hstep
      have hstop := hlooking (.inl rfl)
      refine ⟨_, rfl, ?_⟩
      split
      · rename_i hempty
        exact ⟨hstream, hcount, hasked, fun _ => hstop, fun _ => List.isEmpty_iff.mp hempty, nofun⟩
      · exact ⟨hstream, hcount, hasked, nofun, nofun, nofun⟩
  | closing =>
    cases hstep
    exact ⟨_, rfl, hstream, hcount, hasked, fun _ => hlooking (.inr rfl),
      fun _ => hdrained rfl, fun _ => rfl⟩
  | finished => cases hstep

/-- Events that pass nothing and start nothing leave the invariant alone. -/
theorem Inv.events {tr tr' : List Event} {s : State} (h : Inv tr s)
    (hpassed : passed tr' = passed tr) : Inv tr' s where
  running := by
    intro pc hpc
    obtain ⟨hstream, hcount, hasked, hlooking, hdrained, hclosed⟩ := h.running pc hpc
    exact ⟨hpassed ▸ hstream, hcount, hasked, hlooking, hdrained, hclosed⟩
  stopped := by
    intro hnone
    obtain ⟨hcontrol, hdata, hfile, hcount⟩ := h.stopped hnone
    exact ⟨hcontrol, hdata, hpassed ▸ hfile, hcount⟩

section Steps

variable {tr es : List Event} {s s' : State} {sem : Semaphore}

theorem Inv.start (h : Inv tr s) (hstep : step sem s .start = some (s', es)) :
    Inv (tr ++ es) s' := by
  simp only [step] at hstep
  split at hstep
  · cases hwriter : s.writer with
    | some pc =>
      rw [hwriter] at hstep
      cases hstep
      exact h.events (passed_append tr .refused)
    | none =>
      rw [hwriter] at hstep
      cases hstep
      obtain ⟨hcontrol, hdata, -, -⟩ := h.stopped hwriter
      refine ⟨?_, nofun⟩
      rintro pc ⟨⟩
      refine ⟨?_, rfl, ?_, nofun, nofun, nofun⟩
      · rw [passed_append]
        show [] ++ [] ++ s.data.flatten = []
        rw [hdata]
        rfl
      · show false = s.control.inStop
        rw [hcontrol]
        rfl
  · cases hstep

/-- A buffer is passed while no stop has been requested, and so before the thread can leave. -/
theorem Inv.writeAsync {buff : Buffer} (h : Inv tr s) (horderly : Orderly s (.writeAsync buff))
    (hstep : step sem s (.writeAsync buff) = some (s', es)) : Inv (tr ++ es) s' := by
  simp only [step] at hstep
  split at hstep
  · rename_i hidle
    cases hstep
    refine ⟨fun pc hpc => ?_, fun hnone => ?_⟩
    · obtain ⟨hstream, hcount, hasked, hlooking, -, hclosed⟩ := h.running pc hpc
      rw [hidle] at hasked
      have hnostop : ¬ s.stopRequested = true := by
        rw [hasked]
        decide
      refine ⟨?_, hcount, hasked, fun hpc => absurd (hlooking hpc) hnostop,
        fun hpc => absurd (hlooking (.inr hpc)) hnostop, hclosed⟩
      rw [passed_append]
      show s.stream ++ pc.oldData.flatten ++ (s.data ++ [buff]).flatten =
        (passed tr ++ [buff]).flatten
      rw [List.flatten_append, List.flatten_append, ← hstream, List.append_assoc _ s.data.flatten]
    · rw [Orderly, hnone] at horderly
      cases horderly
  · cases hstep

theorem Inv.stop (h : Inv tr s) (hstep : step sem s .stop = some (s', es)) :
    Inv (tr ++ es) s' := by
  simp only [step] at hstep
  split at hstep
  · cases hwriter : s.writer with
    | some pc =>
      rw [hwriter] at hstep
      cases hstep
      rw [List.append_nil]
      refine ⟨fun pc' hpc => ?_, nofun⟩
      obtain ⟨hstream, hcount, -, -, hdrained, hclosed⟩ := h.running pc' (hwriter.trans hpc)
      exact ⟨hstream, hcount, rfl, fun _ => rfl, hdrained, hclosed⟩
    | none =>
      rw [hwriter] at hstep
      cases hstep
      exact h.events (passed_append tr .stopped)
  · cases hstep

theorem Inv.release (h : Inv tr s) (hstep : step sem s .release = some (s', es)) :
    Inv (tr ++ es) s' := by
  simp only [step] at hstep
  split at hstep
  · rename_i hcontrol
    cases hstep
    rw [List.append_nil]
    refine ⟨fun pc hpc => ?_, fun hnone => ?_⟩
    · obtain ⟨hstream, hcount, hasked, hlooking, hdrained, hclosed⟩ := h.running pc hpc
      rw [hcontrol] at hasked
      exact ⟨hstream, hcount, hasked, hlooking, hdrained, hclosed⟩
    · rw [(h.stopped hnone).control] at hcontrol
      cases hcontrol
  · rename_i hcontrol
    cases hstep
    rw [List.append_nil]
    refine ⟨fun pc hpc => ?_, fun hnone => ?_⟩
    · obtain ⟨hstream, hcount, hasked, hlooking, hdrained, hclosed⟩ := h.running pc hpc
      rw [hcontrol] at hasked
      exact ⟨hstream, hcount, hasked, hlooking, hdrained, hclosed⟩
    · rw [(h.stopped hnone).control] at hcontrol
      cases hcontrol
  · cases hstep
  · cases hstep

/-- The thread has left with nothing in the queue. -/
theorem Inv.join (h : Inv tr s) (hstep : step sem s .join = some (s', es)) :
    Inv (tr ++ es) s' := by
  simp only [step] at hstep
  split at hstep
  · rename_i hfinished
    cases hstep
    obtain ⟨hstream, hcount, -, -, hdrained, hclosed⟩ := h.running .finished hfinished.2
    have hdata : s.data = [] := hdrained rfl
    have hfile : s.file = s.stream := hclosed rfl
    refine ⟨nofun, fun _ => ⟨rfl, hdata, ?_, ?_⟩⟩
    · rw [passed_append, ← hstream, hdata]
      show s.file = s.stream ++ [] ++ []
      rw [List.append_nil, List.append_nil, hfile]
    · rw [← UInt64.add_zero s.byteCount]
      show s.byteCount + 0 = UInt64.ofNat s.file.length
      rw [hfile]
      exact hcount
  · cases hstep

theorem Inv.writer {accepted : Bool} (h : Inv tr s) (horderly : Orderly s (.writer accepted))
    (hstep : step sem s (.writer accepted) = some (s', es)) : Inv (tr ++ es) s' := by
  cases horderly
  obtain ⟨s₁, hbind, heq⟩ := Option.map_eq_some_iff.mp hstep
  obtain ⟨pc, hpc, hwriter⟩ := Option.bind_eq_some_iff.mp hbind
  cases heq
  rw [List.append_nil]
  obtain ⟨pc', hpc', hrunning⟩ := (h.running pc hpc).writerStep hwriter
  refine ⟨fun pc₁ hpc₁ => ?_, fun hnone => ?_⟩
  · rw [hpc'] at hpc₁
    cases hpc₁
    exact hrunning
  · rw [hpc'] at hnone
    cases hnone

end Steps

theorem inv_run {sem : Semaphore} {tr : List Event} {s : State}
    (h : (system sem).Run Orderly tr s) : Inv tr s := by
  refine Run.invariant (I := Inv) ?_ ?_ h
  · exact ⟨nofun, fun _ => ⟨rfl, rfl, rfl, rfl⟩⟩
  · intro tr s a s' es _ horderly hstep hinv
    change step sem s a = some (s', es) at hstep
    cases a with
    | start => exact hinv.start hstep
    | writeAsync buff => exact hinv.writeAsync horderly hstep
    | stop => exact hinv.stop hstep
    | release => exact hinv.release hstep
    | join => exact hinv.join hstep
    | writer accepted => exact hinv.writer horderly hstep

/-- As long as the return of a `stop()` is the last that was shown, there is no thread. -/
theorem no_thread_after_stop {sem : Semaphore} {tr : List Event} {s : State}
    (h : (system sem).Run Orderly tr s) (hlast : tr.getLast? = some .stopped) :
    s.writer = none := by
  refine Run.invariant (I := fun tr s => tr.getLast? = some .stopped → s.writer = none)
    nofun ?_ h hlast
  intro tr s a s' es hrun _ hstep ih hlast
  change step sem s a = some (s', es) at hstep
  cases a with
  | start =>
    simp only [step] at hstep
    split at hstep
    · split at hstep <;> cases hstep <;> simp at hlast
    · cases hstep
  | writeAsync buff =>
    simp only [step] at hstep
    split at hstep <;> cases hstep
    simp at hlast
  | stop =>
    simp only [step] at hstep
    split at hstep
    · split at hstep <;> cases hstep
      · exact ih (by simpa using hlast)
      · rename_i hnone
        simpa using hnone
    · cases hstep
  | release =>
    simp only [step] at hstep
    split at hstep <;> cases hstep
    · exact ih (by simpa using hlast)
    · exact ih (by simpa using hlast)
  | join =>
    simp only [step] at hstep
    split at hstep <;> cases hstep
    rfl
  | writer accepted =>
    obtain ⟨s₁, hbind, heq⟩ := Option.map_eq_some_iff.mp hstep
    cases heq
    rw [ih (by simpa using hlast)] at hbind
    cases hbind

/-- **A stopped writer has written everything, once and in order**: whenever the return of a
`stop()` is the last that was shown. -/
theorem writes_everything {sem : Semaphore} {tr : List Event} {s : State}
    (h : (system sem).Run Orderly tr s) (hlast : tr.getLast? = some .stopped) :
    s.file = (passed tr).flatten ∧ s.byteCount = UInt64.ofNat (passed tr).flatten.length := by
  obtain ⟨-, -, hfile, hcount⟩ := (inv_run h).stopped (no_thread_after_stop h hlast)
  exact ⟨hfile, hfile ▸ hcount⟩

/-- A run that is started twice.  In the first half two buffers come with one token. -/
def restartedRun : List Action :=
  List.flatten [
    [.start, .writer true, .writeAsync [1, 2], .release, .writeAsync [3], .release, .stop],
    [.writer true, .writer true, .release, .writer true, .writer true, .writer true],
    [.writer true, .writer true, .writer true, .join],
    [.start, .writeAsync [4], .release, .stop, .release],
    [.writer true, .writer true, .writer true, .writer true, .writer true, .writer true],
    [.writer true, .join]]

theorem writes_restartedRun :
    ∃ tr s, (system .saturating).Run Orderly tr s ∧ s.file = [4] ∧ s.byteCount = 1 := by
  have hexec : (system .saturating).exec restartedRun =
      some (⟨1, [], 1, true, [4], [4], none, .idle⟩,
        [.started, .passed [1, 2], .passed [3], .stopped, .started, .passed [4], .stopped]) := by
    decide +kernel
  have hrun : (system .saturating).Run Orderly _ _ :=
    runFrom_of_execFrom (by decide +kernel) hexec
  exact ⟨_, _, hrun, writes_everything hrun rfl⟩

/-! ## A stop returns -/

theorem runFrom_step {sem : Semaphore} {s s' : State} {a : Action} {es : List Event}
    (hstep : step sem s a = some (s', es)) (horderly : Orderly s a) :
    (system sem).RunFrom Orderly s es s' :=
  RunFrom.single horderly hstep

/-- The steps the thread has left, at most, once the stop has been requested. -/
def WriterPc.rank (data : List Buffer) : WriterPc → ℕ
  | .top | .acquiring => 6 + data.length
  | .swapping => 5 + data.length
  | .writing oldData _ => 4 + oldData.length + 7 * data.length
  | .checking => 3 + 7 * data.length
  | .looking => 2 + 7 * data.length
  | .closing => 1
  | .finished => 0

/-- A thread that waits for a token while it is joined has one. -/
def Awake (s : State) : Prop :=
  s.control = .joining → s.writer = some .acquiring → 0 < s.signal

theorem release_pos (sem : Semaphore) (n : ℕ) : 0 < sem.release n := by
  cases sem with
  | saturating => exact Nat.one_pos
  | counting => exact Nat.succ_pos n

theorem awake_of_writer {s : State} {pc : WriterPc} (hpc : s.writer = some pc)
    (hne : pc ≠ .acquiring) : Awake s := by
  intro _ hacquiring
  rw [hpc] at hacquiring
  cases hacquiring
  exact absurd rfl hne

/-- While the thread is joined it is never stuck, and every step brings it closer to its end. -/
theorem writerStep_rank {s : State} {pc : WriterPc} (hpc : s.writer = some pc)
    (hstop : s.stopRequested = true) (hjoining : s.control = .joining) (hawake : Awake s)
    (hne : pc ≠ .finished) :
    ∃ s' pc', writerStep s true pc = some s' ∧ s'.writer = some pc' ∧
      s'.stopRequested = true ∧ s'.control = .joining ∧ Awake s' ∧
      pc'.rank s'.data < pc.rank s.data := by
  have hfree : ¬ s.control = .writingAsync := by
    rw [hjoining]
    decide
  cases pc with
  | top =>
    have hnext : some (if s.stopRequested = true then WriterPc.swapping else .acquiring) =
        some .swapping := by
      rw [if_pos hstop]
    refine ⟨_, .swapping, rfl, hnext, hstop, hjoining, awake_of_writer hnext nofun, ?_⟩
    simp only [WriterPc.rank]
    omega
  | acquiring =>
    refine ⟨_, .swapping, if_pos (hawake hjoining hpc), rfl, hstop, hjoining,
      awake_of_writer rfl nofun, ?_⟩
    simp only [WriterPc.rank]
    omega
  | swapping =>
    refine ⟨_, .writing s.data 0, if_neg hfree, rfl, hstop, hjoining, awake_of_writer rfl nofun, ?_⟩
    simp only [WriterPc.rank, List.length_nil]
    omega
  | writing oldData count =>
    cases oldData with
    | nil =>
      refine ⟨_, .checking, rfl, rfl, hstop, hjoining, awake_of_writer rfl nofun, ?_⟩
      simp only [WriterPc.rank, List.length_nil]
      omega
    | cons buff oldData =>
      refine ⟨_, .writing oldData _, rfl, rfl, hstop, hjoining, awake_of_writer rfl nofun, ?_⟩
      simp only [WriterPc.rank, List.length_cons]
      omega
  | checking =>
    have hnext : some (if s.stopRequested = true then WriterPc.looking else .top) =
        some .looking := by
      rw [if_pos hstop]
    refine ⟨_, .looking, rfl, hnext, hstop, hjoining, awake_of_writer hnext nofun, ?_⟩
    simp only [WriterPc.rank]
    omega
  | looking =>
    cases hdata : s.data with
    | nil =>
      have hnext : some (if s.data.isEmpty = true then WriterPc.closing else .top) =
          some .closing := by
        rw [hdata]
        rfl
      refine ⟨_, .closing, if_neg hfree, hnext, hstop, hjoining, awake_of_writer hnext nofun, ?_⟩
      simp only [WriterPc.rank]
      omega
    | cons buff data =>
      have hnext : some (if s.data.isEmpty = true then WriterPc.closing else .top) =
          some .top := by
        rw [hdata]
        rfl
      refine ⟨_, .top, if_neg hfree, hnext, hstop, hjoining, awake_of_writer hnext nofun, ?_⟩
      simp only [WriterPc.rank, hdata, List.length_cons]
      omega
  | closing =>
    exact ⟨_, .finished, rfl, rfl, hstop, hjoining, awake_of_writer rfl nofun, Nat.one_pos⟩
  | finished => exact absurd rfl hne

/-- A thread that is joined finishes, and the join returns. -/
theorem join_returns {sem : Semaphore} {s : State} {pc : WriterPc} (hpc : s.writer = some pc)
    (hstop : s.stopRequested = true) (hjoining : s.control = .joining) (hawake : Awake s) :
    ∃ es s', (system sem).RunFrom Orderly s es s' ∧ s'.writer = none ∧ s'.control = .idle := by
  induction hrank : pc.rank s.data using Nat.strongRecOn generalizing s pc with
  | ind n ih =>
    by_cases hfinished : pc = .finished
    · have hjoin : step sem s .join =
          some ({ s with writer := none, control := .idle }, [.stopped]) :=
        if_pos ⟨hjoining, hfinished ▸ hpc⟩
      exact ⟨_, _, runFrom_step hjoin trivial, rfl, rfl⟩
    · obtain ⟨s₁, pc₁, hstep, hpc₁, hstop₁, hjoining₁, hawake₁, hless⟩ :=
        writerStep_rank hpc hstop hjoining hawake hfinished
      have hwriter : step sem s (.writer true) = some (s₁, []) := by
        rw [step, hpc, Option.bind_some, hstep]
        rfl
      obtain ⟨es, s', hrun, hend⟩ :=
        ih (pc₁.rank s₁.data) (hrank ▸ hless) hpc₁ hstop₁ hjoining₁ hawake₁ rfl
      exact ⟨_, s', (runFrom_step hwriter rfl).append hrun, hend⟩

/-- The thread goes to sleep only if no stop has been requested. -/
theorem writerStep_acquiring {s s' : State} {accepted : Bool} {pc : WriterPc}
    (hstep : writerStep s accepted pc = some s') (hsleeps : s'.writer = some .acquiring) :
    s'.stopRequested = false ∧ s'.control = s.control ∧ s'.stopRequested = s.stopRequested := by
  cases pc with
  | top =>
    cases hstep
    cases hstop : s.stopRequested with
    | false => exact ⟨rfl, rfl, rfl⟩
    | true =>
      rw [hstop] at hsleeps
      cases hsleeps
  | acquiring =>
    simp only [writerStep] at hstep
    split at hstep <;> cases hstep
    cases hsleeps
  | swapping =>
    simp only [writerStep] at hstep
    split at hstep <;> cases hstep
    cases hsleeps
  | writing oldData count =>
    cases oldData with
    | nil =>
      cases hstep
      cases hsleeps
    | cons buff oldData =>
      simp only [writerStep] at hstep
      split at hstep <;> cases hstep <;> cases hsleeps
  | checking =>
    cases hstep
    simp only [Option.some.injEq] at hsleeps
    split at hsleeps <;> cases hsleeps
  | looking =>
    simp only [writerStep] at hstep
    split at hstep <;> cases hstep
    simp only [Option.some.injEq] at hsleeps
    split at hsleeps <;> cases hsleeps
  | closing =>
    cases hstep
    cases hsleeps
  | finished => cases hstep

theorem awake_run {sem : Semaphore} {tr : List Event} {s : State}
    (h : (system sem).Run Orderly tr s) : Awake s := by
  have hinit : Awake State.init := by
    intro hjoining
    cases hjoining
  refine Run.invariant (I := fun _ s => Awake s) hinit ?_ h
  intro tr s a s' es hrun _ hstep hawake
  change step sem s a = some (s', es) at hstep
  cases a with
  | release =>
    simp only [step] at hstep
    split at hstep <;> cases hstep
    · intro _ _
      exact release_pos sem s.signal
    · intro _ _
      exact release_pos sem s.signal
  | writer accepted =>
    obtain ⟨s₁, hbind, heq⟩ := Option.map_eq_some_iff.mp hstep
    obtain ⟨pc, hpc, hwriter⟩ := Option.bind_eq_some_iff.mp hbind
    cases heq
    intro hjoining hsleeps
    obtain ⟨hnostop, hcontrol, hsame⟩ := writerStep_acquiring hwriter hsleeps
    have hasked := ((inv_run hrun).running pc hpc).asked
    rw [← hsame, hnostop, ← hcontrol, hjoining] at hasked
    cases hasked
  | start =>
    simp only [step] at hstep
    split at hstep
    · rename_i hidle
      split at hstep <;> cases hstep
      · exact hawake
      · intro hjoining
        exact absurd (hidle.symm.trans hjoining) (by decide)
    · cases hstep
  | writeAsync buff =>
    simp only [step] at hstep
    split at hstep <;> cases hstep
    nofun
  | stop =>
    simp only [step] at hstep
    split at hstep
    · split at hstep <;> cases hstep
      · nofun
      · exact hawake
    · cases hstep
  | join =>
    simp only [step] at hstep
    split at hstep <;> cases hstep
    nofun

/-- **A `stop()` in progress can always be carried to its end.** -/
theorem stop_returns {sem : Semaphore} {tr : List Event} {s : State}
    (h : (system sem).Run Orderly tr s) (hstop : s.control.inStop = true) :
    ∃ es s', (system sem).RunFrom Orderly s es s' ∧ s'.writer = none ∧ s'.control = .idle := by
  have hinv := inv_run h
  cases hwriter : s.writer with
  | none =>
    rw [(hinv.stopped hwriter).control] at hstop
    cases hstop
  | some pc =>
    have hasked := (hinv.running pc hwriter).asked.trans hstop
    cases hcontrol : s.control with
    | idle =>
      rw [hcontrol] at hstop
      cases hstop
    | writingAsync =>
      rw [hcontrol] at hstop
      cases hstop
    | joining => exact join_returns hwriter hasked hcontrol (awake_run h)
    | stopping =>
      have hrelease : step sem s .release =
          some ({ s with signal := sem.release s.signal, control := .joining }, []) := by
        rw [step, hcontrol]
      obtain ⟨es, s', hrun, hend⟩ : ∃ es s', (system sem).RunFrom Orderly
          { s with signal := sem.release s.signal, control := .joining } es s' ∧
          s'.writer = none ∧ s'.control = .idle :=
        join_returns hwriter hasked rfl fun _ _ => release_pos sem s.signal
      exact ⟨_, s', (runFrom_step hrelease trivial).append hrun, hend⟩

end FileWriter
