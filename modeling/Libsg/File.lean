/-
# Files written and read whole

`file.cpp` over a file system whose files can be opened, or not, and have room for so many bytes.
The streams throw on `badbit` only.  A file that cannot be opened sets `failbit`, and what follows
does nothing, so `write()` returns as if it had written and `read()` returns memory that
nothing was read into.

How much of the data a stream holds back when `write` returns is left open: what the file does not
take of it when the stream is closed is lost without a word.  `lawful_iff` says when a normal
return means that the data is in the file and can be read back.
-/
import Libsg.Memory
import Mathlib.Data.List.TakeDrop

open Memory

namespace File

/-! ## Streams -/

inductive Fault
  | invalidArgument (message : String)
  | filesystemError
  | badAlloc
  /-- `std::ios_base::failure` -/
  | failure
  deriving DecidableEq, Repr

/-- `std::ios_base::openmode`; text and binary files are the same. -/
structure OpenMode where
  input : Bool := false
  output : Bool := false
  app : Bool := false
  trunc : Bool := false
  ate : Bool := false

structure IoState where
  failbit : Bool := false
  badbit : Bool := false
  deriving DecidableEq

structure Stream where
  exceptions : IoState
  state : IoState := {}
  isOpen : Bool := false
  /-- what has been written but not passed on to the file -/
  held : List UInt8 := []

def Stream.setstate (stream : Stream) (bits : IoState) : Except Fault Stream :=
  let state : IoState :=
    ⟨stream.state.failbit || bits.failbit, stream.state.badbit || bits.badbit⟩
  if (state.failbit && stream.exceptions.failbit) || (state.badbit && stream.exceptions.badbit) then
    .error .failure
  else .ok { stream with state := state }

structure FileSystem (Path : Type) where
  content : Path → Option (List UInt8)
  writable : Path → Bool
  readable : Path → Bool
  /-- how long the file can get -/
  room : Path → ℕ

variable {Path : Type} [DecidableEq Path]

namespace FileSystem

def put (fs : FileSystem Path) (path : Path) (bytes : List UInt8) : FileSystem Path :=
  { fs with content := fun other => if other = path then some bytes else fs.content other }

def bytesOf (fs : FileSystem Path) (path : Path) : List UInt8 := (fs.content path).getD []

/-- As much as there is room for. -/
def append (fs : FileSystem Path) (path : Path) (bytes : List UInt8) : FileSystem Path :=
  fs.put path (fs.bytesOf path ++ bytes.take (fs.room path - (fs.bytesOf path).length))

/-- A file opened for writing: it is emptied unless one appends. -/
def openOut (fs : FileSystem Path) (path : Path) (mode : OpenMode) : Option (FileSystem Path) :=
  if fs.writable path = false ∨ (mode.app = true ∧ mode.trunc = true) then none
  else if mode.app then some (fs.put path (fs.bytesOf path))
  else some (fs.put path [])

/-- A file opened for reading: what there is to read.  Appending creates it. -/
def openIn (fs : FileSystem Path) (path : Path) (mode : OpenMode) :
    Option (List UInt8 × FileSystem Path) :=
  if fs.readable path = false ∨ mode.trunc = true then none
  else if mode.app then
    if fs.writable path then
      some (if mode.ate then [] else fs.bytesOf path, fs.put path (fs.bytesOf path))
    else none
  else (fs.content path).map fun bytes => (if mode.ate then [] else bytes, fs)

end FileSystem

namespace Stream

/-- `std::ofstream::open` -/
def openOut (stream : Stream) (fs : FileSystem Path) (path : Path) (mode : OpenMode) :
    Except Fault Stream × FileSystem Path :=
  match fs.openOut path mode with
  | none => (stream.setstate { failbit := true }, fs)
  | some fs => (.ok { stream with state := {}, isOpen := true }, fs)

/-- `std::ostream::write`, where `held` says how much of so many bytes stays in the stream. -/
def write (held : ℕ → ℕ) (stream : Stream) (fs : FileSystem Path) (path : Path)
    (data : List UInt8) : Except Fault Stream × FileSystem Path :=
  if stream.state ≠ {} then (.ok stream, fs)
  else
    let count := data.length - held data.length
    if (fs.bytesOf path).length + count ≤ fs.room path then
      (.ok { stream with held := data.drop count }, fs.append path (data.take count))
    else (stream.setstate { badbit := true }, fs.append path (data.take count))

/-- The destructor: what is held goes to the file, and nobody hears of a failure. -/
def close (stream : Stream) (fs : FileSystem Path) (path : Path) : FileSystem Path :=
  if stream.isOpen then fs.append path stream.held else fs

end Stream

/-! ## The model -/

def defaultRead : OpenMode := { input := true }

def defaultWrite : OpenMode := { output := true }

/-- All errors are exceptions. -/
def errorMask : IoState := { badbit := true }

/-- `write(path, buffer, count, mode)` -/
def write (held : ℕ → ℕ) (fs : FileSystem Path) (path : Path) (buffer : List UInt8)
    (mode : OpenMode) : Except Fault Unit × FileSystem Path :=
  if mode.input then
    (.error (.invalidArgument "can't write to a file when opened in `std::ios::in` mode"), fs)
  else
    match Stream.openOut { exceptions := errorMask } fs path mode with
    | (.error fault, fs) => (.error fault, fs)
    | (.ok stream, fs) =>
      match stream.write held fs path buffer with
      | (.error fault, fs) => (.error fault, fs)
      | (.ok stream, fs) => (.ok (), stream.close fs path)

/-- `read(path, buffer, count, mode)`: the buffer, and how much of it was read. -/
def readInto (fs : FileSystem Path) (path : Path) (buffer : List UInt8) (mode : OpenMode) :
    Except Fault (List UInt8 × ℕ) × FileSystem Path :=
  if mode.output then
    (.error (.invalidArgument
      "can't read from a file when opened in `std::ios::out` write-mode"), fs)
  else
    match fs.openIn path mode with
    | none =>
      match Stream.setstate { exceptions := errorMask } { failbit := true } with
      | .error fault => (.error fault, fs)
      -- the stream is not good, so nothing is read
      | .ok _ => (.ok (buffer, 0), fs)
    | some (bytes, fs) =>
      (.ok (bytes.take buffer.length ++ buffer.drop bytes.length,
        min bytes.length buffer.length), fs)

/-- `std::filesystem::file_size` -/
def fileSize (fs : FileSystem Path) (path : Path) : Except Fault ℕ :=
  match fs.content path with
  | none => .error .filesystemError
  | some bytes => .ok bytes.length

/-- `read(path, mode)` -/
def read (heap : Heap) (fs : FileSystem Path) (path : Path) (mode : OpenMode) :
    Except Fault (List UInt8) × FileSystem Path :=
  match fileSize fs path with
  | .error fault => (.error fault, fs)
  | .ok size =>
    match makeUniqueCBuffer heap 1 size with
    | none => (.error .badAlloc, fs)
    | some data =>
      match readInto fs path data mode with
      | (.error fault, fs) => (.error fault, fs)
      | (.ok (data, _), fs) => (.ok data, fs)

/-- What a write promises: when it returns normally the file was opened and holds the data,
which can be read back. -/
def Lawful (held : ℕ → ℕ) (heap : Heap) (fs : FileSystem Path) (path : Path)
    (buffer : List UInt8) : Prop :=
  ∀ after, write held fs path buffer defaultWrite = (.ok (), after) →
    (fs.openOut path defaultWrite).isSome = true ∧ after.content path = some buffer ∧
      (read heap after path defaultRead).1 = .ok buffer

/-! ## What is in the file -/

section

variable {held : ℕ → ℕ} {heap : Heap} {fs : FileSystem Path} {path : Path} {buffer : List UInt8}

theorem content_put (fs : FileSystem Path) (path : Path) (bytes : List UInt8) :
    (fs.put path bytes).content path = some bytes :=
  if_pos rfl

theorem bytesOf_put (fs : FileSystem Path) (path : Path) (bytes : List UInt8) :
    (fs.put path bytes).bytesOf path = bytes := by
  rw [FileSystem.bytesOf, content_put, Option.getD_some]

/-- Two appends to an emptied file are one. -/
theorem content_append_append (fs : FileSystem Path) (path : Path) {front : List UInt8}
    (hfront : front.length ≤ fs.room path) (back : List UInt8) :
    (((fs.put path []).append path front).append path back).content path =
      some ((front ++ back).take (fs.room path)) := by
  have hfirst : ((fs.put path []).append path front).bytesOf path = front := by
    rw [FileSystem.append, bytesOf_put, bytesOf_put]
    exact List.take_of_length_le hfront
  rw [FileSystem.append, content_put, hfirst, List.take_append, List.take_of_length_le hfront]
  rfl

/-- A file that cannot be opened is left as it is, and nothing is thrown. -/
theorem write_unopened (hclosed : fs.writable path = false) :
    write held fs path buffer defaultWrite = (.ok (), fs) := by
  have hopen : Stream.openOut { exceptions := errorMask } fs path defaultWrite =
      (.ok { exceptions := errorMask, state := { failbit := true } }, fs) := by
    rw [Stream.openOut, FileSystem.openOut, if_pos (Or.inl hclosed)]
    rfl
  rw [write, hopen]
  rfl

theorem openOut_writable (hopen : fs.writable path = true) :
    fs.openOut path defaultWrite = some (fs.put path []) := by
  rw [FileSystem.openOut, if_neg]
  · rfl
  · rintro (hclosed | ⟨happ, -⟩)
    · rw [hopen] at hclosed
      cases hclosed
    · cases happ

/-- What does not fit while `write` runs is refused. -/
theorem write_refused (hopen : fs.writable path = true) (buffer : List UInt8)
    (hfull : fs.room path < buffer.length - held buffer.length) :
    (write held fs path buffer defaultWrite).1 = .error .failure := by
  have hstream : Stream.openOut { exceptions := errorMask } fs path defaultWrite =
      (.ok { exceptions := errorMask, isOpen := true }, fs.put path []) := by
    rw [Stream.openOut, openOut_writable hopen]
  have hnofit : ¬ ((fs.put path []).bytesOf path).length + (buffer.length - held buffer.length) ≤
      (fs.put path []).room path := by
    rw [bytesOf_put, List.length_nil, Nat.zero_add]
    exact Nat.not_le.mpr hfull
  rw [write, if_neg (by decide), hstream]
  dsimp only
  rw [Stream.write, if_neg (fun hne => hne rfl)]
  dsimp only
  rw [if_neg hnofit]
  rfl

/-- Otherwise the file holds as much as there is room for. -/
theorem write_taken (hopen : fs.writable path = true) (held : ℕ → ℕ) (buffer : List UInt8)
    (hfits : buffer.length - held buffer.length ≤ fs.room path) :
    ∃ after, write held fs path buffer defaultWrite = (.ok (), after) ∧
      after.content path = some (buffer.take (fs.room path)) ∧
      after.readable path = fs.readable path := by
  have hstream : Stream.openOut { exceptions := errorMask } fs path defaultWrite =
      (.ok { exceptions := errorMask, isOpen := true }, fs.put path []) := by
    rw [Stream.openOut, openOut_writable hopen]
  have hfit : ((fs.put path []).bytesOf path).length + (buffer.length - held buffer.length) ≤
      (fs.put path []).room path := by
    rw [bytesOf_put, List.length_nil, Nat.zero_add]
    exact hfits
  have hcount : (buffer.take (buffer.length - held buffer.length)).length ≤ fs.room path :=
    Nat.le_trans (List.length_take_le _ _) hfits
  have hcontent := content_append_append fs path hcount
    (buffer.drop (buffer.length - held buffer.length))
  rw [List.take_append_drop] at hcontent
  refine ⟨_, ?_, hcontent, rfl⟩
  rw [write, if_neg (by decide), hstream]
  dsimp only
  rw [Stream.write, if_neg (fun hne => hne rfl)]
  dsimp only
  rw [if_pos hfit]
  rfl

/-! ## What is read back -/

/-- An empty file cannot be read. -/
theorem read_empty (hcontent : fs.content path = some []) :
    (read heap fs path defaultRead).1 = .error .badAlloc := by
  rw [read, fileSize, hcontent]
  dsimp only
  rw [List.length_nil, makeUniqueCBuffer_zero]

theorem read_eq (hheap : heap.Serves) (hcontent : fs.content path = some buffer)
    (hne : buffer ≠ []) :
    ∃ block, heap.malloc buffer.length = some block ∧
      (read heap fs path defaultRead).1 =
        .ok (if fs.readable path = true then buffer else block) := by
  have hpos : buffer.length ≠ 0 := fun hzero => hne (List.length_eq_zero_iff.mp hzero)
  obtain ⟨block, hblock, hlen⟩ := hheap.malloc buffer.length hpos
  refine ⟨block, hblock, ?_⟩
  have hdata : makeUniqueCBuffer heap 1 buffer.length = some block := by
    rw [makeUniqueCBuffer, Nat.one_mul, mallocOrThrow, if_neg hpos, hblock]
  rw [read, fileSize, hcontent]
  dsimp only
  rw [hdata]
  dsimp only
  rw [readInto, if_neg (by decide)]
  by_cases hreadable : fs.readable path = true
  · have hopen : fs.openIn path defaultRead = some (buffer, fs) := by
      rw [FileSystem.openIn, if_neg, hcontent]
      · rfl
      · rintro (hclosed | htrunc)
        · rw [hreadable] at hclosed
          cases hclosed
        · cases htrunc
    rw [hopen, if_pos hreadable]
    dsimp only
    rw [hlen, List.take_length, List.drop_eq_nil_of_le (Nat.le_of_eq hlen), List.append_nil]
  · have hopen : fs.openIn path defaultRead = none := by
      rw [FileSystem.openIn, if_pos (Or.inl (Bool.eq_false_iff.mpr hreadable))]
    rw [hopen, if_neg hreadable]
    rfl

/-- **A normal return means that the data is in the file and comes back if and only if** the file
can be opened, and either the stream refuses the data at once or all of it fits, is not nothing,
and the file can be opened again (or the memory returned instead holds the data by chance). -/
theorem lawful_iff (hheap : heap.Serves) (held : ℕ → ℕ) (fs : FileSystem Path) (path : Path)
    (buffer : List UInt8) :
    Lawful held heap fs path buffer ↔
      fs.writable path = true ∧
        (fs.room path < buffer.length - held buffer.length ∨
          (buffer.length ≤ fs.room path ∧ buffer ≠ [] ∧
            (fs.readable path = true ∨ heap.malloc buffer.length = some buffer))) := by
  constructor
  · intro hlawful
    have hopen : fs.writable path = true := by
      by_contra hclosed
      have hclosed := Bool.eq_false_iff.mpr hclosed
      obtain ⟨hsome, -, -⟩ := hlawful fs (write_unopened hclosed)
      rw [FileSystem.openOut, if_pos (Or.inl hclosed)] at hsome
      cases hsome
    refine ⟨hopen, ?_⟩
    by_cases hfull : fs.room path < buffer.length - held buffer.length
    · exact Or.inl hfull
    · right
      obtain ⟨after, hwrite, hcontent, hreadable⟩ := write_taken hopen held buffer (Nat.not_lt.mp hfull)
      obtain ⟨-, hholds, hread⟩ := hlawful after hwrite
      have htake : buffer.take (fs.room path) = buffer :=
        Option.some.inj (hcontent.symm.trans hholds)
      have hne : buffer ≠ [] := by
        rintro rfl
        rw [read_empty hholds] at hread
        cases hread
      refine ⟨(List.take_eq_self_iff buffer).mp htake, hne, ?_⟩
      obtain ⟨block, hblock, heq⟩ := read_eq hheap hholds hne
      by_cases hcan : fs.readable path = true
      · exact Or.inl hcan
      · right
        rw [heq, hreadable, if_neg hcan] at hread
        rw [hblock, Except.ok.inj hread]
  · rintro ⟨hopen, hcase⟩ after hafter
    have hsome : (fs.openOut path defaultWrite).isSome = true := by
      rw [openOut_writable hopen]
      rfl
    rcases hcase with hfull | ⟨hfits, hne, hback⟩
    · have hrefused := write_refused hopen buffer hfull
      rw [hafter] at hrefused
      cases hrefused
    · obtain ⟨last, hwrite, hcontent, hreadable⟩ :=
        write_taken hopen held buffer (Nat.le_trans (Nat.sub_le _ _) hfits)
      rw [hafter] at hwrite
      cases hwrite
      rw [List.take_of_length_le hfits] at hcontent
      refine ⟨hsome, hcontent, ?_⟩
      obtain ⟨block, hblock, heq⟩ := read_eq hheap hcontent hne
      rw [heq, hreadable]
      by_cases hcan : fs.readable path = true
      · rw [if_pos hcan]
      · rw [if_neg hcan]
        rcases hback with hcan' | hchance
        · exact absurd hcan' hcan
        · rw [hblock] at hchance
          rw [Option.some.inj hchance]

/-- Room for a thousand bytes in every file, none of which is there. -/
def roomyDisk : FileSystem String where
  content _ := none
  writable _ := true
  readable _ := true
  room _ := 1000

theorem lawful_three :
    Lawful (fun _ => 0) zeroedHeap roomyDisk "new" [1, 2, 3] ↔
      roomyDisk.writable "new" = true ∧
        (roomyDisk.room "new" < [1, 2, 3].length - 0 ∨
          ([1, 2, 3].length ≤ roomyDisk.room "new" ∧ ([1, 2, 3] : List UInt8) ≠ [] ∧
            (roomyDisk.readable "new" = true ∨ zeroedHeap.malloc 3 = some [1, 2, 3]))) :=
  lawful_iff zeroedHeap_serves (fun _ => 0) roomyDisk "new" [1, 2, 3]

/-- A file that cannot be opened, and no exception. -/
theorem unopened_not_lawful :
    ¬ ∀ (held : ℕ → ℕ) (heap : Heap) (fs : FileSystem String) (path : String)
      (buffer : List UInt8), heap.Serves → Lawful held heap fs path buffer := by
  intro h
  have hlawful := h (fun _ => 0) zeroedHeap { roomyDisk with writable := fun _ => false }
    "missing/new" [1] zeroedHeap_serves
  obtain ⟨-, hcontent, -⟩ := hlawful _ (write_unopened rfl)
  cases hcontent

end

end File
