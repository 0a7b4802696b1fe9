/-
# Compression with zstd and back

`compression_zstd.cpp` around the codec, which is a parameter.  Its law (`Zstd.Inverts`) is what
zstd documents: a frame fits into the bound for it, records the size of what is in it, and is
inverted by `ZSTD_decompressDCtx`.

The wrappers size, allocate, shrink and retype the buffers.  Of the frame of an empty input
`decompress()` asks for a buffer of no bytes, which `MallocOrThrow` refuses; every other input
comes back.  The overload for ranges hands `std::begin()` on as a `const void*`, so that it can be
called for ranges whose iterators are pointers only, of elements with unique representations; these
come back where they are not empty (`round_trip_iff`).
-/
import Libsg.Memory
import Mathlib.Data.Int.Notation

open Memory

namespace CompressionZstd

/-! ## The codec -/

/-- `ZSTD_getFrameContentSize` -/
inductive ContentSize
  | error
  | unknown
  | known (size : ℕ)

/-- What is called of zstd; errors by their names. -/
structure Zstd where
  setWorkers : ℤ → Option String
  setLevel : ℤ → Option String
  compressBound : ℕ → Except String ℕ
  /-- from the number of workers, the level, the source and the size of the destination -/
  compress2 : ℤ → ℤ → List UInt8 → ℕ → Except String (List UInt8)
  frameContentSize : List UInt8 → ContentSize
  decompressDCtx : List UInt8 → ℕ → Except String (List UInt8)

structure Zstd.Accepts (zstd : Zstd) (cLevel noThreads : ℤ) : Prop where
  workers : zstd.setWorkers noThreads = none
  level : zstd.setLevel cLevel = none

/-- The frame of a source. -/
structure Zstd.Frame (zstd : Zstd) (cLevel noThreads : ℤ) (src : List UInt8) (bound : ℕ)
    (frame : List UInt8) : Prop where
  compressBound : zstd.compressBound src.length = .ok bound
  compress2 : zstd.compress2 noThreads cLevel src bound = .ok frame
  length_le : frame.length ≤ bound
  contentSize : zstd.frameContentSize frame = .known src.length
  decompress : zstd.decompressDCtx frame src.length = .ok src

structure Zstd.Inverts (zstd : Zstd) : Prop where
  /-- no frame is shorter than its header -/
  contentSize_nil : zstd.frameContentSize [] = .error
  frame : ∀ cLevel noThreads, zstd.Accepts cLevel noThreads → ∀ src,
    ∃ bound frame, zstd.Frame cLevel noThreads src bound frame

/-! ## The model -/

inductive Fault
  | badAlloc
  | runtimeError (message : String)
  /-- the call does not compile: it meets the constraints of no overload -/
  | noOverload
  /-- the call does not compile: the body of the overload is ill-formed -/
  | illFormed
  deriving DecidableEq, Repr

def orBadAlloc : Option (List UInt8) → Except Fault (List UInt8)
  | none => .error .badAlloc
  | some block => .ok block

/-- `ZSTD_THROW_ON_ERROR` -/
def throwOnError {β : Type} : Except String β → Except Fault β
  | .error name => .error (.runtimeError name)
  | .ok result => .ok result

section Wrappers

variable (zstd : Zstd) (heap : Heap)

/-- Into a given buffer: what it holds, and how much of it is used. -/
def compressInto (src dst : List UInt8) (cLevel noThreads : ℤ) : Except Fault (List UInt8 × ℕ) :=
  match zstd.setWorkers noThreads with
  | some name => .error (.runtimeError name)
  | none =>
    match zstd.setLevel cLevel with
    | some name => .error (.runtimeError name)
    | none => do
      let frame ← throwOnError (zstd.compress2 noThreads cLevel src dst.length)
      .ok (frame ++ dst.drop frame.length, frame.length)

def getMaxCompressedSize (srcSize : ℕ) : Except Fault ℕ :=
  throwOnError (zstd.compressBound srcSize)

def compress (src : List UInt8) (compressionLevel noThreads : ℤ) : Except Fault (List UInt8) := do
  let cBuffSize ← getMaxCompressedSize zstd src.length
  let cBuff ← orBadAlloc (makeUniqueCBuffer heap 1 cBuffSize)
  let (cBuff, cSize) ← compressInto zstd src cBuff compressionLevel noThreads
  orBadAlloc (reallocOrFreeAndThrow heap cBuff cSize)

def decompressInto (src dst : List UInt8) : Except Fault (List UInt8) := do
  let content ← throwOnError (zstd.decompressDCtx src dst.length)
  .ok (content ++ dst.drop content.length)

def getUncompressedSize (src : List UInt8) : Except Fault ℕ :=
  match zstd.frameContentSize src with
  | .error => .error (.runtimeError "given data not compressed by zstd")
  | .unknown =>
    .error (.runtimeError "zstd can't determine size of original uncompressed data")
  | .known size => .ok size

def decompress (src : List UInt8) : Except Fault (List UInt8) := do
  let unCompressedSize ← getUncompressedSize zstd src
  let output ← orBadAlloc (makeUniqueCBuffer heap 1 unCompressedSize)
  decompressInto zstd src output

end Wrappers

/-- A trivially copyable type: its bytes, and the object that has them. -/
structure ObjectType (T : Type) where
  size : ℕ
  size_pos : 0 < size
  /-- `std::has_unique_object_representations_v` -/
  uniqueRepresentations : Bool
  bytes : T → List UInt8
  object : List UInt8 → T
  length_bytes : ∀ x, (bytes x).length = size
  object_bytes : ∀ x, object (bytes x) = x

/-- A contiguous range. -/
structure ContiguousRange (T : Type) where
  /-- what `std::begin` makes of it converts to `const void*`: of an array it does, of a
  `std::vector` or a buffer of the library it does not -/
  beginConverts : Bool
  elems : List T

section Objects

variable {T : Type} (type : ObjectType T)

/-- So many objects that lie one behind the other in memory. -/
def objects : ℕ → List UInt8 → List T
  | 0, _ => []
  | count + 1, memory => type.object (memory.take type.size) :: objects count (memory.drop type.size)

def compressRange (zstd : Zstd) (heap : Heap) (srcBuffer : ContiguousRange T)
    (compressionLevel noThreads : ℤ) : Except Fault (List UInt8) :=
  if type.uniqueRepresentations = false then .error .noOverload
  else if srcBuffer.beginConverts = false then .error .illFormed
  else compress zstd heap (srcBuffer.elems.flatMap type.bytes) compressionLevel noThreads

/-- `decompress<T>` -/
def decompressAs (zstd : Zstd) (heap : Heap) (src : List UInt8) : Except Fault (List T) := do
  let ret ← decompress zstd heap src
  .ok (objects type (ret.length / type.size) ret)

end Objects

/-! ## What comes back -/

section RoundTrip

variable {zstd : Zstd} {heap : Heap} {cLevel noThreads : ℤ} {src frame : List UInt8} {bound : ℕ}

theorem Zstd.Frame.length_ne_zero (hzstd : zstd.Inverts)
    (h : zstd.Frame cLevel noThreads src bound frame) : frame.length ≠ 0 := by
  intro hzero
  have hsize := h.contentSize
  rw [List.length_eq_zero_iff.mp hzero, hzstd.contentSize_nil] at hsize
  cases hsize

/-- The frame is what is left of the buffer. -/
theorem compress_eq (hzstd : zstd.Inverts) (hheap : heap.Serves)
    (haccepts : zstd.Accepts cLevel noThreads)
    (h : zstd.Frame cLevel noThreads src bound frame) :
    compress zstd heap src cLevel noThreads = .ok frame := by
  have hframe := h.length_ne_zero hzstd
  have hbound : bound ≠ 0 := fun hzero => hframe (Nat.le_zero.mp (hzero ▸ h.length_le))
  obtain ⟨block, hblock, hlen⟩ := hheap.bytes hbound
  have hinto : compressInto zstd src block cLevel noThreads =
      .ok (frame ++ block.drop frame.length, frame.length) := by
    rw [compressInto, haccepts.workers, haccepts.level, hlen, h.compress2]
    rfl
  have hshrunk : reallocOrFreeAndThrow heap (frame ++ block.drop frame.length) frame.length =
      some frame := by
    have hle : frame.length ≤ (frame ++ block.drop frame.length).length := by
      rw [List.length_append]
      omega
    rw [reallocOrFreeAndThrow, if_neg hframe, hheap.realloc _ _ hframe hle, List.take_left]
  rw [compress, getMaxCompressedSize, h.compressBound]
  show (orBadAlloc (makeUniqueCBuffer heap 1 bound) >>= _) = _
  rw [hblock]
  show (compressInto zstd src block cLevel noThreads >>= _) = _
  rw [hinto]
  show orBadAlloc (reallocOrFreeAndThrow heap _ _) = _
  rw [hshrunk]
  rfl

theorem decompress_eq (hheap : heap.Serves) (h : zstd.Frame cLevel noThreads src bound frame)
    (hne : src ≠ []) : decompress zstd heap frame = .ok src := by
  have hpos : src.length ≠ 0 := fun hzero => hne (List.length_eq_zero_iff.mp hzero)
  obtain ⟨block, hblock, hlen⟩ := hheap.bytes hpos
  rw [decompress, getUncompressedSize, h.contentSize]
  show (orBadAlloc (makeUniqueCBuffer heap 1 src.length) >>= _) = _
  rw [hblock]
  show decompressInto zstd frame block = _
  rw [decompressInto, hlen, h.decompress]
  show Except.ok (src ++ block.drop src.length) = _
  rw [List.drop_eq_nil_of_le (Nat.le_of_eq hlen), List.append_nil]

/-- An empty buffer cannot be had. -/
theorem decompress_empty (h : zstd.Frame cLevel noThreads [] bound frame) :
    decompress zstd heap frame = .error .badAlloc := by
  rw [decompress, getUncompressedSize, h.contentSize]
  show (orBadAlloc (makeUniqueCBuffer heap 1 0) >>= fun output =>
    decompressInto zstd frame output) = _
  rw [makeUniqueCBuffer_zero]
  rfl

/-- Bytes come back, unless there are none. -/
theorem decompress_compress (hzstd : zstd.Inverts) (hheap : heap.Serves)
    (haccepts : zstd.Accepts cLevel noThreads) (src : List UInt8) :
    (compress zstd heap src cLevel noThreads >>= decompress zstd heap) =
      if src = [] then .error .badAlloc else .ok src := by
  obtain ⟨bound, frame, h⟩ := hzstd.frame cLevel noThreads haccepts src
  rw [compress_eq hzstd hheap haccepts h]
  show decompress zstd heap frame = _
  by_cases hempty : src = []
  · subst hempty
    rw [if_pos rfl, decompress_empty h]
  · rw [if_neg hempty, decompress_eq hheap h hempty]

variable {T : Type} (type : ObjectType T)

theorem objects_bytes (xs : List T) : objects type xs.length (xs.flatMap type.bytes) = xs := by
  induction xs with
  | nil => rfl
  | cons x xs ih =>
    have hx := type.length_bytes x
    rw [List.length_cons, List.flatMap_cons, objects, ← hx, List.take_left, List.drop_left,
      type.object_bytes, ih]

theorem length_flatMap_bytes (xs : List T) :
    (xs.flatMap type.bytes).length = xs.length * type.size := by
  induction xs with
  | nil => exact (Nat.zero_mul _).symm
  | cons x xs ih =>
    rw [List.flatMap_cons, List.length_append, ih, type.length_bytes, List.length_cons,
      Nat.succ_mul, Nat.add_comm]

/-- Objects come back from where their bytes are compressed, unless there are none. -/
theorem decompressAs_compress (hzstd : zstd.Inverts) (hheap : heap.Serves)
    (haccepts : zstd.Accepts cLevel noThreads) (xs : List T) :
    (compress zstd heap (xs.flatMap type.bytes) cLevel noThreads >>= decompressAs type zstd heap) =
      if xs = [] then .error .badAlloc else .ok xs := by
  have hbytes := decompress_compress hzstd hheap haccepts (xs.flatMap type.bytes)
  have hassoc : (compress zstd heap (xs.flatMap type.bytes) cLevel noThreads >>=
        decompressAs type zstd heap) =
      (compress zstd heap (xs.flatMap type.bytes) cLevel noThreads >>= decompress zstd heap) >>=
        fun ret => .ok (objects type (ret.length / type.size) ret) := by
    cases compress zstd heap (xs.flatMap type.bytes) cLevel noThreads <;> rfl
  have hempty : xs.flatMap type.bytes = [] ↔ xs = [] := by
    have hpos := type.size_pos
    rw [← List.length_eq_zero_iff, length_flatMap_bytes, Nat.mul_eq_zero,
      ← List.length_eq_zero_iff (l := xs)]
    omega
  rw [hassoc, hbytes]
  by_cases hxs : xs = []
  · rw [if_pos (hempty.mpr hxs), if_pos hxs]
    rfl
  · rw [if_neg fun h => hxs (hempty.mp h), if_neg hxs]
    show Except.ok (objects type _ _) = _
    rw [length_flatMap_bytes, Nat.mul_div_cancel _ type.size_pos, objects_bytes]

/-- A range comes back if and only if the overload takes it and it is not empty. -/
theorem decompressAs_compressRange_iff (hzstd : zstd.Inverts) (hheap : heap.Serves)
    (haccepts : zstd.Accepts cLevel noThreads) (range : ContiguousRange T) :
    (compressRange type zstd heap range cLevel noThreads >>= decompressAs type zstd heap) =
        .ok range.elems ↔
      type.uniqueRepresentations = true ∧ range.beginConverts = true ∧ range.elems ≠ [] := by
  have hthrows {fault : Fault} {xs : List T} : Except.error fault ≠ Except.ok xs := by simp
  rw [compressRange]
  cases hunique : type.uniqueRepresentations with
  | false => exact iff_of_false hthrows (by simp)
  | true =>
    cases hbegin : range.beginConverts with
    | false => exact iff_of_false hthrows (by simp)
    | true =>
      show (compress zstd heap _ cLevel noThreads >>= decompressAs type zstd heap) = _ ↔ _
      rw [decompressAs_compress type hzstd hheap haccepts]
      by_cases hempty : range.elems = []
      · rw [if_pos hempty]
        exact iff_of_false hthrows (by simp [hempty])
      · rw [if_neg hempty]
        exact iff_of_true rfl ⟨rfl, rfl, hempty⟩

end RoundTrip

/-! ## A codec that stores -/

/-- A frame whose only block holds the source as it is; up to 255 bytes it is what zstd writes
for sources that do not compress. -/
def rawFrame (src : List UInt8) : List UInt8 :=
  if src.length < 256 then
    [0x28, 0xB5, 0x2F, 0xFD, 0x20, UInt8.ofNat src.length,
      UInt8.ofNat (8 * src.length + 1), UInt8.ofNat ((8 * src.length + 1) / 256), 0] ++ src
  else [0x28, 0xB5, 0x2F, 0xFD, 0xE0] ++ src

example : rawFrame [0x61, 0x62, 0x63] =
    [0x28, 0xB5, 0x2F, 0xFD, 0x20, 3, 0x19, 0, 0, 0x61, 0x62, 0x63] := by decide

/-- What is behind the header. -/
def rawContent (frame : List UInt8) : Option (List UInt8) :=
  match frame.drop 4 with
  | [] => none
  | descriptor :: rest => if descriptor = 0x20 then some (rest.drop 4) else some rest

theorem rawContent_rawFrame (src : List UInt8) : rawContent (rawFrame src) = some src := by
  unfold rawFrame
  split <;> rfl

def rawZstd : Zstd where
  setWorkers noThreads := if noThreads = 0 then none else some "Unsupported parameter"
  setLevel _ := none
  compressBound size := .ok (size + size / 256 + (131072 - size) / 2048)
  compress2 _ _ src dstSize :=
    if (rawFrame src).length ≤ dstSize then .ok (rawFrame src)
    else .error "Destination buffer is too small"
  frameContentSize frame :=
    match rawContent frame with
    | none => .error
    | some content => .known content.length
  decompressDCtx frame _ :=
    match rawContent frame with
    | none => .error "Src size is incorrect"
    | some content => .ok content

theorem rawZstd_accepts (cLevel : ℤ) : rawZstd.Accepts cLevel 0 := ⟨rfl, rfl⟩

theorem rawFrame_le_bound (src : List UInt8) :
    (rawFrame src).length ≤ src.length + src.length / 256 + (131072 - src.length) / 2048 := by
  unfold rawFrame
  split
  · rw [List.length_append]
    show 9 + src.length ≤ _
    omega
  · rw [List.length_append]
    show 5 + src.length ≤ _
    omega

theorem rawZstd_inverts : rawZstd.Inverts where
  contentSize_nil := rfl
  frame cLevel noThreads _ src := by
    refine ⟨_, rawFrame src, rfl, if_pos (rawFrame_le_bound src), rawFrame_le_bound src, ?_, ?_⟩
    · show (match rawContent (rawFrame src) with
        | none => ContentSize.error
        | some content => .known content.length) = _
      rw [rawContent_rawFrame]
    · show (match rawContent (rawFrame src) with
        | none => Except.error "Src size is incorrect"
        | some content => .ok content) = _
      rw [rawContent_rawFrame]

/-- `std::byte` -/
def byteType : ObjectType UInt8 where
  size := 1
  size_pos := Nat.one_pos
  uniqueRepresentations := true
  bytes x := [x]
  object bytes := bytes.headD 0
  length_bytes _ := rfl
  object_bytes _ := rfl

end CompressionZstd
