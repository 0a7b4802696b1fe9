/-
# Memory from `malloc`

`memory.cpp` and the buffers of `buffer.h` that are allocated there.  The C library is a
parameter: what a block holds, or nothing when the request fails.  Requests for nothing at all
never reach it: the wrappers throw `std::bad_alloc` for them.
-/
import Mathlib.Data.Nat.Notation

namespace Memory

/-- The contents of a new block; of a block after its size has been changed. -/
structure Heap where
  malloc : ℕ → Option (List UInt8)
  realloc : List UInt8 → ℕ → Option (List UInt8)

/-- Requests for a non-zero size are served, and a block that shrinks keeps its front. -/
structure Heap.Serves (heap : Heap) : Prop where
  malloc : ∀ size, size ≠ 0 → ∃ block, heap.malloc size = some block ∧ block.length = size
  realloc : ∀ block size, size ≠ 0 → size ≤ block.length →
    heap.realloc block size = some (block.take size)

/-- `none` is `std::bad_alloc`. -/
def mallocOrThrow (heap : Heap) (size : ℕ) : Option (List UInt8) :=
  if size = 0 then none else heap.malloc size

def reallocOrFreeAndThrow (heap : Heap) (block : List UInt8) (size : ℕ) : Option (List UInt8) :=
  if size = 0 then none else heap.realloc block size

/-- `make_unique_c_buffer<T>`, with the size of a `T`; the product is taken not to leave a
`size_t`. -/
def makeUniqueCBuffer (heap : Heap) (sizeOf length : ℕ) : Option (List UInt8) :=
  mallocOrThrow heap (sizeOf * length)

theorem makeUniqueCBuffer_zero (heap : Heap) (sizeOf : ℕ) :
    makeUniqueCBuffer heap sizeOf 0 = none := by
  rw [makeUniqueCBuffer, mallocOrThrow, if_pos (Nat.mul_zero sizeOf)]

theorem Heap.Serves.bytes {heap : Heap} (h : heap.Serves) {length : ℕ} (hpos : length ≠ 0) :
    ∃ block, makeUniqueCBuffer heap 1 length = some block ∧ block.length = length := by
  obtain ⟨block, hblock, hlen⟩ := h.malloc length hpos
  refine ⟨block, ?_, hlen⟩
  rw [makeUniqueCBuffer, Nat.one_mul, mallocOrThrow, if_neg hpos, hblock]

/-- A heap that never runs out, with zeros in new memory. -/
def zeroedHeap : Heap where
  malloc size := some (List.replicate size 0)
  realloc block size := some (block.take size ++ List.replicate (size - block.length) 0)

theorem zeroedHeap_serves : zeroedHeap.Serves where
  malloc size _ := ⟨List.replicate size 0, rfl, List.length_replicate⟩
  realloc block size _ hle := by
    show some (block.take size ++ List.replicate (size - block.length) 0) = _
    rw [Nat.sub_eq_zero_of_le hle, List.replicate_zero, List.append_nil]

end Memory
