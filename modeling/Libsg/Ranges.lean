/-
# Nested ranges made flat

`flatenned_size()` and `flatten_copy_to_iterator()` of `ranges.h` are two recursions over the
type of the range, and `flatten()` relies on their agreement: the first sizes the vector
that the second writes to.  The inner ranges are written one behind the other
(`Written.append`), so the vector is filled exactly (`flatten_eq`).

The iterator goes in by reference and comes out as a result; a copy of a plain range leaves the
referenced one where it was.
-/
import Mathlib.Data.Nat.Notation
import Mathlib.Tactic.TypeStar

namespace Ranges

variable {α : Type*}

/-! ## The model -/

inductive Fault
  /-- an element is written at or beyond the end -/
  | badWrite
  deriving DecidableEq, Repr

/-- Ranges of ranges, so many levels above the plain ones. -/
def Nested (α : Type*) : ℕ → Type _
  | 0 => List α
  | depth + 1 => List (Nested α depth)

/-- A `size_t` in the source, which is the same while there are fewer than `2^64` elements. -/
def flatennedSize : (depth : ℕ) → Nested α depth → ℕ
  | 0, buffers => List.length buffers
  | depth + 1, buffers => List.foldl (fun size buf => size + flatennedSize depth buf) 0 buffers

/-- `std::copy` into a vector: what the vector holds, and the iterator behind the last. -/
def copy {n : ℕ} : List α → Vector α n → ℕ → Except Fault (Vector α n × ℕ)
  | [], data, it => .ok (data, it)
  | x :: xs, data, it =>
    if h : it < n then copy xs (data.set it x h) (it + 1) else .error .badWrite

/-- The vector, the referenced iterator and the one returned. -/
structure Copied (α : Type*) (n : ℕ) where
  data : Vector α n
  it : ℕ
  result : ℕ

def flattenCopyToIterator {n : ℕ} :
    (depth : ℕ) → Nested α depth → Vector α n → ℕ → Except Fault (Copied α n)
  | 0, buffers, data, it =>
    match copy buffers data it with
    | .error fault => .error fault
    | .ok (data, result) => .ok ⟨data, it, result⟩
  | depth + 1, buffers, data, it =>
    List.foldlM
      (fun copied range =>
        match flattenCopyToIterator depth range copied.data copied.it with
        | .error fault => .error fault
        | .ok inner => .ok ⟨inner.data, inner.result, inner.result⟩)
      ⟨data, it, it⟩ buffers

/-- `alloc` is what a new vector of a size holds: `flatten()` and `flatten_no_init()` differ in
it only. -/
def flatten (alloc : (n : ℕ) → Vector α n) (depth : ℕ) (buffers : Nested α depth) :
    Except Fault (Vector α (flatennedSize depth buffers)) :=
  match flattenCopyToIterator depth buffers (alloc (flatennedSize depth buffers)) 0 with
  | .error fault => .error fault
  | .ok copied => .ok copied.data

/-! ## The elements at the bottom -/

/-- From left to right. -/
def leaves : (depth : ℕ) → Nested α depth → List α
  | 0, buffers => buffers
  | depth + 1, buffers => List.flatMap (leaves depth) buffers

theorem foldl_size {depth : ℕ} {size : Nested α depth → ℕ}
    (hsize : ∀ buf, size buf = (leaves depth buf).length) (buffers : List (Nested α depth))
    (start : ℕ) :
    buffers.foldl (fun total buf => total + size buf) start =
      start + (buffers.flatMap (leaves depth)).length := by
  induction buffers generalizing start with
  | nil => rfl
  | cons buf buffers ih =>
    rw [List.foldl_cons, ih, hsize, List.flatMap_cons, List.length_append, Nat.add_assoc]

/-- The size is the number of elements. -/
theorem flatennedSize_eq (depth : ℕ) (buffers : Nested α depth) :
    flatennedSize depth buffers = (leaves depth buffers).length := by
  induction depth with
  | zero => rfl
  | succ depth ih => exact (foldl_size ih buffers 0).trans (Nat.zero_add _)

/-! ## Writing one behind the other -/

section Writing

variable {n : ℕ}

/-- `after` is `before` with the elements put in from `it` on. -/
def Written (before : Vector α n) (it : ℕ) (xs : List α) (after : Vector α n) : Prop :=
  after.toList = before.toList.take it ++ xs ++ before.toList.drop (it + xs.length)

theorem Written.nil (data : Vector α n) (it : ℕ) : Written data it [] data := by
  rw [Written, List.append_nil, List.length_nil, Nat.add_zero, List.take_append_drop]

theorem Written.single (data : Vector α n) {it : ℕ} (h : it < n) (x : α) :
    Written data it [x] (data.set it x h) := by
  have hlt : it < data.toList.length := Nat.lt_of_lt_of_eq h Vector.length_toList.symm
  rw [Written, Vector.toList_set, List.set_eq_take_append_cons_drop, if_pos hlt, List.append_assoc]
  rfl

theorem Written.append {before middle after : Vector α n} {it : ℕ} {xs ys : List α}
    (hfits : it + xs.length ≤ n) (hxs : Written before it xs middle)
    (hys : Written middle (it + xs.length) ys after) : Written before it (xs ++ ys) after := by
  have hfront : (before.toList.take it ++ xs).length = it + xs.length := by
    rw [List.length_append, List.length_take, Vector.length_toList]
    omega
  unfold Written at hxs hys ⊢
  have htake : middle.toList.take (it + xs.length) = before.toList.take it ++ xs := by
    rw [hxs, ← hfront, List.take_left]
  have hmiddle : middle.toList.drop (it + xs.length) = before.toList.drop (it + xs.length) := by
    rw [hxs, ← hfront]
    exact List.drop_left
  have hdrop : middle.toList.drop (it + xs.length + ys.length) =
      before.toList.drop (it + (xs ++ ys).length) := by
    rw [← List.drop_drop, hmiddle, List.drop_drop, List.length_append, Nat.add_assoc]
  rw [hys, htake, hdrop, List.append_assoc (before.toList.take it)]

theorem copy_written (xs : List α) (data : Vector α n) (it : ℕ) (hfits : it + xs.length ≤ n) :
    ∃ after, copy xs data it = .ok (after, it + xs.length) ∧ Written data it xs after := by
  induction xs generalizing data it with
  | nil => exact ⟨data, rfl, Written.nil data it⟩
  | cons x xs ih =>
    rw [List.length_cons] at hfits
    have hlt : it < n := by omega
    obtain ⟨after, hcopy, hwritten⟩ := ih (data.set it x hlt) (it + 1) (by omega)
    refine ⟨after, ?_, (Written.single data hlt x).append (by exact hlt) hwritten⟩
    rw [copy, dif_pos hlt, hcopy, List.length_cons]
    congr 2
    omega

/-- **What is written are the elements in order**, and nothing beyond the place for them. -/
theorem flattenCopyToIterator_written (depth : ℕ) (buffers : Nested α depth) (data : Vector α n)
    (it : ℕ) (hfits : it + (leaves depth buffers).length ≤ n) :
    ∃ copied, flattenCopyToIterator depth buffers data it = .ok copied ∧
      copied.result = it + (leaves depth buffers).length ∧
      Written data it (leaves depth buffers) copied.data := by
  induction depth generalizing data it with
  | zero =>
    obtain ⟨after, hcopy, hwritten⟩ := copy_written buffers data it hfits
    refine ⟨⟨after, it, it + List.length buffers⟩, ?_, rfl, hwritten⟩
    rw [flattenCopyToIterator, hcopy]
  | succ depth ih =>
    rw [leaves] at hfits ⊢
    rw [flattenCopyToIterator]
    -- one inner range after the other
    change List (Nested α depth) at buffers
    induction buffers generalizing data it with
    | nil => exact ⟨⟨data, it, it⟩, rfl, rfl, Written.nil data it⟩
    | cons range buffers ihBuffers =>
      rw [List.flatMap_cons, List.length_append] at hfits
      obtain ⟨inner, hinner, hresult, hfirst⟩ := ih range data it (by omega)
      obtain ⟨copied, hcopied, hend, hrest⟩ :=
        ihBuffers inner.data inner.result (by omega)
      refine ⟨copied, ?_, ?_, ?_⟩
      · rw [List.foldlM_cons, hinner]
        exact hcopied
      · rw [hend, hresult, List.flatMap_cons, List.length_append, Nat.add_assoc]
      · rw [List.flatMap_cons]
        rw [hresult] at hrest
        exact hfirst.append (by omega) hrest

end Writing

/-- **A flat copy has the size that was computed for it and the elements from left to right**, at
every depth, and never writes outside of its vector. -/
theorem flatten_eq (alloc : (n : ℕ) → Vector α n) (depth : ℕ) (buffers : Nested α depth) :
    flatennedSize depth buffers = (leaves depth buffers).length ∧
      ∃ result, flatten alloc depth buffers = .ok result ∧ result.toList = leaves depth buffers := by
  have hsize := flatennedSize_eq depth buffers
  refine ⟨hsize, ?_⟩
  obtain ⟨copied, hcopied, -, hwritten⟩ := flattenCopyToIterator_written depth buffers
    (alloc (flatennedSize depth buffers)) 0 (by omega)
  refine ⟨copied.data, ?_, ?_⟩
  · rw [flatten, hcopied]
  · rw [hwritten, List.take_zero, List.nil_append, Nat.zero_add, ← hsize,
      List.drop_eq_nil_of_le (Nat.le_of_eq Vector.length_toList), List.append_nil]

end Ranges
