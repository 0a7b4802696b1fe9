/-
# Lists that only remember their end

Nothing here names the library under verification.  A bounded suffix is a list
with a capacity it never exceeds; what is appended pushes out what came first.
It is the abstract state of every rolling store.
-/
import Mathlib.Data.List.Basic

/-- The last `n` elements. -/
def List.lastN {α : Type*} (n : ℕ) (l : List α) : List α := l.drop (l.length - n)

namespace List

variable {α : Type*}

theorem length_lastN (n : ℕ) (l : List α) : (l.lastN n).length = min n l.length := by
  rw [lastN, length_drop]
  omega

theorem lastN_of_length_le {n : ℕ} {l : List α} (h : l.length ≤ n) : l.lastN n = l := by
  rw [lastN, Nat.sub_eq_zero_of_le h, drop_zero]

/-- An end that is long enough hides what comes before it. -/
theorem lastN_append_of_le {n : ℕ} {l r : List α} (h : n ≤ r.length) :
    (l ++ r).lastN n = r.lastN n := by
  have hlen : (l ++ r).length - n = l.length + (r.length - n) := by
    rw [length_append]
    omega
  rw [lastN, hlen, ← drop_drop, drop_left, lastN]

/-- Only the end of what comes before matters. -/
theorem lastN_append_lastN {n k : ℕ} {l r : List α} (h : n ≤ k + r.length) :
    (l.lastN k ++ r).lastN n = (l ++ r).lastN n := by
  have hdrop : l.lastN k ++ r = (l ++ r).drop (l.length - k) := by
    rw [lastN, drop_append_of_le_length (by omega)]
  by_cases hk : l.length ≤ k
  · rw [lastN_of_length_le hk]
  · rw [hdrop, lastN, drop_drop, length_drop, length_append, lastN, length_append]
    congr 1
    omega

/-- Only the end of what is appended matters. -/
theorem lastN_append_trim {n k : ℕ} {l r : List α} (h : n ≤ k) :
    (l ++ r.lastN k).lastN n = (l ++ r).lastN n := by
  by_cases hr : r.length ≤ k
  · rw [lastN_of_length_le hr]
  · have hlen : (r.lastN k).length = k := by
      rw [length_lastN]
      omega
    have hlast : (r.lastN k).lastN n = r.lastN n := by
      have happ := lastN_append_lastN (n := n) (k := k) (l := r) (r := []) (by omega)
      simpa using happ
    rw [lastN_append_of_le (by omega), lastN_append_of_le (by omega), hlast]

end List

/-- A list no longer than its capacity. -/
@[ext]
structure BoundedSuffix (α : Type*) where
  capacity : ℕ
  items : List α
  bound : items.length ≤ capacity

namespace BoundedSuffix

variable {α : Type*}

/-- The empty list of a given capacity. -/
def empty (α : Type*) (capacity : ℕ) : BoundedSuffix α := ⟨capacity, [], Nat.zero_le _⟩

/-- `xs` at the end. -/
def append (l : BoundedSuffix α) (xs : List α) : BoundedSuffix α :=
  ⟨l.capacity, (l.items ++ xs).lastN l.capacity, by rw [List.length_lastN]; omega⟩

/-- One more element at the end. -/
def push (l : BoundedSuffix α) (x : α) : BoundedSuffix α := l.append [x]

def clear (l : BoundedSuffix α) : BoundedSuffix α := empty α l.capacity

/-- The end that another capacity leaves. -/
def resize (l : BoundedSuffix α) (capacity : ℕ) : BoundedSuffix α :=
  ⟨capacity, l.items.lastN capacity, by rw [List.length_lastN]; omega⟩

@[simp] theorem append_capacity (l : BoundedSuffix α) (xs : List α) :
    (l.append xs).capacity = l.capacity := rfl

@[simp] theorem append_nil (l : BoundedSuffix α) : l.append [] = l := by
  refine BoundedSuffix.ext rfl ?_
  show (l.items ++ []).lastN l.capacity = l.items
  rw [List.append_nil, List.lastN_of_length_le l.bound]

theorem append_append (l : BoundedSuffix α) (xs ys : List α) :
    (l.append xs).append ys = l.append (xs ++ ys) := by
  refine BoundedSuffix.ext rfl ?_
  show ((l.items ++ xs).lastN l.capacity ++ ys).lastN l.capacity = _
  rw [List.lastN_append_lastN (by omega), List.append_assoc]
  rfl

/-- **Appending is pushing one by one.** -/
theorem append_eq_foldl_push (l : BoundedSuffix α) (xs : List α) :
    l.append xs = xs.foldl push l := by
  induction xs generalizing l with
  | nil => exact append_nil l
  | cons x xs ih =>
    rw [List.foldl_cons, ← ih, push, append_append]
    rfl

/-- The end of what is appended is all that counts. -/
theorem append_lastN (l : BoundedSuffix α) (xs : List α) :
    l.append (xs.lastN l.capacity) = l.append xs :=
  BoundedSuffix.ext rfl (List.lastN_append_trim (Nat.le_refl _))

end BoundedSuffix
