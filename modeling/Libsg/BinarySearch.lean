/-
# Binary search for a partition point

Nothing here names the library under verification.  A predicate splits a list at `k` when it holds
of the elements before `k` and of no other; on a sorted list a predicate that holds of
everything below what it holds of splits at the number of elements it holds of
(`splits_countP`).

`search` halves a range until nothing is left of it; `none` stands for a read outside of the
list.  Where the predicate splits the list, it finds the place (`search_eq`).
-/
import Mathlib.Data.List.Basic
import Mathlib.Order.Lattice

namespace BinarySearch

variable {α : Type*}

/-- `p` holds of the elements before `k`, and of no other. -/
structure Splits (p : α → Bool) (xs : List α) (k : ℕ) : Prop where
  le_length : k ≤ xs.length
  holds_iff : ∀ i x, xs[i]? = some x → (p x = true ↔ i < k)

/-- The first place from `first` on, within `len`, whose element does not meet `p`. -/
def search (p : α → Bool) (xs : List α) (first len : ℕ) : Option ℕ :=
  if len = 0 then some first
  else
    match xs[first + len / 2]? with
    | none => none
    | some x =>
      if p x then search p xs (first + len / 2 + 1) (len - len / 2 - 1)
      else search p xs first (len / 2)
termination_by len

/-- **A search finds the place where the list is split**, and reads inside of it only. -/
theorem search_eq {p : α → Bool} {xs : List α} {k first len : ℕ} (h : Splits p xs k)
    (hfirst : first ≤ k) (hk : k ≤ first + len) (hlen : first + len ≤ xs.length) :
    search p xs first len = some k := by
  induction len using Nat.strongRecOn generalizing first with
  | ind len ih =>
    rw [search]
    split
    · next hzero =>
      rw [hzero, Nat.add_zero] at hk
      rw [Nat.le_antisymm hfirst hk]
    · next hpos =>
      have hmiddle : first + len / 2 < xs.length := by omega
      rw [List.getElem?_eq_getElem hmiddle]
      have hiff := h.holds_iff _ _ (List.getElem?_eq_getElem hmiddle)
      dsimp only
      split
      · next hp =>
        have hbefore := hiff.mp hp
        exact ih _ (by omega) (by omega) (by omega) (by omega)
      · next hp =>
        have hafter : k ≤ first + len / 2 := Nat.le_of_not_lt fun hlt => hp (hiff.mpr hlt)
        exact ih _ (by omega) hfirst hafter (by omega)

theorem search_all {p : α → Bool} {xs : List α} {k : ℕ} (h : Splits p xs k) :
    search p xs 0 xs.length = some k :=
  search_eq h (Nat.zero_le k) ((Nat.zero_add _).symm ▸ h.le_length) (Nat.le_of_eq (Nat.zero_add _))

/-- On a sorted list what is downward closed is an initial part. -/
theorem splits_countP [LE α] {p : α → Bool} {xs : List α} (hsorted : xs.Pairwise (· ≤ ·))
    (hdown : ∀ x y, x ≤ y → p y = true → p x = true) : Splits p xs (xs.countP p) := by
  induction xs with
  | nil => exact ⟨Nat.le_refl 0, nofun⟩
  | cons x xs ih =>
    obtain ⟨hx, htail⟩ := List.pairwise_cons.mp hsorted
    obtain ⟨-, hiff⟩ := ih htail
    refine ⟨List.countP_le_length, fun i y hy => ?_⟩
    by_cases hp : p x = true
    · rw [List.countP_cons_of_pos hp]
      cases i with
      | zero =>
        cases hy
        exact ⟨fun _ => Nat.succ_pos _, fun _ => hp⟩
      | succ i =>
        rw [hiff i y hy]
        exact Nat.succ_lt_succ_iff.symm
    · -- nothing after an element that does not meet `p` meets it
      have hnone : xs.countP p = 0 := by
        rw [List.countP_eq_zero]
        intro y hy hpy
        exact hp (hdown x y (hx y hy) hpy)
      rw [List.countP_cons_of_neg hp, hnone]
      refine ⟨fun hpy => ?_, fun hlt => absurd hlt (Nat.not_lt_zero i)⟩
      cases i with
      | zero =>
        cases hy
        exact absurd hpy hp
      | succ i => exact absurd (hdown x y (hx y (List.mem_of_getElem? hy)) hpy) hp

section Order

variable [LinearOrder α] {xs : List α}

/-- The elements below a value are an initial part of a sorted list. -/
theorem splits_lt (hsorted : xs.Pairwise (· ≤ ·)) (v : α) :
    Splits (fun x => decide (x < v)) xs (xs.countP fun x => decide (x < v)) := by
  refine splits_countP hsorted fun x y hxy hy => ?_
  exact decide_eq_true (lt_of_le_of_lt hxy (of_decide_eq_true hy))

/-- The elements not above a value are an initial part of a sorted list. -/
theorem splits_le (hsorted : xs.Pairwise (· ≤ ·)) (v : α) :
    Splits (fun x => decide (x ≤ v)) xs (xs.countP fun x => decide (x ≤ v)) := by
  refine splits_countP hsorted fun x y hxy hy => ?_
  exact decide_eq_true (le_trans hxy (of_decide_eq_true hy))

/-- What is not above a value is below it or equal to it. -/
theorem countP_le_eq (xs : List α) (v : α) :
    (xs.countP fun x => decide (x ≤ v)) = (xs.countP fun x => decide (x < v)) + xs.count v := by
  induction xs with
  | nil => rfl
  | cons x xs ih =>
    simp only [List.countP_cons, List.count_cons, ih, decide_eq_true_eq, beq_iff_eq]
    rcases lt_trichotomy x v with hlt | rfl | hgt
    · rw [if_pos hlt, if_pos (le_of_lt hlt), if_neg (ne_of_lt hlt)]
      omega
    · rw [if_neg (lt_irrefl x), if_pos (le_refl x), if_pos rfl]
      omega
    · rw [if_neg (not_lt_of_gt hgt), if_neg (not_le_of_gt hgt), if_neg (ne_of_gt hgt)]
      rfl

end Order

end BinarySearch
