/-
# Searches that return an index

`bounds.h` over arrays of any ordered type.  `upper_bound_index()` and `lower_bound_index()`
clamp the end of the array to its last index; `greater_or_equal_index()` and
`less_or_equal_index()` look one place further, the one back and the other ahead.

On a sorted array both are functions of three numbers: the length, the number of
elements below the value, and that of those not above it.  The first finds the least
element that is not below the value; the second, which looks ahead where it should look
back, finds the greatest that is not above it only if the value itself is there, or
everything is below it.
-/
import Libsg.BinarySearch
import Mathlib.Order.Bounds.Basic

open BinarySearch

namespace Bounds

variable {α : Type*} [LinearOrder α]

/-! ## The model -/

inductive Fault
  | outOfRange (message : String)
  /-- an element is read that is not there -/
  | badRead
  deriving DecidableEq, Repr

/-- The result of an algorithm that reads `data`. -/
def checked : Option ℕ → Except Fault ℕ
  | some i => .ok i
  | none => .error .badRead

def emptyInput : Fault := .outOfRange "empty input given"

/-- `std::upper_bound` -/
def upperBound (data : List α) (toFind : α) : Option ℕ :=
  search (fun x => decide (x ≤ toFind)) data 0 data.length

/-- `std::lower_bound` -/
def lowerBound (data : List α) (toFind : α) : Option ℕ :=
  search (fun x => decide (x < toFind)) data 0 data.length

def upperBoundIndex (data : List α) (toFind : α) : Except Fault ℕ :=
  if data.length = 0 then .error emptyInput
  else do
    let i ← checked (upperBound data toFind)
    if i = data.length then .ok (data.length - 1) else .ok i

def greaterOrEqualIndex (data : List α) (toFind : α) : Except Fault ℕ :=
  if data.length = 0 then .error emptyInput
  else do
    let i ← upperBoundIndex data toFind
    if i = 0 then .ok i
    else
      match data[i - 1]? with
      | none => .error .badRead
      | some x => if toFind ≤ x then .ok (i - 1) else .ok i

def lowerBoundIndex (data : List α) (toFind : α) : Except Fault ℕ :=
  if data.length = 0 then .error emptyInput
  else do
    let i ← checked (lowerBound data toFind)
    if i = data.length then .ok (data.length - 1) else .ok i

def lessOrEqualIndex (data : List α) (toFind : α) : Except Fault ℕ :=
  if data.length = 0 then .error emptyInput
  else do
    let i ← lowerBoundIndex data toFind
    if i = data.length - 1 then .ok i
    else
      match data[i + 1]? with
      | none => .error .badRead
      | some x => if x ≤ toFind then .ok (i + 1) else .ok i

/-! ## What they compute on a sorted array -/

/-- The number of elements below the value. -/
def below (data : List α) (v : α) : ℕ := data.countP fun x => decide (x < v)

/-- The number of elements that are not above it. -/
def upTo (data : List α) (v : α) : ℕ := data.countP fun x => decide (x ≤ v)

/-- The end of the array becomes its last index. -/
def clamp (length i : ℕ) : ℕ := if i = length then length - 1 else i

section Sorted

variable {data : List α} {v : α}

theorem upTo_eq (data : List α) (v : α) : upTo data v = below data v + data.count v :=
  countP_le_eq data v

theorem upTo_le_length (data : List α) (v : α) : upTo data v ≤ data.length :=
  List.countP_le_length

theorem lt_iff_below (hsorted : data.Pairwise (· ≤ ·)) {i : ℕ} {x : α} (hx : data[i]? = some x) :
    x < v ↔ i < below data v :=
  decide_eq_true_iff.symm.trans ((splits_lt hsorted v).holds_iff i x hx)

theorem le_iff_upTo (hsorted : data.Pairwise (· ≤ ·)) {i : ℕ} {x : α} (hx : data[i]? = some x) :
    x ≤ v ↔ i < upTo data v :=
  decide_eq_true_iff.symm.trans ((splits_le hsorted v).holds_iff i x hx)

theorem upperBoundIndex_eq (hsorted : data.Pairwise (· ≤ ·)) (hpos : data.length ≠ 0) :
    upperBoundIndex data v = .ok (clamp data.length (upTo data v)) := by
  rw [upperBoundIndex, if_neg hpos, upperBound, search_all (splits_le hsorted v)]
  show (if upTo data v = data.length then _ else _) = _
  rw [clamp]
  split <;> rfl

theorem lowerBoundIndex_eq (hsorted : data.Pairwise (· ≤ ·)) (hpos : data.length ≠ 0) :
    lowerBoundIndex data v = .ok (clamp data.length (below data v)) := by
  rw [lowerBoundIndex, if_neg hpos, lowerBound, search_all (splits_lt hsorted v)]
  show (if below data v = data.length then _ else _) = _
  rw [clamp]
  split <;> rfl

/-- The clamped index, or the one before if that is not below the value. -/
theorem greaterOrEqualIndex_eq (hsorted : data.Pairwise (· ≤ ·)) (hpos : data.length ≠ 0) :
    greaterOrEqualIndex data v = .ok (if below data v < clamp data.length (upTo data v) then
      clamp data.length (upTo data v) - 1 else clamp data.length (upTo data v)) := by
  rw [greaterOrEqualIndex, if_neg hpos, upperBoundIndex_eq hsorted hpos]
  have hle := upTo_le_length data v
  have hclamp : clamp data.length (upTo data v) < data.length := by
    unfold clamp
    split <;> omega
  generalize clamp data.length (upTo data v) = i at hclamp
  show (if i = 0 then _ else _) = _
  split
  · next hzero =>
    rw [if_neg (by omega)]
  · next hne =>
    have hread : i - 1 < data.length := by omega
    have hget := List.getElem?_eq_getElem hread
    have hlt := lt_iff_below (v := v) hsorted hget
    rw [hget]
    dsimp only
    by_cases hv : v ≤ data[i - 1]
    · have hbefore : ¬ i - 1 < below data v := fun h => absurd (hlt.mpr h) (not_lt_of_ge hv)
      rw [if_pos hv, if_pos (by omega)]
    · have hafter := hlt.mp (lt_of_not_ge hv)
      rw [if_neg hv, if_neg (by omega)]

/-- The clamped index, or the one after if that is not above the value. -/
theorem lessOrEqualIndex_eq (hsorted : data.Pairwise (· ≤ ·)) (hpos : data.length ≠ 0) :
    lessOrEqualIndex data v = .ok (if clamp data.length (below data v) + 1 < upTo data v then
      clamp data.length (below data v) + 1 else clamp data.length (below data v)) := by
  rw [lessOrEqualIndex, if_neg hpos, lowerBoundIndex_eq hsorted hpos]
  have hle := upTo_le_length data v
  have hbelow : below data v ≤ data.length := List.countP_le_length
  have hclamp : clamp data.length (below data v) < data.length := by
    unfold clamp
    split <;> omega
  generalize clamp data.length (below data v) = i at hclamp
  show (if i = data.length - 1 then _ else _) = _
  split
  · next hlast =>
    rw [if_neg (by omega)]
  · next hne =>
    have hread : i + 1 < data.length := by omega
    have hget := List.getElem?_eq_getElem hread
    have hiff := le_iff_upTo (v := v) hsorted hget
    rw [hget]
    dsimp only
    by_cases hv : data[i + 1] ≤ v
    · rw [if_pos hv, if_pos (hiff.mp hv)]
    · rw [if_neg hv, if_neg fun h => hv (hiff.mpr h)]

theorem below_le_upTo (data : List α) (v : α) : below data v ≤ upTo data v :=
  Nat.le.intro (upTo_eq data v).symm

theorem exists_ge_iff : (∃ x ∈ data, v ≤ x) ↔ below data v < data.length := by
  constructor
  · rintro ⟨x, hx, hv⟩
    refine lt_of_le_of_ne List.countP_le_length fun heq => ?_
    have hlt := List.countP_eq_length.mp heq x hx
    exact not_lt_of_ge hv (of_decide_eq_true hlt)
  · intro hlt
    by_contra hnone
    push Not at hnone
    refine absurd hlt (Nat.not_lt.mpr (Nat.le_of_eq ?_))
    exact (List.countP_eq_length.mpr fun x hx => decide_eq_true (hnone x hx)).symm

theorem exists_gt_iff : (∃ x ∈ data, v < x) ↔ upTo data v < data.length := by
  constructor
  · rintro ⟨x, hx, hv⟩
    refine lt_of_le_of_ne List.countP_le_length fun heq => ?_
    have hle := List.countP_eq_length.mp heq x hx
    exact not_le_of_gt hv (of_decide_eq_true hle)
  · intro hlt
    by_contra hnone
    push Not at hnone
    refine absurd hlt (Nat.not_lt.mpr (Nat.le_of_eq ?_))
    exact (List.countP_eq_length.mpr fun x hx => decide_eq_true (hnone x hx)).symm

theorem exists_le_iff : (∃ x ∈ data, x ≤ v) ↔ 0 < upTo data v := by
  rw [upTo, List.countP_pos_iff]
  simp only [decide_eq_true_eq]

theorem forall_lt_iff : (∀ x ∈ data, x < v) ↔ below data v = data.length := by
  rw [below, List.countP_eq_length]
  simp only [decide_eq_true_eq]

theorem getElem?_le_of_le (hsorted : data.Pairwise (· ≤ ·)) {i j : ℕ} {x y : α} (hij : i ≤ j)
    (hx : data[i]? = some x) (hy : data[j]? = some y) : x ≤ y := by
  obtain ⟨hi, rfl⟩ := List.getElem?_eq_some_iff.mp hx
  obtain ⟨hj, rfl⟩ := List.getElem?_eq_some_iff.mp hy
  rcases Nat.eq_or_lt_of_le hij with rfl | hlt
  · exact le_refl _
  · exact List.pairwise_iff_getElem.mp hsorted i j hi hj hlt

/-- The elements from `below` up to `upTo` are the value itself. -/
theorem eq_of_between (hsorted : data.Pairwise (· ≤ ·)) {i : ℕ} {x : α} (hx : data[i]? = some x)
    (hbelow : below data v ≤ i) (hupTo : i < upTo data v) : x = v := by
  have hle := (le_iff_upTo hsorted hx).mpr hupTo
  have hge := not_lt.mp fun h => absurd ((lt_iff_below hsorted hx).mp h) (Nat.not_lt.mpr hbelow)
  exact le_antisymm hle hge

end Sorted

/-! ## At or above the value -/

section GreaterOrEqual

variable {data : List α} {v : α}

/-- The first element that is not below the value is the least such, and so is the value. -/
theorem isLeast_of_index (hsorted : data.Pairwise (· ≤ ·)) {i : ℕ} {x : α}
    (hx : data[i]? = some x) (hbelow : below data v ≤ i)
    (hplace : i = below data v ∨ i < upTo data v) : IsLeast {y | y ∈ data ∧ v ≤ y} x := by
  have hge : v ≤ x :=
    not_lt.mp fun h => absurd ((lt_iff_below hsorted hx).mp h) (Nat.not_lt.mpr hbelow)
  refine ⟨⟨List.mem_of_getElem? hx, hge⟩, ?_⟩
  rintro y ⟨hy, hvy⟩
  rcases hplace with hfirst | hvalue
  · obtain ⟨j, hj⟩ := List.mem_iff_getElem?.mp hy
    refine getElem?_le_of_le hsorted ?_ hx hj
    rw [hfirst]
    exact Nat.not_lt.mp fun h => not_lt_of_ge hvy ((lt_iff_below hsorted hj).mpr h)
  · rw [eq_of_between hsorted hx hbelow hvalue]
    exact hvy

/-- **The least element that is not below the value**, or the last index when there is none;
nothing is read outside of the array. -/
theorem greaterOrEqualIndex_isLeast (hsorted : data.Pairwise (· ≤ ·)) (hne : data ≠ []) :
    ∃ i, greaterOrEqualIndex data v = .ok i ∧
      ((∃ x ∈ data, v ≤ x) → ∃ x, data[i]? = some x ∧ IsLeast {y | y ∈ data ∧ v ≤ y} x) ∧
      ((¬ ∃ x ∈ data, v ≤ x) → i = data.length - 1) := by
  have hpos : data.length ≠ 0 := fun h => hne (List.length_eq_zero_iff.mp h)
  have hle := below_le_upTo data v
  have hlength := upTo_le_length data v
  refine ⟨_, greaterOrEqualIndex_eq hsorted hpos, fun hsome => ?_, fun hnone => ?_⟩
  · rw [exists_ge_iff] at hsome
    have hindex : ∀ i, i < data.length → below data v ≤ i →
        (i = below data v ∨ i < upTo data v) →
        ∃ x, data[i]? = some x ∧ IsLeast {y | y ∈ data ∧ v ≤ y} x := by
      intro i hi hbelow hplace
      have hget := List.getElem?_eq_getElem hi
      exact ⟨_, hget, isLeast_of_index hsorted hget hbelow hplace⟩
    unfold clamp
    apply hindex
    · split_ifs <;> omega
    · split_ifs <;> omega
    · split_ifs <;> omega
  · rw [exists_ge_iff] at hnone
    have hbelow : below data v = data.length := by omega
    have hupTo : upTo data v = data.length := by omega
    rw [hbelow, hupTo, clamp, if_pos rfl, if_neg (by omega)]

theorem greaterOrEqualIndex_isLeast_run :
    ∃ i, greaterOrEqualIndex [1, 3, 3, 7] 3 = .ok i ∧
      ((∃ x ∈ [1, 3, 3, 7], 3 ≤ x) →
        ∃ x, [1, 3, 3, 7][i]? = some x ∧ IsLeast {y | y ∈ [1, 3, 3, 7] ∧ 3 ≤ y} x) ∧
      ((¬ ∃ x ∈ [1, 3, 3, 7], 3 ≤ x) → i = [1, 3, 3, 7].length - 1) :=
  greaterOrEqualIndex_isLeast (by decide) (by decide)

/-- **What follows the equal elements matters when they are at the end**: the clamp then steps
back one place too far, unless there is only one of them. -/
theorem greaterOrEqualIndex_append_iff {xs ys : List α} (hsorted : (xs ++ ys).Pairwise (· ≤ ·))
    (hmem : v ∈ xs) (habove : ∀ y ∈ ys, v < y) :
    greaterOrEqualIndex (xs ++ ys) v = greaterOrEqualIndex xs v ↔
      ys = [] ∨ (∃ x ∈ xs, v < x) ∨ xs.count v = 1 := by
  have hxs : xs.length ≠ 0 := Nat.ne_of_gt (List.length_pos_of_mem hmem)
  have hall : (xs ++ ys).length ≠ 0 := by
    rw [List.length_append]
    omega
  have hbelow : below (xs ++ ys) v = below xs v := by
    have hnone : ys.countP (fun x => decide (x < v)) = 0 := by
      rw [List.countP_eq_zero]
      intro y hy hlt
      exact lt_asymm (habove y hy) (of_decide_eq_true hlt)
    rw [below, List.countP_append, hnone]
    rfl
  have hupTo : upTo (xs ++ ys) v = upTo xs v := by
    have hnone : ys.countP (fun x => decide (x ≤ v)) = 0 := by
      rw [List.countP_eq_zero]
      intro y hy hle
      exact not_le_of_gt (habove y hy) (of_decide_eq_true hle)
    rw [upTo, List.countP_append, hnone]
    rfl
  have hcount : 0 < xs.count v := List.count_pos_iff.mpr hmem
  have heq := upTo_eq xs v
  have hle := upTo_le_length xs v
  rw [greaterOrEqualIndex_eq hsorted hall,
    greaterOrEqualIndex_eq (List.pairwise_append.mp hsorted).1 hxs, hbelow, hupTo, exists_gt_iff,
    ← List.length_eq_zero_iff, List.length_append, Except.ok.injEq]
  unfold clamp
  split_ifs <;> omega

theorem greaterOrEqualIndex_append_once :
    greaterOrEqualIndex ([1, 2] ++ [3]) 2 = greaterOrEqualIndex [1, 2] 2 ↔
      ([3] : List ℕ) = [] ∨ (∃ x ∈ [1, 2], 2 < x) ∨ [1, 2].count 2 = 1 :=
  greaterOrEqualIndex_append_iff (by decide) (by decide) (by decide)

theorem greaterOrEqualIndex_append_differs :
    ¬ ∀ xs ys : List ℕ, ∀ v, (xs ++ ys).Pairwise (· ≤ ·) → v ∈ xs → (∀ y ∈ ys, v < y) →
      greaterOrEqualIndex (xs ++ ys) v = greaterOrEqualIndex xs v := by
  intro h
  have hsame := h [2, 2] [3] 2 (by decide) (by decide) (by decide)
  exact absurd hsame (by decide +kernel)

end GreaterOrEqual

/-! ## At or below the value -/

section LessOrEqual

variable {data : List α} {v : α}

/-- The step ahead never leaves the elements above the value. -/
theorem not_le_of_index (hsorted : data.Pairwise (· ≤ ·)) {i : ℕ} {x : α}
    (hx : data[i]? = some x) (hupTo : upTo data v ≤ i) : ¬ x ≤ v :=
  fun h => absurd ((le_iff_upTo hsorted hx).mp h) (Nat.not_lt.mpr hupTo)

/-- The last element that is not above the value is the greatest such. -/
theorem isGreatest_of_index (hsorted : data.Pairwise (· ≤ ·)) {i : ℕ} {x : α}
    (hx : data[i]? = some x) (hupTo : i < upTo data v)
    (hplace : i + 1 = upTo data v ∨ below data v ≤ i) : IsGreatest {y | y ∈ data ∧ y ≤ v} x := by
  refine ⟨⟨List.mem_of_getElem? hx, (le_iff_upTo hsorted hx).mpr hupTo⟩, ?_⟩
  rintro y ⟨hy, hyv⟩
  rcases hplace with hlast | hvalue
  · obtain ⟨j, hj⟩ := List.mem_iff_getElem?.mp hy
    have hj' := (le_iff_upTo hsorted hj).mp hyv
    exact getElem?_le_of_le hsorted (by omega) hj hx
  · rw [eq_of_between hsorted hx hvalue hupTo]
    exact hyv

/-- **The greatest element that is not above the value is found if and only if the value is in
the array or everything in it is smaller.** -/
theorem lessOrEqualIndex_isGreatest_iff (hsorted : data.Pairwise (· ≤ ·))
    (hsome : ∃ x ∈ data, x ≤ v) :
    (∃ i x, lessOrEqualIndex data v = .ok i ∧ data[i]? = some x ∧
      IsGreatest {y | y ∈ data ∧ y ≤ v} x) ↔ v ∈ data ∨ ∀ x ∈ data, x < v := by
  rw [exists_le_iff] at hsome
  have hle := below_le_upTo data v
  have hlength := upTo_le_length data v
  have hcount := upTo_eq data v
  have hpos : data.length ≠ 0 := by omega
  rw [lessOrEqualIndex_eq hsorted hpos, forall_lt_iff, ← List.count_pos_iff]
  constructor
  · rintro ⟨i, x, hi, hx, hgreatest⟩
    cases hi
    by_contra hneither
    refine not_le_of_index hsorted hx ?_ hgreatest.1.2
    unfold clamp
    split_ifs <;> omega
  · intro hcase
    have hindex : ∀ i, i < upTo data v → (i + 1 = upTo data v ∨ below data v ≤ i) →
        ∃ j x, (.ok i : Except Fault ℕ) = .ok j ∧ data[j]? = some x ∧
          IsGreatest {y | y ∈ data ∧ y ≤ v} x := by
      intro i hi hplace
      have hget := List.getElem?_eq_getElem (Nat.lt_of_lt_of_le hi hlength)
      exact ⟨i, _, rfl, hget, isGreatest_of_index hsorted hget hi hplace⟩
    unfold clamp
    apply hindex
    · split_ifs <;> omega
    · split_ifs <;> omega

theorem lessOrEqualIndex_isGreatest_present :
    (∃ i x, lessOrEqualIndex [1, 3, 3, 7] 3 = .ok i ∧ [1, 3, 3, 7][i]? = some x ∧
      IsGreatest {y | y ∈ [1, 3, 3, 7] ∧ y ≤ 3} x) ↔
      3 ∈ [1, 3, 3, 7] ∨ ∀ x ∈ [1, 3, 3, 7], x < 3 :=
  lessOrEqualIndex_isGreatest_iff (by decide) (by decide)

/-- Of 1 and 3, the one that is not above 2 is taken to be 3. -/
theorem lessOrEqualIndex_above :
    ¬ ∀ data : List ℕ, ∀ v, data.Pairwise (· ≤ ·) → (∃ x ∈ data, x ≤ v) →
      ∃ i x, lessOrEqualIndex data v = .ok i ∧ data[i]? = some x ∧
        IsGreatest {y | y ∈ data ∧ y ≤ v} x := by
  intro h
  obtain ⟨i, x, hi, hx, hgreatest⟩ := h [1, 3] 2 (by decide) ⟨1, by decide, by decide⟩
  have hindex : lessOrEqualIndex [1, 3] 2 = .ok 1 := by decide +kernel
  rw [hindex] at hi
  cases hi
  cases hx
  exact absurd hgreatest.1.2 (by decide)

end LessOrEqual

end Bounds
