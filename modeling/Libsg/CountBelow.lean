/-
# Counting by hand

Nothing here names the library under verification.  `Nat.count p n` is the number of
`i < n` with `p i`, and `Numbers p n` says that `n` have the property in a type that need
not be finite.  The lemmas say how the number changes when `p` changes at one place, as a
counter does that is kept by hand.
-/
import Mathlib.Data.Nat.Count
import Mathlib.Data.Finset.Dedup
import Mathlib.Tactic.Common

variable {p q : ℕ → Prop} [DecidablePred p] [DecidablePred q] {n i : ℕ}

theorem count_congr_below (h : ∀ j, j < n → (p j ↔ q j)) : Nat.count p n = Nat.count q n :=
  Nat.le_antisymm (Nat.count_mono_left fun j hj => (h j hj).mp)
    (Nat.count_mono_left fun j hj => (h j hj).mpr)

/-- `i` is counted now. -/
theorem count_gain (hi : i < n) (hp : ¬p i) (hq : q i) (hothers : ∀ j, j ≠ i → (p j ↔ q j)) :
    Nat.count q n = Nat.count p n + 1 := by
  induction n with
  | zero => omega
  | succ n ih =>
    rw [Nat.count_succ, Nat.count_succ]
    by_cases hin : i = n
    · subst hin
      rw [if_neg hp, if_pos hq, count_congr_below fun j hj => hothers j (by omega)]
    · rw [ih (by omega)]
      by_cases hpn : p n
      · rw [if_pos hpn, if_pos ((hothers n (Ne.symm hin)).mp hpn)]
      · rw [if_neg hpn, if_neg fun hqn => hpn ((hothers n (Ne.symm hin)).mpr hqn)]

/-- What has been counted can be discounted. -/
theorem count_pos_of_mem (hi : i < n) (hp : p i) : 0 < Nat.count p n :=
  Nat.pos_of_ne_zero fun hzero => Nat.count_iff_forall_not.mp hzero i hi hp

/-- New numbers that are not counted. -/
theorem count_extend (m : ℕ) (h : ∀ j, n ≤ j → ¬p j) : Nat.count p (n + m) = Nat.count p n := by
  rw [Nat.count_add]
  have hnone : Nat.count (fun k => p (n + k)) m = 0 :=
    Nat.count_iff_forall_not.mpr fun k _ => h (n + k) (by omega)
  rw [hnone, Nat.add_zero]

/-- The numbers of a list without repetitions, all counted. -/
theorem length_le_count {l : List ℕ} (hl : l.Nodup) (h : ∀ j ∈ l, j < n ∧ p j) :
    l.length ≤ Nat.count p n := by
  rw [Nat.count_eq_card_filter_range, ← List.toFinset_card_of_nodup hl]
  apply Finset.card_le_card
  intro j hj
  obtain ⟨hlt, hp⟩ := h j (List.mem_toFinset.mp hj)
  exact Finset.mem_filter.mpr ⟨Finset.mem_range.mpr hlt, hp⟩

/-- The numbers of a list without repetitions, when just they are counted. -/
theorem count_eq_length {l : List ℕ} (hl : l.Nodup) (hlt : ∀ j ∈ l, j < n)
    (h : ∀ j, j < n → (p j ↔ j ∈ l)) : Nat.count p n = l.length := by
  rw [Nat.count_eq_card_filter_range, ← List.toFinset_card_of_nodup hl]
  congr 1
  ext j
  rw [Finset.mem_filter, Finset.mem_range, List.mem_toFinset]
  constructor
  · rintro ⟨hj, hp⟩
    exact (h j hj).mp hp
  · intro hj
    exact ⟨hlt j hj, (h j (hlt j hj)).mpr hj⟩

/-! ## In any type -/

/-- `n` have the property. -/
def Numbers {ι : Type*} (p : ι → Bool) (n : ℕ) : Prop :=
  ∃ members : Finset ι, (∀ i, i ∈ members ↔ p i = true) ∧ members.card = n

namespace Numbers

variable {ι : Type*} {p q : ι → Bool} {n : ℕ} {i j : ι}

theorem zero (h : ∀ i, p i = false) : Numbers p 0 :=
  ⟨∅, by simp [h], rfl⟩

theorem congr (h : Numbers p n) (hsame : ∀ i, q i = p i) : Numbers q n := by
  obtain ⟨members, hmem, hcard⟩ := h
  exact ⟨members, fun i => by rw [hmem, hsame], hcard⟩

theorem pos (h : Numbers p n) (hi : p i = true) : 0 < n := by
  obtain ⟨members, hmem, rfl⟩ := h
  exact Finset.card_pos.mpr ⟨i, (hmem i).mpr hi⟩

theorem one_lt (h : Numbers p n) (hi : p i = true) (hj : p j = true) (hne : i ≠ j) : 1 < n := by
  obtain ⟨members, hmem, rfl⟩ := h
  exact Finset.one_lt_card.mpr ⟨i, (hmem i).mpr hi, j, (hmem j).mpr hj, hne⟩

variable [DecidableEq ι]

/-- `i` has the property now. -/
theorem gain (h : Numbers p n) (hp : p i = false) (hq : q i = true)
    (hothers : ∀ j, j ≠ i → q j = p j) : Numbers q (n + 1) := by
  obtain ⟨members, hmem, rfl⟩ := h
  have hi : i ∉ members := by simp [hmem, hp]
  refine ⟨insert i members, fun j => ?_, Finset.card_insert_of_notMem hi⟩
  rcases eq_or_ne j i with rfl | hj
  · simp [hq]
  · simp [hj, hmem, hothers j hj]

/-- `i` does not have the property any more. -/
theorem lose (h : Numbers p n) (hp : p i = true) (hq : q i = false)
    (hothers : ∀ j, j ≠ i → q j = p j) : Numbers q (n - 1) := by
  obtain ⟨members, hmem, rfl⟩ := h
  refine ⟨members.erase i, fun j => ?_, Finset.card_erase_of_mem ((hmem i).mpr hp)⟩
  rcases eq_or_ne j i with rfl | hj
  · simp [hq]
  · simp [hj, hmem, hothers j hj]

end Numbers
