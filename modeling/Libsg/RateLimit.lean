/-
# At most `n` occurrences in any stretch that lasts less than `T`

Nothing here names the library under verification.  A log is a list of entries, the newest
first; an entry may take time, and may be an occurrence of what is limited.

* `Limited` : no stretch of the log that lasts less than `T` has more than `n` occurrences;
* `since` : how long ago the occurrence before the last `n` began;
* `limited_cons` : a log stays limited if and only if the `n + 1` newest occurrences span `T`.
-/
import Mathlib.Algebra.GroupWithZero.Nat
import Mathlib.Data.List.Infix
import Mathlib.Algebra.BigOperators.Group.List.Basic

namespace RateLimit

variable {α : Type*} (lasts : α → ℕ) (counts : α → Bool)

/-- How long a stretch lasts. -/
def duration (seg : List α) : ℕ := (seg.map lasts).sum

/-- No stretch that lasts less than `T` has more than `n` occurrences. -/
def Limited (n T : ℕ) (log : List α) : Prop :=
  ∀ seg, seg <:+: log → duration lasts seg < T → seg.countP counts ≤ n

/-- How long the newest entries last that have `n + 1` occurrences; nothing where there are less. -/
def since : ℕ → List α → Option ℕ
  | _, [] => none
  | 0, e :: log => if counts e then some (lasts e) else (since 0 log).map (· + lasts e)
  | n + 1, e :: log =>
    (if counts e then since n log else since (n + 1) log).map (· + lasts e)

variable {lasts counts} {n T : ℕ} {e : α} {log : List α}

theorem since_of_not_counts (he : counts e = false) :
    since lasts counts n (e :: log) = (since lasts counts n log).map (· + lasts e) := by
  cases n with
  | zero => rw [since, if_neg (by rw [he]; nofun)]
  | succ n => rw [since, if_neg (by rw [he]; nofun)]

theorem since_zero_of_counts (he : counts e = true) :
    since lasts counts 0 (e :: log) = some (lasts e) := by
  rw [since, if_pos he]

theorem since_succ_of_counts (he : counts e = true) :
    since lasts counts (n + 1) (e :: log) = (since lasts counts n log).map (· + lasts e) := by
  rw [since, if_pos he]

/-- An entry that takes no time and is no occurrence. -/
theorem since_skip (he : counts e = false) (hlasts : lasts e = 0) :
    since lasts counts n (e :: log) = since lasts counts n log := by
  rw [since_of_not_counts he, hlasts]
  simp

/-- The newest entries that `since` measures. -/
theorem exists_prefix_of_since {t : ℕ} (h : since lasts counts n log = some t) :
    ∃ seg, seg <+: log ∧ duration lasts seg = t ∧ seg.countP counts = n + 1 := by
  induction log generalizing n t with
  | nil => cases h
  | cons e log ih =>
    cases he : counts e with
    | false =>
      rw [since_of_not_counts he] at h
      obtain ⟨t', ht', rfl⟩ := Option.map_eq_some_iff.mp h
      obtain ⟨seg, hseg, hduration, hcount⟩ := ih ht'
      refine ⟨e :: seg, List.cons_prefix_cons.mpr ⟨rfl, hseg⟩, ?_, ?_⟩
      · rw [duration, List.map_cons, List.sum_cons, ← duration, hduration, Nat.add_comm]
      · rw [List.countP_cons_of_neg (by rw [he]; nofun), hcount]
    | true =>
      cases n with
      | zero =>
        rw [since_zero_of_counts he] at h
        cases h
        refine ⟨[e], List.cons_prefix_cons.mpr ⟨rfl, List.nil_prefix⟩, ?_, ?_⟩
        · simp [duration]
        · rw [List.countP_cons_of_pos he, List.countP_nil]
      | succ n =>
        rw [since_succ_of_counts he] at h
        obtain ⟨t', ht', rfl⟩ := Option.map_eq_some_iff.mp h
        obtain ⟨seg, hseg, hduration, hcount⟩ := ih ht'
        refine ⟨e :: seg, List.cons_prefix_cons.mpr ⟨rfl, hseg⟩, ?_, ?_⟩
        · rw [duration, List.map_cons, List.sum_cons, ← duration, hduration, Nat.add_comm]
        · rw [List.countP_cons_of_pos he, hcount]

variable (lasts) in
/-- Whatever newest entries have more than `n` occurrences last as long as `since` says. -/
theorem since_le_of_prefix {seg : List α} (hseg : seg <+: log) (hcount : n < seg.countP counts) :
    ∃ t, since lasts counts n log = some t ∧ t ≤ duration lasts seg := by
  induction seg generalizing n log with
  | nil => cases hcount
  | cons e seg ih =>
    cases log with
    | nil => cases List.prefix_nil.mp hseg
    | cons e' log =>
      obtain ⟨rfl, hseg'⟩ := List.cons_prefix_cons.mp hseg
      have hduration : duration lasts (e :: seg) = duration lasts seg + lasts e := by
        rw [duration, List.map_cons, List.sum_cons, ← duration, Nat.add_comm]
      rw [hduration]
      cases he : counts e with
      | false =>
        rw [List.countP_cons_of_neg (by rw [he]; nofun)] at hcount
        obtain ⟨t, ht, hle⟩ := ih hseg' hcount
        exact ⟨t + lasts e, by rw [since_of_not_counts he, ht]; rfl, by omega⟩
      | true =>
        rw [List.countP_cons_of_pos he] at hcount
        cases n with
        | zero => exact ⟨lasts e, since_zero_of_counts he, by omega⟩
        | succ n =>
          obtain ⟨t, ht, hle⟩ := ih hseg' (by omega : n < seg.countP counts)
          exact ⟨t + lasts e, by rw [since_succ_of_counts he, ht]; rfl, by omega⟩

/-- In a limited log `n + 1` occurrences span `T`. -/
theorem Limited.le_since (h : Limited lasts counts n T log) {t : ℕ}
    (ht : since lasts counts n log = some t) : T ≤ t := by
  obtain ⟨seg, hseg, hduration, hcount⟩ := exists_prefix_of_since ht
  by_contra hlt
  have hle := h seg hseg.isInfix (by omega)
  omega

/-- **A log stays limited** if and only if its `n + 1` newest occurrences span `T`. -/
theorem limited_cons : Limited lasts counts n T (e :: log) ↔
    Limited lasts counts n T log ∧ ∀ t, since lasts counts n (e :: log) = some t → T ≤ t := by
  constructor
  · intro h
    exact ⟨fun seg hseg => h seg (List.infix_cons hseg), fun t => h.le_since⟩
  · rintro ⟨h, hsince⟩ seg hseg hshort
    rcases List.infix_cons_iff.mp hseg with hnew | hold
    · by_contra hmany
      obtain ⟨t, ht, hle⟩ := since_le_of_prefix lasts hnew (Nat.lt_of_not_le hmany)
      have hlong := hsince t ht
      omega
    · exact h seg hold hshort

/-- An entry that is no occurrence does not matter. -/
theorem limited_cons_of_not_counts (he : counts e = false) :
    Limited lasts counts n T (e :: log) ↔ Limited lasts counts n T log := by
  rw [limited_cons]
  refine ⟨And.left, fun h => ⟨h, fun t ht => ?_⟩⟩
  rw [since_of_not_counts he] at ht
  obtain ⟨t', ht', rfl⟩ := Option.map_eq_some_iff.mp ht
  have hlong := h.le_since ht'
  omega

/-- An occurrence that takes no time must come `T` after the one `n` before it. -/
theorem limited_cons_of_counts (he : counts e = true) (hlasts : lasts e = 0) :
    Limited lasts counts (n + 1) T (e :: log) ↔ Limited lasts counts (n + 1) T log ∧
      ∀ t, since lasts counts n log = some t → T ≤ t := by
  rw [limited_cons, since_succ_of_counts he, hlasts]
  simp

theorem limited_nil : Limited lasts counts n T [] := by
  intro seg hseg _
  rw [List.eq_nil_of_infix_nil hseg]
  exact Nat.zero_le n

end RateLimit
