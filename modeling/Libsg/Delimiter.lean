/-
# The first place where a delimiter ends

Nothing here names the library under verification.  A list is read from the left,
and the delimiter `d` ends at `n` when the first `n` elements end with it.  The
first such place is found as soon as enough of the list is known, and what comes
behind does not move it; so whoever splits a stream at its delimiters sees the
same pieces, however the stream reaches him.

* `EndsFirst` : the first end of the delimiter;
* `EndsFirst.append` : what follows does not move it;
* `search` : it can be computed;
* `Frame.prefix_of_flatten` : texts that end with their first delimiter are told apart.
-/
import Mathlib.Data.List.Basic

namespace Delimiter

variable {α : Type*} {d s : List α} {n : ℕ}

/-- The first `n` elements of `s` end with `d`, and no fewer do. -/
structure EndsFirst (d s : List α) (n : ℕ) : Prop where
  le_length : n ≤ s.length
  ends : d <:+ s.take n
  first : ∀ k < n, ¬ d <:+ s.take k

/-- What follows does not move the first end. -/
theorem EndsFirst.append (h : EndsFirst d s n) (t : List α) : EndsFirst d (s ++ t) n where
  le_length := by
    rw [List.length_append]
    exact Nat.le_add_right_of_le h.le_length
  ends := by
    rw [List.take_append_of_le_length h.le_length]
    exact h.ends
  first := by
    intro k hk
    rw [List.take_append_of_le_length (Nat.le_of_lt (Nat.lt_of_lt_of_le hk h.le_length))]
    exact h.first k hk

section Search

variable [DecidableEq α]

/-- The first end, if the delimiter is there. -/
def search (d s : List α) : Option ℕ :=
  (List.range (s.length + 1)).find? fun n => decide (d <:+ s.take n)

theorem search_eq_some_iff : search d s = some n ↔ EndsFirst d s n := by
  rw [search, List.find?_range_eq_some]
  constructor
  · rintro ⟨hends, hmem, hfirst⟩
    refine ⟨?_, by simpa using hends, fun k hk => by simpa using hfirst k hk⟩
    rw [List.mem_range] at hmem
    omega
  · intro h
    refine ⟨by simpa using h.ends, ?_, fun k hk => by simpa using h.first k hk⟩
    rw [List.mem_range]
    have := h.le_length
    omega

end Search

/-! ## Frames -/

/-- There is one first end. -/
theorem EndsFirst.unique {m : ℕ} (h : EndsFirst d s n) (h' : EndsFirst d s m) : n = m := by
  rcases Nat.lt_trichotomy n m with hlt | heq | hgt
  · exact absurd h.ends (h'.first n hlt)
  · exact heq
  · exact absurd h'.ends (h.first m hgt)

/-- The delimiter ends where the text ends, and not before. -/
def Frame (d s : List α) : Prop := EndsFirst d s s.length

/-- What has been read up to the first end is a frame. -/
theorem EndsFirst.frame (h : EndsFirst d s n) : Frame d (s.take n) := by
  have hlen : (s.take n).length = n := List.length_take_of_le h.le_length
  constructor
  · exact Nat.le_refl _
  · rw [List.take_length]
    exact h.ends
  · intro k hk
    rw [hlen] at hk
    rw [List.take_take, Nat.min_eq_left (Nat.le_of_lt hk)]
    exact h.first k hk

theorem Frame.ne_nil (h : Frame d s) (hd : d ≠ []) : s ≠ [] := by
  rintro rfl
  exact hd (List.suffix_nil.mp h.ends)

/-- **Frames are told apart**: if one row of frames reads like the beginning of another row, it is
the beginning of that row. -/
theorem Frame.prefix_of_flatten (hd : d ≠ []) {as bs : List (List α)} (has : ∀ a ∈ as, Frame d a)
    (hbs : ∀ b ∈ bs, Frame d b) (h : as.flatten <+: bs.flatten) : as <+: bs := by
  induction as generalizing bs with
  | nil => exact List.nil_prefix
  | cons a as ih =>
    have ha := has a List.mem_cons_self
    cases bs with
    | nil =>
      have hnil : a ++ as.flatten = [] := List.prefix_nil.mp h
      exact absurd (List.append_eq_nil_iff.mp hnil).1 (ha.ne_nil hd)
    | cons b bs =>
      have hb := hbs b List.mem_cons_self
      rw [List.flatten_cons, List.flatten_cons] at h
      obtain ⟨rest, hrest⟩ := h
      -- both are what the text holds up to its first delimiter
      rw [List.append_assoc] at hrest
      have hlen : a.length = b.length := by
        refine (EndsFirst.append ha (as.flatten ++ rest)).unique ?_
        rw [hrest]
        exact EndsFirst.append hb bs.flatten
      obtain ⟨rfl, htail⟩ := List.append_inj hrest hlen
      refine List.cons_prefix_cons.mpr ⟨rfl, ?_⟩
      exact ih (fun x hx => has x (List.mem_cons_of_mem a hx))
        (fun x hx => hbs x (List.mem_cons_of_mem a hx)) ⟨rest, htail⟩

end Delimiter
