/-
# Mutexes that can be shared

Nothing here names the library under verification.  A `SharedMutex` records the thread that holds it
exclusively and the threads that share it.  Who holds a mutex is also said by where the threads are
in their programs; `Grants` ties the two together.

A thread that holds a mutex and asks for it again is not served: exclusively it waits for itself,
and shared the standard leaves undefined what happens.

* `Transfer` : how one thread's step changes one mutex and what the thread holds of it;
* `Grants.transfer` : the rule for a step, where the other threads hold what they held;
* `Grants.transfer_or` : what a step does to one part of what a thread holds;
* `Grants.exclusion` : who holds a mutex exclusively holds it alone;
* `Grants.not_served` : who holds a mutex does not get it again;
* `served` : a mutex that nobody holds is got.
-/
import Mathlib.Logic.Function.Basic
import Mathlib.Data.List.Basic
import Mathlib.Data.List.Nodup

structure SharedMutex (τ : Type*) where
  writer : Option τ
  readers : List τ
  deriving DecidableEq, Repr

namespace SharedMutex

inductive Mode
  | shared
  | exclusive
  deriving DecidableEq, Repr

variable {τ : Type*} [DecidableEq τ]

/-- A mutex that nobody holds. -/
def free (τ : Type*) : SharedMutex τ := ⟨none, []⟩

/-- `none` while `t` has to wait. -/
def acquire (t : τ) : Mode → SharedMutex τ → Option (SharedMutex τ)
  | .exclusive, l =>
    if l.writer = none ∧ l.readers = [] then some { l with writer := some t } else none
  | .shared, l =>
    if l.writer = none ∧ t ∉ l.readers then some { l with readers := t :: l.readers } else none

def release (t : τ) : Mode → SharedMutex τ → SharedMutex τ
  | .exclusive, l => { l with writer := none }
  | .shared, l => { l with readers := l.readers.erase t }

/-- The threads that hold the mutex in one way or the other. -/
def holders (l : SharedMutex τ) : List τ := l.writer.toList ++ l.readers

/-- The mutex is held as the threads say they hold it. -/
structure Grants (l : SharedMutex τ) (held : τ → Option Mode) : Prop where
  exclusive : ∀ t, held t = some .exclusive ↔ l.writer = some t
  shared : ∀ t, held t = some .shared ↔ t ∈ l.readers
  nodup : l.readers.Nodup
  apart : l.writer = none ∨ l.readers = []

/-- What one step of a thread does to a mutex `l` of which the thread holds `h`. -/
inductive Transfer (t : τ) (l : SharedMutex τ) (h : Option Mode) :
    SharedMutex τ → Option Mode → Prop
  | keep : Transfer t l h l h
  | acquire (mode : Mode) (l' : SharedMutex τ) (hl : l.acquire t mode = some l') :
      Transfer t l h l' (some mode)
  | release (mode : Mode) (hh : h = some mode) : Transfer t l h (l.release t mode) none

/-- A mutex that nobody holds is got. -/
theorem served {l : SharedMutex τ} (hfree : l.holders = []) (t : τ) (mode : Mode) :
    ∃ l', l.acquire t mode = some l' := by
  rw [holders, List.append_eq_nil_iff] at hfree
  obtain ⟨hwriter, hreaders⟩ := hfree
  have hnone : l.writer = none := by
    cases hl : l.writer with
    | none => rfl
    | some u =>
      rw [hl] at hwriter
      cases hwriter
  cases mode with
  | exclusive => exact ⟨_, if_pos ⟨hnone, hreaders⟩⟩
  | shared =>
    refine ⟨_, if_pos ⟨hnone, ?_⟩⟩
    rw [hreaders]
    exact List.not_mem_nil

namespace Grants

variable {l l' : SharedMutex τ} {held held' : τ → Option Mode} {t : τ}

theorem nobody (τ : Type*) : (free τ).Grants fun _ => none where
  exclusive _ := ⟨nofun, nofun⟩
  shared _ := ⟨nofun, nofun⟩
  nodup := List.nodup_nil
  apart := .inl rfl

omit [DecidableEq τ] in
theorem mem_holders (h : l.Grants held) : t ∈ l.holders ↔ held t ≠ none := by
  rw [holders, List.mem_append, Option.mem_toList, ← h.exclusive, ← h.shared]
  cases held t with
  | none => simp
  | some mode => cases mode <;> simp

omit [DecidableEq τ] in
/-- Who holds a mutex exclusively holds it alone. -/
theorem exclusion (h : l.Grants held) (ht : held t = some .exclusive) {u : τ} (hu : u ≠ t) :
    held u = none := by
  have hwriter := (h.exclusive t).mp ht
  cases hheld : held u with
  | none => rfl
  | some mode =>
    cases mode with
    | exclusive =>
      rw [h.exclusive, hwriter, Option.some.injEq] at hheld
      exact absurd hheld.symm hu
    | shared =>
      rw [h.shared] at hheld
      rcases h.apart with hnone | hempty
      · rw [hwriter] at hnone
        cases hnone
      · rw [hempty] at hheld
        cases hheld

/-- **Who holds a mutex does not get it again**, in whatever mode. -/
theorem not_served (h : l.Grants held) (ht : held t ≠ none) (mode : Mode) :
    l.acquire t mode = none := by
  have hbusy : l.writer ≠ none ∨ t ∈ l.readers := by
    cases hheld : held t with
    | none => exact absurd hheld ht
    | some mode =>
      cases mode with
      | exclusive =>
        rw [h.exclusive] at hheld
        rw [hheld]
        exact .inl nofun
      | shared => exact .inr ((h.shared t).mp hheld)
  cases mode with
  | exclusive =>
    refine if_neg ?_
    rintro ⟨hwriter, hreaders⟩
    rcases hbusy with hnot | hmem
    · exact hnot hwriter
    · rw [hreaders] at hmem
      cases hmem
  | shared =>
    refine if_neg ?_
    rintro ⟨hwriter, hnot⟩
    rcases hbusy with hbusy | hmem
    · exact hbusy hwriter
    · exact hnot hmem

theorem acquired (h : l.Grants held) {mode : Mode} (hl : l.acquire t mode = some l')
    (ht : held' t = some mode) (hothers : ∀ u ≠ t, held' u = held u) : l'.Grants held' := by
  cases mode with
  | exclusive =>
    rw [acquire, Option.ite_none_right_eq_some] at hl
    obtain ⟨⟨hwriter, hreaders⟩, hl⟩ := hl
    cases hl
    have hnobody (u : τ) : held u = none := by
      by_contra hu
      rw [← ne_eq, ← h.mem_holders, holders, hwriter, hreaders] at hu
      cases hu
    refine ⟨fun u => ?_, fun u => ?_, h.nodup, .inr hreaders⟩
    · by_cases hu : u = t
      · subst hu
        exact ⟨fun _ => rfl, fun _ => ht⟩
      · rw [hothers u hu, hnobody u]
        constructor
        · exact nofun
        · rintro ⟨rfl⟩
          exact absurd rfl hu
    · rw [hreaders]
      by_cases hu : u = t
      · subst hu
        rw [ht]
        exact ⟨nofun, nofun⟩
      · rw [hothers u hu, hnobody u]
        exact ⟨nofun, nofun⟩
  | shared =>
    rw [acquire, Option.ite_none_right_eq_some] at hl
    obtain ⟨⟨hwriter, hnot⟩, hl⟩ := hl
    cases hl
    refine ⟨fun u => ?_, fun u => ?_, List.nodup_cons.mpr ⟨hnot, h.nodup⟩, .inl hwriter⟩
    · rw [hwriter]
      by_cases hu : u = t
      · subst hu
        rw [ht]
        exact ⟨nofun, nofun⟩
      · rw [hothers u hu, h.exclusive, hwriter]
    · rw [List.mem_cons]
      by_cases hu : u = t
      · subst hu
        exact ⟨fun _ => .inl rfl, fun _ => ht⟩
      · rw [hothers u hu, h.shared]
        exact (or_iff_right hu).symm

theorem released (h : l.Grants held) {mode : Mode} (hheld : held t = some mode)
    (ht : held' t = none) (hothers : ∀ u ≠ t, held' u = held u) :
    (l.release t mode).Grants held' := by
  cases mode with
  | exclusive =>
    have halone (u : τ) : held' u = none := by
      by_cases hu : u = t
      · rw [hu]
        exact ht
      · rw [hothers u hu]
        exact h.exclusion hheld hu
    have hreaders : l.readers = [] := by
      rcases h.apart with hnone | hempty
      · rw [(h.exclusive t).mp hheld] at hnone
        cases hnone
      · exact hempty
    refine ⟨fun u => ?_, fun u => ?_, h.nodup, .inl rfl⟩
    · rw [halone u]
      exact ⟨nofun, nofun⟩
    · rw [halone u]
      show _ ↔ u ∈ l.readers
      rw [hreaders]
      exact ⟨nofun, nofun⟩
  | shared =>
    have hwriter : l.writer = none := by
      rcases h.apart with hnone | hempty
      · exact hnone
      · rw [h.shared, hempty] at hheld
        cases hheld
    refine ⟨fun u => ?_, fun u => ?_, h.nodup.erase t, .inl hwriter⟩
    · show _ ↔ l.writer = some u
      by_cases hu : u = t
      · subst hu
        rw [ht, hwriter]
        exact ⟨nofun, nofun⟩
      · rw [hothers u hu, h.exclusive]
    · show _ ↔ u ∈ l.readers.erase t
      by_cases hu : u = t
      · subst hu
        rw [ht]
        exact ⟨nofun, fun hmem => absurd rfl (h.nodup.mem_erase_iff.mp hmem).1⟩
      · rw [hothers u hu, h.shared, h.nodup.mem_erase_iff]
        exact (and_iff_right hu).symm

/-- **The rule for a step of the thread `t`.** -/
theorem transfer (h : l.Grants held) (ht : Transfer t l (held t) l' (held' t))
    (hothers : ∀ u ≠ t, held' u = held u) : l'.Grants held' := by
  generalize hheld : held t = m at ht
  generalize hheld' : held' t = m' at ht
  cases ht with
  | keep =>
    have heq : held' = held := by
      funext u
      by_cases hu : u = t
      · rw [hu, hheld, hheld']
      · exact hothers u hu
    rw [heq]
    exact h
  | acquire mode _ hl => exact h.acquired hl hheld' hothers
  | release mode hh => exact h.released (hheld.trans hh) hheld' hothers

/-- A step on what is held in one way leaves alone what is held in another. -/
theorem transfer_or (h : l.Grants held) {a b e : Option Mode} (ht : held t = a.or e)
    (hapart : e = none ∨ a = none) (hstep : Transfer t l a l' b) :
    Transfer t l (a.or e) l' (b.or e) ∧ (e = none ∨ b = none) := by
  rcases hapart with rfl | rfl
  · rw [Option.or_none, Option.or_none]
    exact ⟨hstep, .inl rfl⟩
  · cases hstep with
    | keep => exact ⟨.keep, .inr rfl⟩
    | release mode hh => cases hh
    | acquire mode _ hl =>
      cases e with
      | none => exact ⟨.acquire mode l' hl, .inl rfl⟩
      | some other =>
        -- it is held already
        rw [h.not_served (by rw [ht]; nofun) mode] at hl
        cases hl

/-- A holder that releases leaves the others. -/
theorem holders_release (h : l.Grants held) {mode : Mode} (hheld : held t = some mode) :
    (l.release t mode).holders.length + 1 = l.holders.length := by
  cases mode with
  | exclusive =>
    rw [h.exclusive] at hheld
    rw [holders, holders, hheld]
    show ([] ++ l.readers).length + 1 = ([t] ++ l.readers).length
    rfl
  | shared =>
    rw [h.shared] at hheld
    have hpos := List.length_pos_of_mem hheld
    show (l.writer.toList ++ l.readers.erase t).length + 1 = _
    rw [holders, List.length_append, List.length_append, List.length_erase_of_mem hheld]
    omega

end Grants

end SharedMutex
