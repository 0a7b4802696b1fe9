/-
# Threads as stacks of calls

Nothing here names the library under verification.  A thread is a stack of calls, the
innermost first; a call below another one waits for it.  Some calls are known by what
they are about, and are in progress once at most (`single`).  `CallStack.Inv` says so,
and the rules below are the ways in which a step can change the stacks: the innermost
call goes on (`keep`), makes another (`push`), returns (`pop`) or becomes another
(`replace`).
-/
import Mathlib.Logic.Function.Basic
import Mathlib.Data.List.Nodup

namespace CallStack

variable {ι φ : Type*}

/-- The calls in the stacks are in progress, those that are `single` once each and in
one stack, and those below another call wait. -/
structure Inv (calls : ι → List φ) (single busy waits : φ → Prop) : Prop where
  nodup : ∀ t, (calls t).Nodup
  unique : ∀ f t u, single f → f ∈ calls t → f ∈ calls u → t = u
  inProgress : ∀ f t, f ∈ calls t → busy f
  somewhere : ∀ f, single f → busy f → ∃ t, f ∈ calls t
  suspended : ∀ t f rest g, calls t = f :: rest → g ∈ rest → waits g

variable {calls : ι → List φ} {single busy busy' waits waits' : φ → Prop}

theorem inv_nil (hbusy : ∀ f, single f → ¬ busy f) :
    Inv (fun _ : ι => []) single busy waits where
  nodup _ := List.nodup_nil
  unique _ _ _ _ h := by simp at h
  inProgress _ _ h := by simp at h
  somewhere f hf hb := absurd hb (hbusy f hf)
  suspended _ _ _ _ h := by simp at h

namespace Inv

variable {t : ι} {f : φ} {rest : List φ}

/-- The innermost call is in no other place. -/
theorem innermost_ne (h : Inv calls single busy waits) (ht : calls t = f :: rest) (hf : single f)
    {u : ι} {g e : φ} {rest' : List φ} (hu : calls u = e :: rest') (hg : g ∈ rest') : g ≠ f := by
  rintro rfl
  have hin : g ∈ calls u := by
    rw [hu]
    exact List.mem_cons_of_mem e hg
  have htop : g ∈ calls t := by
    rw [ht]
    exact List.mem_cons_self
  have htu := h.unique g t u hf htop hin
  subst htu
  rw [ht] at hu
  injection hu with hge hrest
  have hnodup := h.nodup t
  rw [ht, hrest] at hnodup
  exact (List.nodup_cons.mp hnodup).1 hg

/-- Nothing that the stacks depend on has changed. -/
theorem same (h : Inv calls single busy waits) (hbusy : ∀ g, busy' g ↔ busy g)
    (hwaits : ∀ g, waits g → waits' g) : Inv calls single busy' waits' where
  nodup := h.nodup
  unique := h.unique
  inProgress g u hg := (hbusy g).mpr (h.inProgress g u hg)
  somewhere g hg hb := h.somewhere g hg ((hbusy g).mp hb)
  suspended u e rest' g hu hg := hwaits g (h.suspended u e rest' g hu hg)

/-- The innermost call goes on. -/
theorem keep (h : Inv calls single busy waits) (ht : calls t = f :: rest) (hf : single f)
    (hbusy : ∀ g, busy' g ↔ busy g) (hwaits : ∀ g, g ≠ f → waits g → waits' g) :
    Inv calls single busy' waits' where
  nodup := h.nodup
  unique := h.unique
  inProgress g u hg := (hbusy g).mpr (h.inProgress g u hg)
  somewhere g hg hb := h.somewhere g hg ((hbusy g).mp hb)
  suspended u e rest' g hu hg :=
    hwaits g (h.innermost_ne ht hf hu hg) (h.suspended u e rest' g hu hg)

variable [DecidableEq ι]

theorem mem_update {g : φ} {u : ι} {fs : List φ} :
    g ∈ Function.update calls t fs u ↔ (u = t ∧ g ∈ fs) ∨ (u ≠ t ∧ g ∈ calls u) := by
  by_cases hu : u = t
  · subst hu
    simp
  · simp [hu]

/-- The innermost call, or the thread itself, makes a call. -/
theorem push (h : Inv calls single busy waits) (hnew : f ∉ calls t) (hf : single f → ¬ busy f)
    (hwait : ∀ g ∈ calls t, waits g) (hbusy : ∀ g, busy' g ↔ busy g ∨ g = f)
    (hwaits : ∀ g, (g = f → ¬ single f) → waits g → waits' g) :
    Inv (Function.update calls t (f :: calls t)) single busy' waits' := by
  have hother (g : φ) (u : ι) (hg : g ∈ calls u) : g = f → ¬ single f := by
    rintro rfl hsingle
    exact hf hsingle (h.inProgress g u hg)
  have hmem (g : φ) (u : ι) :
      g ∈ Function.update calls t (f :: calls t) u ↔ g ∈ calls u ∨ (u = t ∧ g = f) := by
    rw [mem_update, List.mem_cons]
    by_cases hu : u = t
    · subst hu
      simp [or_comm]
    · simp [hu]
  refine ⟨fun u => ?_, fun g u v hg hu hv => ?_, fun g u hg => ?_, fun g hg hb => ?_,
    fun u e rest' g hu hg => ?_⟩
  · by_cases hu : u = t
    · subst hu
      rw [Function.update_self]
      exact List.nodup_cons.mpr ⟨hnew, h.nodup u⟩
    · rw [Function.update_of_ne hu]
      exact h.nodup u
  · rcases (hmem g u).mp hu with hu | ⟨hut, hgf⟩ <;> rcases (hmem g v).mp hv with hv | ⟨hvt, hgf'⟩
    · exact h.unique g u v hg hu hv
    · exact absurd (hgf' ▸ hg) (hother g u hu hgf')
    · exact absurd (hgf ▸ hg) (hother g v hv hgf)
    · rw [hut, hvt]
  · rw [hbusy]
    rcases (hmem g u).mp hg with hg | ⟨-, rfl⟩
    · exact .inl (h.inProgress g u hg)
    · exact .inr rfl
  · rcases (hbusy g).mp hb with hb | rfl
    · obtain ⟨u, hu⟩ := h.somewhere g hg hb
      exact ⟨u, (hmem g u).mpr (.inl hu)⟩
    · exact ⟨t, (hmem g t).mpr (.inr ⟨rfl, rfl⟩)⟩
  · by_cases hut : u = t
    · subst hut
      rw [Function.update_self] at hu
      injection hu with _ hrest
      rw [← hrest] at hg
      exact hwaits g (hother g u hg) (hwait g hg)
    · rw [Function.update_of_ne hut] at hu
      refine hwaits g (hother g u ?_) (h.suspended u e rest' g hu hg)
      rw [hu]
      exact List.mem_cons_of_mem e hg

/-- The innermost call returns. -/
theorem pop (h : Inv calls single busy waits) (ht : calls t = f :: rest)
    (hbusy : ∀ g, busy' g ↔ busy g ∧ (g = f → ¬ single f))
    (hwaits : ∀ g, (g = f → ¬ single f) → waits g → waits' g) :
    Inv (Function.update calls t rest) single busy' waits' := by
  have hnodup := h.nodup t
  rw [ht] at hnodup
  obtain ⟨hout, hrest⟩ := List.nodup_cons.mp hnodup
  have htop : f ∈ calls t := by
    rw [ht]
    exact List.mem_cons_self
  have hmem (g : φ) (u : ι) :
      g ∈ Function.update calls t rest u ↔ g ∈ calls u ∧ (u = t → g ≠ f) := by
    rw [mem_update]
    by_cases hu : u = t
    · subst hu
      rw [ht, List.mem_cons]
      constructor
      · rintro (⟨-, hg⟩ | ⟨hne, -⟩)
        · refine ⟨.inr hg, ?_⟩
          rintro - rfl
          exact hout hg
        · exact absurd rfl hne
      · rintro ⟨rfl | hg, hne⟩
        · exact absurd rfl (hne rfl)
        · exact .inl ⟨rfl, hg⟩
    · simp [hu]
  have hother (g : φ) (u : ι) (hg : g ∈ Function.update calls t rest u) : g = f → ¬ single f := by
    rintro rfl hsingle
    obtain ⟨hin, hne⟩ := (hmem g u).mp hg
    exact hne (h.unique g u t hsingle hin htop) rfl
  refine ⟨fun u => ?_, fun g u v hg hu hv => ?_, fun g u hg => ?_, fun g hg hb => ?_,
    fun u e rest' g hu hg => ?_⟩
  · by_cases hu : u = t
    · subst hu
      rw [Function.update_self]
      exact hrest
    · rw [Function.update_of_ne hu]
      exact h.nodup u
  · exact h.unique g u v hg ((hmem g u).mp hu).1 ((hmem g v).mp hv).1
  · exact (hbusy g).mpr ⟨h.inProgress g u ((hmem g u).mp hg).1, hother g u hg⟩
  · obtain ⟨hb, hne⟩ := (hbusy g).mp hb
    obtain ⟨u, hu⟩ := h.somewhere g hg hb
    refine ⟨u, (hmem g u).mpr ⟨hu, ?_⟩⟩
    rintro - rfl
    exact hne rfl hg
  · have hin : g ∈ Function.update calls t rest u := by
      rw [hu]
      exact List.mem_cons_of_mem e hg
    refine hwaits g (hother g u hin) ?_
    by_cases hut : u = t
    · subst hut
      rw [Function.update_self] at hu
      refine h.suspended u f rest g ht ?_
      rw [hu]
      exact List.mem_cons_of_mem e hg
    · rw [Function.update_of_ne hut] at hu
      exact h.suspended u e rest' g hu hg

/-- The innermost call becomes another, which was not in progress. -/
theorem replace (h : Inv calls single busy waits) (ht : calls t = f :: rest) {f' : φ}
    (hf : ¬ single f) (hnew : ¬ busy f') (hbusy : ∀ g, busy' g ↔ busy g ∨ g = f')
    (hwaits : ∀ g, (g = f' → ¬ single f') → waits g → waits' g) :
    Inv (Function.update calls t (f' :: rest)) single busy' waits' := by
  -- the call returns, and the other one is made in its place
  have hpop : Inv (Function.update calls t rest) single busy waits :=
    h.pop ht (fun g => ⟨fun hg => ⟨hg, fun _ => hf⟩, And.left⟩) fun _ _ => id
  have hrest : Function.update calls t rest t = rest := Function.update_self ..
  have hpush : Inv (Function.update (Function.update calls t rest) t
      (f' :: Function.update calls t rest t)) single busy' waits' := by
    refine hpop.push (fun hin => hnew (hpop.inProgress f' t hin)) (fun _ => hnew) ?_ hbusy hwaits
    intro g hg
    rw [hrest] at hg
    exact h.suspended t f rest g ht hg
  rwa [hrest, Function.update_idem] at hpush

end Inv

end CallStack
