/-
# Executable transition systems, their runs and their invariants

Nothing here names the library under verification.  A system has one start state
and a partial step function: an action either is not enabled, or leads to one
state and shows a list of events.  Nondeterminism sits in the choice of the
action, so a run is a list of actions and can be evaluated.

* `Run C tr s` : a run from the start state, every step of which meets `C`,
  showing the events `tr` and ending in `s`;
* `Run.invariant` : the induction rule, used for every safety result;
* `Run.split` : the state a run was in when it had shown a given prefix;
* `Run.of_prefix` : what a run has shown at first, a run has shown;
* `RunFrom.attains` : the state in which a counter had a given value;
* `Projects` : one component of a larger system only makes steps of its own
  system, so that what is proved of the component holds inside the larger one;
* `Lockstep` : two systems that take the same actions and show the same events;
* `recorded`, `observed` : a system beside an observer who notes what it does;
* `exec` : runs that compute.
-/
import Mathlib.Logic.Function.Basic
import Mathlib.Data.List.Basic

/-- A start state and a partial step function that shows events. -/
structure TransitionSystem (σ α ε : Type*) where
  start : σ
  step : σ → α → Option (σ × List ε)

namespace TransitionSystem

variable {σ α ε : Type*} {M : TransitionSystem σ α ε}

/-! ## Runs -/

/-- A run from `s` all of whose steps meet the condition `C`. -/
inductive RunFrom (M : TransitionSystem σ α ε) (C : σ → α → Prop) (s : σ) : List ε → σ → Prop
  | nil : RunFrom M C s [] s
  | snoc {tr es : List ε} {t u : σ} {a : α} : RunFrom M C s tr t → C t a →
      M.step t a = some (u, es) → RunFrom M C s (tr ++ es) u

/-- A run from the start state all of whose steps meet the condition `C`. -/
def Run (M : TransitionSystem σ α ε) (C : σ → α → Prop) (tr : List ε) (s : σ) : Prop :=
  M.RunFrom C M.start tr s

/-- The condition every step meets. -/
def anyStep (_ : σ) (_ : α) : Prop := True

instance (s : σ) (a : α) : Decidable (anyStep s a) := .isTrue trivial

/-- A run with no condition on its steps. -/
def Reachable (M : TransitionSystem σ α ε) (tr : List ε) (s : σ) : Prop :=
  M.Run anyStep tr s

theorem RunFrom.single {C : σ → α → Prop} {s t : σ} {es : List ε} {a : α} (hC : C s a)
    (h : M.step s a = some (t, es)) : M.RunFrom C s es t := by
  simpa using RunFrom.snoc (RunFrom.nil (M := M)) hC h

/-- Runs compose. -/
theorem RunFrom.append {C : σ → α → Prop} {s t u : σ} {tr₁ tr₂ : List ε}
    (h₁ : M.RunFrom C s tr₁ t) (h₂ : M.RunFrom C t tr₂ u) : M.RunFrom C s (tr₁ ++ tr₂) u := by
  induction h₂ with
  | nil => simpa using h₁
  | snoc _ hC hstep ih =>
    rw [← List.append_assoc]
    exact ih.snoc hC hstep

/-- A weaker condition admits more runs. -/
theorem RunFrom.mono {C D : σ → α → Prop} (hCD : ∀ s a, C s a → D s a) {s t : σ} {tr : List ε}
    (h : M.RunFrom C s tr t) : M.RunFrom D s tr t := by
  induction h with
  | nil => exact .nil
  | snoc _ hC hstep ih => exact ih.snoc (hCD _ _ hC) hstep

theorem Run.reachable {C : σ → α → Prop} {tr : List ε} {s : σ} (h : M.Run C tr s) :
    M.Reachable tr s :=
  h.mono fun _ _ _ => trivial

/-- A run goes on with a run from the state it has reached. -/
theorem Run.append {C : σ → α → Prop} {tr₁ tr₂ : List ε} {s t : σ} (h₁ : M.Run C tr₁ s)
    (h₂ : M.RunFrom C s tr₂ t) : M.Run C (tr₁ ++ tr₂) t :=
  RunFrom.append h₁ h₂

/-! ## Invariants -/

/-- **The invariant rule.**  What holds at the start and is preserved by every step a run
can make holds at the end of the run; the step may use that the run so far is one. -/
theorem Run.invariant {C : σ → α → Prop} {I : List ε → σ → Prop} (hstart : I [] M.start)
    (hstep : ∀ tr s a s' es, M.Run C tr s → C s a → M.step s a = some (s', es) → I tr s →
      I (tr ++ es) s')
    {tr : List ε} {s : σ} (h : M.Run C tr s) : I tr s := by
  induction h with
  | nil => exact hstart
  | snoc hrun hC hst ih => exact hstep _ _ _ _ _ hrun hC hst ih

/-- A condition that the steps of a run meet for what holds where they are made. -/
theorem Run.meets {C D : σ → α → Prop} (hD : ∀ tr s a, M.Run C tr s → C s a → D s a)
    {tr : List ε} {s : σ} (h : M.Run C tr s) : M.Run D tr s := by
  refine Run.invariant (I := fun tr s => M.Run D tr s) .nil ?_ h
  intro tr s a s' es hrun hC hst ih
  exact RunFrom.snoc ih (hD tr s a hrun hC) hst

/-- The invariant rule for the part of a run after a given state. -/
theorem RunFrom.invariant {C : σ → α → Prop} {I : List ε → σ → Prop} {s t : σ} {tr : List ε}
    (h : M.RunFrom C s tr t) (hs : I [] s)
    (hstep : ∀ tr t a u es, M.RunFrom C s tr t → C t a → M.step t a = some (u, es) → I tr t →
      I (tr ++ es) u) : I tr t := by
  induction h with
  | nil => exact hs
  | snoc hrun hC hst ih => exact hstep _ _ _ _ _ hrun hC hst ih

/-! ## The moment an event is shown -/

/-- A run that shows `e` after the events `tr₁` made a step that shows it, from a state reached
by a run whose events are an initial part of `tr₁`. -/
theorem Run.split {C : σ → α → Prop} {tr : List ε} {s : σ} (h : M.Run C tr s)
    {tr₁ tr₂ : List ε} {e : ε} (he : tr = tr₁ ++ e :: tr₂) :
    ∃ tr₀ t a t' es es₁ es₂, M.Run C tr₀ t ∧ C t a ∧ M.step t a = some (t', es) ∧
      es = es₁ ++ e :: es₂ ∧ tr₁ = tr₀ ++ es₁ := by
  induction h generalizing tr₂ with
  | nil => simp at he
  | @snoc tr es t u a hrun hC hst ih =>
    rcases List.append_eq_append_iff.mp he with ⟨as, has, hes⟩ | ⟨as, has, hes⟩
    · -- the event belongs to the last step
      exact ⟨tr, t, a, u, es, as, tr₂, hrun, hC, hst, hes, has⟩
    · cases as with
      | nil =>
        refine ⟨tr, t, a, u, es, [], tr₂, hrun, hC, hst, ?_, ?_⟩
        · simpa using hes.symm
        · simpa using has.symm
      | cons x xs =>
        simp only [List.cons_append, List.cons.injEq] at hes
        obtain ⟨rfl, -⟩ := hes
        exact ih has

/-- Where a step shows one event at most, what a run has shown at first is what a run has shown. -/
theorem Run.of_prefix {C : σ → α → Prop} {tr tr₀ : List ε} {s : σ}
    (hsingle : ∀ tr s a s' es, M.Run C tr s → M.step s a = some (s', es) → es.length ≤ 1)
    (h : M.Run C tr s) (hstart : tr₀ <+: tr) : ∃ s₀, M.Run C tr₀ s₀ := by
  induction h with
  | nil =>
    rw [List.prefix_nil.mp hstart]
    exact ⟨_, .nil⟩
  | @snoc tr es t u a hrun hC hst ih =>
    rcases List.prefix_or_prefix_of_prefix hstart (List.prefix_append tr es) with hbefore | hafter
    · exact ih hbefore
    · obtain ⟨q, rfl⟩ := hafter
      have hq : q <+: es := (List.prefix_append_right_inj tr).mp hstart
      have hlength := hsingle tr t a u es hrun hst
      rcases q with - | ⟨e, q⟩
      · rw [List.append_nil]
        exact ⟨t, hrun⟩
      · have hsame : e :: q = es := by
          refine hq.eq_of_length_le ?_
          rw [List.length_cons]
          omega
        rw [hsame]
        exact ⟨u, hrun.snoc hC hst⟩

/-! ## The moment a value is reached -/

/-- What rises by one at most in a step takes every value between those at the ends of a run. -/
theorem RunFrom.attains {C : σ → α → Prop} {s t : σ} {tr : List ε} (h : M.RunFrom C s tr t)
    {f : σ → ℕ} (hstep : ∀ t a u es, M.step t a = some (u, es) → f u ≤ f t + 1) {m : ℕ}
    (hs : f s ≤ m) (ht : m ≤ f t) :
    ∃ tr₁ u tr₂, tr = tr₁ ++ tr₂ ∧ M.RunFrom C s tr₁ u ∧ M.RunFrom C u tr₂ t ∧ f u = m := by
  induction h with
  | nil => exact ⟨[], s, [], rfl, .nil, .nil, Nat.le_antisymm hs ht⟩
  | @snoc tr es t u a hrun hC hst ih =>
    by_cases hbefore : m ≤ f t
    · obtain ⟨tr₁, v, tr₂, rfl, hrun₁, hrun₂, hv⟩ := ih hbefore
      exact ⟨tr₁, v, tr₂ ++ es, List.append_assoc .., hrun₁, hrun₂.snoc hC hst, hv⟩
    · have hrise := hstep t a u es hst
      refine ⟨tr ++ es, u, [], (List.append_nil _).symm, hrun.snoc hC hst, .nil, ?_⟩
      omega

/-! ## Components -/

section Projects

variable {σ' α' ε' : Type*} {N : TransitionSystem σ' α' ε'}

/-- `π` reads a component out of the states of `M`, and `f` its events.  `M` acts on the
component only by steps of `N` that meet `D`, or leaves it alone. -/
structure Projects (M : TransitionSystem σ α ε) (C : σ → α → Prop)
    (N : TransitionSystem σ' α' ε') (D : σ' → α' → Prop) (π : σ → σ') (f : List ε → List ε') :
    Prop where
  start : π M.start = N.start
  nil : f [] = []
  append : ∀ tr₁ tr₂, f (tr₁ ++ tr₂) = f tr₁ ++ f tr₂
  step : ∀ tr s a s' es, M.Run C tr s → C s a → M.step s a = some (s', es) →
    (π s' = π s ∧ f es = []) ∨ ∃ b, D (π s) b ∧ N.step (π s) b = some (π s', f es)

/-- **Runs of a system are runs of its components.** -/
theorem Run.project {C : σ → α → Prop} {D : σ' → α' → Prop} {π : σ → σ'}
    {f : List ε → List ε'} (hp : Projects M C N D π f) {tr : List ε} {s : σ}
    (h : M.Run C tr s) : N.Run D (f tr) (π s) := by
  refine Run.invariant (I := fun tr s => N.Run D (f tr) (π s)) ?_ ?_ h
  · show N.RunFrom D N.start (f []) (π M.start)
    rw [hp.nil, hp.start]
    exact .nil
  · intro tr s a s' es hrun hC hst ih
    rw [hp.append]
    rcases hp.step tr s a s' es hrun hC hst with ⟨hs, hes⟩ | ⟨b, hD, hb⟩
    · rw [hs, hes, List.append_nil]
      exact ih
    · exact RunFrom.snoc ih hD hb

end Projects

/-! ## Systems that go together -/

section Lockstep

variable {σ' : Type*} {N : TransitionSystem σ' α ε}

/-- Both steps are refused, or both are made and show the same. -/
inductive Matches (rel : σ → σ' → Prop) : Option (σ × List ε) → Option (σ' × List ε) → Prop
  | refused : Matches rel none none
  | made {s : σ} {t : σ'} {es : List ε} (h : rel s t) : Matches rel (some (s, es)) (some (t, es))

theorem Matches.isSome {rel : σ → σ' → Prop} {r : Option (σ × List ε)} {r' : Option (σ' × List ε)}
    (h : Matches rel r r') : r.isSome = r'.isSome := by
  cases h <;> rfl

/-- The two systems go on together wherever `N` can be. -/
structure Lockstep (M : TransitionSystem σ α ε) (N : TransitionSystem σ' α ε)
    (rel : σ → σ' → Prop) : Prop where
  start : rel M.start N.start
  step : ∀ tr s t a, N.Reachable tr t → rel s t → Matches rel (M.step s a) (N.step t a)

/-- **A run of one system is a run of the other.** -/
theorem Run.lockstep {rel : σ → σ' → Prop} (hl : Lockstep M N rel) {tr : List ε} {s : σ}
    (h : M.Reachable tr s) : ∃ t, N.Reachable tr t ∧ rel s t := by
  refine Run.invariant (I := fun tr s => ∃ t, N.Reachable tr t ∧ rel s t)
    ⟨N.start, .nil, hl.start⟩ ?_ h
  rintro tr s a s' es - - hst ⟨t, ht, hrel⟩
  have hm := hl.step tr s t a ht hrel
  rw [hst] at hm
  cases hN : N.step t a with
  | none =>
    rw [hN] at hm
    cases hm
  | some r =>
    rw [hN] at hm
    cases hm with
    | made hrel' => exact ⟨_, RunFrom.snoc ht trivial hN, hrel'⟩

end Lockstep

/-! ## Observers -/

section Observed

variable {γ : Type*}

/-- `M` beside an observer, who notes every action together with the state it is made in and the
events it shows. -/
def recorded (M : TransitionSystem σ α ε) (blank : γ) (note : γ → σ → α → List ε → γ) :
    TransitionSystem (σ × γ) α ε where
  start := (M.start, blank)
  step p a := (M.step p.1 a).map fun r => ((r.1, note p.2 p.1 a r.2), r.2)

theorem recorded_step {blank : γ} {note : γ → σ → α → List ε → γ} {p p' : σ × γ} {a : α}
    {es : List ε} :
    (M.recorded blank note).step p a = some (p', es) ↔
      M.step p.1 a = some (p'.1, es) ∧ p'.2 = note p.2 p.1 a es := by
  constructor
  · intro h
    obtain ⟨r, hr, heq⟩ := Option.map_eq_some_iff.mp h
    cases heq
    exact ⟨hr, rfl⟩
  · rintro ⟨hr, hnote⟩
    refine Option.map_eq_some_iff.mpr ⟨_, hr, ?_⟩
    rw [← hnote]

/-- What is recorded is a run. -/
theorem Run.unrecorded {blank : γ} {note : γ → σ → α → List ε → γ} {C : σ → α → Prop}
    {tr : List ε} {p : σ × γ} (h : (M.recorded blank note).Run (fun p a => C p.1 a) tr p) :
    M.Run C tr p.1 := by
  refine Run.project (π := Prod.fst) (f := id) ?_ h
  refine ⟨rfl, rfl, fun _ _ => rfl, fun tr p a p' es _ hC hst => .inr ⟨a, hC, ?_⟩⟩
  exact (recorded_step.mp hst).1

/-- `M` beside an observer, who notes every action together with the state it is made in. -/
def observed (M : TransitionSystem σ α ε) (blank : γ) (note : γ → σ → α → γ) :
    TransitionSystem (σ × γ) α ε :=
  M.recorded blank fun g s a _ => note g s a

variable {blank : γ} {note : γ → σ → α → γ}

theorem observed_step {p p' : σ × γ} {a : α} {es : List ε} :
    (M.observed blank note).step p a = some (p', es) ↔
      M.step p.1 a = some (p'.1, es) ∧ p'.2 = note p.2 p.1 a :=
  recorded_step

/-- What is observed is a run. -/
theorem Run.unobserved {C : σ → α → Prop} {tr : List ε} {p : σ × γ}
    (h : (M.observed blank note).Run (fun p a => C p.1 a) tr p) : M.Run C tr p.1 :=
  Run.unrecorded h

/-- Every run can be observed. -/
theorem Run.observed {C : σ → α → Prop} {tr : List ε} {s : σ} (h : M.Run C tr s) :
    ∃ g, (M.observed blank note).Run (fun p a => C p.1 a) tr (s, g) := by
  refine Run.invariant (I := fun tr s => ∃ g,
    (M.observed blank note).Run (fun p a => C p.1 a) tr (s, g)) ⟨blank, .nil⟩ ?_ h
  rintro tr s a s' es - hC hst ⟨g, hg⟩
  exact ⟨note g s a, RunFrom.snoc hg hC (observed_step.mpr ⟨hst, rfl⟩)⟩

end Observed

/-! ## Runs that compute -/

/-- Carry out a list of actions from `s`; `none` when one of them is not enabled. -/
def execFrom (M : TransitionSystem σ α ε) : σ → List α → Option (σ × List ε)
  | s, [] => some (s, [])
  | s, a :: as =>
    match M.step s a with
    | none => none
    | some (t, es) => (M.execFrom t as).map fun r => (r.1, es ++ r.2)

/-- Carry out a list of actions from the start state. -/
def exec (M : TransitionSystem σ α ε) (as : List α) : Option (σ × List ε) :=
  M.execFrom M.start as

/-- Every step `execFrom` makes meets `C`. -/
def execMeets (M : TransitionSystem σ α ε) (C : σ → α → Prop) [∀ s a, Decidable (C s a)] :
    σ → List α → Bool
  | _, [] => true
  | s, a :: as =>
    decide (C s a) && match M.step s a with
      | none => true
      | some (t, _) => M.execMeets C t as

theorem runFrom_of_execFrom {C : σ → α → Prop} [∀ s a, Decidable (C s a)] {as : List α} {s t : σ}
    {tr : List ε} (hm : M.execMeets C s as = true) (h : M.execFrom s as = some (t, tr)) :
    M.RunFrom C s tr t := by
  induction as generalizing s tr with
  | nil =>
    simp only [execFrom, Option.some.injEq, Prod.mk.injEq] at h
    obtain ⟨rfl, rfl⟩ := h
    exact .nil
  | cons a as ih =>
    simp only [execFrom] at h
    simp only [execMeets, Bool.and_eq_true, decide_eq_true_eq] at hm
    cases hst : M.step s a with
    | none => simp [hst] at h
    | some r =>
      obtain ⟨u, es⟩ := r
      simp only [hst, Option.map_eq_some_iff, Prod.mk.injEq, Prod.exists] at h hm
      obtain ⟨t', tr', hrest, rfl, rfl⟩ := h
      exact (RunFrom.single hm.1 hst).append (ih hm.2 hrest)

/-- **A computed run is a run**, where `hm` says that all its steps meet the condition and `h`
that they are enabled. -/
theorem run_exec {C : σ → α → Prop} [∀ s a, Decidable (C s a)] {l : List α}
    (hm : M.execMeets C M.start l = true) (h : (M.exec l).isSome = true) :
    M.Run C ((M.exec l).get h).2 ((M.exec l).get h).1 :=
  runFrom_of_execFrom hm (Option.some_get h).symm

/-- The computed run `as`, known by its events. -/
theorem exists_run_exec {C : σ → α → Prop} [∀ s a, Decidable (C s a)] {as : List α} {tr : List ε}
    (hm : M.execMeets C M.start as = true) (h : (M.exec as).map Prod.snd = some tr) :
    ∃ s, M.Run C tr s := by
  obtain ⟨⟨s, tr'⟩, hexec, rfl⟩ := Option.map_eq_some_iff.mp h
  exact ⟨s, runFrom_of_execFrom hm hexec⟩

theorem execMeets_anyStep (as : List α) : ∀ s : σ, M.execMeets anyStep s as = true := by
  induction as with
  | nil => intro s; rfl
  | cons a as ih =>
    intro s
    rw [execMeets, decide_eq_true (show anyStep s a from trivial), Bool.true_and]
    split
    · rfl
    · exact ih _

/-- The computed run `l`, where `h` says that all its actions are enabled. -/
theorem reachable_exec {l : List α} (h : (M.exec l).isSome = true) :
    M.Reachable ((M.exec l).get h).2 ((M.exec l).get h).1 :=
  run_exec (execMeets_anyStep l M.start) h

end TransitionSystem
