/-
# The order and the equality of channels

`channel.h`, `channel_vector.h`, and the uuid of `uuid.h`.  Two channels are compared through their
virtual accessors, so what is said here is said of `vector_channel` and of `channel_rolling`.  The
samples that a channel holds are not compared, and are left out.

`operator==` looks at the uuid alone, `operator<` at the hierarchy, then the name, then the uuid.
A copy keeps the uuid, whatever is done to its name and hierarchy afterwards.

* `Channel.lt_iff` : `operator<` is the lexicographic order of `Channel.key`;
* `Channel.exactlyOne_iff` : when the two comparisons agree on a pair;
* `Identified.preserved` : what keeps them in agreement.
-/
import Mathlib.Data.List.Lex
import Mathlib.Data.Prod.Lex
import Mathlib.Order.Fin.Basic
import Mathlib.Order.RelClasses
import Libsg.TransitionSystem

namespace Channels

open TransitionSystem

/-- `std::string`, whose characters compare as unsigned ones. -/
abbrev StdString := List (Fin 256)

/-- A channel with a uuid of the type `Uuid`, which is ordered as boost orders its uuids. -/
structure Channel (Uuid : Type) where
  uuid : Uuid
  name : StdString := []
  hierarchy : List StdString := []
  deriving DecidableEq, Repr

namespace Channel

variable {Uuid : Type} [LinearOrder Uuid]

/-- `operator==` -/
def eq (self o : Channel Uuid) : Bool :=
  o.uuid = self.uuid

/-- `operator<` -/
def lt (self o : Channel Uuid) : Bool :=
  if self.hierarchy ≠ o.hierarchy then
    self.hierarchy < o.hierarchy
  else if self.name ≠ o.name then
    self.name < o.name
  else
    self.uuid < o.uuid

/-- What `operator<` looks at, in its order. -/
def key (c : Channel Uuid) : List StdString ×ₗ StdString ×ₗ Uuid :=
  toLex (c.hierarchy, toLex (c.name, c.uuid))

variable {a b : Channel Uuid}

omit [LinearOrder Uuid] in
theorem key_inj :
    a.key = b.key ↔ a.hierarchy = b.hierarchy ∧ a.name = b.name ∧ a.uuid = b.uuid := by
  simp only [key, EmbeddingLike.apply_eq_iff_eq, Prod.mk.injEq]

theorem eq_iff : a.eq b = true ↔ a.uuid = b.uuid := by
  rw [eq, decide_eq_true_eq]
  exact eq_comm

/-- **`operator<` is a lexicographic order.** -/
theorem lt_iff : a.lt b = true ↔ a.key < b.key := by
  rw [key, key, Prod.Lex.toLex_lt_toLex, Prod.Lex.toLex_lt_toLex]
  simp only
  rw [lt]
  by_cases hhierarchy : a.hierarchy = b.hierarchy
  · rw [if_neg (not_not.mpr hhierarchy)]
    by_cases hname : a.name = b.name
    · rw [if_neg (not_not.mpr hname)]
      simp [hhierarchy, hname]
    · rw [if_pos hname]
      simp [hhierarchy, hname]
  · rw [if_pos hhierarchy]
    simp [hhierarchy]

theorem isStrictWeakOrder : IsStrictWeakOrder (Channel Uuid) (fun a b => a.lt b = true) := by
  have hkey : (fun a b : Channel Uuid => a.lt b = true) = Function.onFun (· < ·) key :=
    funext fun _ => funext fun _ => propext lt_iff
  have : IsStrictWeakOrder (List StdString ×ₗ StdString ×ₗ Uuid) (· < ·) :=
    isStrictWeakOrder_of_isOrderConnected
  rw [hkey]
  infer_instance

end Channel

/-! ## The order beside the equality -/

section Agreement

variable {Uuid : Type} [LinearOrder Uuid]

/-- One of three holds, and the other two do not. -/
def ExactlyOne (p q r : Prop) : Prop :=
  (p ∧ ¬ q ∧ ¬ r) ∨ (¬ p ∧ q ∧ ¬ r) ∨ (¬ p ∧ ¬ q ∧ r)

/-- What has one uuid has one name and one hierarchy. -/
def SameIdentity (a b : Channel Uuid) : Prop :=
  a.uuid = b.uuid → a.name = b.name ∧ a.hierarchy = b.hierarchy

omit [LinearOrder Uuid] in
theorem SameIdentity.symm {a b : Channel Uuid} (h : SameIdentity a b) : SameIdentity b a := by
  intro huuid
  obtain ⟨hname, hhierarchy⟩ := h huuid.symm
  exact ⟨hname.symm, hhierarchy.symm⟩

namespace Channel

variable {a b : Channel Uuid}

/-- **The comparisons agree on two channels** unless these share a uuid and nothing else. -/
theorem exactlyOne_iff :
    ExactlyOne (a.lt b = true) (a.eq b = true) (b.lt a = true) ↔ SameIdentity a b := by
  rw [lt_iff, eq_iff, lt_iff, ExactlyOne, SameIdentity]
  rcases lt_trichotomy a.key b.key with hlt | heq | hgt
  · have hnot : ¬ (a.uuid = b.uuid ∧ a.name = b.name ∧ a.hierarchy = b.hierarchy) := by
      rintro ⟨huuid, hname, hhierarchy⟩
      exact hlt.ne (key_inj.mpr ⟨hhierarchy, hname, huuid⟩)
    simp only [hlt, hlt.not_gt]
    tauto
  · obtain ⟨hhierarchy, hname, huuid⟩ := key_inj.mp heq
    simp [heq, hhierarchy, hname, huuid]
  · have hnot : ¬ (a.uuid = b.uuid ∧ a.name = b.name ∧ a.hierarchy = b.hierarchy) := by
      rintro ⟨huuid, hname, hhierarchy⟩
      exact hgt.ne' (key_inj.mpr ⟨hhierarchy, hname, huuid⟩)
    simp only [hgt, hgt.not_gt]
    tauto

/-- Where they disagree, equal channels come one before the other. -/
theorem disagree (hnot : ¬ SameIdentity a b) :
    a.eq b = true ∧ (a.lt b = true ∧ b.lt a = false ∨ a.lt b = false ∧ b.lt a = true) := by
  have huuid : a.uuid = b.uuid := by
    by_contra hne
    exact hnot fun huuid => absurd huuid hne
  refine ⟨eq_iff.mpr huuid, ?_⟩
  have hkey : a.key ≠ b.key := by
    intro hkey
    obtain ⟨hhierarchy, hname, -⟩ := key_inj.mp hkey
    exact hnot fun _ => ⟨hname, hhierarchy⟩
  rw [← Bool.not_eq_true, ← Bool.not_eq_true, lt_iff, lt_iff]
  rcases lt_or_gt_of_ne hkey with hlt | hgt
  · exact .inl ⟨hlt, hlt.not_gt⟩
  · exact .inr ⟨hgt.not_gt, hgt⟩

end Channel

end Agreement

/-! ## Channels that are made, copied and changed -/

section Runs

variable {Uuid : Type}

inductive Action (Uuid : Type)
  /-- A constructor, with the uuid that `random_uuid` gives. -/
  | construct (uuid : Uuid) (name : StdString)
  | copy (i : ℕ)
  /-- `channels[i] = channels[j]` -/
  | assign (i j : ℕ)
  | name (i : ℕ) (name : StdString)
  | hierarchy (i : ℕ) (hierarchy : List StdString)

/-- The channels that there are. -/
abbrev State (Uuid : Type) := List (Channel Uuid)

def step (s : State Uuid) : Action Uuid → Option (State Uuid × List Empty)
  | .construct uuid name => some (s ++ [{ uuid, name }], [])
  | .copy i => s[i]?.map fun c => (s ++ [c], [])
  | .assign i j => s[i]?.bind fun _ => s[j]?.map fun d => (s.set i d, [])
  | .name i name => s[i]?.map fun c => (s.set i { c with name }, [])
  | .hierarchy i hierarchy => s[i]?.map fun c => (s.set i { c with hierarchy }, [])

def system (Uuid : Type) : TransitionSystem (State Uuid) (Action Uuid) Empty where
  start := []
  step := step

/-- Channel `i` of `s` is `c`, and shares its uuid with no other one. -/
def Alone (s : State Uuid) (i : ℕ) (c : Channel Uuid) : Prop :=
  s[i]? = some c ∧ ∀ j d, j ≠ i → s[j]? = some d → d.uuid ≠ c.uuid

/-- A uuid that is drawn is new, and a channel with a copy keeps its name and its hierarchy. -/
def KeepsIdentity (s : State Uuid) : Action Uuid → Prop
  | .construct uuid _ => ∀ c ∈ s, c.uuid ≠ uuid
  | .copy _ | .assign _ _ => True
  | .name i name => ∀ c, s[i]? = some c → c.name = name ∨ Alone s i c
  | .hierarchy i hierarchy => ∀ c, s[i]? = some c → c.hierarchy = hierarchy ∨ Alone s i c

/-- Any two channels of `s` have the identity that their uuid says. -/
def Identified (s : State Uuid) : Prop :=
  ∀ a ∈ s, ∀ b ∈ s, SameIdentity a b

namespace Identified

variable {s : State Uuid}

/-- One more channel, against those there are. -/
theorem snoc (h : Identified s) {c : Channel Uuid} (hc : ∀ a ∈ s, SameIdentity a c) :
    Identified (s ++ [c]) := by
  intro a ha b hb
  rw [List.mem_append, List.mem_singleton] at ha hb
  rcases ha with ha | rfl
  · rcases hb with hb | rfl
    · exact h a ha b hb
    · exact hc a ha
  · rcases hb with hb | rfl
    · exact (hc b hb).symm
    · exact fun _ => ⟨rfl, rfl⟩

/-- A channel that is replaced, against the others. -/
theorem set (h : Identified s) {i : ℕ} {c : Channel Uuid}
    (hc : ∀ j a, j ≠ i → s[j]? = some a → SameIdentity a c) : Identified (s.set i c) := by
  have hmem {a : Channel Uuid} (ha : a ∈ s.set i c) :
      a = c ∨ ∃ j, j ≠ i ∧ s[j]? = some a := by
    obtain ⟨j, hj⟩ := List.mem_iff_getElem?.mp ha
    by_cases hji : i = j
    · subst hji
      rw [List.getElem?_set_self'] at hj
      obtain ⟨_, -, hac⟩ := Option.map_eq_some_iff.mp hj
      exact .inl hac.symm
    · rw [List.getElem?_set_ne hji] at hj
      exact .inr ⟨j, Ne.symm hji, hj⟩
  intro a ha b hb
  rcases hmem ha with rfl | ⟨j, hj, haj⟩
  · rcases hmem hb with rfl | ⟨k, hk, hbk⟩
    · exact fun _ => ⟨rfl, rfl⟩
    · exact (hc k b hk hbk).symm
  · rcases hmem hb with rfl | ⟨k, hk, hbk⟩
    · exact hc j a hj haj
    · exact h a (List.mem_of_getElem? haj) b (List.mem_of_getElem? hbk)

/-- A channel that gets what another one has. -/
theorem set_mem (h : Identified s) {i : ℕ} {c : Channel Uuid} (hc : c ∈ s) :
    Identified (s.set i c) :=
  h.set fun _ a _ ha => h a (List.mem_of_getElem? ha) c hc

/-- A channel that is changed on its own. -/
theorem set_alone (h : Identified s) {i : ℕ} {c d : Channel Uuid} (halone : Alone s i c)
    (huuid : d.uuid = c.uuid) : Identified (s.set i d) := by
  refine h.set fun j a hj ha hsame => ?_
  rw [huuid] at hsame
  exact absurd hsame (halone.2 j a hj ha)

/-- **What keeps the comparisons in agreement.** -/
theorem preserved {s' : State Uuid} {action : Action Uuid} {es : List Empty}
    (hC : KeepsIdentity s action) (hst : (system Uuid).step s action = some (s', es))
    (h : Identified s) : Identified s' := by
  cases action with
  | construct uuid name =>
    cases hst
    exact h.snoc fun a ha hsame => absurd hsame (hC a ha)
  | copy i =>
    obtain ⟨c, hi, heq⟩ := Option.map_eq_some_iff.mp hst
    cases heq
    exact h.snoc fun a ha => h a ha c (List.mem_of_getElem? hi)
  | assign i j =>
    obtain ⟨-, -, hrest⟩ := Option.bind_eq_some_iff.mp hst
    obtain ⟨d, hj, heq⟩ := Option.map_eq_some_iff.mp hrest
    cases heq
    exact h.set_mem (List.mem_of_getElem? hj)
  | name i name =>
    obtain ⟨c, hi, heq⟩ := Option.map_eq_some_iff.mp hst
    cases heq
    rcases hC c hi with rfl | halone
    · exact h.set_mem (List.mem_of_getElem? hi)
    · exact h.set_alone halone rfl
  | hierarchy i hierarchy =>
    obtain ⟨c, hi, heq⟩ := Option.map_eq_some_iff.mp hst
    cases heq
    rcases hC c hi with rfl | halone
    · exact h.set_mem (List.mem_of_getElem? hi)
    · exact h.set_alone halone rfl

end Identified

/-- In a run that keeps identities, any two channels have one uuid only if they have one name and
one hierarchy. -/
theorem Run.identified {tr : List Empty} {s : State Uuid}
    (h : (system Uuid).Run KeepsIdentity tr s) : Identified s := by
  refine Run.invariant (I := fun _ s => Identified s) ?_ ?_ h
  · intro a ha
    cases ha
  · intro tr s a s' es _ hC hst hs
    exact hs.preserved hC hst

end Runs

/-- **How the order and the equality of channels fit together.**  `operator<` is a strict weak
order.  Exactly one of `a < b`, `a == b` and `b < a` holds unless the two share a uuid and differ
in name or hierarchy, and then they are equal and one comes before the other.  No such channels come
about as long as copies keep their name and their hierarchy. -/
theorem order_and_equality {Uuid : Type} [LinearOrder Uuid] :
    IsStrictWeakOrder (Channel Uuid) (fun a b => a.lt b = true) ∧
    (∀ a b : Channel Uuid,
      (ExactlyOne (a.lt b = true) (a.eq b = true) (b.lt a = true) ↔
        (a.uuid = b.uuid → a.name = b.name ∧ a.hierarchy = b.hierarchy)) ∧
      (¬ (a.uuid = b.uuid → a.name = b.name ∧ a.hierarchy = b.hierarchy) →
        a.eq b = true ∧ (a.lt b = true ∧ b.lt a = false ∨ a.lt b = false ∧ b.lt a = true))) ∧
    ∀ tr s, (system Uuid).Run KeepsIdentity tr s → ∀ a ∈ s, ∀ b ∈ s,
      ExactlyOne (a.lt b = true) (a.eq b = true) (b.lt a = true) := by
  refine ⟨Channel.isStrictWeakOrder, fun a b => ⟨Channel.exactlyOne_iff, Channel.disagree⟩, ?_⟩
  intro tr s hrun a ha b hb
  exact Channel.exactlyOne_iff.mpr (Run.identified hrun a ha b hb)

/-- A channel is copied, and its copy renamed: the two are equal, and one comes before the other. -/
theorem renamed_copy_before_its_original :
    ∃ tr s, (system ℕ).Reachable tr s ∧ ∃ a ∈ s, ∃ b ∈ s,
      ¬ ExactlyOne (a.lt b = true) (a.eq b = true) (b.lt a = true) := by
  have hrun := reachable_exec (M := system ℕ)
    (l := [.construct 0 [98], .copy 0, .name 1 [97]]) (by decide)
  refine ⟨_, _, hrun, ⟨0, [97], []⟩, by decide, ⟨0, [98], []⟩, by decide, ?_⟩
  rw [ExactlyOne]
  decide

end Channels
