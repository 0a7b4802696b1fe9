/-
# Intrusive doubly linked lists

Nothing here names the library under verification.  The nodes carry their own links:
`next` points to the node behind, `prev` to the place that points to the node, which
is the head of the list or the `next` of another node.  A node can be taken out
without a look at the head.

* `Links` : the head and the links of the nodes;
* `pushFront`, `popFront`, `unlink` : the operations, assignment by assignment;
* `Represents` : the links make up a list;
* `pushFront_represents`, `popFront_represents`, `unlink_represents` : what the
  operations do to it;
* `touchedByPop`, `touchedByPush`, `touchedByUnlink` : the nodes they read or write,
  which are nodes of the list, and the others are left as they are.
-/
import Mathlib.Logic.Function.Basic
import Mathlib.Data.List.Nodup

namespace IntrusiveList

/-- A place that points to a node. -/
inductive Slot (α : Type*)
  | head
  | next (a : α)

/-- The node that a place is in. -/
def Slot.node {α : Type*} : Slot α → Option α
  | .head => none
  | .next a => some a

/-- The head and the links of the nodes. -/
structure Links (α : Type*) where
  head : Option α := none
  next : α → Option α := fun _ => none
  prev : α → Option (Slot α) := fun _ => none

namespace Links

variable {α : Type*}

/-- What a place points to. -/
def get (l : Links α) : Slot α → Option α
  | .head => l.head
  | .next a => l.next a

section Operations

variable [DecidableEq α]

/-- `*slot = target` -/
def set (l : Links α) (target : Option α) : Slot α → Links α
  | .head => { l with head := target }
  | .next a => { l with next := Function.update l.next a target }

/-- `if (target != nullptr) target->prev = slot` -/
def setPrev (l : Links α) (slot : Option (Slot α)) : Option α → Links α
  | none => l
  | some a => { l with prev := Function.update l.prev a slot }

def pushFront (l : Links α) (a : α) : Links α :=
  let l := l.set l.head (.next a)
  let l := l.setPrev (some (.next a)) (l.next a)
  let l := l.setPrev (some .head) (some a)
  l.set (some a) .head

/-- The head is taken out; with it, whether any node is left. -/
def popFront (l : Links α) : Option (α × Bool × Links α) :=
  match l.head with
  | none => none
  | some a =>
    let l := l.set (l.next a) .head
    let anyMore := l.head.isSome
    let l := l.setPrev (some .head) l.head
    some (a, anyMore, l.setPrev none (some a))

def unlink (l : Links α) (a : α) : Links α :=
  match l.prev a with
  | none => l
  | some slot =>
    let l := l.set (l.next a) slot
    l.setPrev (l.prev a) (l.next a)

end Operations

/-! ## The nodes that the operations look at -/

/-- The nodes that `popFront` reads or writes. -/
def touchedByPop (l : Links α) : List α :=
  match l.head with
  | none => []
  | some a => a :: (l.next a).toList

/-- The nodes that `pushFront` reads or writes. -/
def touchedByPush (l : Links α) (a : α) : List α :=
  a :: l.head.toList

/-- The nodes that `unlink` reads or writes. -/
def touchedByUnlink (l : Links α) (a : α) : List α :=
  match l.prev a with
  | none => [a]
  | some slot => a :: (slot.node.toList ++ (l.next a).toList)

/-! ## The list that the links make up -/

/-- From the place `slot` on, the links make up the list. -/
def Chain (l : Links α) : Slot α → List α → Prop
  | slot, [] => l.get slot = none
  | slot, a :: as => l.get slot = some a ∧ l.prev a = some slot ∧ Chain l (.next a) as

/-- The links make up the list, each node once. -/
structure Represents (l : Links α) (as : List α) : Prop where
  chain : l.Chain .head as
  nodup : as.Nodup

theorem represents_nil : ({} : Links α).Represents [] := ⟨rfl, List.nodup_nil⟩

/-- Links that agree where the chain looks make up the same. -/
theorem Chain.congr {l l' : Links α} {slot : Slot α} {as : List α} (h : l.Chain slot as)
    (hslot : l'.get slot = l.get slot) (hnext : ∀ a ∈ as, l'.next a = l.next a)
    (hprev : ∀ a ∈ as, l'.prev a = l.prev a) : l'.Chain slot as := by
  induction as generalizing slot with
  | nil => exact hslot.trans h
  | cons a as ih =>
    obtain ⟨hget, hback, hrest⟩ := h
    refine ⟨hslot.trans hget, (hprev a List.mem_cons_self).trans hback, ?_⟩
    exact ih hrest (hnext a List.mem_cons_self) (fun b hb => hnext b (List.mem_cons_of_mem a hb))
      fun b hb => hprev b (List.mem_cons_of_mem a hb)

/-- A node of the list points back. -/
theorem Chain.prev_ne_none {l : Links α} {slot : Slot α} {as : List α} (h : l.Chain slot as)
    {a : α} (ha : a ∈ as) : l.prev a ≠ none := by
  induction as generalizing slot with
  | nil => simp at ha
  | cons b as ih =>
    obtain ⟨-, hback, hrest⟩ := h
    rcases List.mem_cons.mp ha with rfl | ha
    · rw [hback]
      simp
    · exact ih hrest ha

/-- Where the place that points to a node is. -/
theorem Chain.prev_mem {l : Links α} {slot : Slot α} {as : List α} (h : l.Chain slot as) {a : α}
    (ha : a ∈ as) : ∃ s, l.prev a = some s ∧ (s = slot ∨ ∃ b ∈ as, s = .next b) := by
  induction as generalizing slot with
  | nil => simp at ha
  | cons b as ih =>
    obtain ⟨-, hback, hrest⟩ := h
    rcases List.mem_cons.mp ha with rfl | ha
    · exact ⟨slot, hback, .inl rfl⟩
    · obtain ⟨s, hs, rfl | ⟨c, hc, rfl⟩⟩ := ih hrest ha
      · exact ⟨_, hs, .inr ⟨b, List.mem_cons_self, rfl⟩⟩
      · exact ⟨_, hs, .inr ⟨c, List.mem_cons_of_mem b hc, rfl⟩⟩

/-- What a node of the list points to is in the list. -/
theorem Chain.next_mem {l : Links α} {slot : Slot α} {as : List α} (h : l.Chain slot as) {a b : α}
    (ha : a ∈ as) (hb : l.next a = some b) : b ∈ as := by
  induction as generalizing slot with
  | nil => simp at ha
  | cons c as ih =>
    obtain ⟨-, -, hrest⟩ := h
    rcases List.mem_cons.mp ha with rfl | ha
    · cases as with
      | nil =>
        have hnone : l.next a = none := hrest
        rw [hnone] at hb
        cases hb
      | cons d as =>
        have hsome : l.next a = some d := hrest.1
        rw [hsome] at hb
        cases hb
        exact List.mem_cons_of_mem a List.mem_cons_self
    · exact List.mem_cons_of_mem c (ih hrest ha)

theorem Represents.head_mem {l : Links α} {as : List α} (h : l.Represents as) {a : α}
    (ha : l.head = some a) : a ∈ as := by
  cases as with
  | nil =>
    have hnone : l.head = none := h.chain
    rw [hnone] at ha
    cases ha
  | cons b as =>
    have hsome : l.head = some b := h.chain.1
    rw [hsome] at ha
    cases ha
    exact List.mem_cons_self

/-- What is taken from the list looks at nodes of the list. -/
theorem Represents.touchedByPop {l : Links α} {as : List α} (h : l.Represents as) {a : α}
    (ha : a ∈ l.touchedByPop) : a ∈ as := by
  rw [Links.touchedByPop] at ha
  cases hhead : l.head with
  | none =>
    rw [hhead] at ha
    cases ha
  | some b =>
    rw [hhead] at ha
    have hb := h.head_mem hhead
    rcases List.mem_cons.mp ha with rfl | ha
    · exact hb
    · exact h.chain.next_mem hb (Option.mem_toList.mp ha)

theorem Represents.touchedByPush {l : Links α} {as : List α} (h : l.Represents as) {a b : α}
    (hb : b ∈ l.touchedByPush a) : b = a ∨ b ∈ as :=
  (List.mem_cons.mp hb).imp_right fun hb => h.head_mem (Option.mem_toList.mp hb)

/-- A node that points back is taken out with a look at its neighbours. -/
theorem Represents.touchedByUnlink {l : Links α} {as : List α} (h : l.Represents as) {a b : α}
    (ha : l.prev a ≠ none → a ∈ as) (hb : b ∈ l.touchedByUnlink a) : b = a ∨ b ∈ as := by
  rw [Links.touchedByUnlink] at hb
  cases hprev : l.prev a with
  | none =>
    rw [hprev] at hb
    exact .inl (List.mem_singleton.mp hb)
  | some slot =>
    have hin : a ∈ as := ha (by simp [hprev])
    rw [hprev] at hb
    rcases List.mem_cons.mp hb with hb | hb
    · exact .inl hb
    rcases List.mem_append.mp hb with hb | hb
    · obtain ⟨s, hs, hplace⟩ := h.chain.prev_mem hin
      rw [hprev] at hs
      cases hs
      rcases hplace with rfl | ⟨c, hc, rfl⟩
      · cases hb
      · have hbc : b = c := List.mem_singleton.mp hb
        exact .inr (hbc ▸ hc)
    · exact .inr (h.chain.next_mem hin (Option.mem_toList.mp hb))

/-! ## What the operations do -/

variable [DecidableEq α]

theorem pushFront_next (l : Links α) (a : α) :
    (l.pushFront a).next = Function.update l.next a l.head := by
  rw [pushFront]
  simp only [set, Function.update_self]
  cases l.head <;> rfl

/-- Only the new node and the head it is put before have their `prev` changed. -/
theorem pushFront_prev_of_ne (l : Links α) {a b : α} (hab : b ≠ a) (hhead : l.head ≠ some b) :
    (l.pushFront a).prev b = l.prev b := by
  rw [pushFront]
  simp only [set, Function.update_self]
  cases hl : l.head with
  | none => simp only [setPrev, Function.update_of_ne hab]
  | some c =>
    have hbc : b ≠ c := fun h => hhead (hl.trans (congrArg some h.symm))
    simp only [setPrev, Function.update_of_ne hab, Function.update_of_ne hbc]

theorem pushFront_prev_self (l : Links α) (a : α) : (l.pushFront a).prev a = some .head := by
  rw [pushFront]
  simp only [set, setPrev, Function.update_self]

theorem pushFront_prev_head (l : Links α) {a b : α} (hab : b ≠ a) (hhead : l.head = some b) :
    (l.pushFront a).prev b = some (.next a) := by
  rw [pushFront]
  simp only [set, Function.update_self, hhead, setPrev, Function.update_of_ne hab]

/-- **The new node comes first.** -/
theorem pushFront_represents {l : Links α} {as : List α} (h : l.Represents as) {a : α}
    (ha : a ∉ as) : (l.pushFront a).Represents (a :: as) := by
  refine ⟨⟨rfl, pushFront_prev_self l a, ?_⟩, List.nodup_cons.mpr ⟨ha, h.nodup⟩⟩
  have hne {b : α} (hb : b ∈ as) : b ≠ a := fun heq => ha (heq ▸ hb)
  have hnext (b : α) (hb : b ∈ as) : (l.pushFront a).next b = l.next b := by
    rw [pushFront_next, Function.update_of_ne (hne hb)]
  have hlink : (l.pushFront a).next a = l.head := by rw [pushFront_next, Function.update_self]
  have hchain := h.chain
  cases as with
  | nil => exact hlink.trans hchain
  | cons b as =>
    obtain ⟨hhead, -, hrest⟩ := hchain
    obtain ⟨hb, -⟩ := List.nodup_cons.mp h.nodup
    have hba : b ≠ a := hne List.mem_cons_self
    refine ⟨hlink.trans hhead, pushFront_prev_head l hba hhead, hrest.congr ?_ ?_ ?_⟩
    · exact hnext b List.mem_cons_self
    · exact fun c hc => hnext c (List.mem_cons_of_mem b hc)
    · intro c hc
      refine pushFront_prev_of_ne l (hne (List.mem_cons_of_mem b hc)) ?_
      rw [show l.head = some b from hhead]
      rintro ⟨⟩
      exact hb hc

theorem popFront_nil {l : Links α} (h : l.Represents []) : l.popFront = none := by
  have hhead : l.head = none := h.chain
  rw [popFront, hhead]

/-- **The first node is taken out**, and no longer points back. -/
theorem popFront_represents {l : Links α} {a : α} {as : List α} (h : l.Represents (a :: as)) :
    ∃ l', l.popFront = some (a, !as.isEmpty, l') ∧ l'.Represents as ∧ l'.prev a = none ∧
      ∀ b, b ≠ a → b ∉ as → l'.prev b = l.prev b := by
  obtain ⟨hhead, -, hrest⟩ := h.chain
  obtain ⟨ha, hnodup⟩ := List.nodup_cons.mp h.nodup
  replace hhead : l.head = some a := hhead
  rw [popFront, hhead]
  cases as with
  | nil =>
    have hnext : l.next a = none := hrest
    simp only [set, hnext, setPrev]
    refine ⟨_, rfl, ⟨rfl, List.nodup_nil⟩, Function.update_self .., ?_⟩
    exact fun b hb _ => Function.update_of_ne hb ..
  | cons b as =>
    obtain ⟨hnext, -, htail⟩ := hrest
    obtain ⟨hb, -⟩ := List.nodup_cons.mp hnodup
    replace hnext : l.next a = some b := hnext
    have hne {c : α} (hc : c ∈ b :: as) : c ≠ a := fun heq => ha (heq ▸ hc)
    have hprev {c : α} (hc : c ≠ a) :
        Function.update (Function.update l.prev b (some .head)) a none c =
          Function.update l.prev b (some .head) c :=
      Function.update_of_ne hc ..
    simp only [set, hnext, setPrev]
    refine ⟨_, rfl, ⟨⟨rfl, ?_, htail.congr rfl (fun _ _ => rfl) fun c hc => ?_⟩, hnodup⟩,
      Function.update_self .., fun c hca hc => ?_⟩
    · exact (hprev (hne List.mem_cons_self)).trans (Function.update_self ..)
    · have hcb : c ≠ b := fun heq => hb (heq ▸ hc)
      exact (hprev (hne (List.mem_cons_of_mem b hc))).trans (Function.update_of_ne hcb ..)
    · have hcb : c ≠ b := fun heq => hc (heq ▸ List.mem_cons_self)
      exact (hprev hca).trans (Function.update_of_ne hcb ..)

theorem unlink_eq {l : Links α} {a : α} {slot : Slot α} (h : l.prev a = some slot) :
    l.unlink a = (l.set (l.next a) slot).setPrev (some slot) (l.next a) := by
  have hprev : (l.set (l.next a) slot).prev = l.prev := by cases slot <;> rfl
  have hnext : (l.set (l.next a) slot).next a = l.next a := by
    cases slot with
    | head => rfl
    | next b => by_cases hab : a = b <;> simp [set, hab]
  rw [unlink, h]
  simp only [hprev, hnext, h]

theorem get_setPrev (l : Links α) (slot : Option (Slot α)) (target : Option α) (slot' : Slot α) :
    (l.setPrev slot target).get slot' = l.get slot' := by
  cases target <;> cases slot' <;> rfl

theorem unlink_get_self {l : Links α} {a : α} {slot : Slot α} (h : l.prev a = some slot) :
    (l.unlink a).get slot = l.next a := by
  rw [unlink_eq h, get_setPrev]
  cases slot with
  | head => rfl
  | next b => exact Function.update_self ..

theorem unlink_get_of_ne {l : Links α} {a : α} {slot slot' : Slot α} (h : l.prev a = some slot)
    (hne : slot' ≠ slot) : (l.unlink a).get slot' = l.get slot' := by
  rw [unlink_eq h, get_setPrev]
  cases slot with
  | head =>
    cases slot' with
    | head => exact absurd rfl hne
    | next b => rfl
  | next b =>
    cases slot' with
    | head => rfl
    | next c =>
      have hcb : c ≠ b := by
        rintro rfl
        exact hne rfl
      exact Function.update_of_ne hcb ..

theorem unlink_prev_of_ne {l : Links α} {a b : α} {slot : Slot α} (h : l.prev a = some slot)
    (hne : l.next a ≠ some b) : (l.unlink a).prev b = l.prev b := by
  have hset : (l.set (l.next a) slot).prev = l.prev := by cases slot <;> rfl
  rw [unlink_eq h]
  cases hnext : l.next a with
  | none =>
    rw [hnext] at hset
    exact congrFun hset b
  | some c =>
    rw [hnext] at hset hne
    have hbc : b ≠ c := fun heq => hne (heq ▸ rfl)
    exact (Function.update_of_ne hbc ..).trans (congrFun hset b)

theorem unlink_prev_next {l : Links α} {a b : α} {slot : Slot α} (h : l.prev a = some slot)
    (hb : l.next a = some b) : (l.unlink a).prev b = some slot := by
  rw [unlink_eq h, hb]
  exact Function.update_self ..

/-- From a place that no node of the list is, a node is taken out of the chain. -/
theorem unlink_chain {l : Links α} {slot : Slot α} {as : List α} (h : l.Chain slot as)
    (hnodup : as.Nodup) (hslot : ∀ b ∈ as, slot ≠ .next b) {a : α} (ha : a ∈ as) :
    (l.unlink a).Chain slot (as.erase a) := by
  induction as generalizing slot with
  | nil => simp at ha
  | cons b as ih =>
    obtain ⟨hget, hback, hrest⟩ := h
    obtain ⟨hb, hnodup⟩ := List.nodup_cons.mp hnodup
    by_cases hab : b = a
    · subst hab
      rw [List.erase_cons_head]
      have hfar (c : α) (hc : c ∈ b :: as) : (l.unlink b).next c = l.next c :=
        @unlink_get_of_ne α _ l b _ (.next c) hback (hslot c hc).symm
      cases as with
      | nil => exact (unlink_get_self hback).trans hrest
      | cons c as =>
        obtain ⟨hnext, -, htail⟩ := hrest
        obtain ⟨hc, -⟩ := List.nodup_cons.mp hnodup
        replace hnext : l.next b = some c := hnext
        refine ⟨(unlink_get_self hback).trans hnext, unlink_prev_next hback hnext,
          htail.congr ?_ ?_ ?_⟩
        · exact hfar c (List.mem_cons_of_mem b List.mem_cons_self)
        · exact fun d hd => hfar d (List.mem_cons_of_mem b (List.mem_cons_of_mem c hd))
        · intro d hd
          apply unlink_prev_of_ne hback
          rw [hnext]
          rintro ⟨⟩
          exact hc hd
    · rw [List.erase_cons_tail (by simpa using hab)]
      have ha : a ∈ as := (List.mem_cons.mp ha).resolve_left (Ne.symm hab)
      obtain ⟨s, hs, hplace⟩ := hrest.prev_mem ha
      have hne : slot ≠ s := by
        rcases hplace with rfl | ⟨c, hc, rfl⟩
        · exact hslot b List.mem_cons_self
        · exact hslot c (List.mem_cons_of_mem b hc)
      refine ⟨(unlink_get_of_ne hs hne).trans hget, ?_, ih hrest hnodup ?_ ha⟩
      · rw [unlink_prev_of_ne hs fun hnext => hb (hrest.next_mem ha hnext), hback]
      · rintro c hc ⟨⟩
        exact hb hc

/-- **A node is taken out**, wherever it is. -/
theorem unlink_represents {l : Links α} {as : List α} (h : l.Represents as) {a : α}
    (ha : a ∈ as) : (l.unlink a).Represents (as.erase a) :=
  ⟨unlink_chain h.chain h.nodup (fun _ _ => by simp) ha, h.nodup.erase a⟩

/-! ## What the operations leave alone -/

theorem set_next {l : Links α} {target : Option α} {slot : Slot α} {b : α}
    (hb : slot.node ≠ some b) : (l.set target slot).next b = l.next b := by
  cases slot with
  | head => rfl
  | next a => exact Function.update_of_ne (fun h => hb (congrArg some h.symm)) ..

theorem set_prev (l : Links α) (target : Option α) (slot : Slot α) :
    (l.set target slot).prev = l.prev := by
  cases slot <;> rfl

theorem setPrev_next (l : Links α) (slot : Option (Slot α)) (target : Option α) :
    (l.setPrev slot target).next = l.next := by
  cases target <;> rfl

theorem setPrev_prev {l : Links α} {slot : Option (Slot α)} {target : Option α} {b : α}
    (hb : target ≠ some b) : (l.setPrev slot target).prev b = l.prev b := by
  cases target with
  | none => rfl
  | some a => exact Function.update_of_ne (fun h => hb (congrArg some h.symm)) ..

theorem pushFront_frame {l : Links α} {a b : α} (hb : b ∉ l.touchedByPush a) :
    (l.pushFront a).next b = l.next b ∧ (l.pushFront a).prev b = l.prev b := by
  obtain ⟨hba, hhead⟩ := not_or.mp (mt List.mem_cons.mpr hb)
  refine ⟨?_, pushFront_prev_of_ne l hba fun h => hhead (Option.mem_toList.mpr h)⟩
  rw [pushFront_next, Function.update_of_ne hba]

theorem popFront_frame {l l' : Links α} {a b : α} {anyMore : Bool}
    (h : l.popFront = some (a, anyMore, l')) (hb : b ∉ l.touchedByPop) :
    l'.next b = l.next b ∧ l'.prev b = l.prev b := by
  rw [popFront] at h
  rw [touchedByPop] at hb
  cases hhead : l.head with
  | none => simp [hhead] at h
  | some c =>
    simp only [hhead, Option.some.injEq, Prod.mk.injEq] at h hb
    obtain ⟨-, -, rfl⟩ := h
    obtain ⟨hbc, hnext⟩ := not_or.mp (mt List.mem_cons.mpr hb)
    have hnext : l.next c ≠ some b := fun h => hnext (Option.mem_toList.mpr h)
    constructor
    · rw [setPrev_next, setPrev_next]
      rfl
    · rw [setPrev_prev fun h => hbc (Option.some.inj h).symm]
      exact setPrev_prev hnext

theorem unlink_frame {l : Links α} {a b : α} (hb : b ∉ l.touchedByUnlink a) :
    (l.unlink a).next b = l.next b ∧ (l.unlink a).prev b = l.prev b := by
  cases hprev : l.prev a with
  | none =>
    rw [unlink, hprev]
    exact ⟨rfl, rfl⟩
  | some slot =>
    rw [touchedByUnlink, hprev] at hb
    obtain ⟨-, hb⟩ := not_or.mp (mt List.mem_cons.mpr hb)
    obtain ⟨hslot, hnext⟩ := not_or.mp (mt List.mem_append.mpr hb)
    rw [unlink_eq hprev]
    constructor
    · rw [setPrev_next, set_next fun h => hslot (Option.mem_toList.mpr h)]
    · rw [setPrev_prev fun h => hnext (Option.mem_toList.mpr h), set_prev]

end Links

end IntrusiveList
