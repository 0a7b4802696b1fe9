/-
# Enumerators and their values

`enumeration.h` and `internal/enumeration.h`.  `populate_enum_value_map` fills a `std::map`, from
which a `boost::bimap` is generated that is read from both sides.  `enum_to_val` and `enum_from_val`
have a static bimap each, which the first call initialises; an initialisation that throws is tried
again by the next call.

The bimap is a parameter.  `Bimap.Lawful` is what is relied on: a pair is inserted if neither side
is there, and either side finds the other.
-/
import Mathlib.Order.Lattice
import Mathlib.Order.Nat
import Mathlib.Data.List.Nodup
import Mathlib.Tactic.Common

namespace Enumeration

inductive Fault
  | logicError (message : String)
  | outOfRange
  deriving DecidableEq, Repr

/-! ## The containers -/

/-- `std::map`, in the order of its keys. -/
structure StdMap (α β : Type) [LinearOrder α] where
  entries : List (α × β)
  sorted : (entries.map Prod.fst).Pairwise (· < ·)

/-- `boost::bimap<α, β>` with what is used of it: `insert`, `left.find` and `right.find`. -/
structure Bimap (α β : Type) where
  Carrier : Type
  empty : Carrier
  insert : α → β → Carrier → Carrier
  left : Carrier → α → Option β
  right : Carrier → β → Option α

namespace Bimap

variable {α β : Type}

/-- A pair is inserted if neither side is there, and either side finds the other. -/
structure Lawful (M : Bimap α β) : Prop where
  left_empty : ∀ a, M.left M.empty a = none
  right_empty : ∀ b, M.right M.empty b = none
  insert_present : ∀ m a b, M.left m a ≠ none ∨ M.right m b ≠ none → M.insert a b m = m
  left_insert : ∀ m a b, M.left m a = none → M.right m b = none →
    M.left (M.insert a b m) a = some b ∧ ∀ c ≠ a, M.left (M.insert a b m) c = M.left m c
  right_insert : ∀ m a b, M.left m a = none → M.right m b = none →
    M.right (M.insert a b m) b = some a ∧ ∀ c ≠ b, M.right (M.insert a b m) c = M.right m c

variable (M : Bimap α β)

/-- `left.at` -/
def leftAt (bimap : M.Carrier) (a : α) : Except Fault β :=
  match M.left bimap a with
  | some b => .ok b
  | none => .error .outOfRange

/-- `right.at` -/
def rightAt (bimap : M.Carrier) (b : β) : Except Fault α :=
  match M.right bimap b with
  | some a => .ok a
  | none => .error .outOfRange

end Bimap

/-! ## `generate_enum_val_bimap` -/

section Functions

variable {TEnum TValue : Type} [LinearOrder TEnum] (M : Bimap TEnum TValue) (typeName : String)

def duplicate : Fault := .logicError ("duplicate enum value specified for " ++ typeName)

/-- The loop over the entries of the map. -/
def insertAll : List (TEnum × TValue) → M.Carrier → Except Fault M.Carrier
  | [], bimap => .ok bimap
  | (en, val) :: rest, bimap =>
    if (M.right bimap val).isSome then .error (duplicate typeName)
    else insertAll rest (M.insert en val bimap)

def generateEnumValBimap (map : StdMap TEnum TValue) : Except Fault M.Carrier :=
  insertAll M typeName map.entries M.empty

/-! ## `enum_to_val` and `enum_from_val` -/

/-- The static variables, before and after their initialisation. -/
structure Statics where
  toVal : Option M.Carrier := none
  fromVal : Option M.Carrier := none

variable {M}

def enumToVal (map : StdMap TEnum TValue) (en : TEnum) (s : Statics M) :
    Except Fault TValue × Statics M :=
  match s.toVal with
  | some bimap => (M.leftAt bimap en, s)
  | none =>
    match generateEnumValBimap M typeName map with
    | .ok bimap => (M.leftAt bimap en, { s with toVal := some bimap })
    | .error fault => (.error fault, s)

def enumFromVal (map : StdMap TEnum TValue) (val : TValue) (s : Statics M) :
    Except Fault TEnum × Statics M :=
  match s.fromVal with
  | some bimap => (M.rightAt bimap val, s)
  | none =>
    match generateEnumValBimap M typeName map with
    | .ok bimap => (M.rightAt bimap val, { s with fromVal := some bimap })
    | .error fault => (.error fault, s)

end Functions

inductive Call (TEnum TValue : Type)
  | toVal (en : TEnum)
  | fromVal (val : TValue)

/-- The static variables after some calls. -/
def runCalls {TEnum TValue : Type} [LinearOrder TEnum] {M : Bimap TEnum TValue} (typeName : String)
    (map : StdMap TEnum TValue) : List (Call TEnum TValue) → Statics M → Statics M
  | [], s => s
  | .toVal en :: calls, s => runCalls typeName map calls (enumToVal typeName map en s).2
  | .fromVal val :: calls, s => runCalls typeName map calls (enumFromVal typeName map val s).2

/-! ## The bimap that is generated -/

section Generate

variable {TEnum TValue : Type} {M : Bimap TEnum TValue}

/-- Either side of the bimap finds what the pairs say, and nothing else. -/
structure Represents (M : Bimap TEnum TValue) (bimap : M.Carrier) (pairs : List (TEnum × TValue)) :
    Prop where
  left : ∀ en val, M.left bimap en = some val ↔ (en, val) ∈ pairs
  right : ∀ en val, M.right bimap val = some en ↔ (en, val) ∈ pairs

theorem Represents.empty (hM : M.Lawful) : Represents M M.empty [] where
  left en val := by
    rw [hM.left_empty]
    exact ⟨nofun, nofun⟩
  right en val := by
    rw [hM.right_empty]
    exact ⟨nofun, nofun⟩

/-- No two enumerators have one value. -/
theorem Represents.unique {bimap : M.Carrier} {pairs : List (TEnum × TValue)}
    (h : Represents M bimap pairs) {e₁ e₂ : TEnum} {val : TValue} (h₁ : (e₁, val) ∈ pairs)
    (h₂ : (e₂, val) ∈ pairs) : e₁ = e₂ :=
  Option.some.inj (((h.right e₁ val).mpr h₁).symm.trans ((h.right e₂ val).mpr h₂))

theorem Represents.left_eq_none {bimap : M.Carrier} {pairs : List (TEnum × TValue)}
    (h : Represents M bimap pairs) {en : TEnum} :
    M.left bimap en = none ↔ en ∉ pairs.map Prod.fst := by
  rw [Option.eq_none_iff_forall_ne_some]
  constructor
  · intro hnone hmem
    obtain ⟨⟨e, val⟩, hpair, rfl⟩ := List.mem_map.mp hmem
    exact hnone val ((h.left e val).mpr hpair)
  · intro hnot val hval
    exact hnot (List.mem_map.mpr ⟨(en, val), (h.left en val).mp hval, rfl⟩)

/-- A pair whose sides are both new is added. -/
theorem Represents.insert (hM : M.Lawful) {bimap : M.Carrier} {pairs : List (TEnum × TValue)}
    (h : Represents M bimap pairs) {en : TEnum} {val : TValue} (hen : en ∉ pairs.map Prod.fst)
    (hval : M.right bimap val = none) :
    Represents M (M.insert en val bimap) (pairs ++ [(en, val)]) := by
  have hleft := h.left_eq_none.mpr hen
  obtain ⟨hl, hlothers⟩ := hM.left_insert bimap en val hleft hval
  obtain ⟨hr, hrothers⟩ := hM.right_insert bimap en val hleft hval
  constructor
  · intro e v
    rw [List.mem_append, List.mem_singleton, Prod.mk.injEq]
    by_cases he : e = en
    · subst he
      rw [hl, Option.some.injEq, ← h.left, hleft]
      constructor
      · rintro rfl
        exact .inr ⟨rfl, rfl⟩
      · rintro (hv | ⟨-, rfl⟩)
        · cases hv
        · rfl
    · rw [hlothers e he, h.left]
      exact (or_iff_left fun hand => he hand.1).symm
  · intro e v
    rw [List.mem_append, List.mem_singleton, Prod.mk.injEq]
    by_cases hv : v = val
    · subst hv
      rw [hr, Option.some.injEq, ← h.right, hval]
      constructor
      · rintro rfl
        exact .inr ⟨rfl, rfl⟩
      · rintro (he | ⟨rfl, -⟩)
        · cases he
        · rfl
    · rw [hrothers v hv, h.right]
      exact (or_iff_left fun hand => hv hand.2).symm

/-- Two enumerators share a value. -/
def Shared (pairs : List (TEnum × TValue)) : Prop :=
  ∃ e₁ e₂ val, e₁ ≠ e₂ ∧ (e₁, val) ∈ pairs ∧ (e₂, val) ∈ pairs

/-- **The loop**, from a bimap of the entries it has passed. -/
theorem insertAll_spec (hM : M.Lawful) (typeName : String) (rest passed : List (TEnum × TValue))
    {bimap : M.Carrier} (h : Represents M bimap passed)
    (hkeys : ((passed ++ rest).map Prod.fst).Nodup) :
    match insertAll M typeName rest bimap with
    | .ok result => Represents M result (passed ++ rest)
    | .error fault =>
      fault = duplicate typeName ∧ Shared (passed ++ rest) := by
  induction rest generalizing passed bimap with
  | nil =>
    rw [List.append_nil]
    exact h
  | cons pair rest ih =>
    obtain ⟨en, val⟩ := pair
    have hnew : en ∉ passed.map Prod.fst := by
      rw [List.map_append, List.nodup_append] at hkeys
      intro hmem
      exact hkeys.2.2 en hmem en List.mem_cons_self rfl
    rw [insertAll]
    cases hval : M.right bimap val with
    | some other =>
      have hpair := (h.right other val).mp hval
      refine ⟨rfl, other, en, val, ?_, List.mem_append_left _ hpair,
        List.mem_append_right _ List.mem_cons_self⟩
      rintro rfl
      exact hnew (List.mem_map.mpr ⟨_, hpair, rfl⟩)
    | none =>
      have hnext := ih (passed ++ [(en, val)]) (h.insert hM hnew hval) (by
        rw [List.append_assoc]
        exact hkeys)
      rw [List.append_assoc] at hnext
      exact hnext

variable [LinearOrder TEnum]

theorem StdMap.nodup (map : StdMap TEnum TValue) : (map.entries.map Prod.fst).Nodup :=
  map.sorted.imp ne_of_lt

/-- **The bimap is generated unless two enumerators share a value.** -/
theorem generate_spec (hM : M.Lawful) (typeName : String) (map : StdMap TEnum TValue) :
    (∃ bimap, generateEnumValBimap M typeName map = .ok bimap ∧
      Represents M bimap map.entries ∧ ¬ Shared map.entries) ∨
    (generateEnumValBimap M typeName map = .error (duplicate typeName) ∧ Shared map.entries) := by
  have hspec := insertAll_spec hM typeName map.entries [] (Represents.empty hM) map.nodup
  rw [List.nil_append] at hspec
  rw [generateEnumValBimap]
  cases hresult : insertAll M typeName map.entries M.empty with
  | ok bimap =>
    rw [hresult] at hspec
    refine .inl ⟨bimap, rfl, hspec, ?_⟩
    rintro ⟨e₁, e₂, val, hne, h₁, h₂⟩
    exact hne (hspec.unique h₁ h₂)
  | error fault =>
    rw [hresult] at hspec
    obtain ⟨rfl, hshared⟩ := hspec
    exact .inr ⟨rfl, hshared⟩

end Generate

/-! ## The static variables -/

section Calls

variable {TEnum TValue : Type} [LinearOrder TEnum] {M : Bimap TEnum TValue} {typeName : String}
  {map : StdMap TEnum TValue} {s : Statics M}

/-- What has been initialised is what is generated. -/
structure Statics.Valid (typeName : String) (map : StdMap TEnum TValue) (s : Statics M) : Prop where
  toVal : ∀ bimap, s.toVal = some bimap → generateEnumValBimap M typeName map = .ok bimap
  fromVal : ∀ bimap, s.fromVal = some bimap → generateEnumValBimap M typeName map = .ok bimap

theorem enumToVal_spec (h : s.Valid typeName map) (en : TEnum) :
    (enumToVal typeName map en s).1 =
        (generateEnumValBimap M typeName map >>= fun bimap => M.leftAt bimap en) ∧
      (enumToVal typeName map en s).2.Valid typeName map := by
  rw [enumToVal]
  cases hs : s.toVal with
  | some bimap =>
    rw [h.toVal bimap hs]
    exact ⟨rfl, h⟩
  | none =>
    cases hgenerate : generateEnumValBimap M typeName map with
    | ok bimap =>
      refine ⟨rfl, fun m hm => ?_, h.fromVal⟩
      cases hm
      exact hgenerate
    | error fault => exact ⟨rfl, h⟩

theorem enumFromVal_spec (h : s.Valid typeName map) (val : TValue) :
    (enumFromVal typeName map val s).1 =
        (generateEnumValBimap M typeName map >>= fun bimap => M.rightAt bimap val) ∧
      (enumFromVal typeName map val s).2.Valid typeName map := by
  rw [enumFromVal]
  cases hs : s.fromVal with
  | some bimap =>
    rw [h.fromVal bimap hs]
    exact ⟨rfl, h⟩
  | none =>
    cases hgenerate : generateEnumValBimap M typeName map with
    | ok bimap =>
      refine ⟨rfl, h.toVal, fun m hm => ?_⟩
      cases hm
      exact hgenerate
    | error fault => exact ⟨rfl, h⟩

theorem runCalls_valid (h : s.Valid typeName map) (calls : List (Call TEnum TValue)) :
    (runCalls typeName map calls s).Valid typeName map := by
  induction calls generalizing s with
  | nil => exact h
  | cons call calls ih =>
    cases call with
    | toVal en => exact ih (enumToVal_spec h en).2
    | fromVal val => exact ih (enumFromVal_spec h val).2

theorem Statics.Valid.fresh : ({} : Statics M).Valid typeName map := ⟨nofun, nofun⟩

variable {bimap : M.Carrier}

theorem leftAt_of_mem (h : Represents M bimap map.entries) {en : TEnum} {val : TValue}
    (hmem : (en, val) ∈ map.entries) : M.leftAt bimap en = .ok val := by
  rw [Bimap.leftAt, (h.left en val).mpr hmem]

theorem rightAt_of_mem (h : Represents M bimap map.entries) {en : TEnum} {val : TValue}
    (hmem : (en, val) ∈ map.entries) : M.rightAt bimap val = .ok en := by
  rw [Bimap.rightAt, (h.right en val).mpr hmem]

theorem leftAt_of_not_mem (h : Represents M bimap map.entries) {en : TEnum}
    (hnot : ∀ val, (en, val) ∉ map.entries) : M.leftAt bimap en = .error .outOfRange := by
  rw [Bimap.leftAt]
  cases hleft : M.left bimap en with
  | none => rfl
  | some val => exact absurd ((h.left en val).mp hleft) (hnot val)

theorem rightAt_of_not_mem (h : Represents M bimap map.entries) {val : TValue}
    (hnot : ∀ en, (en, val) ∉ map.entries) : M.rightAt bimap val = .error .outOfRange := by
  rw [Bimap.rightAt]
  cases hright : M.right bimap val with
  | none => rfl
  | some en => exact absurd ((h.right en val).mp hright) (hnot en)

end Calls

/-- **Serialisation is a bijection or an error**, whatever has been called before.  The bimap cannot
be generated if and only if two enumerators share a value, and then every call throws.  Otherwise
the two functions are inverse to each other on what is mapped, and throw for all else. -/
theorem enum_val_bijection {TEnum TValue : Type} [LinearOrder TEnum] {M : Bimap TEnum TValue}
    (hM : M.Lawful) (typeName : String) (map : StdMap TEnum TValue) :
    ((∃ fault, generateEnumValBimap M typeName map = .error fault) ↔ Shared map.entries) ∧
    ∀ (calls : List (Call TEnum TValue)) (s : Statics M), s = runCalls typeName map calls {} →
      (Shared map.entries →
        (∀ en, (enumToVal typeName map en s).1 = .error (duplicate typeName)) ∧
        ∀ val, (enumFromVal typeName map val s).1 = .error (duplicate typeName)) ∧
      (¬ Shared map.entries →
        (∀ en val, (en, val) ∈ map.entries →
          (∃ s', enumToVal typeName map en s = (.ok val, s') ∧
            (enumFromVal typeName map val s').1 = .ok en) ∧
          ∃ s', enumFromVal typeName map val s = (.ok en, s') ∧
            (enumToVal typeName map en s').1 = .ok val) ∧
        (∀ en, (∀ val, (en, val) ∉ map.entries) →
          (enumToVal typeName map en s).1 = .error .outOfRange) ∧
        ∀ val, (∀ en, (en, val) ∉ map.entries) →
          (enumFromVal typeName map val s).1 = .error .outOfRange) := by
  have hgenerate := generate_spec hM typeName map
  refine ⟨⟨?_, ?_⟩, ?_⟩
  · rintro ⟨fault, hfault⟩
    rcases hgenerate with ⟨bimap, hok, -⟩ | ⟨-, hshared⟩
    · rw [hok] at hfault
      cases hfault
    · exact hshared
  · intro hshared
    rcases hgenerate with ⟨-, -, -, hnot⟩ | ⟨herror, -⟩
    · exact absurd hshared hnot
    · exact ⟨_, herror⟩
  · rintro calls s rfl
    have hvalid : (runCalls typeName map calls {} : Statics M).Valid typeName map :=
      runCalls_valid .fresh calls
    refine ⟨fun hshared => ?_, fun hnot => ?_⟩
    · obtain ⟨herror, -⟩ := hgenerate.resolve_left fun ⟨_, _, _, hnot⟩ => hnot hshared
      refine ⟨fun en => (enumToVal_spec hvalid en).1.trans ?_, fun val =>
        (enumFromVal_spec hvalid val).1.trans ?_⟩
      · rw [herror]
        rfl
      · rw [herror]
        rfl
    · obtain ⟨bimap, hok, hrep, -⟩ := hgenerate.resolve_right fun h => hnot h.2
      have hto {s : Statics M} (hs : s.Valid typeName map) (en : TEnum) :
          (enumToVal typeName map en s).1 = M.leftAt bimap en := by
        rw [(enumToVal_spec hs en).1, hok]
        rfl
      have hfrom {s : Statics M} (hs : s.Valid typeName map) (val : TValue) :
          (enumFromVal typeName map val s).1 = M.rightAt bimap val := by
        rw [(enumFromVal_spec hs val).1, hok]
        rfl
      refine ⟨fun en val hmem => ⟨⟨_, Prod.ext ?_ rfl, ?_⟩, ⟨_, Prod.ext ?_ rfl, ?_⟩⟩, ?_, ?_⟩
      · exact (hto hvalid en).trans (leftAt_of_mem hrep hmem)
      · exact (hfrom (enumToVal_spec hvalid en).2 val).trans (rightAt_of_mem hrep hmem)
      · exact (hfrom hvalid val).trans (rightAt_of_mem hrep hmem)
      · exact (hto (enumFromVal_spec hvalid val).2 en).trans (leftAt_of_mem hrep hmem)
      · exact fun en hen => (hto hvalid en).trans (leftAt_of_not_mem hrep hen)
      · exact fun val hval => (hfrom hvalid val).trans (rightAt_of_not_mem hrep hval)

/-- A bimap that is a list of its pairs. -/
def listBimap (α β : Type) [DecidableEq α] [DecidableEq β] : Bimap α β where
  Carrier := List (α × β)
  empty := []
  insert a b pairs := if (∀ p ∈ pairs, p.1 ≠ a) ∧ ∀ p ∈ pairs, p.2 ≠ b then (a, b) :: pairs else pairs
  left pairs a := (pairs.find? fun p => p.1 = a).map Prod.snd
  right pairs b := (pairs.find? fun p => p.2 = b).map Prod.fst

theorem listBimap_lawful (α β : Type) [DecidableEq α] [DecidableEq β] :
    (listBimap α β).Lawful := by
  have hnone {γ : Type} {f : α × β → γ} {q : α × β → Prop} [DecidablePred q]
      {pairs : List (α × β)} : (pairs.find? fun p => q p).map f = none ↔ ∀ p ∈ pairs, ¬ q p := by
    rw [Option.map_eq_none_iff, List.find?_eq_none]
    simp
  have hleft (pairs : List (α × β)) (a : α) (b : β) (c : α) :
      (((a, b) :: pairs).find? fun p => p.1 = c).map Prod.snd =
        if a = c then some b else (pairs.find? fun p => p.1 = c).map Prod.snd := by
    by_cases hac : a = c <;> simp [hac]
  have hright (pairs : List (α × β)) (a : α) (b c : β) :
      (((a, b) :: pairs).find? fun p => p.2 = c).map Prod.fst =
        if b = c then some a else (pairs.find? fun p => p.2 = c).map Prod.fst := by
    by_cases hbc : b = c <;> simp [hbc]
  refine ⟨fun _ => rfl, fun _ => rfl, fun pairs a b h => if_neg ?_, fun pairs a b ha hb => ?_,
    fun pairs a b ha hb => ?_⟩
  · rintro ⟨ha, hb⟩
    rcases h with h | h
    · exact h (hnone.mpr ha)
    · exact h (hnone.mpr hb)
  · have hinsert : (listBimap α β).insert a b pairs = (a, b) :: pairs :=
      if_pos ⟨hnone.mp ha, hnone.mp hb⟩
    rw [hinsert]
    exact ⟨(hleft pairs a b a).trans (if_pos rfl),
      fun c hc => (hleft pairs a b c).trans (if_neg hc.symm)⟩
  · have hinsert : (listBimap α β).insert a b pairs = (a, b) :: pairs :=
      if_pos ⟨hnone.mp ha, hnone.mp hb⟩
    rw [hinsert]
    exact ⟨(hright pairs a b b).trans (if_pos rfl),
      fun c hc => (hright pairs a b c).trans (if_neg hc.symm)⟩

/-- The enumerators 1, 2 and 4 with three values, and with two. -/
def distinctMap : StdMap ℕ String := ⟨[(1, "E1"), (2, "E2"), (4, "E4")], by decide⟩

def sharedMap : StdMap ℕ String := ⟨[(1, "E1"), (2, "E1"), (4, "E4")], by decide⟩

theorem enum_val_bijection_three :
    (∃ s', enumToVal (M := listBimap ℕ String) "test_enum" distinctMap 2 {} = (.ok "E2", s') ∧
      (enumFromVal "test_enum" distinctMap "E2" s').1 = .ok 2) ∧
    (enumToVal (M := listBimap ℕ String) "test_enum" distinctMap 3 {}).1 = .error .outOfRange ∧
    ∃ fault, generateEnumValBimap (listBimap ℕ String) "test_enum2" sharedMap = .error fault := by
  have hlawful := listBimap_lawful ℕ String
  have hnot : ¬ Shared distinctMap.entries := by
    rintro ⟨e₁, e₂, val, hne, h₁, h₂⟩
    simp [distinctMap] at h₁ h₂
    rcases h₁ with ⟨rfl, rfl⟩ | ⟨rfl, rfl⟩ | ⟨rfl, rfl⟩ <;>
      rcases h₂ with ⟨rfl, h⟩ | ⟨rfl, h⟩ | ⟨rfl, h⟩ <;> first | exact hne rfl | simp at h
  obtain ⟨hmapped, hunmapped, -⟩ :=
    ((enum_val_bijection hlawful "test_enum" distinctMap).2 [] {} rfl).2 hnot
  refine ⟨(hmapped 2 "E2" (by decide)).1, hunmapped 3 (fun val => by simp [distinctMap]), ?_⟩
  refine (enum_val_bijection hlawful "test_enum2" sharedMap).1.mpr ⟨1, 2, "E1", ?_⟩
  decide

end Enumeration
