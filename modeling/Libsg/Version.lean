/-
# Version numbers as text

`version.cpp`: a version is a list of unsigned numbers of 32 bits.  Its text joins their
decimals by dots, and the constructor from a text cuts at each dot in turn
(`parseFrom_eq`: what it returns is read off `components`).

Each piece goes through `std::stoul`, which takes blanks and a sign in front of the digits and
numbers up to 64 bits, and only its end is checked afterwards.  So the text of a version is
read back (`parse_text`), but pieces that are no numerals of 32 bits are taken as well, with
another value: `exact_iff` says when none is.
-/
import Mathlib.Algebra.GroupWithZero.Nat
import Mathlib.Data.List.Forall2
import Mathlib.Data.List.TakeWhile

namespace Version

/-! ## The model -/

inductive Fault
  | invalidArgument
  | outOfRange
  | runtimeError (message : String)
  deriving DecidableEq, Repr

/-- `std::isspace` -/
def isspace (c : Char) : Bool :=
  [' ', '\t', '\n', '\x0b', '\x0c', '\r'].contains c

/-- The sign in front, if there is one: whether it negates, and what follows it. -/
def readSign : List Char → Bool × List Char
  | '+' :: rest => (false, rest)
  | '-' :: rest => (true, rest)
  | input => (false, input)

def negative (input : List Char) : Bool := (readSign (input.dropWhile isspace)).1

/-- What follows the blanks and the sign. -/
def unsignedPart (input : List Char) : List Char := (readSign (input.dropWhile isspace)).2

/-- The value of a text of decimal digits. -/
def valueOf (digits : List Char) : ℕ := Nat.ofDigitChars 10 digits 0

/-- What an `unsigned long` holds for it; a sign negates in the unsigned type. -/
def signedValue (negative : Bool) (value : ℕ) : ℕ :=
  if negative then (2 ^ 64 - value) % 2 ^ 64 else value

/-- `std::stoul`: the number and how many characters it takes up. -/
def stoul (input : List Char) : Except Fault (ℕ × ℕ) :=
  let digits := (unsignedPart input).takeWhile Char.isDigit
  let left := (unsignedPart input).dropWhile Char.isDigit
  if digits = [] then .error .invalidArgument
  else if 2 ^ 64 ≤ valueOf digits then .error .outOfRange
  else .ok (signedValue (negative input) (valueOf digits), input.length - left.length)

def convertOrThrow (input : List Char) : Except Fault UInt32 :=
  match stoul input with
  | .error fault => .error fault
  | .ok (result, charactersConverted) =>
    if charactersConverted ≠ input.length then
      .error (.runtimeError "could not convert input string to a version")
    else .ok (UInt32.ofNat result)

/-- The constructor's loop, from what is left of the input and the versions so far; `none`
when the fuel does not last. -/
def parseFrom : ℕ → List Char → List UInt32 → Option (Except Fault (List UInt32))
  | 0, _, _ => none
  | fuel + 1, input, versions =>
    match input.idxOf? '.' with
    | some pos =>
      match convertOrThrow (input.take pos) with
      | .error fault => some (.error fault)
      | .ok v => parseFrom fuel (input.drop (pos + 1)) (versions ++ [v])
    | none =>
      -- stuff after the last dot
      if input = [] then some (.ok versions)
      else
        match convertOrThrow input with
        | .error fault => some (.error fault)
        | .ok v => some (.ok (versions ++ [v]))

def decimal (v : UInt32) : List Char := Nat.toDigits 10 v.toNat

/-- `fmt::join`, formatted: the numbers and what stands between them. -/
abbrev Join := List UInt32 → List Char → List Char

/-- It prints plain decimals with the separator between them. -/
def Join.PrintsDecimals (join : Join) : Prop :=
  ∀ versions separator, join versions separator = separator.intercalate (versions.map decimal)

/-- `operator std::string()` -/
def text (join : Join) (versions : List UInt32) : List Char := join versions ['.']

/-! ## The pieces between the dots -/

/-- A last piece that is empty is left out. -/
def dropEmptyLast : List (List Char) → List (List Char)
  | [] => []
  | [c] => if c = [] then [] else [c]
  | c :: d :: rest => c :: dropEmptyLast (d :: rest)

def components (input : List Char) : List (List Char) := dropEmptyLast (input.splitOn '.')

theorem dropEmptyLast_cons {rest : List (List Char)} (hne : rest ≠ []) (c : List Char) :
    dropEmptyLast (c :: rest) = c :: dropEmptyLast rest := by
  cases rest with
  | nil => exact absurd rfl hne
  | cons d rest => rfl

theorem dropEmptyLast_of_forall {pieces : List (List Char)} (hne : ∀ c ∈ pieces, c ≠ []) :
    dropEmptyLast pieces = pieces := by
  induction pieces with
  | nil => rfl
  | cons c rest ih =>
    have htail := ih fun d hd => hne d (List.mem_cons_of_mem c hd)
    cases rest with
    | nil => exact if_neg (hne c List.mem_cons_self)
    | cons d rest => rw [dropEmptyLast_cons (List.cons_ne_nil d rest), htail]

theorem components_nil : components [] = [] := rfl

theorem components_last {input : List Char} (hdot : '.' ∉ input) (hne : input ≠ []) :
    components input = [input] := by
  rw [components, List.splitOn_eq_singleton hdot]
  exact if_neg hne

theorem components_dot {piece : List Char} (hdot : '.' ∉ piece) (rest : List Char) :
    components (piece ++ '.' :: rest) = piece :: components rest := by
  rw [components, List.splitOn_append_cons_self_of_not_mem hdot,
    dropEmptyLast_cons (List.splitOn_ne_nil _ _)]
  rfl

/-- What stands before the first dot, and what after it. -/
theorem split_at_dot {input : List Char} {pos : ℕ} (hpos : input.idxOf? '.' = some pos) :
    '.' ∉ input.take pos ∧ input = input.take pos ++ '.' :: input.drop (pos + 1) := by
  obtain ⟨hlt, hat, hbefore⟩ := List.idxOf?_eq_some_iff.mp hpos
  constructor
  · intro hmem
    obtain ⟨j, hj, hdot⟩ := List.mem_iff_getElem.mp hmem
    have hjpos : j < pos := by
      rw [List.length_take] at hj
      omega
    rw [List.getElem_take] at hdot
    exact hbefore j hjpos hdot
  · rw [← hat, ← List.drop_eq_getElem_cons hlt, List.take_append_drop]

/-! ## The loop -/

/-- Whatever the fuel, a run that ends has converted the pieces one by one. -/
theorem parseFrom_of_some {fuel : ℕ} {input : List Char} {versions : List UInt32}
    {result : Except Fault (List UInt32)} (h : parseFrom fuel input versions = some result) :
    result = (components input).mapM convertOrThrow >>= fun vs => .ok (versions ++ vs) := by
  induction fuel generalizing input versions with
  | zero => cases h
  | succ fuel ih =>
    rw [parseFrom] at h
    cases hpos : input.idxOf? '.' with
    | some pos =>
      obtain ⟨hdot, hinput⟩ := split_at_dot hpos
      rw [hpos] at h
      dsimp only at h
      rw [hinput, components_dot hdot, List.mapM_cons]
      cases hpiece : convertOrThrow (input.take pos) with
      | error fault =>
        rw [hpiece] at h
        cases h
        rfl
      | ok v =>
        rw [hpiece] at h
        rw [ih h]
        cases (components (input.drop (pos + 1))).mapM convertOrThrow with
        | error fault => rfl
        | ok vs => exact congrArg Except.ok (List.append_assoc versions [v] vs)
    | none =>
      have hdot := List.idxOf?_eq_none_iff.mp hpos
      rw [hpos] at h
      dsimp only at h
      by_cases hempty : input = []
      · rw [if_pos hempty] at h
        cases h
        rw [hempty, components_nil]
        exact congrArg Except.ok (List.append_nil versions).symm
      · rw [if_neg hempty] at h
        rw [components_last hdot hempty, List.mapM_cons]
        cases hpiece : convertOrThrow input with
        | error fault =>
          rw [hpiece] at h
          cases h
          rfl
        | ok v =>
          rw [hpiece] at h
          cases h
          rfl

/-- **The loop ends on every input**: each round takes at least the dot away. -/
theorem parseFrom_ends {fuel : ℕ} {input : List Char} (hfuel : input.length < fuel)
    (versions : List UInt32) : ∃ result, parseFrom fuel input versions = some result := by
  induction fuel generalizing input versions with
  | zero => exact absurd hfuel (Nat.not_lt_zero _)
  | succ fuel ih =>
    rw [parseFrom]
    cases hpos : input.idxOf? '.' with
    | some pos =>
      have hlt := (List.idxOf?_eq_some_iff.mp hpos).1
      dsimp only
      cases convertOrThrow (input.take pos) with
      | error fault => exact ⟨_, rfl⟩
      | ok v =>
        apply ih
        rw [List.length_drop]
        omega
    | none =>
      dsimp only
      split
      · exact ⟨_, rfl⟩
      · cases convertOrThrow input with
        | error fault => exact ⟨_, rfl⟩
        | ok v => exact ⟨_, rfl⟩

theorem parseFrom_eq {fuel : ℕ} {input : List Char} (hfuel : input.length < fuel) :
    parseFrom fuel input [] = some ((components input).mapM convertOrThrow) := by
  obtain ⟨result, h⟩ := parseFrom_ends hfuel []
  rw [h, parseFrom_of_some h]
  cases (components input).mapM convertOrThrow <;> rfl

/-- A list of pieces is converted when each of them is. -/
theorem mapM_eq_ok_iff {ε β γ : Type} {f : β → Except ε γ} {pieces : List β} {vs : List γ} :
    pieces.mapM f = .ok vs ↔ List.Forall₂ (fun c v => f c = .ok v) pieces vs := by
  induction pieces generalizing vs with
  | nil =>
    rw [List.forall₂_nil_left_iff]
    constructor
    · intro h
      cases h
      rfl
    · intro h
      rw [h]
      rfl
  | cons c rest ih =>
    rw [List.mapM_cons, List.forall₂_cons_left_iff]
    constructor
    · intro h
      cases hc : f c with
      | error fault =>
        rw [hc] at h
        cases h
      | ok v =>
        cases hrest : rest.mapM f with
        | error fault =>
          rw [hc, hrest] at h
          cases h
        | ok us =>
          rw [hc, hrest] at h
          cases h
          exact ⟨v, us, rfl, ih.mp hrest, rfl⟩
    · rintro ⟨v, us, hc, hrest, rfl⟩
      rw [hc, ih.mpr hrest]
      rfl

/-! ## What is taken for a number -/

/-- Digits only. -/
structure Numeral (c : List Char) : Prop where
  ne_nil : c ≠ []
  digits : ∀ d ∈ c, Char.isDigit d = true

/-- Blanks, a sign and digits, with a value of 64 bits. -/
structure Taken (c : List Char) : Prop where
  numeral : Numeral (unsignedPart c)
  small : valueOf (unsignedPart c) < 2 ^ 64

/-- The number that is stored for it. -/
def numberOf (c : List Char) : UInt32 :=
  UInt32.ofNat (signedValue (negative c) (valueOf (unsignedPart c)))

theorem Numeral.takeWhile_eq {c : List Char} (h : Numeral c) : c.takeWhile Char.isDigit = c :=
  List.takeWhile_eq_self_iff.mpr h.digits

theorem Numeral.dropWhile_eq {c : List Char} (h : Numeral c) : c.dropWhile Char.isDigit = [] :=
  List.dropWhile_eq_nil_iff.mpr h.digits

theorem convertOrThrow_of_taken {c : List Char} (h : Taken c) :
    convertOrThrow c = .ok (numberOf c) := by
  have hstoul : stoul c = .ok (signedValue (negative c) (valueOf (unsignedPart c)), c.length) := by
    rw [stoul, h.numeral.takeWhile_eq, h.numeral.dropWhile_eq, if_neg h.numeral.ne_nil,
      if_neg (Nat.not_le.mpr h.small)]
    rfl
  rw [convertOrThrow, hstoul]
  exact if_neg fun hne => hne rfl

theorem taken_of_convertOrThrow {c : List Char} {v : UInt32} (h : convertOrThrow c = .ok v) :
    Taken c := by
  rw [convertOrThrow, stoul] at h
  by_cases hnone : (unsignedPart c).takeWhile Char.isDigit = []
  · rw [if_pos hnone] at h
    cases h
  by_cases hlarge : 2 ^ 64 ≤ valueOf ((unsignedPart c).takeWhile Char.isDigit)
  · rw [if_neg hnone, if_pos hlarge] at h
    cases h
  rw [if_neg hnone, if_neg hlarge] at h
  dsimp only at h
  split at h
  · cases h
  · next hall =>
    -- nothing is left, since there was something to convert
    have hc : c.length ≠ 0 := by
      intro hzero
      rw [List.length_eq_zero_iff.mp hzero] at hnone
      exact hnone rfl
    have hleft : (unsignedPart c).dropWhile Char.isDigit = [] := by
      apply List.length_eq_zero_iff.mp
      omega
    have hdigits := List.dropWhile_eq_nil_iff.mp hleft
    rw [List.takeWhile_eq_self_iff.mpr hdigits] at hnone hlarge
    exact ⟨⟨hnone, hdigits⟩, Nat.not_le.mp hlarge⟩

theorem convertOrThrow_eq_ok_iff {c : List Char} {v : UInt32} :
    convertOrThrow c = .ok v ↔ Taken c ∧ v = numberOf c := by
  constructor
  · intro h
    have htaken := taken_of_convertOrThrow h
    rw [convertOrThrow_of_taken htaken] at h
    exact ⟨htaken, (Except.ok.inj h).symm⟩
  · rintro ⟨htaken, rfl⟩
    exact convertOrThrow_of_taken htaken

/-- A digit is neither a blank nor a sign. -/
theorem Numeral.unsignedPart_eq {c : List Char} (h : Numeral c) :
    unsignedPart c = c ∧ negative c = false := by
  obtain ⟨hne, hdigits⟩ := h
  cases c with
  | nil => exact absurd rfl hne
  | cons d rest =>
    have hd := hdigits d List.mem_cons_self
    have hblank : isspace d = false := by
      rw [Bool.eq_false_iff]
      intro hspace
      have hmem : d ∈ [' ', '\t', '\n', '\x0b', '\x0c', '\r'] := List.contains_iff_mem.mp hspace
      have hnone : [' ', '\t', '\n', '\x0b', '\x0c', '\r'].all (fun b => !Char.isDigit b) = true := by
        decide
      have hnot := List.all_eq_true.mp hnone d hmem
      rw [hd] at hnot
      cases hnot
    have hdrop : (d :: rest).dropWhile isspace = d :: rest := by
      rw [List.dropWhile_cons_of_neg]
      rw [hblank]
      decide
    have hsign : readSign (d :: rest) = (false, d :: rest) := by
      unfold readSign
      split
      · next heq =>
        cases heq
        cases hd
      · next heq =>
        cases heq
        cases hd
      · rfl
    rw [unsignedPart, negative, hdrop, hsign]
    exact ⟨rfl, rfl⟩

/-- A numeral of 32 bits is stored as it is. -/
theorem Numeral.numberOf_eq {c : List Char} (h : Numeral c) : numberOf c = UInt32.ofNat (valueOf c) := by
  obtain ⟨hpart, hneg⟩ := h.unsignedPart_eq
  rw [numberOf, hpart, hneg]
  rfl

theorem Numeral.taken {c : List Char} (h : Numeral c) (hsmall : valueOf c < 2 ^ 32) : Taken c := by
  obtain ⟨hpart, -⟩ := h.unsignedPart_eq
  constructor
  · rw [hpart]
    exact h
  · rw [hpart]
    omega

/-- What is accepted are the numbers of the pieces, each of which is taken. -/
theorem convert_all_eq_ok_iff {pieces : List (List Char)} {vs : List UInt32} :
    pieces.mapM convertOrThrow = .ok vs ↔ (∀ c ∈ pieces, Taken c) ∧ vs = pieces.map numberOf := by
  have hsplit : (fun c v => convertOrThrow c = .ok v) = fun c v => Taken c ∧ v = numberOf c := by
    funext c v
    exact propext convertOrThrow_eq_ok_iff
  rw [mapM_eq_ok_iff, hsplit, List.forall₂_and_left]
  apply and_congr_right
  intro _
  rw [← List.forall₂_map_left_iff (R := fun u v => v = u), ← List.forall₂_eq_eq_eq]
  exact ⟨fun h => h.flip, fun h => h.flip⟩

/-! ## Exactness -/

/-- Each piece is a numeral, and its value is what is stored. -/
def Exact (input : List Char) (versions : List UInt32) : Prop :=
  List.Forall₂ (fun c v => Numeral c ∧ valueOf c = v.toNat) (components input) versions

/-- **What is accepted is exact if and only if no piece has blanks, a sign or a value of 2^32 and
more**, or there is one that is refused. -/
theorem exact_iff (input : List Char) :
    (∀ fuel versions, parseFrom fuel input [] = some (.ok versions) → Exact input versions) ↔
      ((∀ c ∈ components input, Taken c) →
        ∀ c ∈ components input, Numeral c ∧ valueOf c < 2 ^ 32) := by
  constructor
  · intro hexact htaken c hc
    have hok := convert_all_eq_ok_iff.mpr ⟨htaken, rfl⟩
    have hparse := parseFrom_eq (Nat.lt_succ_self input.length)
    rw [hok] at hparse
    have h := hexact _ _ hparse
    rw [Exact, List.forall₂_map_right_iff, List.forall₂_same] at h
    obtain ⟨hnumeral, hvalue⟩ := h c hc
    refine ⟨hnumeral, ?_⟩
    rw [hvalue]
    exact (numberOf c).toNat_lt
  · intro hcond fuel versions hparse
    have hok := parseFrom_of_some hparse
    cases hmap : (components input).mapM convertOrThrow with
    | error fault =>
      rw [hmap] at hok
      cases hok
    | ok vs =>
      rw [hmap] at hok
      cases hok
      obtain ⟨htaken, rfl⟩ := convert_all_eq_ok_iff.mp hmap
      show Exact input ((components input).map numberOf)
      rw [Exact, List.forall₂_map_right_iff, List.forall₂_same]
      intro c hc
      obtain ⟨hnumeral, hsmall⟩ := hcond htaken c hc
      refine ⟨hnumeral, ?_⟩
      rw [hnumeral.numberOf_eq, UInt32.toNat_ofNat_of_lt' hsmall]

/-- 2^32 is read as 0. -/
theorem wide_not_exact :
    ¬ ∀ input fuel versions, parseFrom fuel input [] = some (.ok versions) →
      Exact input versions := by
  intro h
  have hread : parseFrom 1 "4294967296".toList [] = some (.ok [0]) := by decide +kernel
  have hexact := h _ _ _ hread
  have hpieces : components "4294967296".toList = ["4294967296".toList] := by decide +kernel
  rw [Exact, hpieces] at hexact
  cases hexact with
  | cons hpiece _ => exact absurd hpiece.2 (by decide +kernel)

/-! ## The round trip -/

theorem numeral_decimal (v : UInt32) : Numeral (decimal v) := by
  constructor
  · exact Nat.toDigits_ne_nil
  · intro d hd
    exact Nat.isDigit_of_mem_toDigits (by decide) (by decide) hd

theorem valueOf_decimal (v : UInt32) : valueOf (decimal v) = v.toNat :=
  Nat.ofDigitChars_ten_toDigits

theorem dot_not_mem_decimal (v : UInt32) : '.' ∉ decimal v := by
  intro hdot
  exact absurd ((numeral_decimal v).digits '.' hdot) (by decide)

theorem components_text {join : Join} (hjoin : join.PrintsDecimals) (vs : List UInt32) :
    components (text join vs) = vs.map decimal := by
  have hne : ∀ c ∈ vs.map decimal, c ≠ [] := by
    rw [List.forall_mem_map]
    exact fun v _ => (numeral_decimal v).ne_nil
  have hdot : ∀ c ∈ vs.map decimal, '.' ∉ c := by
    rw [List.forall_mem_map]
    exact fun v _ => dot_not_mem_decimal v
  by_cases hempty : vs.map decimal = []
  · rw [text, hjoin, hempty]
    rfl
  · rw [components, text, hjoin, List.splitOn_intercalate '.' hdot hempty, dropEmptyLast_of_forall hne]

theorem convert_decimal (v : UInt32) : convertOrThrow (decimal v) = .ok v := by
  have hsmall : valueOf (decimal v) < 2 ^ 32 := by
    rw [valueOf_decimal]
    exact v.toNat_lt
  rw [convertOrThrow_of_taken ((numeral_decimal v).taken hsmall), (numeral_decimal v).numberOf_eq,
    valueOf_decimal, UInt32.ofNat_toNat]

/-- **The text of a version is read back**, and the loop ends on every input. -/
theorem parse_text {join : Join} (hjoin : join.PrintsDecimals) :
    (∀ fuel input versions, input.length < fuel →
      ∃ result, parseFrom fuel input versions = some result) ∧
    ∀ vs fuel, (text join vs).length < fuel →
      parseFrom fuel (text join vs) [] = some (.ok vs) := by
  refine ⟨fun fuel input versions hfuel => parseFrom_ends hfuel versions, ?_⟩
  intro vs fuel hfuel
  rw [parseFrom_eq hfuel, components_text hjoin]
  apply congrArg some
  rw [mapM_eq_ok_iff, List.forall₂_map_left_iff, List.forall₂_same]
  exact fun v _ => convert_decimal v

def joinDecimals : Join := fun versions separator => separator.intercalate (versions.map decimal)

/-- The maximal component is read back. -/
theorem parse_text_max : text joinDecimals [1, 0, 4294967295] = "1.0.4294967295".toList ∧
    parseFrom 15 (text joinDecimals [1, 0, 4294967295]) [] = some (.ok [1, 0, 4294967295]) := by
  have hjoin : joinDecimals.PrintsDecimals := fun _ _ => rfl
  exact ⟨by decide +kernel, (parse_text hjoin).2 _ 15 (by decide +kernel)⟩

end Version
