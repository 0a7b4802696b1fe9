/-
# The references to the stop state

`stop_token.hpp`: the stop state is one word, with a flag for the stop request, a flag for
the lock, 31 bits that count the tokens and the registered callbacks and 31 that count the
sources; it deletes itself when its last reference goes.  Each of its functions changes
the word by one atomic operation.

`__remove_token_reference()` compares the old word with one token and one source where
`__unlock_and_decrement_token_ref_count()` compares it with two tokens: without a source
left, every token that goes deletes the state.  `deleted_with_last_iff` says that nothing
else goes wrong.
-/
import Mathlib.Algebra.GroupWithZero.Nat
import Libsg.TransitionSystem

open TransitionSystem

namespace StopToken

/-! ## The word -/

def stopRequestedFlag : BitVec 64 := 1#64

def lockedFlag : BitVec 64 := 2#64

def tokenRefIncrement : BitVec 64 := 4#64

def sourceRefIncrement : BitVec 64 := 1#64 <<< 33

def isLocked (state : BitVec 64) : Bool :=
  state &&& lockedFlag != 0

def isStopRequested (state : BitVec 64) : Bool :=
  state &&& stopRequestedFlag != 0

def isStopRequestable (state : BitVec 64) : Bool :=
  isStopRequested state || state ≥ sourceRefIncrement

/-- The operations on the word. -/
inductive Access
  | addTokenReference
  | removeTokenReference
  | addSourceReference
  | removeSourceReference
  /-- the exchange that succeeds in `__lock()` or `__try_add_callback()` -/
  | lock
  /-- the one in `__try_lock_and_signal_until_signalled()` -/
  | lockAndSignal
  | unlock
  | unlockAndIncrementTokenRefCount
  | unlockAndDecrementTokenRefCount
  deriving DecidableEq, Repr

/-- The new word. -/
def Access.next (oldState : BitVec 64) : Access → BitVec 64
  | .addTokenReference => oldState + tokenRefIncrement
  | .removeTokenReference => oldState - tokenRefIncrement
  | .addSourceReference => oldState + sourceRefIncrement
  | .removeSourceReference => oldState - sourceRefIncrement
  | .lock => oldState ||| lockedFlag
  | .lockAndSignal => oldState ||| stopRequestedFlag ||| lockedFlag
  | .unlock => oldState - lockedFlag
  | .unlockAndIncrementTokenRefCount => oldState - (lockedFlag - tokenRefIncrement)
  | .unlockAndDecrementTokenRefCount => oldState - (lockedFlag + tokenRefIncrement)

/-- The state is deleted. -/
def Access.deletes (oldState : BitVec 64) : Access → Bool
  | .removeTokenReference | .removeSourceReference =>
    oldState < tokenRefIncrement + sourceRefIncrement
  | .unlockAndDecrementTokenRefCount =>
    oldState < lockedFlag + tokenRefIncrement + tokenRefIncrement
  | _ => false

/-! ## Those who have references -/

/-- The word, how often the state has been deleted, the tokens and the callbacks that refer
to it, the sources, and whether somebody is between a lock and an unlock. -/
structure References where
  word : BitVec 64 := sourceRefIncrement
  deletions : ℕ := 0
  tokens : ℕ := 0
  sources : ℕ := 1
  holder : Bool := false
  stopped : Bool := false
  deriving DecidableEq, Repr

namespace References

/-- Who makes the access can: it has the reference that goes, or one that stays, and no count
runs over.  While somebody has the lock a reference of its own stays. -/
def can (r : References) : Access → Bool
  | .addTokenReference => 0 < r.tokens + r.sources ∧ r.tokens + 1 < 2 ^ 31
  | .removeTokenReference => 0 < r.tokens ∧ (r.holder = true → 1 < r.tokens + r.sources)
  | .addSourceReference => 0 < r.sources ∧ r.sources + 1 < 2 ^ 31
  | .removeSourceReference => 0 < r.sources ∧ (r.holder = true → 1 < r.tokens + r.sources)
  | .lock => 0 < r.tokens + r.sources ∧ isLocked r.word = false
  | .lockAndSignal =>
    0 < r.sources ∧ isLocked r.word = false ∧ isStopRequested r.word = false
  | .unlock => r.holder
  | .unlockAndIncrementTokenRefCount => r.holder = true ∧ r.tokens + 1 < 2 ^ 31
  | .unlockAndDecrementTokenRefCount => r.holder = true ∧ 0 < r.tokens

/-- What becomes of those who have references. -/
def change (r : References) : Access → References
  | .addTokenReference => { r with tokens := r.tokens + 1 }
  | .removeTokenReference => { r with tokens := r.tokens - 1 }
  | .addSourceReference => { r with sources := r.sources + 1 }
  | .removeSourceReference => { r with sources := r.sources - 1 }
  | .lock => { r with holder := true }
  | .lockAndSignal => { r with holder := true, stopped := true }
  | .unlock => { r with holder := false }
  | .unlockAndIncrementTokenRefCount => { r with holder := false, tokens := r.tokens + 1 }
  | .unlockAndDecrementTokenRefCount => { r with holder := false, tokens := r.tokens - 1 }

/-- What an access leaves behind, whoever makes it. -/
def apply (r : References) (a : Access) : References :=
  { r.change a with
    word := a.next r.word
    deletions := r.deletions + (a.deletes r.word).toNat }

@[simp] theorem apply_holder (r : References) (a : Access) :
    (r.apply a).holder = (r.change a).holder := rfl

@[simp] theorem apply_tokens (r : References) (a : Access) :
    (r.apply a).tokens = (r.change a).tokens := rfl

@[simp] theorem apply_stopped (r : References) (a : Access) :
    (r.apply a).stopped = (r.change a).stopped := rfl

def step (r : References) (a : Access) : Option (References × List Unit) :=
  if r.can a then some (r.apply a, []) else none

theorem step_of_can {r : References} {a : Access} (hcan : r.can a = true) :
    r.step a = some (r.apply a, []) :=
  if_pos hcan

end References

/-- A stop state that a source has made. -/
def references : TransitionSystem References Access Unit where
  start := {}
  step := References.step

/-! ## What the word says -/

/-- A flag is one bit of the word. -/
theorem and_flag (w : BitVec 64) (i : ℕ) (hi : i < 64) :
    (w &&& BitVec.twoPow 64 i != 0) = decide (w.toNat / 2 ^ i % 2 = 1) := by
  have hne : BitVec.twoPow 64 i ≠ 0#64 := by
    intro h
    have hbit := congrArg (fun v => v.getLsbD i) h
    simp [hi] at hbit
  rw [BitVec.and_twoPow, BitVec.getLsbD, Nat.testBit_eq_decide_div_mod_eq]
  by_cases hbit : w.toNat / 2 ^ i % 2 = 1 <;> simp [hbit, hne]

theorem isLocked_eq (w : BitVec 64) : isLocked w = decide (w.toNat / 2 % 2 = 1) :=
  and_flag w 1 (by decide)

theorem isStopRequested_eq (w : BitVec 64) : isStopRequested w = decide (w.toNat % 2 = 1) := by
  have h := and_flag w 0 (by decide)
  rwa [pow_zero, Nat.div_one] at h

theorem or_lockedFlag {w : BitVec 64} (h : isLocked w = false) : w ||| lockedFlag = w + lockedFlag := by
  refine (BitVec.add_eq_or_of_and_eq_zero w lockedFlag ?_).symm
  simpa [isLocked] using h

theorem or_stopRequestedFlag {w : BitVec 64} (h : isStopRequested w = false) :
    w ||| stopRequestedFlag = w + stopRequestedFlag := by
  refine (BitVec.add_eq_or_of_and_eq_zero w stopRequestedFlag ?_).symm
  simpa [isStopRequested] using h

namespace References

/-- The word counts the references. -/
structure Counted (r : References) : Prop where
  word : r.word.toNat =
    r.stopped.toNat + 2 * r.holder.toNat + 4 * r.tokens + 2 ^ 33 * r.sources
  tokens : r.tokens < 2 ^ 31
  sources : r.sources < 2 ^ 31

variable {r r' : References} {a : Access} {es : List Unit}

theorem Counted.start : Counted {} := by
  constructor <;> decide

theorem Counted.isLocked (h : r.Counted) : isLocked r.word = r.holder := by
  rw [isLocked_eq, h.word]
  cases hs : r.stopped <;> cases hh : r.holder <;> simp <;> omega

theorem Counted.isStopRequested (h : r.Counted) : isStopRequested r.word = r.stopped := by
  rw [isStopRequested_eq, h.word]
  cases hs : r.stopped <;> cases hh : r.holder <;> simp <;> omega

theorem Counted.step (h : r.Counted) (hstep : r.step a = some (r', es)) : r'.Counted := by
  rw [References.step] at hstep
  split at hstep
  · next hcan =>
    cases hstep
    have hlocked := h.isLocked
    have hrequested := h.isStopRequested
    obtain ⟨hword, htokens, hsources⟩ := h
    have hstopped := Bool.toNat_le r.stopped
    have hholder := Bool.toNat_le r.holder
    cases a <;> simp only [can, decide_eq_true_eq] at hcan <;>
      simp only [apply, change, Access.next, tokenRefIncrement, sourceRefIncrement]
    case addTokenReference =>
      refine ⟨?_, hcan.2, hsources⟩
      simp only
      bv_omega
    case removeTokenReference =>
      refine ⟨?_, by simp only; omega, hsources⟩
      simp only
      bv_omega
    case addSourceReference =>
      refine ⟨?_, htokens, hcan.2⟩
      simp only
      bv_omega
    case removeSourceReference =>
      refine ⟨?_, htokens, by simp only; omega⟩
      simp only
      bv_omega
    case lock =>
      have hfree : r.holder = false := hlocked.symm.trans hcan.2
      refine ⟨?_, htokens, hsources⟩
      rw [or_lockedFlag hcan.2, lockedFlag]
      rw [hfree] at hword
      simp only [Bool.toNat_true, Bool.toNat_false] at hword ⊢
      bv_omega
    case lockAndSignal =>
      -- both flags are clear, so each `|` adds its own
      have hfree : r.holder = false := hlocked.symm.trans hcan.2.1
      have hquiet : r.stopped = false := hrequested.symm.trans hcan.2.2
      rw [hfree, hquiet] at hword
      simp only [Bool.toNat_false] at hword
      have hnext : (r.word + stopRequestedFlag).toNat = r.word.toNat + 1 := by
        rw [stopRequestedFlag]
        bv_omega
      have hlocked : StopToken.isLocked (r.word + stopRequestedFlag) = false := by
        rw [isLocked_eq, hnext, hword, decide_eq_false_iff_not]
        omega
      refine ⟨?_, htokens, hsources⟩
      rw [or_stopRequestedFlag hcan.2.2, or_lockedFlag hlocked, lockedFlag]
      simp only [Bool.toNat_true]
      bv_omega
    case unlock =>
      refine ⟨?_, htokens, hsources⟩
      rw [hcan] at hword
      rw [lockedFlag]
      simp only [Bool.toNat_true, Bool.toNat_false] at hword ⊢
      bv_omega
    case unlockAndIncrementTokenRefCount =>
      refine ⟨?_, hcan.2, hsources⟩
      rw [hcan.1] at hword
      rw [lockedFlag]
      simp only [Bool.toNat_true, Bool.toNat_false] at hword ⊢
      bv_omega
    case unlockAndDecrementTokenRefCount =>
      refine ⟨?_, by simp only; omega, hsources⟩
      rw [hcan.1] at hword
      rw [lockedFlag]
      simp only [Bool.toNat_true, Bool.toNat_false] at hword ⊢
      bv_omega
  · cases hstep

/-! ## When the state is deleted -/

theorem Counted.isStopRequestable (h : r.Counted) :
    isStopRequestable r.word = (r.stopped || decide (0 < r.sources)) := by
  have hstopped := Bool.toNat_le r.stopped
  have hholder := Bool.toNat_le r.holder
  have hword := h.word
  have htokens := h.tokens
  rw [StopToken.isStopRequestable, h.isStopRequested, sourceRefIncrement]
  congr 1
  rw [decide_eq_decide, ge_iff_le, BitVec.le_def, hword]
  simp
  omega

/-- The access drops the last reference. -/
def dropsLast (r : References) : Access → Bool
  | .removeTokenReference | .unlockAndDecrementTokenRefCount => r.tokens = 1 ∧ r.sources = 0
  | .removeSourceReference => r.tokens = 0 ∧ r.sources = 1
  | _ => false

/-- No token goes while there is another one and no source. -/
def keepsSource (r : References) (a : Access) : Prop :=
  a = .removeTokenReference → 0 < r.sources ∨ r.tokens = 1

instance (r : References) (a : Access) : Decidable (r.keepsSource a) :=
  inferInstanceAs (Decidable (_ → _))

theorem Counted.deletes_eq (h : r.Counted) (hcan : r.can a = true) :
    a.deletes r.word = r.dropsLast a ↔ r.keepsSource a := by
  have hstopped := Bool.toNat_le r.stopped
  have hholder := Bool.toNat_le r.holder
  obtain ⟨hword, htokens, hsources⟩ := h
  rw [Bool.eq_iff_iff]
  cases a <;> simp only [can, decide_eq_true_eq] at hcan <;>
    simp only [Access.deletes, dropsLast, keepsSource, tokenRefIncrement, sourceRefIncrement,
      lockedFlag, BitVec.lt_def, hword, reduceCtorEq, false_implies, forall_const,
      decide_eq_true_eq, iff_true]
  case removeTokenReference =>
    -- the comparison is with a source, so that it holds whenever there is none
    have hless : r.stopped.toNat + 2 * r.holder.toNat + 4 * r.tokens + 2 ^ 33 * r.sources <
        (4#64 + 1#64 <<< 33).toNat ↔ r.sources = 0 := by
      rw [show (4#64 + 1#64 <<< 33).toNat = 4 + 2 ^ 33 from rfl]
      omega
    rw [hless]
    omega
  case removeSourceReference =>
    rw [show (4#64 + 1#64 <<< 33).toNat = 4 + 2 ^ 33 from rfl]
    omega
  case unlockAndDecrementTokenRefCount =>
    rw [show (2#64 + 4#64 + 4#64).toNat = 10 from rfl, hcan.1, Bool.toNat_true]
    omega

/-- The state is deleted when its last reference goes, once, and nobody uses it after that. -/
structure Right (r : References) : Prop where
  deletions : r.deletions = if r.tokens + r.sources = 0 then 1 else 0
  after : r.deletions ≠ 0 → ∀ a, r.can a = false
  held : r.holder = true → 0 < r.tokens + r.sources

theorem Right.start : Right {} := by
  constructor <;> simp

/-- Who makes an access has a reference. -/
theorem Right.referenced (h : r.Right) (hcan : r.can a = true) : 0 < r.tokens + r.sources := by
  have hheld := h.held
  cases a <;> simp only [can, decide_eq_true_eq] at hcan <;> grind

theorem dropsLast_iff (h : r.Right) (hcan : r.can a = true) :
    r.dropsLast a = true ↔ (r.change a).tokens + (r.change a).sources = 0 := by
  have hsome := h.referenced hcan
  cases a <;> simp only [can, decide_eq_true_eq] at hcan <;>
    simp only [dropsLast, change, decide_eq_true_eq, Bool.false_eq_true, false_iff] <;> omega

/-- The holder of the lock keeps a reference. -/
theorem change_held (h : r.Right) (hcan : r.can a = true) (hholder : (r.change a).holder = true) :
    0 < (r.change a).tokens + (r.change a).sources := by
  have hheld := h.held
  cases a <;> simp only [can, decide_eq_true_eq] at hcan <;>
    simp only [change, Bool.false_eq_true] at hholder ⊢ <;> grind

theorem can_eq_false (hnone : r.tokens + r.sources = 0) (hholder : r.holder = false)
    (a : Access) : r.can a = false := by
  rw [Bool.eq_false_iff]
  intro hcan
  cases a <;> simp only [can, decide_eq_true_eq] at hcan <;> grind

theorem Right.step (h : r.Counted) (hright : r.Right) (hstep : r.step a = some (r', es)) :
    r'.Right ↔ r.keepsSource a := by
  rw [References.step] at hstep
  split at hstep
  · next hcan =>
    cases hstep
    have hsome := hright.referenced hcan
    have hnone : r.deletions = 0 := by
      rw [hright.deletions, if_neg (Nat.ne_of_gt hsome)]
    rw [← h.deletes_eq hcan, Bool.eq_iff_iff, dropsLast_iff hright hcan, apply, hnone, Nat.zero_add]
    constructor
    · intro hr
      have hdeletions : (a.deletes r.word).toNat =
          if (r.change a).tokens + (r.change a).sources = 0 then 1 else 0 := hr.deletions
      cases hd : a.deletes r.word <;> rw [hd] at hdeletions <;> split at hdeletions <;> simp_all
    · intro hlast
      have hheld := change_held hright hcan
      refine ⟨?_, fun hdeleted => ?_, hheld⟩
      · cases hd : a.deletes r.word <;> simp_all
      · have hgone : a.deletes r.word = true := by
          cases hd : a.deletes r.word <;> simp_all
        have hzero := hlast.mp hgone
        refine can_eq_false hzero ?_
        rw [Bool.eq_false_iff]
        intro hholder
        exact Nat.ne_of_gt (hheld hholder) hzero
  · cases hstep

end References

/-- **The stop state is deleted with its last reference, once and not before, as long as no
token goes while there is another one and no source; a token that does deletes it.**  Up to
then the word says what it is asked. -/
theorem deleted_with_last_iff {tr : List Unit} {r : References}
    (h : references.Run References.keepsSource tr r) :
    r.Right ∧ (∀ a r' es, references.step r a = some (r', es) → (r'.Right ↔ r.keepsSource a)) ∧
      isLocked r.word = r.holder ∧ isStopRequested r.word = r.stopped ∧
      isStopRequestable r.word = (r.stopped || decide (0 < r.sources)) := by
  have hboth : r.Counted ∧ r.Right := by
    refine Run.invariant (I := fun _ r => r.Counted ∧ r.Right) ⟨.start, .start⟩ ?_ h
    rintro tr r a r' es - hkeeps hstep ⟨hcounted, hright⟩
    exact ⟨hcounted.step hstep, (hright.step hcounted hstep).mpr hkeeps⟩
  obtain ⟨hcounted, hright⟩ := hboth
  exact ⟨hright, fun a r' es hstep => hright.step hcounted hstep, hcounted.isLocked,
    hcounted.isStopRequested, hcounted.isStopRequestable⟩

/-- Of two tokens the first deletes the state when the source has gone. -/
theorem deleted_with_last_iff_two : ∃ tr r, references.Run References.keepsSource tr r ∧
    r.tokens = 2 ∧ r.sources = 0 ∧ ∃ r' es,
      references.step r .removeTokenReference = some (r', es) ∧ r'.deletions = 1 ∧ r'.tokens = 1 ∧
      (r'.Right ↔ r.keepsSource .removeTokenReference) := by
  have hrun := run_exec (M := references) (C := References.keepsSource)
    (l := [.addTokenReference, .addTokenReference, .removeSourceReference]) (by decide) (by decide)
  exact ⟨_, _, hrun, by decide, by decide, _, _, rfl, by decide, by decide,
    (deleted_with_last_iff hrun).2.1 .removeTokenReference _ _ rfl⟩

end StopToken
