/-
# Exclusive ownership, announced by a flag

Nothing here names the library under verification.  Several parties may own
something; a flag says that somebody does.  `Exclusive owns flag` says that one owner
at most is there and that the flag is up while there is one.  The rules below are
the four ways in which a step can change who owns: nobody new (`keep`), somebody while
the flag was down (`acquire`), from one to another (`pass`), and nobody any more
(`release`).
-/
import Mathlib.Logic.Basic

/-- One owner at most, and the flag is up for it. -/
structure Exclusive {ι : Type*} (owns : ι → Bool) (flag : Bool) : Prop where
  unique : ∀ x y, owns x = true → owns y = true → x = y
  flagged : ∀ x, owns x = true → flag = true

namespace Exclusive

variable {ι : Type*} {owns owns' : ι → Bool} {flag flag' : Bool}

theorem of_nobody (h : ∀ x, owns x = false) (flag : Bool) : Exclusive owns flag := by
  have hnot (x : ι) : owns x ≠ true := fun hx => by
    rw [h x] at hx
    cases hx
  exact ⟨fun x _ hx => absurd hx (hnot x), fun x hx => absurd hx (hnot x)⟩

/-- While the flag is down nobody owns. -/
theorem nobody (h : Exclusive owns flag) (hflag : flag = false) (x : ι) : owns x = false := by
  rw [Bool.eq_false_iff]
  intro hx
  rw [h.flagged x hx] at hflag
  cases hflag

/-- Nobody becomes an owner. -/
theorem keep (h : Exclusive owns flag) (howns : ∀ y, owns' y = true → owns y = true)
    (hflag : flag' = flag) : Exclusive owns' flag' where
  unique x y hx hy := h.unique x y (howns x hx) (howns y hy)
  flagged x hx := hflag.trans (h.flagged x (howns x hx))

/-- What nobody owned is taken. -/
theorem acquire (h : Exclusive owns flag) (hfree : flag = false) (x : ι)
    (howns : ∀ y, owns' y = true → y = x ∨ owns y = true) (hflag : flag' = true) :
    Exclusive owns' flag' := by
  have hnobody (y : ι) : owns y ≠ true := fun hy => by
    rw [h.nobody hfree y] at hy
    cases hy
  refine ⟨fun y z hy hz => ?_, fun _ _ => hflag⟩
  rw [(howns y hy).resolve_right (hnobody y), (howns z hz).resolve_right (hnobody z)]

/-- The owner `x` hands over to `z`. -/
theorem pass (h : Exclusive owns flag) {x : ι} (hx : owns x = true) (z : ι)
    (howns : ∀ y, owns' y = true → y = z ∨ (owns y = true ∧ y ≠ x)) (hflag : flag' = flag) :
    Exclusive owns' flag' := by
  have honly (y : ι) (hy : owns' y = true) : y = z :=
    (howns y hy).resolve_right fun hold => hold.2 (h.unique y x hold.1 hx)
  refine ⟨fun y z hy hz => ?_, fun _ _ => hflag.trans (h.flagged x hx)⟩
  rw [honly y hy, honly z hz]

/-- The owner `x` gives up. -/
theorem release (h : Exclusive owns flag) {x : ι} (hx : owns x = true)
    (howns : ∀ y, owns' y = true → owns y = true ∧ y ≠ x) (flag' : Bool) :
    Exclusive owns' flag' := by
  have hnobody (y : ι) (hy : owns' y = true) : False :=
    (howns y hy).2 (h.unique y x (howns y hy).1 hx)
  exact ⟨fun y z hy hz => (hnobody y hy).elim, fun y hy => (hnobody y hy).elim⟩

end Exclusive
