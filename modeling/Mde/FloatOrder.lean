import Mde.ComparatorMap

/-!
# Floating point as an order

The values of a floating-point format as comparisons see them: finite
numbers of a linear order, the two infinities around them, and NaN, which
is before nothing and behind nothing.

`lt` is the comparison `<`; the `LinearOrder` of `Value` is another one,
which has NaN behind everything. `lt_eq_decide` says that they agree on
all values but NaN, so that `lt` separates these (`separating_ne_nan`).
NaN is incomparable to every number, and no two numbers may join it in a
strict weak order (`not_strictWeakOn_of_nan`).
-/

namespace FloatOrder

open ComparatorMap

/-- A number, an infinity or NaN. Both zeros are one number. -/
inductive Value (R : Type*) where
  | finite (number : R)
  | infinity (negative : Bool)
  | nan
deriving DecidableEq, Repr

namespace Value

variable {R : Type*}

def isFinite : Value R → Bool
  | finite _ => true
  | _ => false

def rank : Value R → Nat ×ₗ WithBot R
  | infinity true => toLex (0, ⊥)
  | finite x => toLex (1, x)
  | infinity false => toLex (2, ⊥)
  | nan => toLex (3, ⊥)

theorem rank_injective : Function.Injective (rank (R := R)) := by
  intro x y h
  cases x with
  | finite x =>
      cases y with
      | finite y => simpa [rank] using h
      | infinity negative => cases negative <;> simp [rank] at h
      | nan => simp [rank] at h
  | infinity negative =>
      cases y with
      | finite y => cases negative <;> simp [rank] at h
      | infinity negative' => cases negative <;> cases negative' <;> simp [rank] at h ⊢
      | nan => cases negative <;> simp [rank] at h
  | nan =>
      cases y with
      | finite y => simp [rank] at h
      | infinity negative => cases negative <;> simp [rank] at h
      | nan => rfl

variable [LinearOrder R]

/-- The total order with NaN behind everything. -/
instance : LinearOrder (Value R) := LinearOrder.lift' rank rank_injective

def lt : Value R → Value R → Bool
  | finite x, finite y => x < y
  | finite _, infinity negative => !negative
  | infinity negative, finite _ => negative
  | infinity negative, infinity negative' => negative && !negative'
  | nan, _ => false
  | _, nan => false

theorem lt_eq_decide {x y : Value R} (hx : x ≠ nan) (hy : y ≠ nan) :
    lt x y = decide (x < y) := by
  have hrank : x < y ↔ rank x < rank y := Iff.rfl
  rw [Bool.eq_iff_iff, decide_eq_true_iff, hrank]
  cases x with
  | finite x =>
      cases y with
      | finite y => simp [lt, rank, Prod.Lex.toLex_lt_toLex]
      | infinity negative => cases negative <;> simp [lt, rank, Prod.Lex.toLex_lt_toLex]
      | nan => exact absurd rfl hy
  | infinity negative =>
      cases y with
      | finite y => cases negative <;> simp [lt, rank, Prod.Lex.toLex_lt_toLex]
      | infinity negative' =>
          cases negative <;> cases negative' <;> simp [lt, rank, Prod.Lex.toLex_lt_toLex]
      | nan => exact absurd rfl hy
  | nan => exact absurd rfl hx

theorem lt_nan_left (x : Value R) : lt nan x = false := by
  cases x <;> rfl

theorem lt_nan_right (x : Value R) : lt x nan = false := by
  cases x <;> rfl

theorem lt_eq_decide_of_ne_nan :
    ∀ x ∈ {x : Value R | x ≠ nan}, ∀ y ∈ {y : Value R | y ≠ nan}, lt x y = decide (x < y) :=
  fun _ hx _ hy => lt_eq_decide hx hy

theorem separating_ne_nan : Separating (lt (R := R)) {x | x ≠ nan} :=
  separating_of_eq_decide lt_eq_decide_of_ne_nan

/-- **NaN and two different numbers are in no strict weak order.** -/
theorem not_strictWeakOn_of_nan {s : Set (Value R)} {x y : Value R} (hnan : nan ∈ s)
    (hx : x ∈ s) (hy : y ∈ s) (hxy : lt x y = true) : ¬ StrictWeakOn lt s := by
  intro h
  have hincomparable := h.incomparable_trans x hx nan hnan y hy
    ⟨lt_nan_right x, lt_nan_left x⟩ ⟨lt_nan_left y, lt_nan_right y⟩
  rw [hincomparable.1] at hxy
  cases hxy

end Value

end FloatOrder
