import Mathlib

/-!
# A difference applied in signed arithmetic

A part of an unsigned 64-bit total is restated: the new value less the
old one is computed on the same bits read as signed numbers and added to
the total, read as signed too. The bits of the result are those of the
exact total (`toNat_applied`), but each of the two signed operations may
overflow on the way. `noOverflow_iff` says when neither does.
-/

namespace SignedDelta

def InInt64 (x : Int) : Prop := -2 ^ 63 ≤ x ∧ x < 2 ^ 63

def signed (x : UInt64) : Int := x.toInt64.toInt

/-- The difference of the signed readings, and its sum with the total's, are signed
64-bit integers. -/
structure NoOverflow (total oldValue newValue : UInt64) : Prop where
  subtraction : InInt64 (signed newValue - signed oldValue)
  addition : InInt64 (signed total + (signed newValue - signed oldValue))

/-- Both numbers read the same signed, or neither does. -/
def SameHalf (a b : Nat) : Prop := a < 2 ^ 63 ↔ b < 2 ^ 63

/-- The values are in the same half, and the total stays in its half; or the values are
so far apart that the difference wraps to the right number. -/
def Fits (total oldValue newValue : Nat) : Prop :=
  SameHalf oldValue newValue ∧ SameHalf total (total + newValue - oldValue)
    ∨ oldValue + 2 ^ 63 ≤ newValue ∨ newValue + 2 ^ 63 < oldValue

instance (total oldValue newValue : Nat) : Decidable (Fits total oldValue newValue) :=
  inferInstanceAs (Decidable
    (((oldValue < 2 ^ 63 ↔ newValue < 2 ^ 63)
        ∧ (total < 2 ^ 63 ↔ total + newValue - oldValue < 2 ^ 63))
      ∨ oldValue + 2 ^ 63 ≤ newValue ∨ newValue + 2 ^ 63 < oldValue))

theorem signed_eq (x : UInt64) :
    signed x = if x.toNat < 2 ^ 63 then (x.toNat : Int) else x.toNat - 2 ^ 64 := by
  have h : signed x = x.toBitVec.toInt := rfl
  rw [h, BitVec.toInt_eq_toNat_cond, UInt64.toNat_toBitVec]
  split <;> split <;> omega

variable {total oldValue newValue : UInt64}

theorem toNat_applied (hle : oldValue.toNat ≤ total.toNat + newValue.toNat)
    (hlt : total.toNat + newValue.toNat - oldValue.toNat < 2 ^ 64) :
    (total + (newValue - oldValue)).toNat
      = total.toNat + newValue.toNat - oldValue.toNat := by
  rw [UInt64.toNat_add, UInt64.toNat_sub]
  have := oldValue.toNat_lt
  omega

/-- **When the signed arithmetic is defined.** -/
theorem noOverflow_iff (hle : oldValue.toNat ≤ total.toNat + newValue.toNat)
    (hlt : total.toNat + newValue.toNat - oldValue.toNat < 2 ^ 64) :
    NoOverflow total oldValue newValue
      ↔ Fits total.toNat oldValue.toNat newValue.toNat := by
  have htotal := total.toNat_lt
  have hold := oldValue.toNat_lt
  have hnew := newValue.toNat_lt
  have hst := signed_eq total
  have hso := signed_eq oldValue
  have hsn := signed_eq newValue
  rw [Fits, SameHalf, SameHalf]
  constructor
  · rintro ⟨⟨hsub, hsub'⟩, hadd, hadd'⟩
    split at hst <;> split at hso <;> split at hsn <;> omega
  · intro h
    refine ⟨⟨?_, ?_⟩, ?_, ?_⟩ <;>
      split at hst <;> split at hso <;> split at hsn <;> omega

end SignedDelta
