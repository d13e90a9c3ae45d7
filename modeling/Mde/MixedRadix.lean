import Mathlib

/-!
# Mixed radix numbers

Numbers with a radix for every place, the most significant place first:
decimal digits of a fixed count, or hours, minutes and seconds.

`Fits` says that every digit is below the radix of its place. `value_lt`
bounds the number, `value_digits` and `digits_value` make reading and
writing inverse, and `value_lt_value_iff` says that numbers over the
same radices compare as their digits do.
-/

namespace MixedRadix

/-- Every digit is below the radix of its place. -/
abbrev Fits (ds radices : List Nat) : Prop := List.Forall₂ (· < ·) ds radices

def value : List Nat → List Nat → Nat
  | _ :: radices, d :: ds => d * radices.prod + value radices ds
  | _, _ => 0

def digits : List Nat → Nat → List Nat
  | [], _ => []
  | _ :: radices, n => n / radices.prod :: digits radices (n % radices.prod)

theorem length_digits (radices : List Nat) (n : Nat) :
    (digits radices n).length = radices.length := by
  induction radices generalizing n with
  | nil => rfl
  | cons radix radices ih => rw [digits, List.length_cons, ih, List.length_cons]

theorem value_lt {ds radices : List Nat} (h : Fits ds radices) :
    value radices ds < radices.prod := by
  induction h with
  | nil => exact Nat.one_pos
  | @cons d radix ds radices hd _ ih =>
      rw [value, List.prod_cons]
      calc d * radices.prod + value radices ds < d * radices.prod + radices.prod := by omega
        _ = (d + 1) * radices.prod := by ring
        _ ≤ radix * radices.prod := Nat.mul_le_mul_right _ hd

theorem fits_digits {radices : List Nat} {n : Nat} (h : n < radices.prod) :
    Fits (digits radices n) radices := by
  induction radices generalizing n with
  | nil => exact .nil
  | cons radix radices ih =>
      rw [List.prod_cons] at h
      have hpos : 0 < radices.prod := Nat.pos_of_ne_zero fun hz => by simp [hz] at h
      exact .cons ((Nat.div_lt_iff_lt_mul hpos).mpr h) (ih (Nat.mod_lt n hpos))

theorem value_digits {radices : List Nat} {n : Nat} (h : n < radices.prod) :
    value radices (digits radices n) = n := by
  induction radices generalizing n with
  | nil =>
      rw [List.prod_nil] at h
      rw [digits, value]
      · omega
      · intro _ _ _ _ hcons
        cases hcons
  | cons radix radices ih =>
      rw [List.prod_cons] at h
      have hpos : 0 < radices.prod := Nat.pos_of_ne_zero fun hz => by simp [hz] at h
      rw [digits, value, ih (Nat.mod_lt n hpos), Nat.div_add_mod']

theorem digits_value {ds radices : List Nat} (h : Fits ds radices) :
    digits radices (value radices ds) = ds := by
  induction h with
  | nil => rfl
  | @cons d radix ds radices _ hds ih =>
      have hlt := value_lt hds
      have hpos : 0 < radices.prod := by omega
      have hdiv : (d * radices.prod + value radices ds) / radices.prod = d := by
        rw [Nat.mul_comm, Nat.mul_add_div hpos, Nat.div_eq_of_lt hlt, Nat.add_zero]
      have hmod : (d * radices.prod + value radices ds) % radices.prod
          = value radices ds := by
        rw [Nat.mul_comm, Nat.mul_add_mod, Nat.mod_eq_of_lt hlt]
      rw [value, digits, hdiv, hmod, ih]

theorem mul_add_lt_iff {p d e v w : Nat} (hv : v < p) (hw : w < p) :
    d * p + v < e * p + w ↔ d < e ∨ d = e ∧ v < w := by
  have hupper : ∀ {d e v w : Nat}, d < e → v < p → d * p + v < e * p + w := by
    intro d e v w hde hv
    calc d * p + v < d * p + p := by omega
      _ = (d + 1) * p := by ring
      _ ≤ e * p := Nat.mul_le_mul_right _ hde
      _ ≤ e * p + w := Nat.le_add_right ..
  rcases Nat.lt_trichotomy d e with h | rfl | h
  · exact iff_of_true (hupper h hv) (.inl h)
  · simp
  · exact iff_of_false (Nat.lt_asymm (hupper h hw)) (by omega)

/-- **Numbers compare as their digits do.** -/
theorem value_lt_value_iff {ds es radices : List Nat} (hd : Fits ds radices)
    (he : Fits es radices) : value radices ds < value radices es ↔ ds < es := by
  induction hd generalizing es with
  | nil =>
      cases he
      simp [value]
  | cons _ hds ih =>
      cases he with
      | cons _ hes =>
          rw [value, value, mul_add_lt_iff (value_lt hds) (value_lt hes), ih hes,
            List.cons_lt_cons_iff]

/-! ## Texts of digits -/

theorem map_lt_map_iff {α : Type*} [LT α] {f : α → Nat} {s : Set α} (hinj : Set.InjOn f s)
    (hlt : ∀ x ∈ s, ∀ y ∈ s, f x < f y ↔ x < y) {xs ys : List α} (hxs : ∀ x ∈ xs, x ∈ s)
    (hys : ∀ y ∈ ys, y ∈ s) : xs.map f < ys.map f ↔ xs < ys := by
  induction xs generalizing ys with
  | nil => cases ys <;> simp
  | cons x xs ih =>
      cases ys with
      | nil => simp
      | cons y ys =>
          rw [List.forall_mem_cons] at hxs hys
          rw [List.map_cons, List.map_cons, List.cons_lt_cons_iff, List.cons_lt_cons_iff,
            hlt x hxs.1 y hys.1, hinj.eq_iff hxs.1 hys.1, ih hxs.2 hys.2]

theorem append_lt_append_iff {α : Type*} [LT α] {xs ys zs ws : List α}
    (h : xs.length = ys.length) :
    xs ++ zs < ys ++ ws ↔ xs < ys ∨ xs = ys ∧ zs < ws := by
  induction xs generalizing ys with
  | nil =>
      obtain rfl := List.length_eq_zero_iff.mp h.symm
      simp
  | cons x xs ih =>
      cases ys with
      | nil => cases h
      | cons y ys =>
          rw [List.cons_append, List.cons_append, List.cons_lt_cons_iff,
            List.cons_lt_cons_iff, ih (Nat.succ.inj h), List.cons.injEq, or_assoc, and_or_left,
            and_assoc]

end MixedRadix
