import Mathlib

/-!
# Freezing a view of a run

A run that keeps, besides its state, what the state looked like after the
last message of some kind: `freeze` overwrites the frozen view at every
message `p` holds of.

After a run it is the view of the run up to the last such message
(`foldl_freeze`). Where the view only depends on the messages `q` holds
of, and those of them to freeze at come before the others, that is the
view of the run of the messages to freeze at (`filter_upTo`).
-/

namespace Frozen

variable {S M X : Type*} (step : S → M → S) (view : S → X) (p : M → Bool)

def freeze (s : S × Option X) (m : M) : S × Option X :=
  (step s.1 m, if p m then some (view (step s.1 m)) else s.2)

/-- The messages up to the last one to freeze at. -/
def upTo (ms : List M) : List M := ms.rdropWhile fun m => !p m

theorem upTo_append_singleton (ms : List M) (m : M) :
    upTo p (ms ++ [m]) = if p m then ms ++ [m] else upTo p ms := by
  rw [upTo, List.rdropWhile_concat]
  cases p m <;> rfl

theorem upTo_eq_nil_iff (ms : List M) : upTo p ms = [] ↔ ms.filter p = [] := by
  rw [upTo, List.rdropWhile_eq_nil_iff, List.filter_eq_nil_iff]
  simp

/-- What is frozen is the view of the run up to the last message to freeze at. -/
theorem foldl_freeze (s : S) (ms : List M) :
    ms.foldl (freeze step view p) (s, none)
      = (ms.foldl step s,
        if upTo p ms = [] then none else some (view ((upTo p ms).foldl step s))) := by
  induction ms using List.reverseRecOn with
  | nil => rfl
  | append_singleton ms m ih =>
      rw [List.foldl_append, ih, upTo_append_singleton]
      cases hm : p m with
      | true => simp [freeze, hm]
      | false => simp [freeze, hm]

variable {p}

/-- When the messages to freeze at come first among those in `q`, they are the ones in
`q` that the run up to the last of them has seen. -/
theorem filter_upTo {q : M → Bool} (hq : ∀ m, p m = true → q m = true) {ms : List M}
    (hfirst : (ms.filter q).Pairwise fun m m' => p m' = true → p m = true) :
    (upTo p ms).filter q = ms.filter p := by
  induction ms using List.reverseRecOn with
  | nil => rfl
  | append_singleton ms m ih =>
      rw [List.filter_append, List.pairwise_append] at hfirst
      obtain ⟨hms, -, hm⟩ := hfirst
      rw [upTo_append_singleton]
      split
      · rename_i hpm
        have hall : ∀ m' ∈ ms.filter q, p m' = true := fun m' hm' =>
          hm m' hm' m (by simp [hq m hpm]) hpm
        have hsame : ms.filter q = ms.filter p := by
          rw [← List.filter_eq_self.mpr hall, List.filter_filter]
          refine List.filter_congr fun m' _ => ?_
          cases hpm' : p m' with
          | true => simp [hq m' hpm']
          | false => rfl
        simp [List.filter_append, hsame, hpm, hq m hpm]
      · rename_i hpm
        rw [ih hms, List.filter_append]
        simp [hpm]

end Frozen
