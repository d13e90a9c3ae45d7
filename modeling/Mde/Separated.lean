import Mathlib

/-!
# Splitting by positions

A list split at a separator, by way of the separators' positions.

`seps` lists the positions, `next?` finds the first one at or after a
given place, `cut` takes the `n`-th field out of the list with the
positions at hand. `cut_seps` says that with all positions `cut` gives
the fields of `List.splitOn`, `cut_congr` that the two positions around
a field are all it looks at, `next?_after` that looking behind the last
position found finds the next one.
-/

namespace Separated

variable {α : Type*} [DecidableEq α] (sep : α)

def seps : List α → List Nat
  | [] => []
  | x :: xs => if x = sep then 0 :: (seps xs).map (· + 1) else (seps xs).map (· + 1)

/-- The first separator at or after `start`. -/
def next? (xs : List α) (start : Nat) : Option Nat :=
  ((xs.drop start).findIdx? (· = sep)).map (· + start)

omit [DecidableEq α] in
/-- Where the `n`-th field starts: behind the separator before it, and past the
end when there is none. -/
def start (xs : List α) (positions : List Nat) (n : Nat) : Nat :=
  if n = 0 then 0
  else match positions[n - 1]? with
    | some p => p + 1
    | none => xs.length + 1

omit [DecidableEq α] in
/-- The `n`-th field, between the positions of the separators around it. -/
def cut (xs : List α) (positions : List Nat) (n : Nat) : Option (List α) :=
  if start xs positions n > xs.length then none
  else some ((xs.drop (start xs positions n)).take
    ((positions[n]?).getD xs.length - start xs positions n))

/-! ## Positions -/

theorem seps_pairwise (xs : List α) : (seps sep xs).Pairwise (· < ·) := by
  induction xs with
  | nil => exact List.Pairwise.nil
  | cons x xs ih =>
      have hmap : ((seps sep xs).map (· + 1)).Pairwise (· < ·) :=
        List.pairwise_map.mpr (ih.imp fun h => Nat.succ_lt_succ h)
      rw [seps]
      split
      · refine List.pairwise_cons.mpr ⟨?_, hmap⟩
        intro p hp
        obtain ⟨q, -, rfl⟩ := List.mem_map.mp hp
        exact Nat.succ_pos q
      · exact hmap

theorem next?_eq_find? (xs : List α) (start : Nat) :
    next? sep xs start = (seps sep xs).find? (start ≤ ·) := by
  induction xs generalizing start with
  | nil => simp [next?, seps]
  | cons x xs ih =>
      cases start with
      | zero =>
          have hz := ih 0
          simp only [next?, List.drop_zero, Nat.add_zero, Option.map_id'] at hz
          rw [next?, List.drop_zero, List.findIdx?_cons, seps]
          by_cases hx : x = sep
          · simp [hx]
          · simp only [hx, decide_false, Bool.false_eq_true, if_false, hz, List.find?_map]
            simp [Function.comp_def]
      | succ start =>
          rw [next?, List.drop_succ_cons, seps]
          have hs := ih start
          rw [next?] at hs
          have hmap : ((seps sep xs).map (· + 1)).find? (start + 1 ≤ ·)
              = ((seps sep xs).find? (start ≤ ·)).map (· + 1) := by
            rw [List.find?_map]
            simp
          split
          · rw [List.find?_cons_of_neg (by simp), hmap, ← hs, Option.map_map]
            rfl
          · rw [hmap, ← hs, Option.map_map]
            rfl

theorem next?_after (xs : List α) (k : Nat) :
    next? sep xs (match ((seps sep xs).take k).getLast? with
        | some p => p + 1
        | none => 0)
      = (seps sep xs)[k]? := by
  have hpw : ((seps sep xs).take k ++ (seps sep xs).drop k).Pairwise (· < ·) := by
    rw [List.take_append_drop]
    exact seps_pairwise sep xs
  obtain ⟨htake, -, hlt⟩ := List.pairwise_append.mp hpw
  have hhead : (seps sep xs)[k]? = ((seps sep xs).drop k).head? := by
    rw [List.head?_drop]
  rw [next?_eq_find?, hhead]
  -- the positions taken lie before the search, the others do not
  have hfind : ∀ start, (∀ p ∈ (seps sep xs).take k, p < start) →
      (∀ p ∈ (seps sep xs).drop k, start ≤ p) →
      (seps sep xs).find? (start ≤ ·) = ((seps sep xs).drop k).head? := by
    intro start hbefore hafter
    conv_lhs => rw [← List.take_append_drop k (seps sep xs)]
    have hnone : ((seps sep xs).take k).find? (start ≤ ·) = none :=
      List.find?_eq_none.mpr fun p hp => by simpa using hbefore p hp
    rw [List.find?_append, hnone, Option.none_or]
    cases hd : (seps sep xs).drop k with
    | nil => rfl
    | cons p ps =>
        have hp := hafter p (by rw [hd]; exact List.mem_cons_self ..)
        simp [hp]
  cases hlast : ((seps sep xs).take k).getLast? with
  | none =>
      refine hfind 0 ?_ fun p _ => Nat.zero_le p
      intro p hp
      rw [List.getLast?_eq_none_iff.mp hlast] at hp
      cases hp
  | some last =>
      obtain ⟨front, hfront⟩ := List.getLast?_eq_some_iff.mp hlast
      rw [hfront] at htake hlt hfind
      refine hfind (last + 1) ?_ fun p hp => hlt last (by simp) p hp
      intro p hp
      rcases List.mem_append.mp hp with hp | hp
      · exact Nat.lt_succ_of_lt ((List.pairwise_append.mp htake).2.2 p hp last (by simp))
      · rw [List.mem_singleton.mp hp]
        exact Nat.lt_succ_self last

/-! ## Fields -/

omit [DecidableEq α] in
theorem cut_congr {xs : List α} {positions positions' : List Nat} {n : Nat}
    (hbefore : n ≠ 0 → positions[n - 1]? = positions'[n - 1]?)
    (hafter : positions[n]? = positions'[n]?) : cut xs positions n = cut xs positions' n := by
  have hstart : start xs positions n = start xs positions' n := by
    rw [start, start]
    split
    · rfl
    · rename_i hn
      rw [hbefore hn]
  rw [cut, cut, hstart, hafter]

omit [DecidableEq α] in
theorem cut_cons_sep (x : α) (xs : List α) (positions : List Nat) (n : Nat) :
    cut (x :: xs) (0 :: positions.map (· + 1)) (n + 1) = cut xs positions n := by
  cases n with
  | zero => cases h : positions[0]? <;> simp [cut, start, h]
  | succ n => cases h : positions[n]? <;> cases h' : positions[n + 1]? <;> simp [cut, start, h, h']

omit [DecidableEq α] in
theorem cut_cons_succ (x : α) (xs : List α) (positions : List Nat) (n : Nat) :
    cut (x :: xs) (positions.map (· + 1)) (n + 1) = cut xs positions (n + 1) := by
  cases h : positions[n]? <;> cases h' : positions[n + 1]? <;> simp [cut, start, h, h']

omit [DecidableEq α] in
theorem cut_cons_zero (x : α) (xs : List α) (positions : List Nat) :
    cut (x :: xs) (positions.map (· + 1)) 0 = (cut xs positions 0).map (x :: ·) := by
  cases h : positions[0]? <;> simp [cut, start, h]

theorem cut_seps (xs : List α) (n : Nat) :
    cut xs (seps sep xs) n = (xs.splitOn sep)[n]? := by
  induction xs generalizing n with
  | nil => cases n <;> simp [cut, start, seps]
  | cons x xs ih =>
      rw [seps, List.splitOn_cons_eq_if_modifyHead]
      by_cases hx : x = sep
      · simp only [hx, beq_self_eq_true, if_true]
        cases n with
        | zero => simp [cut, start]
        | succ n => rw [cut_cons_sep, ih, List.getElem?_cons_succ]
      · rw [if_neg hx, if_neg (by simpa using hx)]
        cases n with
        | zero =>
            rw [cut_cons_zero, ih]
            cases xs.splitOn sep <;> rfl
        | succ n =>
            rw [cut_cons_succ, ih]
            cases xs.splitOn sep <;> rfl

theorem length_splitOn (xs : List α) : (xs.splitOn sep).length = xs.count sep + 1 := by
  induction xs with
  | nil => rfl
  | cons x xs ih =>
      rw [List.splitOn_cons_eq_if_modifyHead, List.count_cons]
      split
      · rw [List.length_cons, ih]
      · rw [List.length_modifyHead, ih, Nat.add_zero]

theorem mem_of_mem_splitOn {xs field : List α} (h : field ∈ xs.splitOn sep) {x : α}
    (hx : x ∈ field) : x ∈ xs ∧ x ≠ sep := by
  induction xs generalizing field with
  | nil =>
      rw [List.splitOn_nil, List.mem_singleton] at h
      subst h
      cases hx
  | cons y ys ih =>
      rw [List.splitOn_cons_eq_if_modifyHead] at h
      split at h
      · rcases List.mem_cons.mp h with rfl | h
        · cases hx
        · exact (ih h hx).imp_left (List.mem_cons_of_mem y)
      · rename_i hy
        cases hsplit : ys.splitOn sep with
        | nil => exact absurd hsplit (List.splitOn_ne_nil sep ys)
        | cons head fields =>
            rw [hsplit, List.modifyHead_cons] at h
            rw [hsplit] at ih
            rcases List.mem_cons.mp h with rfl | h
            · rcases List.mem_cons.mp hx with rfl | hx
              · exact ⟨List.mem_cons_self .., by simpa using hy⟩
              · exact (ih (List.mem_cons_self ..) hx).imp_left (List.mem_cons_of_mem y)
            · exact (ih (List.mem_cons_of_mem _ h) hx).imp_left (List.mem_cons_of_mem y)

omit [DecidableEq α] in
theorem mem_of_mem_intercalate {fields : List (List α)} {x : α}
    (h : x ∈ [sep].intercalate fields) : x = sep ∨ ∃ field ∈ fields, x ∈ field := by
  induction fields with
  | nil => cases h
  | cons field fields ih =>
      cases fields with
      | nil => exact .inr ⟨field, List.mem_cons_self .., by simpa [List.intercalate] using h⟩
      | cons field' fields =>
          have hjoin : [sep].intercalate (field :: field' :: fields)
              = field ++ (sep :: [sep].intercalate (field' :: fields)) := by
            simp [List.intercalate]
          rw [hjoin, List.mem_append, List.mem_cons] at h
          rcases h with h | rfl | h
          · exact .inr ⟨field, List.mem_cons_self .., h⟩
          · exact .inl rfl
          · refine (ih h).imp_right ?_
            rintro ⟨field'', hmem, hx⟩
            exact ⟨field'', List.mem_cons_of_mem _ hmem, hx⟩

end Separated
