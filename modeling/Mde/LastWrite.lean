import Mde.TreeSum

/-!
# The last write wins

Maps and cells that a list of writes goes into, one after the other. A
cell ends with the last value written (`foldl_getD`); a map has at each
key the last value written there (`getElem?_insertAll`), and when no key is
written twice the map holds exactly what was written
(`getElem?_insertAll_empty`, `sumOver_insertAll`).
-/

open Std TreeSum

namespace LastWrite

/-! ## Cells -/

theorem foldl_getD {A V : Type*} (write : A → Option V) (items : List A) (v : V) :
    items.foldl (fun v item => (write item).getD v) v
      = (items.filterMap write).getLast?.getD v := by
  induction items using List.reverseRecOn with
  | nil => rfl
  | append_singleton items item ih =>
      rw [List.foldl_append, List.foldl_cons, List.foldl_nil, ih, List.filterMap_append]
      cases hwrite : write item with
      | none => simp [hwrite]
      | some w => simp [hwrite]

/-! ## Maps -/

universe u v

variable {K : Type u} {V : Type v} {cmp : K → K → Ordering}
  [TransCmp cmp] [LawfulEqCmp cmp]

def insertAll (m : ExtTreeMap K V cmp) (entries : List (K × V)) : ExtTreeMap K V cmp :=
  entries.foldl (fun m e => m.insert e.1 e.2) m

omit [LawfulEqCmp cmp] in
theorem insertAll_append_singleton (m : ExtTreeMap K V cmp) (entries : List (K × V))
    (e : K × V) : insertAll m (entries ++ [e]) = (insertAll m entries).insert e.1 e.2 := by
  simp [insertAll]

def valuesAt [DecidableEq K] (k : K) (entries : List (K × V)) : List V :=
  entries.filterMap fun e => if e.1 = k then some e.2 else none

theorem getElem?_insertAll [DecidableEq K] (m : ExtTreeMap K V cmp)
    (entries : List (K × V)) (k : K) :
    (insertAll m entries)[k]? = (valuesAt k entries).getLast?.or m[k]? := by
  induction entries using List.reverseRecOn with
  | nil => simp [insertAll, valuesAt]
  | append_singleton entries e ih =>
      rw [insertAll_append_singleton, TreeSum.getElem?_insert, ih, valuesAt, valuesAt,
        List.filterMap_append]
      by_cases hk : k = e.1
      · simp [hk]
      · simp [hk, Ne.symm hk]

omit [LawfulEqCmp cmp] in
theorem foldl_insert_eq {A R : Type*} (read : A → Option R) (key : R → K) (value : R → V)
    (items : List A) (m : ExtTreeMap K V cmp) :
    items.foldl (fun m item => ((read item).map fun r => m.insert (key r) (value r)).getD m) m
      = insertAll m ((items.filterMap read).map fun r => (key r, value r)) := by
  induction items generalizing m with
  | nil => rfl
  | cons item items ih =>
      rw [List.foldl_cons, ih, List.filterMap_cons]
      cases read item <;> rfl

theorem getElem?_insertAll_map [DecidableEq K] {R : Type*} (key : R → K) (value : R → V)
    (records : List R) (k : K) :
    (insertAll (∅ : ExtTreeMap K V cmp) (records.map fun r => (key r, value r)))[k]?
      = ((records.filter fun r => key r = k).getLast?).map value := by
  have hvalues : valuesAt k (records.map fun r => (key r, value r))
      = (records.filter fun r => key r = k).map value := by
    induction records with
    | nil => rfl
    | cons r records ih =>
        rw [valuesAt, List.map_cons, List.filterMap_cons, ← valuesAt, ih]
        by_cases hk : key r = k
        · simp [hk]
        · simp [hk]
  rw [getElem?_insertAll, hvalues, List.getLast?_map]
  simp

/-! ### Writes at different keys -/

variable {entries : List (K × V)}

theorem getElem?_insertAll_empty (hnodup : (entries.map Prod.fst).Nodup) (k : K) (v : V) :
    (insertAll (∅ : ExtTreeMap K V cmp) entries)[k]? = some v ↔ (k, v) ∈ entries := by
  classical
  induction entries using List.reverseRecOn with
  | nil => simp [insertAll]
  | append_singleton entries e ih =>
      rw [List.map_append, List.nodup_append] at hnodup
      obtain ⟨hnodup, -, hdisjoint⟩ := hnodup
      have hnew : ∀ v', (e.1, v') ∉ entries := fun v' hmem =>
        hdisjoint e.1 (List.mem_map.mpr ⟨(e.1, v'), hmem, rfl⟩) e.1 (by simp) rfl
      rw [insertAll_append_singleton, TreeSum.getElem?_insert, List.mem_append,
        List.mem_singleton]
      by_cases hk : k = e.1
      · subst hk
        rw [if_pos rfl, Option.some.injEq]
        constructor
        · rintro rfl
          exact .inr rfl
        · rintro (hmem | heq)
          · exact absurd hmem (hnew v)
          · exact (congrArg Prod.snd heq).symm
      · rw [if_neg hk, ih hnodup]
        refine ⟨.inl, ?_⟩
        rintro (hmem | rfl)
        · exact hmem
        · exact absurd rfl hk

theorem sumOver_insertAll {M : Type*} [AddCommMonoid M]
    (hnodup : (entries.map Prod.fst).Nodup) (f : K → V → M) :
    sumOver (insertAll (∅ : ExtTreeMap K V cmp) entries) f
      = (entries.map fun e => f e.1 e.2).sum := by
  classical
  induction entries using List.reverseRecOn with
  | nil => exact sumOver_empty f
  | append_singleton entries e ih =>
      have hnew : (insertAll (∅ : ExtTreeMap K V cmp) entries)[e.1]? = none := by
        rw [List.map_append, List.nodup_append] at hnodup
        obtain ⟨hnodup, -, hdisjoint⟩ := hnodup
        refine Option.eq_none_iff_forall_not_mem.mpr ?_
        intro v hv
        have hmem := (getElem?_insertAll_empty hnodup e.1 v).mp hv
        exact hdisjoint e.1 (List.mem_map.mpr ⟨(e.1, v), hmem, rfl⟩) e.1 (by simp) rfl
      rw [insertAll_append_singleton, sumOver_insert, TreeSum.erase_of_none hnew,
        ih (by rw [List.map_append] at hnodup; exact (List.nodup_append.mp hnodup).1)]
      simp [add_comm]

end LastWrite
