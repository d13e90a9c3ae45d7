import Mathlib

/-!
# Sums over the entries of an ordered map

`sumOver m w` adds the weight `w k v` of every entry of a tree map. The
two structural facts are permutations of the entry list: an entry can
be split off (`toList_perm_cons_erase`), and a map keyed by pairs is
the disjoint union of its rows (`toList_perm_rows`). The update laws
(`sumOver_insert`, `sumOver_erase`) and the bounds follow from the
first, the two-level laws from the second.
-/

open Std

namespace TreeSum

universe u v w

variable {K : Type u} {V : Type v} {cmp : K → K → Ordering}
  [TransCmp cmp] [LawfulEqCmp cmp]

/-! ## Entries -/

theorem toList_nodup (m : ExtTreeMap K V cmp) : m.toList.Nodup :=
  m.distinct_keys_toList.imp fun h heq => h (by rw [heq]; exact ReflCmp.compare_self)

theorem getElem?_insert (m : ExtTreeMap K V cmp) [DecidableEq K] (k a : K) (v : V) :
    (m.insert k v)[a]? = if a = k then some v else m[a]? := by
  rw [ExtTreeMap.getElem?_insert]
  by_cases h : a = k
  · subst h; simp
  · have hne : ¬cmp k a = .eq := fun he => h (LawfulEqCmp.eq_of_compare he).symm
    simp [h, hne]

theorem getElem?_erase (m : ExtTreeMap K V cmp) [DecidableEq K] (k a : K) :
    (m.erase k)[a]? = if a = k then none else m[a]? := by
  rw [ExtTreeMap.getElem?_erase]
  by_cases h : a = k
  · subst h; simp
  · have hne : ¬cmp k a = .eq := fun he => h (LawfulEqCmp.eq_of_compare he).symm
    simp [h, hne]

theorem insert_self {m : ExtTreeMap K V cmp} {k : K} {v : V} (h : m[k]? = some v) :
    m.insert k v = m := by
  classical
  refine ExtTreeMap.ext_getElem? ?_
  intro a
  rw [getElem?_insert]
  split
  · rename_i ha; rw [ha, h]
  · rfl

theorem erase_of_none {m : ExtTreeMap K V cmp} {k : K} (h : m[k]? = none) :
    m.erase k = m := by
  classical
  refine ExtTreeMap.ext_getElem? ?_
  intro a
  rw [getElem?_erase]
  split
  · rename_i ha; rw [ha, h]
  · rfl

theorem erase_insert (m : ExtTreeMap K V cmp) (k : K) (v : V) :
    (m.insert k v).erase k = m.erase k := by
  classical
  refine ExtTreeMap.ext_getElem? ?_
  intro a
  rw [getElem?_erase, getElem?_erase, getElem?_insert]
  split <;> rfl

theorem insert_erase (m : ExtTreeMap K V cmp) (k : K) (v : V) :
    (m.erase k).insert k v = m.insert k v := by
  classical
  refine ExtTreeMap.ext_getElem? ?_
  intro a
  rw [getElem?_insert, getElem?_insert, getElem?_erase]
  split <;> rfl

theorem insert_insert (m : ExtTreeMap K V cmp) (k : K) (v v' : V) :
    (m.insert k v).insert k v' = m.insert k v' := by
  classical
  refine ExtTreeMap.ext_getElem? ?_
  intro a
  rw [getElem?_insert, getElem?_insert, getElem?_insert]
  split <;> rfl

theorem toList_perm_cons_erase {m : ExtTreeMap K V cmp} {k : K} {v : V}
    (h : m[k]? = some v) : m.toList.Perm ((k, v) :: (m.erase k).toList) := by
  classical
  have hnot : (k, v) ∉ (m.erase k).toList := fun hmem => by
    rw [ExtTreeMap.mem_toList_iff_getElem?_eq_some, getElem?_erase, if_pos rfl] at hmem
    cases hmem
  refine (List.perm_ext_iff_of_nodup (toList_nodup m)
    (List.nodup_cons.mpr ⟨hnot, toList_nodup _⟩)).mpr ?_
  rintro ⟨a, b⟩
  rw [List.mem_cons, ExtTreeMap.mem_toList_iff_getElem?_eq_some,
    ExtTreeMap.mem_toList_iff_getElem?_eq_some, getElem?_erase]
  by_cases ha : a = k
  · subst ha
    simp [h, eq_comm]
  · simp [ha]

theorem head?_toList_eq_some_iff {m : ExtTreeMap K V cmp} {k : K} {v : V} :
    m.toList.head? = some (k, v) ↔
      m[k]? = some v ∧ ∀ a b, m[a]? = some b → (cmp k a).isLE = true := by
  have hord := m.ordered_keys_toList
  constructor
  · intro h
    obtain ⟨rest, hrest⟩ : ∃ rest, m.toList = (k, v) :: rest := by
      cases hl : m.toList with
      | nil => rw [hl] at h; cases h
      | cons e es => rw [hl] at h; cases h; exact ⟨es, rfl⟩
    rw [hrest, List.pairwise_cons] at hord
    refine ⟨ExtTreeMap.mem_toList_iff_getElem?_eq_some.mp (by rw [hrest]; simp), ?_⟩
    intro a b hab
    have hmem := ExtTreeMap.mem_toList_iff_getElem?_eq_some.mpr hab
    rw [hrest] at hmem
    rcases List.mem_cons.mp hmem with heq | hmem
    · obtain ⟨rfl, rfl⟩ := Prod.mk.injEq .. |>.mp heq
      simp [ReflCmp.compare_self]
    · rw [hord.1 _ hmem]; rfl
  · rintro ⟨hk, hle⟩
    cases hl : m.toList with
    | nil =>
        have := ExtTreeMap.mem_toList_iff_getElem?_eq_some.mpr hk
        rw [hl] at this; cases this
    | cons e es =>
        have hmem := ExtTreeMap.mem_toList_iff_getElem?_eq_some.mpr hk
        rw [hl] at hmem hord
        rcases List.mem_cons.mp hmem with heq | hmem
        · simp [heq]
        · have hlt : cmp e.1 k = .lt := (List.pairwise_cons.mp hord).1 _ hmem
          have hge := hle e.1 e.2 (ExtTreeMap.mem_toList_iff_getElem?_eq_some.mp (by
            rw [hl]; exact List.mem_cons_self ..))
          rw [OrientedCmp.gt_of_lt hlt] at hge
          cases hge

theorem head?_toList_eq_some_iff_le {K : Type u} [LinearOrder K] {m : ExtTreeMap K V}
    {k : K} {v : V} :
    m.toList.head? = some (k, v) ↔ m[k]? = some v ∧ ∀ a b, m[a]? = some b → k ≤ a := by
  rw [head?_toList_eq_some_iff]
  simp only [← compare_le_iff_le, Ordering.isLE_iff_ne_gt]

theorem head?_toList_eq_none_iff {m : ExtTreeMap K V cmp} :
    m.toList.head? = none ↔ ∀ a : K, m[a]? = none := by
  rw [List.head?_eq_none_iff]
  constructor
  · intro h a
    cases ha : m[a]? with
    | none => rfl
    | some b =>
        have := ExtTreeMap.mem_toList_iff_getElem?_eq_some.mpr ha
        rw [h] at this; cases this
  · intro h
    refine List.eq_nil_iff_forall_not_mem.mpr ?_
    rintro ⟨a, b⟩ hab
    rw [ExtTreeMap.mem_toList_iff_getElem?_eq_some, h a] at hab
    cases hab

/-! ## Sums -/

section Sum

variable {M : Type w} [AddCommMonoid M]

def sumOver (m : ExtTreeMap K V cmp) (f : K → V → M) : M :=
  (m.toList.map fun e => f e.1 e.2).sum

@[simp] theorem sumOver_empty (f : K → V → M) :
    sumOver (∅ : ExtTreeMap K V cmp) f = 0 := by
  have h : (∅ : ExtTreeMap K V cmp).toList = [] :=
    List.head?_eq_none_iff.mp (head?_toList_eq_none_iff.mpr fun _ => by simp)
  simp [sumOver, h]

theorem sumOver_congr {m : ExtTreeMap K V cmp} {f g : K → V → M}
    (h : ∀ k v, m[k]? = some v → f k v = g k v) : sumOver m f = sumOver m g := by
  unfold sumOver
  congr 1
  refine List.map_congr_left fun e he => h _ _ ?_
  exact ExtTreeMap.mem_toList_iff_getElem?_eq_some.mp he

theorem sumOver_eq_add_erase {m : ExtTreeMap K V cmp} {k : K} {v : V}
    (h : m[k]? = some v) (f : K → V → M) :
    sumOver m f = f k v + sumOver (m.erase k) f := by
  unfold sumOver
  rw [((toList_perm_cons_erase h).map _).sum_eq]
  simp

theorem sumOver_insert (m : ExtTreeMap K V cmp) (k : K) (v : V) (f : K → V → M) :
    sumOver (m.insert k v) f = f k v + sumOver (m.erase k) f := by
  rw [sumOver_eq_add_erase ExtTreeMap.getElem?_insert_self, erase_insert]

theorem sumOver_single {m : ExtTreeMap K V cmp} (k : K) {f : K → V → M}
    (h : ∀ a v, a ≠ k → f a v = 0) : sumOver m f = (m[k]?).elim 0 (f k) := by
  classical
  cases hk : m[k]? with
  | some v =>
      rw [sumOver_eq_add_erase hk, sumOver_congr (g := fun _ _ => 0)]
      · simp [sumOver]
      · intro a b hab
        rw [getElem?_erase] at hab
        exact h a b fun ha => by simp [ha] at hab
  | none =>
      rw [sumOver_congr (g := fun _ _ => 0)]
      · simp [sumOver]
      · exact fun a b hab => h a b fun ha => by rw [ha, hk] at hab; cases hab

end Sum

theorem le_sumOver {m : ExtTreeMap K V cmp} {k : K} {v : V} (h : m[k]? = some v)
    (f : K → V → Nat) : f k v ≤ sumOver m f := by
  rw [sumOver_eq_add_erase h]; omega

omit [LawfulEqCmp cmp] in
theorem sumOver_le_sumOver {m : ExtTreeMap K V cmp} {f g : K → V → Nat}
    (h : ∀ k v, f k v ≤ g k v) : sumOver m f ≤ sumOver m g :=
  List.sum_le_sum fun e _ => h e.1 e.2

theorem sumOver_eq_zero_iff {m : ExtTreeMap K V cmp} {f : K → V → Nat} :
    sumOver m f = 0 ↔ ∀ k v, m[k]? = some v → f k v = 0 := by
  constructor
  · intro h k v hk
    have := le_sumOver hk f
    omega
  · intro h
    rw [sumOver_congr (g := fun _ _ => 0) h]
    simp [sumOver]

/-- A sum over some of the keys, each listed once, is at most the sum over all
of them. -/
theorem sum_le_sumOver (f : K → V → Nat) : ∀ (m : ExtTreeMap K V cmp)
    (es : List (K × V)), (es.map Prod.fst).Nodup →
      (∀ e ∈ es, m[e.1]? = some e.2) → (es.map fun e => f e.1 e.2).sum ≤ sumOver m f
  | _, [], _, _ => by simp
  | m, e :: es, hnd, hes => by
      classical
      obtain ⟨hnot, hnd'⟩ := List.nodup_cons.mp hnd
      have hrest : ∀ x ∈ es, (m.erase e.1)[x.1]? = some x.2 := fun x hx => by
        have hne : x.1 ≠ e.1 := fun h => hnot (h ▸ List.mem_map_of_mem hx)
        rw [getElem?_erase, if_neg hne]
        exact hes x (List.mem_cons_of_mem _ hx)
      have ih := sum_le_sumOver f (m.erase e.1) es hnd' hrest
      rw [sumOver_eq_add_erase (hes e (List.mem_cons_self ..)) f]
      simp only [List.map_cons, List.sum_cons]
      omega

omit [LawfulEqCmp cmp] in
theorem size_eq_sumOver (m : ExtTreeMap K V cmp) :
    m.size = sumOver m fun _ _ => 1 := by
  simp [sumOver, ExtTreeMap.length_toList]

/-! ## Maps keyed by pairs -/

section Rows

variable {A B R : Type*}
  {cmpP : A × B → A × B → Ordering} [TransCmp cmpP] [LawfulEqCmp cmpP]
  {cmpA : A → A → Ordering} [TransCmp cmpA] [LawfulEqCmp cmpA]
  {cmpB : B → B → Ordering} [TransCmp cmpB] [LawfulEqCmp cmpB]

theorem toList_perm_rows {m : ExtTreeMap (A × B) V cmpP} {rows : ExtTreeMap A R cmpA}
    {row : R → ExtTreeMap B V cmpB}
    (h : ∀ (a : A) (b : B), m[(a, b)]? = (rows[a]?).bind fun r => (row r)[b]?) :
    m.toList.Perm (rows.toList.flatMap fun e =>
      (row e.2).toList.map fun x => ((e.1, x.1), x.2)) := by
  refine (List.perm_ext_iff_of_nodup (toList_nodup m) ?_).mpr ?_
  · rw [List.nodup_flatMap]
    refine ⟨fun e _ => (toList_nodup _).map ?_, ?_⟩
    · rintro ⟨x, y⟩ ⟨x', y'⟩ heq
      simpa using heq
    · refine rows.distinct_keys_toList.imp fun {e e'} hne => ?_
      intro z hz hz'
      obtain ⟨x, -, rfl⟩ := List.mem_map.mp hz
      obtain ⟨x', -, heq⟩ := List.mem_map.mp hz'
      have hfst : e'.1 = e.1 := congrArg (fun p => p.1.1) heq
      exact hne (by rw [hfst]; exact ReflCmp.compare_self)
  · rintro ⟨⟨a, b⟩, v⟩
    simp only [ExtTreeMap.mem_toList_iff_getElem?_eq_some, h, List.mem_flatMap,
      List.mem_map, Prod.exists, Option.bind_eq_some_iff]
    constructor
    · rintro ⟨r, hr, hv⟩
      exact ⟨a, r, hr, b, v, hv, rfl⟩
    · rintro ⟨a', r, hr, b', v', hv, heq⟩
      obtain ⟨⟨rfl, rfl⟩, rfl⟩ : (a' = a ∧ b' = b) ∧ v' = v := by simpa using heq
      exact ⟨r, hr, hv⟩

theorem sumOver_rows {M : Type*} [AddCommMonoid M] {m : ExtTreeMap (A × B) V cmpP}
    {rows : ExtTreeMap A R cmpA} {row : R → ExtTreeMap B V cmpB}
    (h : ∀ (a : A) (b : B), m[(a, b)]? = (rows[a]?).bind fun r => (row r)[b]?)
    (f : A × B → V → M) :
    sumOver m f = sumOver rows fun a r => sumOver (row r) fun b v => f (a, b) v := by
  unfold sumOver
  rw [((toList_perm_rows h).map _).sum_eq, List.map_flatMap, List.flatMap_def,
    List.sum_flatten]
  simp [Function.comp_def]

end Rows

end TreeSum
