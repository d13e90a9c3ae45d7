import Mathlib

/-!
# Maps ordered by a comparator

A map that knows its keys through a comparator only: the entries in the
comparator's order, searched for the first key that is not before the one
wanted, which is taken for it when neither is before the other.

- `StrictWeakOn` is what such a map asks of its comparator, on the keys
  that ever reach it; `Separating` adds that keys the comparator does not
  tell apart are the same.
- `find?_eq_some_iff`: among separated keys the search finds exactly the
  entry of the key wanted.
- `Sorted.alter` and `mem_alter_iff`: an entry is put in, changed or taken
  out at its key, and the order and the other entries stay.
- `Sorted.ext`: the entries determine the map.

Nothing is said of keys on which the comparator is no such order: the
search may then end at an entry of another key.
-/

namespace ComparatorMap

variable {K V : Type*} (lt : K → K → Bool)

/-- Neither key is before the other. -/
def Incomparable (x y : K) : Prop := lt x y = false ∧ lt y x = false

structure StrictWeakOn (s : Set K) : Prop where
  irrefl : ∀ x ∈ s, lt x x = false
  trans : ∀ x ∈ s, ∀ y ∈ s, ∀ z ∈ s, lt x y = true → lt y z = true → lt x z = true
  incomparable_trans : ∀ x ∈ s, ∀ y ∈ s, ∀ z ∈ s,
    Incomparable lt x y → Incomparable lt y z → Incomparable lt x z

/-- A strict weak order that tells different keys apart. -/
structure Separating (s : Set K) : Prop extends StrictWeakOn lt s where
  eq_of_incomparable : ∀ x ∈ s, ∀ y ∈ s, Incomparable lt x y → x = y

/-- The value at the first key that is not before `key`, unless `key` is before it. -/
def find? (key : K) : List (K × V) → Option V
  | [] => none
  | (k, v) :: entries =>
    if lt k key then find? key entries
    else if lt key k then none
    else some v

/-- Change what the map holds at `key`, from `none` for nothing to `none` for
nothing. -/
def alter (key : K) (f : Option V → Option V) : List (K × V) → List (K × V)
  | [] => ((f none).map fun v => (key, v)).toList
  | (k, v) :: entries =>
    if lt k key then (k, v) :: alter key f entries
    else if lt key k then ((f none).map fun w => (key, w)).toList ++ (k, v) :: entries
    else ((f (some v)).map fun w => (k, w)).toList ++ entries

structure Sorted (s : Set K) (entries : List (K × V)) : Prop where
  pairwise : entries.Pairwise fun e e' => lt e.1 e'.1 = true
  keys : ∀ e ∈ entries, e.1 ∈ s

variable {lt} {s t : Set K} {entries : List (K × V)} {key k : K} {v : V}

/-! ## Orders on fewer keys, and the other way round -/

theorem StrictWeakOn.mono (h : StrictWeakOn lt t) (hst : s ⊆ t) : StrictWeakOn lt s where
  irrefl x hx := h.irrefl x (hst hx)
  trans x hx y hy z hz := h.trans x (hst hx) y (hst hy) z (hst hz)
  incomparable_trans x hx y hy z hz :=
    h.incomparable_trans x (hst hx) y (hst hy) z (hst hz)

theorem StrictWeakOn.flip (h : StrictWeakOn lt s) : StrictWeakOn (fun x y => lt y x) s where
  irrefl := h.irrefl
  trans x hx y hy z hz hxy hyz := h.trans z hz y hy x hx hyz hxy
  incomparable_trans x hx y hy z hz hxy hyz :=
    (h.incomparable_trans x hx y hy z hz hxy.symm hyz.symm).symm

theorem Separating.flip (h : Separating lt s) : Separating (fun x y => lt y x) s where
  toStrictWeakOn := h.toStrictWeakOn.flip
  eq_of_incomparable x hx y hy hxy := h.eq_of_incomparable x hx y hy hxy.symm

theorem separating_of_eq_decide [LinearOrder K]
    (h : ∀ x ∈ s, ∀ y ∈ s, lt x y = decide (x < y)) : Separating lt s where
  irrefl x hx := by simp [h x hx x hx]
  trans x hx y hy z hz hxy hyz := by
    simp only [h x hx y hy, h y hy z hz, h x hx z hz, decide_eq_true_eq] at *
    exact lt_trans hxy hyz
  incomparable_trans x hx y hy z hz hxy hyz := by
    simp only [Incomparable, h x hx y hy, h y hy x hx, h y hy z hz, h z hz y hy, h x hx z hz,
      h z hz x hx, decide_eq_false_iff_not, not_lt] at *
    exact ⟨le_trans hyz.1 hxy.1, le_trans hxy.2 hyz.2⟩
  eq_of_incomparable x hx y hy hxy := by
    simp only [Incomparable, h x hx y hy, h y hy x hx, decide_eq_false_iff_not, not_lt] at hxy
    exact le_antisymm hxy.2 hxy.1

/-! ## Searching -/

theorem sorted_nil : Sorted lt s ([] : List (K × V)) := ⟨.nil, by simp⟩

theorem sorted_cons_iff {e : K × V} :
    Sorted lt s (e :: entries)
      ↔ (∀ e' ∈ entries, lt e.1 e'.1 = true) ∧ e.1 ∈ s ∧ Sorted lt s entries := by
  constructor
  · rintro ⟨hp, hk⟩
    obtain ⟨hhead, htail⟩ := List.pairwise_cons.mp hp
    rw [List.forall_mem_cons] at hk
    exact ⟨hhead, hk.1, htail, hk.2⟩
  · rintro ⟨hhead, he, hp, hk⟩
    exact ⟨List.pairwise_cons.mpr ⟨hhead, hp⟩, List.forall_mem_cons.mpr ⟨he, hk⟩⟩

theorem Sorted.not_mem_tail {w : V} (h : Sorted lt s ((k, w) :: entries))
    (hbefore : lt k key = false) : (key, v) ∉ entries := by
  intro hmem
  have hlt := (sorted_cons_iff.mp h).1 (key, v) hmem
  rw [hbefore] at hlt
  cases hlt

/-- **The search finds the entry of the key wanted, and no other.** -/
theorem find?_eq_some_iff (hs : Separating lt s) (hkey : key ∈ s)
    (h : Sorted lt s entries) : find? lt key entries = some v ↔ (key, v) ∈ entries := by
  induction entries with
  | nil => simp [find?]
  | cons e entries ih =>
      obtain ⟨k, w⟩ := e
      obtain ⟨-, hk, htail⟩ := sorted_cons_iff.mp h
      rw [find?, List.mem_cons, Prod.mk.injEq]
      by_cases hbefore : lt k key = true
      · have hne : key ≠ k := by
          rintro rfl
          rw [hs.irrefl key hkey] at hbefore
          cases hbefore
        rw [if_pos hbefore, ih htail]
        simp [hne]
      · rw [Bool.not_eq_true] at hbefore
        have htail' : (key, v) ∉ entries := h.not_mem_tail hbefore
        rw [if_neg (by simp [hbefore])]
        by_cases hafter : lt key k = true
        · have hne : key ≠ k := by
            rintro rfl
            rw [hs.irrefl key hkey] at hafter
            cases hafter
          rw [if_pos hafter]
          simp [hne, htail']
        · rw [Bool.not_eq_true] at hafter
          have heq := hs.eq_of_incomparable key hkey k hk ⟨hafter, hbefore⟩
          rw [if_neg (by simp [hafter])]
          simp [heq, eq_comm, heq ▸ htail']

/-- A map in order is determined by its entries. -/
theorem Sorted.ext (hs : StrictWeakOn lt s) {entries' : List (K × V)} (h : Sorted lt s entries)
    (h' : Sorted lt s entries') (hmem : ∀ e, e ∈ entries ↔ e ∈ entries') :
    entries = entries' := by
  have hasymm : ∀ a b : K × V, a ∈ entries → b ∈ entries → lt a.1 b.1 = true →
      lt b.1 a.1 = true → False := by
    intro a b ha hb hab hba
    have haa := hs.trans a.1 (h.keys a ha) b.1 (h.keys b hb) a.1 (h.keys a ha) hab hba
    rw [hs.irrefl a.1 (h.keys a ha)] at haa
    cases haa
  have hnodup : ∀ {l : List (K × V)}, Sorted lt s l → l.Nodup := fun {l} hl =>
    hl.pairwise.imp_of_mem fun {a b} ha _ hab heq => by
      rw [← heq, hs.irrefl a.1 (hl.keys a ha)] at hab
      cases hab
  refine List.Perm.eq_of_pairwise (fun a b ha hb hab hba => ?_) h.pairwise h'.pairwise
    ((List.perm_ext_iff_of_nodup (hnodup h) (hnodup h')).mpr hmem)
  exact (hasymm a b ha ((hmem b).mpr hb) hab hba).elim

/-! ## Changing an entry -/

theorem mem_keys_alter {f : Option V → Option V} {e : K × V} (h : e ∈ alter lt key f entries) :
    e.1 = key ∨ ∃ e' ∈ entries, e.1 = e'.1 := by
  induction entries with
  | nil =>
      simp only [alter, Option.mem_toList, Option.map_eq_some_iff] at h
      obtain ⟨w, -, rfl⟩ := h
      exact .inl rfl
  | cons e' entries ih =>
      obtain ⟨k, w⟩ := e'
      rw [alter] at h
      split at h
      · rcases List.mem_cons.mp h with rfl | h
        · exact .inr ⟨_, List.mem_cons_self .., rfl⟩
        · rcases ih h with h | ⟨e', he', heq⟩
          · exact .inl h
          · exact .inr ⟨e', List.mem_cons_of_mem _ he', heq⟩
      · split at h
        · rcases List.mem_append.mp h with h | h
          · simp only [Option.mem_toList, Option.map_eq_some_iff] at h
            obtain ⟨w', -, rfl⟩ := h
            exact .inl rfl
          · exact .inr ⟨e, h, rfl⟩
        · rcases List.mem_append.mp h with h | h
          · simp only [Option.mem_toList, Option.map_eq_some_iff] at h
            obtain ⟨w', -, rfl⟩ := h
            exact .inr ⟨_, List.mem_cons_self .., rfl⟩
          · exact .inr ⟨e, List.mem_cons_of_mem _ h, rfl⟩

theorem Sorted.alter (hs : Separating lt s) (hkey : key ∈ s) (h : Sorted lt s entries)
    (f : Option V → Option V) : Sorted lt s (alter lt key f entries) := by
  induction entries with
  | nil =>
      rw [ComparatorMap.alter]
      cases f none with
      | none => exact sorted_nil
      | some w => exact sorted_cons_iff.mpr ⟨by simp, hkey, sorted_nil⟩
  | cons e entries ih =>
      obtain ⟨k, w⟩ := e
      obtain ⟨hhead, hk, htail⟩ := sorted_cons_iff.mp h
      rw [ComparatorMap.alter]
      by_cases hbefore : lt k key = true
      · rw [if_pos hbefore]
        refine sorted_cons_iff.mpr ⟨fun e' he' => ?_, hk, ih htail⟩
        rcases mem_keys_alter he' with heq | ⟨e'', he'', heq⟩
        · rw [heq]
          exact hbefore
        · rw [heq]
          exact hhead e'' he''
      · rw [if_neg hbefore]
        by_cases hafter : lt key k = true
        · rw [if_pos hafter]
          cases f none with
          | none => exact h
          | some w' =>
              refine sorted_cons_iff.mpr ⟨fun e' he' => ?_, hkey, h⟩
              rcases List.mem_cons.mp he' with rfl | he'
              · exact hafter
              · exact hs.trans key hkey k hk e'.1 (htail.keys e' he') hafter (hhead e' he')
        · rw [if_neg hafter]
          cases f (some w) with
          | none => exact htail
          | some w' => exact sorted_cons_iff.mpr ⟨hhead, hk, htail⟩

theorem mem_alter_iff (hs : Separating lt s) (hkey : key ∈ s) (h : Sorted lt s entries)
    (f : Option V → Option V) (e : K × V) :
    e ∈ alter lt key f entries
      ↔ (e.1 = key ∧ f (find? lt key entries) = some e.2) ∨ (e.1 ≠ key ∧ e ∈ entries) := by
  have hput : ∀ o : Option V, e ∈ (o.map fun w => (key, w)).toList ↔ e.1 = key ∧ o = some e.2 := by
    intro o
    obtain ⟨k', v'⟩ := e
    cases o <;> simp [eq_comm]
  induction entries with
  | nil => simp [alter, find?, hput]
  | cons e' entries ih =>
      obtain ⟨k, w⟩ := e'
      obtain ⟨hhead, hk, htail⟩ := sorted_cons_iff.mp h
      rw [alter, find?]
      by_cases hbefore : lt k key = true
      · have hne : k ≠ key := by
          rintro rfl
          rw [hs.irrefl k hk] at hbefore
          cases hbefore
        rw [if_pos hbefore, if_pos hbefore]
        refine (List.mem_cons.trans (or_congr Iff.rfl (ih htail))).trans ?_
        rw [List.mem_cons]
        by_cases he : e = (k, w)
        · subst he
          simp [hne]
        · simp [he]
      · rw [if_neg hbefore, if_neg hbefore]
        rw [Bool.not_eq_true] at hbefore
        by_cases hafter : lt key k = true
        · rw [if_pos hafter, if_pos hafter, List.mem_append, hput]
          refine or_congr Iff.rfl ⟨fun hmem => ⟨?_, hmem⟩, And.right⟩
          -- all entries from here on lie behind the key
          have hbehind : lt key e.1 = true := by
            rcases List.mem_cons.mp hmem with rfl | hmem
            · exact hafter
            · exact hs.trans key hkey k hk e.1 (htail.keys e hmem) hafter (hhead e hmem)
          rintro heq
          rw [heq, hs.irrefl key hkey] at hbehind
          cases hbehind
        · rw [if_neg hafter, if_neg hafter]
          rw [Bool.not_eq_true] at hafter
          obtain rfl := hs.eq_of_incomparable key hkey k hk ⟨hafter, hbefore⟩
          rw [List.mem_append, hput, List.mem_cons]
          refine or_congr Iff.rfl ⟨fun hmem => ⟨?_, .inr hmem⟩, ?_⟩
          · intro heq
            have hlt := hhead e hmem
            rw [heq, hs.irrefl key hkey] at hlt
            cases hlt
          · rintro ⟨hne, rfl | hmem⟩
            · exact absurd rfl hne
            · exact hmem

theorem find?_alter [DecidableEq K] (hs : Separating lt s) (hkey : key ∈ s) (hk : k ∈ s)
    (h : Sorted lt s entries) (f : Option V → Option V) :
    find? lt k (alter lt key f entries)
      = if k = key then f (find? lt key entries) else find? lt k entries := by
  refine Option.ext fun v => ?_
  rw [find?_eq_some_iff hs hk (h.alter hs hkey f), mem_alter_iff hs hkey h]
  by_cases heq : k = key
  · simp [heq]
  · rw [if_neg heq, find?_eq_some_iff hs hk h]
    simp [heq]

end ComparatorMap
