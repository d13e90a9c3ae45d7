import Mathlib

/-!
# Keyed logs

A log that is only appended to, whose entries carry a key. Keys may
repeat, and a later entry hides the earlier ones: `lastIdx?` is the
position of the last entry under a key, `reviseLast` changes the value
of that entry.

`lastIdx?_concat` and `lastIdx?_reviseLast` say how the positions move,
which is what an index kept beside the log has to do. Different keys do
not meet: `filter_reviseLast` and `last?_filter` say that the part of a
log under some keys can be kept without the rest.

An entry that a later one hides cannot be reached by its key any more.
`Visible` says that no `live` entry is hidden; an append keeps that
exactly when the entry it hides is not live (`visible_concat_iff`), and a
revision that revives nothing always does (`Visible.reviseLast`).
-/

namespace KeyedLog

variable {K V : Type*} [DecidableEq K]

def lastIdx? : List (K × V) → K → Option Nat
  | [], _ => none
  | e :: es, k =>
    match lastIdx? es k with
    | some i => some (i + 1)
    | none => if e.1 = k then some 0 else none

/-- Change the value of the last entry under a key, if there is one. -/
def reviseLast (f : V → V) (log : List (K × V)) (k : K) : List (K × V) :=
  match lastIdx? log k with
  | none => log
  | some i => log.modify i fun e => (e.1, f e.2)

def last? (log : List (K × V)) (k : K) : Option V :=
  (lastIdx? log k).bind fun i => (log[i]?).map Prod.snd

/-! ## Positions -/

theorem lastIdx?_concat (log : List (K × V)) (e : K × V) (k : K) :
    lastIdx? (log ++ [e]) k = if e.1 = k then some log.length else lastIdx? log k := by
  induction log with
  | nil => simp [lastIdx?]
  | cons e' es ih =>
      rw [List.cons_append, lastIdx?, ih, List.length_cons]
      by_cases hk : e.1 = k
      · rw [if_pos hk, if_pos hk]
      · rw [if_neg hk, if_neg hk, lastIdx?]

theorem getElem?_of_lastIdx? {log : List (K × V)} {k : K} {i : Nat}
    (h : lastIdx? log k = some i) : ∃ v, log[i]? = some (k, v) := by
  induction log generalizing i with
  | nil => cases h
  | cons e es ih =>
      rw [lastIdx?] at h
      cases hes : lastIdx? es k with
      | some j =>
          rw [hes] at h
          obtain rfl := Option.some.inj h
          obtain ⟨v, hv⟩ := ih hes
          exact ⟨v, by simpa using hv⟩
      | none =>
          simp only [hes] at h
          split at h
          · rename_i hk
            obtain rfl := Option.some.inj h
            exact ⟨e.2, by rw [← hk]; rfl⟩
          · cases h

theorem lastIdx?_lt {log : List (K × V)} {k : K} {i : Nat} (h : lastIdx? log k = some i) :
    i < log.length := by
  obtain ⟨v, hv⟩ := getElem?_of_lastIdx? h
  exact (List.getElem?_eq_some_iff.mp hv).1

theorem lastIdx?_inj {log : List (K × V)} {k k' : K} {i : Nat} (h : lastIdx? log k = some i)
    (h' : lastIdx? log k' = some i) : k = k' := by
  obtain ⟨v, hv⟩ := getElem?_of_lastIdx? h
  obtain ⟨v', hv'⟩ := getElem?_of_lastIdx? h'
  rw [hv, Option.some.injEq, Prod.mk.injEq] at hv'
  exact hv'.1

theorem lastIdx?_congr {log log' : List (K × V)} (h : log.map Prod.fst = log'.map Prod.fst)
    (k : K) : lastIdx? log k = lastIdx? log' k := by
  induction log generalizing log' with
  | nil =>
      rw [List.map_nil, eq_comm, List.map_eq_nil_iff] at h
      rw [h]
  | cons e es ih =>
      cases log' with
      | nil => cases h
      | cons e' es' =>
          rw [List.map_cons, List.map_cons, List.cons.injEq] at h
          rw [lastIdx?, lastIdx?, ih h.2, h.1]

/-! ## Revisions -/

theorem map_fst_reviseLast (f : V → V) (log : List (K × V)) (k : K) :
    (reviseLast f log k).map Prod.fst = log.map Prod.fst := by
  unfold reviseLast
  split
  · rfl
  · rename_i i _
    refine List.ext_getElem? ?_
    intro j
    simp only [List.getElem?_map, List.getElem?_modify]
    cases log[j]? with
    | none => simp
    | some e => split <;> simp

theorem lastIdx?_reviseLast (f : V → V) (log : List (K × V)) (k k' : K) :
    lastIdx? (reviseLast f log k) k' = lastIdx? log k' :=
  lastIdx?_congr (map_fst_reviseLast f log k) k'

theorem map_snd_reviseLast {log : List (K × V)} {k : K} {i : Nat}
    (h : lastIdx? log k = some i) (f : V → V) :
    (reviseLast f log k).map Prod.snd = (log.map Prod.snd).modify i f := by
  rw [reviseLast, h]
  refine List.ext_getElem? ?_
  intro j
  simp only [List.getElem?_map, List.getElem?_modify]
  cases log[j]? with
  | none => simp
  | some e => split <;> simp

/-- An entry of the revised log is an entry of the log, or the one revised. -/
theorem mem_reviseLast {f : V → V} {log : List (K × V)} {k : K} {e : K × V}
    (h : e ∈ reviseLast f log k) : e ∈ log ∨ e.1 = k ∧ ∃ v, (k, v) ∈ log ∧ e.2 = f v := by
  unfold reviseLast at h
  split at h
  · exact .inl h
  · rename_i i hi
    obtain ⟨v, hv⟩ := getElem?_of_lastIdx? hi
    obtain ⟨j, hj⟩ := List.mem_iff_getElem?.mp h
    rw [List.getElem?_modify] at hj
    by_cases hij : i = j
    · subst hij
      rw [hv] at hj
      simp only [if_true, Option.map_eq_map, Option.map_some, Option.some.injEq] at hj
      subst hj
      exact .inr ⟨rfl, v, List.mem_of_getElem? hv, rfl⟩
    · simp only [if_neg hij, Option.map_eq_map, Option.map_id_fun', id_eq] at hj
      exact .inl (List.mem_of_getElem? hj)

theorem getElem?_reviseLast {f : V → V} {log : List (K × V)} {k k' : K} {i : Nat} {v : V}
    (h : (reviseLast f log k)[i]? = some (k', v)) :
    ∃ w, log[i]? = some (k', w) ∧ (v = w ∨ k' = k ∧ lastIdx? log k = some i ∧ v = f w) := by
  unfold reviseLast at h
  split at h
  · exact ⟨v, h, .inl rfl⟩
  · rename_i j hj
    rw [List.getElem?_modify] at h
    by_cases hij : j = i
    · subst hij
      obtain ⟨w, hw⟩ := getElem?_of_lastIdx? hj
      simp only [hw, if_true, Option.map_eq_map, Option.map_some, Option.some.injEq,
        Prod.mk.injEq] at h
      obtain ⟨rfl, rfl⟩ := h
      exact ⟨w, hw, .inr ⟨rfl, hj, rfl⟩⟩
    · simp only [if_neg hij, Option.map_eq_map, Option.map_id_fun', id_eq] at h
      exact ⟨v, h, .inl rfl⟩

theorem lastIdx?_of_reviseLast_ne {f : V → V} {log : List (K × V)} {k : K} {i : Nat}
    (h : (reviseLast f log k)[i]? ≠ log[i]?) : lastIdx? log k = some i := by
  unfold reviseLast at h
  split at h
  · exact absurd rfl h
  · rename_i j hj
    by_cases hij : j = i
    · rw [hj, hij]
    · refine absurd ?_ h
      rw [List.getElem?_modify]
      simp [hij]

theorem reviseLast_eq_self {f : V → V} {log : List (K × V)} {k : K}
    (h : ∀ v, last? log k = some v → f v = v) : reviseLast f log k = log := by
  unfold reviseLast
  split
  · rfl
  · rename_i i hi
    obtain ⟨v, hv⟩ := getElem?_of_lastIdx? hi
    have hfix : f v = v := h v (by rw [last?, hi, Option.bind_some, hv]; rfl)
    refine List.ext_getElem? ?_
    intro j
    rw [List.getElem?_modify]
    split
    · rename_i hij
      subst hij
      simp [hv, hfix]
    · simp

theorem last?_reviseLast (f : V → V) (log : List (K × V)) (k k' : K) :
    last? (reviseLast f log k) k' = if k' = k then (last? log k').map f else last? log k' := by
  rw [last?, lastIdx?_reviseLast, last?]
  cases hi' : lastIdx? log k' with
  | none => simp
  | some i' =>
      obtain ⟨v, hv⟩ := getElem?_of_lastIdx? hi'
      rw [Option.bind_some, Option.bind_some, hv, reviseLast]
      by_cases hk : k' = k
      · subst hk
        simp [hi', hv]
      · rw [if_neg hk]
        cases hi : lastIdx? log k with
        | none => simp [hv]
        | some i =>
            obtain ⟨w, hw⟩ := getElem?_of_lastIdx? hi
            have hne : i ≠ i' := by
              rintro rfl
              rw [hv, Option.some.injEq, Prod.mk.injEq] at hw
              exact hk hw.1
            simp [hne, hv]

theorem getElem?_reviseLast_eq (f : V → V) (log : List (K × V)) (k : K) (i : Nat) :
    (reviseLast f log k)[i]?
      = if lastIdx? log k = some i then (log[i]?).map fun e => (e.1, f e.2) else log[i]? := by
  unfold reviseLast
  cases hj : lastIdx? log k with
  | none => simp
  | some j =>
      rw [List.getElem?_modify]
      by_cases hij : j = i
      · simp [hij]
      · simp [hij]

/-! ## Appends -/

theorem last?_concat (log : List (K × V)) (e : K × V) (k : K) :
    last? (log ++ [e]) k = if e.1 = k then some e.2 else last? log k := by
  rw [last?, lastIdx?_concat]
  split
  · simp
  · rw [last?]
    cases hi : lastIdx? log k with
    | none => rfl
    | some i =>
        obtain ⟨v, hv⟩ := getElem?_of_lastIdx? hi
        obtain ⟨hlt, -⟩ := List.getElem?_eq_some_iff.mp hv
        rw [Option.bind_some, Option.bind_some, List.getElem?_append_left hlt]

theorem reviseLast_concat (f : V → V) (log : List (K × V)) (e : K × V) (k : K) :
    reviseLast f (log ++ [e]) k
      = if e.1 = k then log ++ [(e.1, f e.2)] else reviseLast f log k ++ [e] := by
  have hlast := lastIdx?_concat log e k
  by_cases he : e.1 = k
  · rw [if_pos he] at hlast ⊢
    simp [reviseLast, hlast, List.modify_eq_take_drop]
  · rw [if_neg he] at hlast ⊢
    rw [reviseLast, reviseLast, hlast]
    cases hi : lastIdx? log k with
    | none => rfl
    | some i =>
        obtain ⟨v, hv⟩ := getElem?_of_lastIdx? hi
        obtain ⟨hlt, -⟩ := List.getElem?_eq_some_iff.mp hv
        have hlt' : i < (log ++ [e]).length := by simp; omega
        simp [List.modify_eq_take_cons_drop hlt, List.modify_eq_take_cons_drop hlt',
          List.take_append_of_le_length (Nat.le_of_lt hlt),
          List.drop_append_of_le_length (Nat.succ_le_of_lt hlt), List.getElem_append_left hlt]

/-! ## A log whose values are seen through a function -/

section Map

variable {W : Type*} (g : V → W)

theorem lastIdx?_map (log : List (K × V)) (k : K) :
    lastIdx? (log.map fun e => (e.1, g e.2)) k = lastIdx? log k := by
  induction log with
  | nil => rfl
  | cons e es ih => simp only [List.map_cons, lastIdx?, ih]

theorem last?_map (log : List (K × V)) (k : K) :
    last? (log.map fun e => (e.1, g e.2)) k = (last? log k).map g := by
  rw [last?, last?, lastIdx?_map]
  cases lastIdx? log k with
  | none => rfl
  | some i => simp [Function.comp_def]

theorem map_reviseLast {f : V → V} {f' : W → W} (h : ∀ v, g (f v) = f' (g v))
    (log : List (K × V)) (k : K) :
    (reviseLast f log k).map (fun e => (e.1, g e.2))
      = reviseLast f' (log.map fun e => (e.1, g e.2)) k := by
  refine List.ext_getElem? ?_
  intro i
  rw [List.getElem?_map, getElem?_reviseLast_eq, getElem?_reviseLast_eq, lastIdx?_map,
    List.getElem?_map]
  split
  · simp [Function.comp_def, h]
  · rfl

theorem sum_reviseLast {G : Type*} [AddCommGroup G] (w : V → G) (f : V → V)
    (log : List (K × V)) (k : K) :
    ((reviseLast f log k).map fun e => w e.2).sum
      = (log.map fun e => w e.2).sum + ((last? log k).map fun v => w (f v) - w v).getD 0 := by
  induction log using List.reverseRecOn with
  | nil => simp [reviseLast, last?, lastIdx?]
  | append_singleton log e ih =>
      rw [reviseLast_concat, last?_concat]
      split
      · simp
      · simp only [List.map_append, List.sum_append, ih, List.map_singleton, List.sum_singleton]
        abel

end Map

/-! ## The part of a log under some keys -/

variable (p : K → Bool)

theorem last?_filter (log : List (K × V)) {k : K} (hk : p k = true) :
    last? (log.filter fun e => p e.1) k = last? log k := by
  induction log using List.reverseRecOn with
  | nil => rfl
  | append_singleton log e ih =>
      rw [List.filter_append, last?_concat]
      cases hp : p e.1 with
      | true =>
          rw [show [e].filter (fun e => p e.1) = [e] by simp [hp], last?_concat, ih]
      | false =>
          have hne : e.1 ≠ k := fun heq => by rw [heq, hk] at hp; cases hp
          rw [show [e].filter (fun e => p e.1) = [] by simp [hp], List.append_nil, ih,
            if_neg hne]

/-- A revision is seen by the part of the log that has its key, and by no other
part. -/
theorem filter_reviseLast (f : V → V) (log : List (K × V)) (k : K) :
    (reviseLast f log k).filter (fun e => p e.1)
      = if p k then reviseLast f (log.filter fun e => p e.1) k
        else log.filter fun e => p e.1 := by
  induction log using List.reverseRecOn with
  | nil => simp [reviseLast, lastIdx?]
  | append_singleton log e ih =>
      rw [reviseLast_concat]
      by_cases he : e.1 = k
      · subst he
        rw [if_pos rfl]
        cases hp : p e.1 <;> simp [hp, reviseLast_concat]
      · rw [if_neg he, List.filter_append, ih]
        cases hp : p k <;> cases hpe : p e.1 <;> simp [hpe, reviseLast_concat, he]

/-- Logs with the same entries under every key have the same entries. -/
theorem perm_of_filter_eq {log log' : List (K × V)}
    (h : ∀ k, (log.filter fun e => e.1 == k) = log'.filter fun e => e.1 == k) :
    log.Perm log' := by
  classical
  refine List.perm_iff_count.mpr fun e => ?_
  have hunder : ∀ log : List (K × V), (log.filter fun e' => e'.1 == e.1).count e = log.count e :=
    fun log => List.count_filter (by simp)
  rw [← hunder log, ← hunder log', h]

/-! ## Entries that no later one hides -/

/-- Every `live` entry is the last one under its key. -/
def Visible (live : V → Bool) (log : List (K × V)) : Prop :=
  ∀ (i : Nat) (k : K) (v : V), log[i]? = some (k, v) → live v = true → lastIdx? log k = some i

variable {live : V → Bool} {log : List (K × V)}

theorem visible_nil : Visible live ([] : List (K × V)) := by
  intro i k v h
  cases h

theorem Visible.not_live (h : Visible live log) {k : K}
    (hlast : ∀ v, last? log k = some v → live v = false) {i : Nat} {v : V}
    (hv : log[i]? = some (k, v)) : live v = false := by
  cases hl : live v with
  | false => rfl
  | true =>
      have hi := h i k v hv hl
      have hlast' := hlast v (by rw [last?, hi, Option.bind_some, hv]; rfl)
      rw [hl] at hlast'
      exact hlast'

/-- **An append hides nothing live** exactly when the last entry under its key is
not live. -/
theorem visible_concat_iff (h : Visible live log) (k : K) (v : V) :
    Visible live (log ++ [(k, v)]) ↔ ∀ w, last? log k = some w → live w = false := by
  constructor
  · intro happ w hw
    rw [last?, Option.bind_eq_some_iff] at hw
    obtain ⟨i, hi, hw⟩ := hw
    obtain ⟨w', hw'⟩ := getElem?_of_lastIdx? hi
    obtain ⟨hlt, -⟩ := List.getElem?_eq_some_iff.mp hw'
    rw [hw', Option.map_some, Option.some.injEq] at hw
    obtain rfl : w' = w := hw
    cases hl : live w' with
    | false => rfl
    | true =>
        -- the hidden entry would be the last one and is not
        have hlast := happ i k w' (by rw [List.getElem?_append_left hlt, hw']) hl
        rw [lastIdx?_concat, if_pos rfl, Option.some.injEq] at hlast
        omega
  · intro hlast i k' v' hv' hl
    rw [lastIdx?_concat]
    by_cases hi : i < log.length
    · rw [List.getElem?_append_left hi] at hv'
      have hne : k ≠ k' := by
        rintro rfl
        rw [h.not_live hlast hv'] at hl
        cases hl
      rw [if_neg hne]
      exact h i k' v' hv' hl
    · obtain rfl : i = log.length := by
        have := (List.getElem?_eq_some_iff.mp hv').1
        rw [List.length_append, List.length_singleton] at this
        omega
      rw [List.getElem?_concat_length, Option.some.injEq, Prod.mk.injEq] at hv'
      rw [if_pos hv'.1]

/-- A revision that revives nothing hides nothing. -/
theorem Visible.reviseLast (h : Visible live log) {f : V → V}
    (hf : ∀ v, live (f v) = true → live v = true) (k : K) :
    Visible live (reviseLast f log k) := by
  intro i k' v hv hl
  obtain ⟨w, hw, rfl | ⟨-, -, rfl⟩⟩ := getElem?_reviseLast hv
  · rw [lastIdx?_reviseLast]
    exact h i k' v hw hl
  · rw [lastIdx?_reviseLast]
    exact h i k' w hw (hf w hl)

end KeyedLog
