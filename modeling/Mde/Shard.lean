import Mde.TreeSum

/-!
# Machines sharded by key

A machine keeps one cell per key, created on first use, and one global
total. A message names a key; handling it reads and writes that cell
only and adds an increment to the total.

`cells_getD` says that the cell of a key is what the key's own messages
produce alone, `total_run` that the total is the sum over the keys of
what each produces alone. The two-run law `run_eq_of_own_eq` follows:
runs that agree on every key's own messages end in the same state,
however the keys interleave. `run_filter` leaves messages out: a part of
the state that only some messages touch does not see the others.
-/

open Std

namespace Shard

universe u v

/-- How one message is handled on its own cell: the cell afterwards and
the increment of the total. -/
structure Machine (K L M C : Type*) where
  key : M → K
  init : L
  step : L → M → L × C

/-- The cells in use and the total. -/
@[ext] structure State (K : Type u) (L : Type v) (C : Type*) (cmp : K → K → Ordering) where
  cells : ExtTreeMap K L cmp
  total : C

namespace Machine

variable {K : Type u} {L : Type v} {M C : Type*} [DecidableEq K]

/-! ## A key's own messages -/

def own (A : Machine K L M C) (k : K) (ms : List M) : List M :=
  ms.filter fun m => A.key m = k

section Own

variable (A : Machine K L M C)

theorem own_append_singleton (k : K) (ms : List M) (m : M) :
    A.own k (ms ++ [m]) = if A.key m = k then A.own k ms ++ [m] else A.own k ms := by
  by_cases h : A.key m = k <;> simp [own, h]

theorem own_self_append_singleton (ms : List M) (m : M) :
    A.own (A.key m) (ms ++ [m]) = A.own (A.key m) ms ++ [m] := by
  rw [own_append_singleton, if_pos rfl]

theorem own_eq_nil_iff (k : K) (ms : List M) : A.own k ms = [] ↔ ∀ m ∈ ms, A.key m ≠ k := by
  simp [own]

theorem own_filter (p : M → Bool) (k : K) (ms : List M) :
    A.own k (ms.filter p) = (A.own k ms).filter p := by
  simp [own, List.filter_filter, Bool.and_comm]

end Own

/-! ## Runs -/

variable {cmp : K → K → Ordering} [TransCmp cmp] [LawfulEqCmp cmp] [AddCommMonoid C]

/-- One message: get or create the cell of its key, step it, store it. -/
def dispatch (A : Machine K L M C) (s : State K L C cmp) (m : M) : State K L C cmp :=
  let r := A.step (s.cells.getD (A.key m) A.init) m
  { cells := s.cells.insert (A.key m) r.1, total := s.total + r.2 }

def run (A : Machine K L M C) (ms : List M) : State K L C cmp :=
  ms.foldl A.dispatch { cells := ∅, total := 0 }

/-- A single cell run by itself, with its share of the total. -/
def alone (A : Machine K L M C) (ms : List M) : L × C :=
  ms.foldl (fun s m => ((A.step s.1 m).1, s.2 + (A.step s.1 m).2)) (A.init, 0)

variable (A : Machine K L M C)

omit [LawfulEqCmp cmp] [DecidableEq K] in
theorem run_append_singleton (ms : List M) (m : M) :
    (A.run (ms ++ [m]) : State K L C cmp) = A.dispatch (A.run ms) m := by
  simp [run]

omit [DecidableEq K] in
theorem alone_append_singleton (ms : List M) (m : M) :
    A.alone (ms ++ [m])
      = ((A.step (A.alone ms).1 m).1, (A.alone ms).2 + (A.step (A.alone ms).1 m).2) := by
  simp [alone]

/-! ## Cells and total of a run -/

/-- A key's cell exists once a message named it, and holds what the key's own
messages produce alone. -/
theorem cells_getElem? (ms : List M) (k : K) :
    (A.run ms : State K L C cmp).cells[k]?
      = if A.own k ms = [] then none else some (A.alone (A.own k ms)).1 := by
  induction ms using List.reverseRecOn with
  | nil => simp [run, own]
  | append_singleton ms m ih =>
      rw [run_append_singleton, own_append_singleton]
      simp only [dispatch, TreeSum.getElem?_insert, eq_comm (a := k)]
      split
      · rename_i hk
        subst hk
        rw [if_neg (by simp), alone_append_singleton, ExtTreeMap.getD_eq_getD_getElem?, ih]
        split
        · rename_i hnil; simp [hnil, alone]
        · simp
      · exact ih

theorem mem_cells_iff (ms : List M) (k : K) :
    k ∈ (A.run ms : State K L C cmp).cells ↔ ∃ m ∈ ms, A.key m = k := by
  rw [ExtTreeMap.mem_iff_isSome_getElem?, cells_getElem?, Option.isSome_ite', own_eq_nil_iff]
  simp only [not_forall, not_not, exists_prop]

theorem cells_getD (ms : List M) (k : K) :
    (A.run ms : State K L C cmp).cells.getD k A.init = (A.alone (A.own k ms)).1 := by
  rw [ExtTreeMap.getD_eq_getD_getElem?, cells_getElem?]
  split
  · rename_i hnil; simp [hnil, alone]
  · simp

/-- The total is the sum of the shares of any set of keys that contains the
keys named. -/
theorem total_run (ms : List M) (S : Finset K) (hS : ∀ m ∈ ms, A.key m ∈ S) :
    (A.run ms : State K L C cmp).total = ∑ k ∈ S, (A.alone (A.own k ms)).2 := by
  induction ms using List.reverseRecOn with
  | nil => simp [run, own, alone]
  | append_singleton ms m ih =>
      have hm : A.key m ∈ S := hS m (by simp)
      have hstep : ∀ k ∈ S.erase (A.key m),
          (A.alone (A.own k (ms ++ [m]))).2 = (A.alone (A.own k ms)).2 := fun k hk => by
        rw [own_append_singleton, if_neg fun h => Finset.ne_of_mem_erase hk h.symm]
      rw [run_append_singleton, dispatch, ih fun m' hm' => hS m' (by simp [hm']),
        cells_getD, ← Finset.add_sum_erase S _ hm, ← Finset.add_sum_erase S _ hm,
        Finset.sum_congr rfl hstep, own_self_append_singleton, alone_append_singleton]
      exact add_right_comm ..

section Parts

variable {X D : Type*} [AddCommMonoid D] (part : L → X) (share : C →+ D)

/-- Runs in which every key's own messages leave the same part of the cell and the
same share agree on that part of every cell and on the total of the shares. -/
theorem run_part_eq {ms ms' : List M}
    (h : ∀ k, part (A.alone (A.own k ms)).1 = part (A.alone (A.own k ms')).1
      ∧ share (A.alone (A.own k ms)).2 = share (A.alone (A.own k ms')).2) :
    (∀ k, part ((A.run ms : State K L C cmp).cells.getD k A.init)
        = part ((A.run ms' : State K L C cmp).cells.getD k A.init))
      ∧ share (A.run ms : State K L C cmp).total
        = share (A.run ms' : State K L C cmp).total := by
  refine ⟨fun k => ?_, ?_⟩
  · rw [cells_getD, cells_getD]
    exact (h k).1
  · let S : Finset K := (ms.map A.key ++ ms'.map A.key).toFinset
    rw [A.total_run ms S fun m hm => by simp [S]; exact Or.inl ⟨m, hm, rfl⟩,
      A.total_run ms' S fun m hm => by simp [S]; exact Or.inr ⟨m, hm, rfl⟩, map_sum,
      map_sum]
    exact Finset.sum_congr rfl fun k _ => (h k).2

/-- **Interleaving does not matter.** Runs in which every key has the same own
messages end in the same state. -/
theorem run_eq_of_own_eq {ms ms' : List M} (h : ∀ k, A.own k ms = A.own k ms') :
    (A.run ms : State K L C cmp) = A.run ms' := by
  refine State.ext (ExtTreeMap.ext_getElem? fun k => ?_) ?_
  · rw [cells_getElem?, cells_getElem?, h k]
  · refine And.right (A.run_part_eq id (AddMonoidHom.id C) ?_)
    intro k
    rw [h k]
    exact ⟨rfl, rfl⟩

/-! ## Messages that a part of the state does not see -/

variable {p : M → Bool}

omit [DecidableEq K] in
/-- A part of the cell that only reads itself, and that only the messages in `p`
change, is the same without the other messages. -/
theorem alone_filter
    (hcongr : ∀ l l' m, part l = part l' → part (A.step l m).1 = part (A.step l' m).1
      ∧ share (A.step l m).2 = share (A.step l' m).2)
    (hframe : ∀ l m, p m = false → part (A.step l m).1 = part l ∧ share (A.step l m).2 = 0)
    (ms : List M) :
    part (A.alone (ms.filter p)).1 = part (A.alone ms).1
      ∧ share (A.alone (ms.filter p)).2 = share (A.alone ms).2 := by
  induction ms using List.reverseRecOn with
  | nil => exact ⟨rfl, rfl⟩
  | append_singleton ms m ih =>
      obtain ⟨hpart, hshare⟩ := ih
      rw [List.filter_append, A.alone_append_singleton]
      cases hp : p m with
      | true =>
          obtain ⟨hpart', hshare'⟩ := hcongr _ _ m hpart
          rw [List.filter_cons_of_pos hp, List.filter_nil, A.alone_append_singleton, map_add,
            map_add, hshare, hshare']
          exact ⟨hpart', rfl⟩
      | false =>
          obtain ⟨hpart', hshare'⟩ := hframe (A.alone ms).1 m hp
          rw [List.filter_cons_of_neg (by simp [hp]), List.filter_nil, List.append_nil, map_add,
            hshare', add_zero, hpart']
          exact ⟨hpart, hshare⟩

theorem run_filter
    (hcongr : ∀ l l' m, part l = part l' → part (A.step l m).1 = part (A.step l' m).1
      ∧ share (A.step l m).2 = share (A.step l' m).2)
    (hframe : ∀ l m, p m = false → part (A.step l m).1 = part l ∧ share (A.step l m).2 = 0)
    (ms : List M) :
    (∀ k, part ((A.run (ms.filter p) : State K L C cmp).cells.getD k A.init)
        = part ((A.run ms : State K L C cmp).cells.getD k A.init))
      ∧ share (A.run (ms.filter p) : State K L C cmp).total
        = share (A.run ms : State K L C cmp).total := by
  refine A.run_part_eq part share fun k => ?_
  rw [own_filter]
  exact A.alone_filter part share hcongr hframe _

end Parts

end Machine

end Shard
