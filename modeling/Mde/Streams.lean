import Mde.Runs

/-!
# Cells driven by the messages that touch them

A system of cells, one per key. A message may touch several of them, but
what it makes of a cell it reads from that cell alone. A cell then ends
where its own messages take it (`cell_stream`), and what is counted at the
cells of a run is counted stream by stream (`countAlong_eq_sum`), so that
runs with the same streams count the same (`countAlong_eq_of_stream_eq`).

Runs with the same stream for every key are runs whose messages are
exchanged where they touch no key in common (`stream_swap`).
-/

/-- The keys a message touches and what it makes of a cell. -/
structure Streams (K C M : Type*) where
  touched : M → List K
  step : K → C → M → C
  frame : ∀ k c m, k ∉ touched m → step k c m = c

namespace Streams

variable {K C M : Type*} [DecidableEq K] (A : Streams K C M)

def stream (k : K) (ms : List M) : List M := ms.filter fun m => k ∈ A.touched m

theorem stream_append_singleton (k : K) (ms : List M) (m : M) :
    A.stream k (ms ++ [m])
      = A.stream k ms ++ if k ∈ A.touched m then [m] else [] := by
  rw [stream, List.filter_append, stream]
  by_cases hk : k ∈ A.touched m
  · simp [hk]
  · simp [hk]

theorem cell_stream (k : K) (c : C) (ms : List M) :
    (A.stream k ms).foldl (A.step k) c = ms.foldl (A.step k) c := by
  induction ms using List.reverseRecOn with
  | nil => rfl
  | append_singleton ms m ih =>
      rw [stream_append_singleton, List.foldl_append, List.foldl_append, ih]
      by_cases hk : k ∈ A.touched m
      · rw [if_pos hk]
      · rw [if_neg hk, List.foldl_nil, List.foldl_cons, List.foldl_nil, A.frame _ _ _ hk]

theorem stream_swap {m m' : M} (h : List.Disjoint (A.touched m) (A.touched m')) (k : K)
    (before after : List M) :
    A.stream k (before ++ m :: m' :: after) = A.stream k (before ++ m' :: m :: after) := by
  simp only [stream, List.filter_append, List.filter_cons]
  by_cases hk : k ∈ A.touched m
  · have hk' : k ∉ A.touched m' := fun hk' => h hk hk'
    simp [hk, hk']
  · simp [hk]

def stepAll (cells : K → C) (m : M) : K → C := fun k => A.step k (cells k) m

omit [DecidableEq K] in
theorem foldl_stepAll (cells : K → C) (ms : List M) (k : K) :
    ms.foldl A.stepAll cells k = ms.foldl (A.step k) (cells k) := by
  induction ms generalizing cells with
  | nil => rfl
  | cons m ms ih => exact ih (A.stepAll cells m)

variable (charge : M → Option K) (bad : C → M → Bool)

/-- Messages that are charged to one of the cells they touch, for what they find there,
are counted by the streams of these cells. -/
theorem countAlong_eq_sum (hcharge : ∀ m k, charge m = some k → k ∈ A.touched m)
    (cells : K → C) {S : Finset K} {ms : List M}
    (hS : ∀ m ∈ ms, ∀ k, charge m = some k → k ∈ S) :
    Runs.countAlong A.stepAll (fun cells m => (charge m).any fun k => bad (cells k) m)
        cells ms
      = ∑ k ∈ S, Runs.countAlong (A.step k) (fun c m => charge m = some k && bad c m)
          (cells k) (A.stream k ms) := by
  induction ms using List.reverseRecOn with
  | nil => simp [Runs.countAlong, stream]
  | append_singleton ms m ih =>
      have hone : ∀ k, Runs.countAlong (A.step k)
            (fun c m => charge m = some k && bad c m) (cells k) (A.stream k (ms ++ [m]))
          = Runs.countAlong (A.step k) (fun c m => charge m = some k && bad c m) (cells k)
              (A.stream k ms)
            + (charge m = some k && bad (ms.foldl A.stepAll cells k) m).toNat := by
        intro k
        rw [stream_append_singleton]
        by_cases hk : k ∈ A.touched m
        · rw [if_pos hk, Runs.countAlong_append_singleton, cell_stream, foldl_stepAll]
        · have hne : charge m ≠ some k := fun hm => hk (hcharge m k hm)
          simp [hk, hne]
      rw [Runs.countAlong_append_singleton,
        ih fun m' hm' => hS m' (List.mem_append_left _ hm'), Finset.sum_congr rfl fun k _ =>
        hone k, Finset.sum_add_distrib]
      congr 1
      cases hm : charge m with
      | none => simp
      | some k =>
          rw [Finset.sum_eq_single_of_mem k (hS m (by simp) k hm)]
          · simp
          · intro k' _ hk'
            simp [hk'.symm]

/-- A run that can be seen as one of the cells is charged as often as any other with the
same streams. -/
theorem countAlong_eq_of_stream_eq {S : Type*} {step : S → M → S} {p : S → M → Bool}
    (view : S → K → C) (hstep : ∀ s m, view (step s m) = A.stepAll (view s) m)
    (hp : ∀ s m, p s m = (charge m).any fun k => bad (view s k) m)
    (hcharge : ∀ m k, charge m = some k → k ∈ A.touched m) (s : S) {ms ms' : List M}
    (h : ∀ k, A.stream k ms = A.stream k ms') :
    Runs.countAlong step p s ms = Runs.countAlong step p s ms' := by
  let keys : Finset K := ((ms ++ ms').filterMap charge).toFinset
  have hkeys : ∀ m ∈ ms ++ ms', ∀ k, charge m = some k → k ∈ keys := by
    intro m hm k hk
    exact List.mem_toFinset.mpr (List.mem_filterMap.mpr ⟨m, hm, hk⟩)
  have hview : ∀ ms, Runs.countAlong step p s ms = Runs.countAlong A.stepAll
      (fun cells m => (charge m).any fun k => bad (cells k) m) (view s) ms :=
    fun ms => Runs.countAlong_map view hstep hp s ms
  rw [hview, hview,
    A.countAlong_eq_sum charge bad hcharge _ fun m hm => hkeys m (List.mem_append_left _ hm),
    A.countAlong_eq_sum charge bad hcharge _ fun m hm => hkeys m (List.mem_append_right _ hm)]
  exact Finset.sum_congr rfl fun k _ => by rw [h]

end Streams
