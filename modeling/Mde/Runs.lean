import Mathlib

/-!
# Conditions along a run

A state function `step` run over a list of messages. `Along` says that
every message meets a condition in the state it arrives in, `countAlong`
counts the messages that do.

The rules take a run apart at its last message, name a message of it by
its position, and carry what one step decides to the whole run.
-/

namespace Runs

variable {S M : Type*}

/-- Every message of the list is `ok` in the state it meets. -/
def Along (step : S → M → S) (ok : S → M → Prop) : S → List M → Prop
  | _, [] => True
  | s, m :: ms => ok s m ∧ Along step ok (step s m) ms

/-- How many messages of the list satisfy `p` in the state they meet. -/
def countAlong (step : S → M → S) (p : S → M → Bool) : S → List M → Nat
  | _, [] => 0
  | s, m :: ms => (p s m).toNat + countAlong step p (step s m) ms

variable {step : S → M → S} {ok ok' : S → M → Prop} {p : S → M → Bool}

instance [∀ s m, Decidable (ok s m)] : ∀ s ms, Decidable (Along step ok s ms)
  | _, [] => .isTrue trivial
  | s, m :: ms =>
    have : Decidable (Along step ok (step s m) ms) := instDecidableAlong (step s m) ms
    inferInstanceAs (Decidable (ok s m ∧ Along step ok (step s m) ms))

/-! ## Taking a run apart -/

theorem along_append {s : S} {ms ms' : List M} :
    Along step ok s (ms ++ ms')
      ↔ Along step ok s ms ∧ Along step ok (ms.foldl step s) ms' := by
  induction ms generalizing s with
  | nil => simp [Along]
  | cons m ms ih => simp only [List.cons_append, Along, List.foldl_cons, ih, and_assoc]

theorem along_append_singleton {s : S} {ms : List M} {m : M} :
    Along step ok s (ms ++ [m]) ↔ Along step ok s ms ∧ ok (ms.foldl step s) m := by
  simp [along_append, Along]

theorem countAlong_append_singleton {s : S} {ms : List M} {m : M} :
    countAlong step p s (ms ++ [m])
      = countAlong step p s ms + (p (ms.foldl step s) m).toNat := by
  induction ms generalizing s with
  | nil => simp [countAlong]
  | cons m' ms ih =>
      simp only [List.cons_append, countAlong, List.foldl_cons, ih, Nat.add_assoc]

theorem countAlong_eq_zero_iff {s : S} {ms : List M} :
    countAlong step p s ms = 0 ↔ Along step (fun s m => p s m = false) s ms := by
  induction ms generalizing s with
  | nil => simp [countAlong, Along]
  | cons m ms ih =>
      rw [countAlong, Along, ← ih]
      cases p s m <;> simp

theorem countAlong_map {S' : Type*} (abs : S → S') {step' : S' → M → S'}
    {p' : S' → M → Bool} (hstep : ∀ s m, abs (step s m) = step' (abs s) m)
    (hp : ∀ s m, p s m = p' (abs s) m) (s : S) (ms : List M) :
    countAlong step p s ms = countAlong step' p' (abs s) ms := by
  induction ms generalizing s with
  | nil => rfl
  | cons m ms ih => rw [countAlong, countAlong, hp, ih, hstep]

/-! ## From one step to the run -/

theorem Along.imp (hok : ∀ s m, ok s m → ok' s m) {s : S} {ms : List M}
    (h : Along step ok s ms) : Along step ok' s ms := by
  induction ms generalizing s with
  | nil => trivial
  | cons m ms ih => exact ⟨hok s m h.1, ih h.2⟩

theorem along_and {s : S} {ms : List M} :
    Along step (fun s m => ok s m ∧ ok' s m) s ms
      ↔ Along step ok s ms ∧ Along step ok' s ms := by
  induction ms generalizing s with
  | nil => simp [Along]
  | cons m ms ih =>
      simp only [Along, ih]
      tauto

/-- Two conditions that one step from a good state does not tell apart. The messages
are admissible, and those that meet the first condition lead to a good state. -/
theorem along_iff_of_step {Inv : S → Prop} {adm : S → M → Prop}
    (hiff : ∀ s m, Inv s → adm s m → (ok s m ↔ ok' s m))
    (hstep : ∀ s m, Inv s → adm s m → ok s m → Inv (step s m)) {s : S} (hs : Inv s)
    {ms : List M} (hadm : Along step adm s ms) :
    Along step ok s ms ↔ Along step ok' s ms := by
  induction ms generalizing s with
  | nil => exact Iff.rfl
  | cons m ms ih =>
      obtain ⟨hm, hrest⟩ := hadm
      have hhead := hiff s m hs hm
      constructor
      · rintro ⟨hok, htail⟩
        exact ⟨hhead.mp hok, (ih (hstep s m hs hm hok) hrest).mp htail⟩
      · rintro ⟨hok', htail⟩
        have hok := hhead.mpr hok'
        exact ⟨hok, (ih (hstep s m hs hm hok) hrest).mpr htail⟩

theorem along_iff_forall_append {s : S} {ms : List M} :
    Along step ok s ms
      ↔ ∀ before m after, ms = before ++ m :: after → ok (before.foldl step s) m := by
  constructor
  · rintro h before m after rfl
    exact (along_append.mp h).2.1
  · induction ms generalizing s with
    | nil => exact fun _ => trivial
    | cons m ms ih =>
        intro h
        refine ⟨h [] m ms rfl, ih ?_⟩
        intro before m' after heq
        exact h (m :: before) m' after (by rw [heq]; rfl)

/-- When a step from a good state ends in a good state exactly on `ok` messages,
all states of a run are good exactly when every message of it is `ok`. -/
theorem forall_prefix_iff_along {Inv : S → Prop}
    (hstep : ∀ s m, Inv s → (Inv (step s m) ↔ ok s m)) {s : S} (hs : Inv s) {ms : List M} :
    (∀ before, before <+: ms → Inv (before.foldl step s)) ↔ Along step ok s ms := by
  induction ms generalizing s with
  | nil =>
      refine ⟨fun _ => trivial, ?_⟩
      intro _ before h
      rw [List.prefix_nil.mp h]
      exact hs
  | cons m ms ih =>
      rw [Along, ← hstep s m hs]
      constructor
      · intro h
        have hm : Inv (step s m) := h [m] (by simp)
        refine ⟨hm, (ih hm).mp ?_⟩
        intro before hb
        exact h (m :: before) (List.cons_prefix_cons.mpr ⟨rfl, hb⟩)
      · rintro ⟨hm, hrest⟩ before hb
        cases before with
        | nil => exact hs
        | cons m' before =>
            obtain ⟨rfl, hrest'⟩ := List.cons_prefix_cons.mp hb
            exact (ih hm).mpr hrest before hrest'

/-- The same for a property and a condition of the messages so far, where the state alone
does not tell what the messages were. -/
theorem forall_prefix_iff_forall_append {Inv : List M → Prop} {ok : List M → M → Prop}
    (hstep : ∀ before m, Inv before → (Inv (before ++ [m]) ↔ ok before m)) (hnil : Inv [])
    {ms : List M} :
    (∀ before, before <+: ms → Inv before)
      ↔ ∀ before m after, ms = before ++ m :: after → ok before m := by
  constructor
  · rintro h before m after rfl
    refine (hstep before m (h before (List.prefix_append ..))).mp (h _ ?_)
    exact ⟨after, by rw [List.append_assoc, List.singleton_append]⟩
  · intro h before hb
    induction before using List.reverseRecOn with
    | nil => exact hnil
    | append_singleton before m ih =>
        obtain ⟨after, rfl⟩ := hb
        refine (hstep before m (ih ((List.prefix_append ..).trans (List.prefix_append ..)))).mpr ?_
        exact h before m after (by rw [List.append_assoc, List.singleton_append])

end Runs
