import Mathlib

/-!
# Systems with guarded actions

A system whose actions may be disabled: `step` answers `none` where an
action cannot be taken. A schedule is a list of actions, and `play` takes
them one after the other, all or nothing; the states a system can reach
under any interleaving are those that some schedule ends in.

`play_invariant` carries an invariant along a schedule, and `play_bounded`
bounds the length of a schedule by a measure that every action lowers.
`Along` says that every action of a schedule meets a condition in the
state it is taken in; an invariant may rest on it (`Along.play_invariant`),
and where it fails there is a first half, an action and a second half
(`exists_of_not_along`).
-/

namespace Guarded

variable {S A : Type*}

/-- The state a schedule ends in, if every action is enabled when its turn comes. -/
def play (step : S → A → Option S) : S → List A → Option S
  | s, [] => some s
  | s, a :: as => (step s a).bind fun s' => play step s' as

variable {step : S → A → Option S}

theorem play_cons {s s' : S} {a : A} {as : List A} (h : play step s (a :: as) = some s') :
    ∃ next, step s a = some next ∧ play step next as = some s' :=
  Option.bind_eq_some_iff.mp h

/-- What every action keeps, every schedule keeps. -/
theorem play_invariant {Inv : S → Prop}
    (hstep : ∀ s a s', Inv s → step s a = some s' → Inv s') {s s' : S} {as : List A}
    (h : play step s as = some s') (hs : Inv s) : Inv s' := by
  induction as generalizing s with
  | nil =>
      obtain rfl := Option.some.inj h
      exact hs
  | cons a as ih =>
      obtain ⟨next, hnext, hrest⟩ := play_cons h
      exact ih hrest (hstep s a next hs hnext)

/-- A schedule is no longer than the measure its actions lower. -/
theorem play_bounded (size : S → Nat)
    (hstep : ∀ s a s', step s a = some s' → size s' < size s) {s s' : S} {as : List A}
    (h : play step s as = some s') : as.length + size s' ≤ size s := by
  induction as generalizing s with
  | nil =>
      obtain rfl := Option.some.inj h
      simp
  | cons a as ih =>
      obtain ⟨next, hnext, hrest⟩ := play_cons h
      have hlt := hstep s a next hnext
      have hle := ih hrest
      rw [List.length_cons]
      omega

/-- Where a system does what another one does, seen through `abs`, but for steps that
cannot be seen, its schedules end where schedules of the other one do. The steps may rest
on an invariant. -/
theorem play_simulated {S' A' : Type*} {step' : S' → A' → Option S'} (Inv : S → Prop)
    (abs : S → S')
    (hstep : ∀ s a s', Inv s → step s a = some s' →
      Inv s' ∧ (abs s' = abs s ∨ ∃ a', step' (abs s) a' = some (abs s')))
    {s s' : S} {as : List A} (h : play step s as = some s') (hs : Inv s) :
    Inv s' ∧ ∃ as', play step' (abs s) as' = some (abs s') := by
  induction as generalizing s with
  | nil =>
      obtain rfl := Option.some.inj h
      exact ⟨hs, [], rfl⟩
  | cons a as ih =>
      obtain ⟨next, hnext, hrest⟩ := play_cons h
      obtain ⟨hinv, hsame⟩ := hstep s a next hs hnext
      obtain ⟨hinv', as', hplay⟩ := ih hrest hinv
      refine ⟨hinv', ?_⟩
      rcases hsame with heq | ⟨a', hstep'⟩
      · exact ⟨as', heq ▸ hplay⟩
      · refine ⟨a' :: as', ?_⟩
        rw [play, hstep', Option.bind_some, hplay]

/-! ## Conditions along a schedule -/

def Along (step : S → A → Option S) (ok : S → A → Prop) : S → List A → Prop
  | _, [] => True
  | s, a :: as => ok s a ∧
    match step s a with
    | none => True
    | some s' => Along step ok s' as

variable {ok : S → A → Prop}

instance decidableAlong [∀ s a, Decidable (ok s a)] : ∀ s as, Decidable (Along step ok s as)
  | _, [] => .isTrue trivial
  | s, a :: as =>
    have : Decidable (match step s a with
        | none => True
        | some s' => Along step ok s' as) :=
      match step s a with
      | none => .isTrue trivial
      | some s' => decidableAlong s' as
    inferInstanceAs (Decidable (_ ∧ _))

theorem Along.tail {s s' : S} {a : A} {as : List A} (h : Along step ok s (a :: as))
    (hstep : step s a = some s') : Along step ok s' as := by
  have := h.2
  rwa [hstep] at this

theorem Along.of_append {s : S} {as as' : List A} (h : Along step ok s (as ++ as')) :
    Along step ok s as := by
  induction as generalizing s with
  | nil => trivial
  | cons a as ih =>
      refine ⟨h.1, ?_⟩
      cases hstep : step s a with
      | none => trivial
      | some next => exact ih (h.tail hstep)

theorem Along.play_invariant {Inv : S → Prop}
    (hstep : ∀ s a s', Inv s → ok s a → step s a = some s' → Inv s') {s s' : S} {as : List A}
    (halong : Along step ok s as) (h : play step s as = some s') (hs : Inv s) : Inv s' := by
  induction as generalizing s with
  | nil =>
      obtain rfl := Option.some.inj h
      exact hs
  | cons a as ih =>
      obtain ⟨next, hnext, hrest⟩ := play_cons h
      exact ih (halong.tail hnext) hrest (hstep s a next hs halong.1 hnext)

theorem exists_of_not_along {s s' : S} {as : List A} (halong : ¬Along step ok s as)
    (h : play step s as = some s') :
    ∃ before t a t' after, play step s before = some t ∧ ¬ok t a ∧ step t a = some t'
      ∧ play step t' after = some s' := by
  induction as generalizing s with
  | nil => exact absurd trivial halong
  | cons a as ih =>
      obtain ⟨next, hnext, hrest⟩ := play_cons h
      by_cases hok : ok s a
      · have htail : ¬Along step ok next as := by
          intro htail
          refine halong ⟨hok, ?_⟩
          rw [hnext]
          exact htail
        obtain ⟨before, t, a', t', after, hbefore, hbad⟩ := ih htail hrest
        refine ⟨a :: before, t, a', t', after, ?_, hbad⟩
        rw [play, hnext]
        exact hbefore
      · exact ⟨[], s, a, next, as, rfl, hok, hnext, hrest⟩

end Guarded
