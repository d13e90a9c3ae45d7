import Mathlib

/-!
# Lines of a stream

A stream that is read line by line, a line being what lies before a
terminator: `getline` gives the next line and what is left behind it, and
nothing at the end of the stream. A last line without a terminator is a
line as well, an empty rest is not.

`getlines` are the lines that repeated calls give, `getlines_eq` says so.
`unlines` puts the terminator behind every line, and is read back as the
lines it was made of.
-/

namespace Getline

variable {α : Type*} [DecidableEq α] (eol : α)

/-- The next line, and the rest of the stream behind its terminator. -/
def getline (rest : List α) : Option (List α × List α) :=
  if rest = [] then none
  else some (rest.takeWhile (· ≠ eol), (rest.dropWhile (· ≠ eol)).tail)

def getlines : List α → List (List α)
  | [] => []
  | c :: rest =>
    if c = eol then [] :: getlines rest
    else match getlines rest with
      | [] => [[c]]
      | line :: lines => (c :: line) :: lines

omit [DecidableEq α] in
def unlines (lines : List (List α)) : List α := lines.flatMap (· ++ [eol])

variable {eol}

theorem getlines_cons_of_ne {c : α} {rest : List α} (hc : c ≠ eol) (hrest : rest ≠ []) :
    ∃ line lines, getlines eol rest = line :: lines
      ∧ getlines eol (c :: rest) = (c :: line) :: lines := by
  cases rest with
  | nil => exact absurd rfl hrest
  | cons d rest =>
      cases h : getlines eol (d :: rest) with
      | nil =>
          rw [getlines] at h
          split at h
          · cases h
          · split at h <;> cases h
      | cons line lines =>
          refine ⟨line, lines, rfl, ?_⟩
          rw [getlines, if_neg hc, h]

theorem getlines_eq (rest : List α) :
    getlines eol rest = match getline eol rest with
      | none => []
      | some (line, rest') => line :: getlines eol rest' := by
  induction rest with
  | nil => rfl
  | cons c rest ih =>
      by_cases hc : c = eol
      · simp [getlines, getline, hc]
      · by_cases hrest : rest = []
        · subst hrest
          simp [getlines, getline, hc]
        · obtain ⟨line, lines, hlines, hcons⟩ := getlines_cons_of_ne hc hrest
          rw [hlines, getline, if_neg hrest] at ih
          obtain ⟨hline, htail⟩ := List.cons.injEq .. |>.mp ih
          rw [hcons, getline, if_neg (List.cons_ne_nil c rest), hline, htail]
          simp [hc]

theorem getlines_of_getline {rest line rest' : List α}
    (h : getline eol rest = some (line, rest')) :
    getlines eol rest = line :: getlines eol rest' := by
  rw [getlines_eq, h]

theorem getlines_of_getline_eq_none {rest : List α} (h : getline eol rest = none) :
    getlines eol rest = [] := by
  rw [getlines_eq, h]

theorem not_mem_of_mem_getlines {rest line : List α} (h : line ∈ getlines eol rest) :
    eol ∉ line := by
  induction rest generalizing line with
  | nil => cases h
  | cons c rest ih =>
      rw [getlines] at h
      split at h
      · rcases List.mem_cons.mp h with rfl | h
        · simp
        · exact ih h
      · rename_i hc
        split at h
        · rw [List.mem_singleton.mp h]
          simpa using Ne.symm hc
        · rename_i head lines hlines
          rw [hlines] at ih
          rcases List.mem_cons.mp h with rfl | h
          · rw [List.mem_cons, not_or]
            exact ⟨Ne.symm hc, ih (List.mem_cons_self ..)⟩
          · exact ih (List.mem_cons_of_mem _ h)

/-- A terminated line in front of a stream is its first line. -/
theorem getlines_append {line : List α} (h : eol ∉ line) (rest : List α) :
    getlines eol (line ++ eol :: rest) = line :: getlines eol rest := by
  refine getlines_of_getline ?_
  have hline : ∀ c ∈ line, (decide (c ≠ eol)) = true := by
    intro c hc
    exact decide_eq_true fun heq => h (heq ▸ hc)
  rw [getline, if_neg (by simp), List.takeWhile_append_of_pos hline,
    List.dropWhile_append_of_pos hline]
  simp

/-- **Terminated lines are read back.** -/
theorem getlines_unlines {lines : List (List α)} (h : ∀ line ∈ lines, eol ∉ line) :
    getlines eol (unlines eol lines) = lines := by
  induction lines with
  | nil => rfl
  | cons line lines ih =>
      obtain ⟨hline, hlines⟩ := List.forall_mem_cons.mp h
      rw [unlines, List.flatMap_cons, List.append_assoc, List.singleton_append, ← unlines,
        getlines_append hline, ih hlines]

end Getline
