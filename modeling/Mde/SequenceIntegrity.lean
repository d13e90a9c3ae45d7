import Mde.Parser
import Mde.Runs

/-!
# Sequence integrity in closed form

`RecordSequence` keeps five counters beside a high-water mark. What they
say about the sequence numbers recorded so far is `Tallied`: the mark is
their maximum, every number is a duplicate, a jump back or an advance,
and the messages lost are the values below the mark less the advances.

The counters and the set of numbers seen meet in `missing`, how many
values up to the mark no message carried. A duplicate leaves it alone,
an advance adds the values it skips (`missing_raise`), and only a jump
back can lower it without the counters noticing, which is why the lost
messages are an upper bound and exact without jumps back.
-/

namespace Mde.Parser

/-! ## The values that no message carried -/

/-- How many of the values `1, …, mark` are not among the numbers seen. -/
def missing (seen : List Nat) (mark : Nat) : Nat :=
  ((Finset.Icc 1 mark).filter fun n => n ∉ seen).card

theorem missing_concat_le (seen : List Nat) (n mark : Nat) :
    missing (seen ++ [n]) mark ≤ missing seen mark := by
  refine Finset.card_le_card ?_
  intro v hv
  rw [Finset.mem_filter] at hv ⊢
  exact ⟨hv.1, fun hmem => hv.2 (List.mem_append_left _ hmem)⟩

theorem missing_concat_of_mem {seen : List Nat} {n : Nat} (h : n ∈ 0 :: seen) (mark : Nat) :
    missing (seen ++ [n]) mark = missing seen mark := by
  refine congrArg Finset.card (Finset.filter_congr ?_)
  intro v hv
  rw [List.mem_append, List.mem_singleton]
  rcases List.mem_cons.mp h with rfl | h
  · have hpos := (Finset.mem_Icc.mp hv).1
    exact not_congr (or_iff_left (by omega))
  · exact not_congr (or_iff_left_of_imp fun heq => heq ▸ h)

/-- An advance skips the values between the old mark and the new one. -/
theorem missing_raise {seen : List Nat} {mark n : Nat} (hseen : ∀ v ∈ seen, v ≤ mark)
    (hlt : mark < n) : missing (seen ++ [n]) n = missing seen mark + (n - mark - 1) := by
  have hsplit : (Finset.Icc 1 n).filter (fun v => v ∉ seen ++ [n])
      = (Finset.Icc 1 mark).filter (fun v => v ∉ seen) ∪ Finset.Ioo mark n := by
    ext v
    simp only [Finset.mem_filter, Finset.mem_union, Finset.mem_Icc, Finset.mem_Ioo,
      List.mem_append, List.mem_singleton]
    by_cases hv : v ∈ seen
    · have := hseen v hv
      simp only [hv, true_or, not_true, and_false, false_or, false_iff]
      omega
    · simp only [hv, false_or, not_false_eq_true, and_true]
      omega
  have hdisjoint : Disjoint ((Finset.Icc 1 mark).filter fun v => v ∉ seen)
      (Finset.Ioo mark n) := by
    refine Finset.disjoint_left.mpr ?_
    intro v hv hv'
    have := (Finset.mem_Icc.mp (Finset.mem_filter.mp hv).1).2
    have := (Finset.mem_Ioo.mp hv').1
    omega
  rw [missing, hsplit, Finset.card_union_of_disjoint hdisjoint, Nat.card_Ioo, missing]

theorem isGreatest_concat {seen : List Nat} {mark : Nat}
    (h : IsGreatest { v | v ∈ 0 :: seen } mark) (n : Nat) :
    IsGreatest { v | v ∈ 0 :: (seen ++ [n]) } (max mark n) := by
  have hset : { v | v ∈ 0 :: (seen ++ [n]) } = insert n { v | v ∈ 0 :: seen } := by
    ext v
    simp [or_comm, or_assoc]
  rw [hset, max_comm]
  exact h.insert n

/-! ## One number -/

/-- The subtractions of an advance do not wrap. -/
theorem toNat_skipped {last sequenceNumber : UInt64} (h : last < sequenceNumber) :
    (sequenceNumber - last - 1).toNat = sequenceNumber.toNat - last.toNat - 1 := by
  have hlt := UInt64.lt_iff_toNat_lt.mp h
  have hbound := sequenceNumber.toNat_lt
  simp only [UInt64.toNat_sub, UInt64.toNat_one]
  omega

/-- Nor does the mark plus one, below a greater number. -/
theorem gap_iff {last sequenceNumber : UInt64} (h : last < sequenceNumber) :
    sequenceNumber > last + 1 ↔ last.toNat + 1 < sequenceNumber.toNat := by
  have hlt := UInt64.lt_iff_toNat_lt.mp h
  have hbound := sequenceNumber.toNat_lt
  rw [gt_iff_lt, UInt64.lt_iff_toNat_lt, UInt64.toNat_add, UInt64.toNat_one,
    Nat.mod_eq_of_lt (by omega)]

namespace IntegrityMetrics

/-- The part of `RecordSequence` that does not touch the histogram. -/
def record (metrics : IntegrityMetrics) (sequenceNumber : UInt64) : IntegrityMetrics :=
  (metrics.classify sequenceNumber).raise sequenceNumber

/-- What recording a number can do. An advance by one loses nothing. -/
theorem record_cases (metrics : IntegrityMetrics) (sequenceNumber : UInt64) :
    (sequenceNumber = metrics.lastSequenceNumber
        ∧ metrics.record sequenceNumber
          = { metrics with duplicates := metrics.duplicates + 1 })
      ∨ (sequenceNumber < metrics.lastSequenceNumber
        ∧ metrics.record sequenceNumber
          = { metrics with backwardsJumps := metrics.backwardsJumps + 1 })
      ∨ (metrics.lastSequenceNumber < sequenceNumber
        ∧ metrics.record sequenceNumber
          = { metrics with
              lastSequenceNumber := sequenceNumber
              gapEvents := metrics.gapEvents
                + if sequenceNumber > metrics.lastSequenceNumber + 1 then 1 else 0
              messagesLost := metrics.messagesLost
                + (sequenceNumber - metrics.lastSequenceNumber - 1) }) := by
  by_cases heq : sequenceNumber = metrics.lastSequenceNumber
  · refine .inl ⟨heq, ?_⟩
    rw [record, classify, if_pos heq, raise, if_neg (by simp [heq])]
  · by_cases hlt : sequenceNumber < metrics.lastSequenceNumber
    · refine .inr (.inl ⟨hlt, ?_⟩)
      rw [record, classify, if_neg heq, if_pos hlt, raise, if_neg (UInt64.lt_asymm hlt)]
    · have hgt : metrics.lastSequenceNumber < sequenceNumber :=
        UInt64.lt_of_le_of_ne (UInt64.not_lt.mp hlt) (Ne.symm heq)
      refine .inr (.inr ⟨hgt, ?_⟩)
      rw [record, classify, if_neg heq, if_neg hlt]
      by_cases hgap : sequenceNumber > metrics.lastSequenceNumber + 1
      · rw [if_pos hgap, if_pos hgap, raise, if_pos hgt]
      · have hnext : sequenceNumber - metrics.lastSequenceNumber - 1 = 0 := by
          have hle := mt (gap_iff hgt).mpr hgap
          refine UInt64.toNat_inj.mp ?_
          rw [toNat_skipped hgt, UInt64.toNat_zero]
          omega
        rw [if_neg hgap, if_neg hgap, raise, if_pos hgt, hnext, UInt64.add_zero]
        rfl

/-- What the counters say about the numbers recorded, `advances` of which raised
the mark. -/
structure Tallied (metrics : IntegrityMetrics) (seen : List Nat) (advances : Nat) :
    Prop where
  /-- The mark is the maximum of zero and all numbers. -/
  mark : IsGreatest { n | n ∈ 0 :: seen } metrics.lastSequenceNumber.toNat
  /-- Every number is a duplicate, a jump back or an advance. -/
  total : metrics.duplicates + metrics.backwardsJumps + advances = seen.length
  /-- The messages lost are the mark less the advances; the sum never wraps. -/
  lost : metrics.messagesLost.toNat + advances = metrics.lastSequenceNumber.toNat
  gapEvents_le : metrics.gapEvents ≤ min advances metrics.messagesLost.toNat
  gapEvents_eq_zero_iff : metrics.gapEvents = 0 ↔ metrics.messagesLost = 0
  missing_le : missing seen metrics.lastSequenceNumber.toNat ≤ metrics.messagesLost.toNat
  missing_eq : metrics.backwardsJumps = 0 →
    missing seen metrics.lastSequenceNumber.toNat = metrics.messagesLost.toNat

theorem tallied_empty : Tallied {} [] 0 where
  mark := by simp
  total := rfl
  lost := rfl
  gapEvents_le := Nat.le_refl _
  gapEvents_eq_zero_iff := by simp
  missing_le := by simp [missing]
  missing_eq := fun _ => by simp [missing]

section Step

variable {metrics : IntegrityMetrics} {seen : List Nat} {advances : Nat}

/-- A duplicate is zero or was seen before: the missing values stay. -/
theorem Tallied.duplicate (h : metrics.Tallied seen advances) :
    { metrics with duplicates := metrics.duplicates + 1 }.Tallied
      (seen ++ [metrics.lastSequenceNumber.toNat]) advances where
  mark := by
    have := isGreatest_concat h.mark metrics.lastSequenceNumber.toNat
    rwa [Nat.max_self] at this
  total := by
    have := h.total
    rw [List.length_append, List.length_singleton]
    show metrics.duplicates + 1 + metrics.backwardsJumps + advances = seen.length + 1
    omega
  lost := h.lost
  gapEvents_le := h.gapEvents_le
  gapEvents_eq_zero_iff := h.gapEvents_eq_zero_iff
  missing_le := by
    rw [missing_concat_of_mem h.mark.1]
    exact h.missing_le
  missing_eq hback := by
    rw [missing_concat_of_mem h.mark.1]
    exact h.missing_eq hback

/-- A jump back may have found a missing value; the counters do not tell. -/
theorem Tallied.backwardsJump (h : metrics.Tallied seen advances) {n : Nat}
    (hlt : n < metrics.lastSequenceNumber.toNat) :
    { metrics with backwardsJumps := metrics.backwardsJumps + 1 }.Tallied
      (seen ++ [n]) advances where
  mark := by
    have := isGreatest_concat h.mark n
    rwa [Nat.max_eq_left (Nat.le_of_lt hlt)] at this
  total := by
    have := h.total
    rw [List.length_append, List.length_singleton]
    show metrics.duplicates + (metrics.backwardsJumps + 1) + advances = seen.length + 1
    omega
  lost := h.lost
  gapEvents_le := h.gapEvents_le
  gapEvents_eq_zero_iff := h.gapEvents_eq_zero_iff
  missing_le := Nat.le_trans (missing_concat_le ..) h.missing_le
  missing_eq hback := by cases hback

/-- An advance loses what it skips. -/
theorem Tallied.advance (h : metrics.Tallied seen advances) {sequenceNumber : UInt64}
    (hlt : metrics.lastSequenceNumber < sequenceNumber) :
    { metrics with
      lastSequenceNumber := sequenceNumber
      gapEvents := metrics.gapEvents
        + if sequenceNumber > metrics.lastSequenceNumber + 1 then 1 else 0
      messagesLost := metrics.messagesLost
        + (sequenceNumber - metrics.lastSequenceNumber - 1) }.Tallied
      (seen ++ [sequenceNumber.toNat]) (advances + 1) := by
  have hltn := UInt64.lt_iff_toNat_lt.mp hlt
  have hbound := sequenceNumber.toNat_lt
  have hlost := h.lost
  have hsum : (metrics.messagesLost + (sequenceNumber - metrics.lastSequenceNumber - 1)).toNat
      = metrics.messagesLost.toNat
        + (sequenceNumber.toNat - metrics.lastSequenceNumber.toNat - 1) := by
    rw [UInt64.toNat_add, toNat_skipped hlt, Nat.mod_eq_of_lt]
    omega
  have hgap := gap_iff hlt
  have hmissing := missing_raise (fun v hv => h.mark.2 (List.mem_cons_of_mem _ hv)) hltn
  refine ⟨?_, ?_, ?_, ?_, ?_, ?_, ?_⟩
  · have := isGreatest_concat h.mark sequenceNumber.toNat
    rwa [Nat.max_eq_right (Nat.le_of_lt hltn)] at this
  · have := h.total
    rw [List.length_append, List.length_singleton]
    show metrics.duplicates + metrics.backwardsJumps + (advances + 1) = seen.length + 1
    omega
  · show (metrics.messagesLost + _).toNat + (advances + 1) = sequenceNumber.toNat
    rw [hsum]
    omega
  · have := h.gapEvents_le
    show metrics.gapEvents + (if _ then 1 else 0)
      ≤ min (advances + 1) (metrics.messagesLost + _).toNat
    rw [hsum]
    split
    · rename_i h'
      have := hgap.mp h'
      omega
    · omega
  · have hzero := h.gapEvents_eq_zero_iff
    rw [← UInt64.toNat_inj, UInt64.toNat_zero] at hzero
    rw [← UInt64.toNat_inj, UInt64.toNat_zero]
    show metrics.gapEvents + (if _ then 1 else 0) = 0
      ↔ (metrics.messagesLost + _).toNat = 0
    rw [hsum]
    split
    · rename_i h'
      have := hgap.mp h'
      omega
    · rename_i h'
      have := mt hgap.mpr h'
      omega
  · show missing _ _ ≤ (metrics.messagesLost + _).toNat
    rw [hmissing, hsum]
    exact Nat.add_le_add_right h.missing_le _
  · intro hback
    show missing _ _ = (metrics.messagesLost + _).toNat
    rw [hmissing, hsum, h.missing_eq hback]

end Step

/-- **The step lemma.** -/
theorem Tallied.record {metrics : IntegrityMetrics} {seen : List Nat} {advances : Nat}
    (h : metrics.Tallied seen advances) (sequenceNumber : UInt64) :
    (metrics.record sequenceNumber).Tallied (seen ++ [sequenceNumber.toNat])
      (advances + (decide (metrics.lastSequenceNumber
        < (metrics.record sequenceNumber).lastSequenceNumber)).toNat) := by
  rcases metrics.record_cases sequenceNumber with ⟨heq, hr⟩ | ⟨hlt, hr⟩ | ⟨hgt, hr⟩
  · rw [hr, heq, decide_eq_false (UInt64.lt_irrefl _)]
    exact h.duplicate
  · rw [hr, decide_eq_false (UInt64.lt_irrefl _)]
    exact h.backwardsJump (UInt64.lt_iff_toNat_lt.mp hlt)
  · rw [hr, decide_eq_true hgt]
    exact h.advance hgt

end IntegrityMetrics

/-! ## Any numbers -/

def recordCall (parser : Parser) (call : UInt8 × UInt64) : Parser :=
  parser.recordSequence call.1 call.2

def recordAll (calls : List (UInt8 × UInt64)) : Parser := calls.foldl recordCall {}

/-- How many calls leave the high-water mark above where they found it. -/
def advances (calls : List (UInt8 × UInt64)) : Nat :=
  Runs.countAlong recordCall
    (fun parser call => decide (parser.lineData.lastSequenceNumber
      < (recordCall parser call).lineData.lastSequenceNumber)) {} calls

/-- The run lemma: the metrics tally with the numbers recorded. -/
theorem recordAll_tallied (calls : List (UInt8 × UInt64)) :
    (recordAll calls).lineData.Tallied (calls.map fun call => call.2.toNat)
      (advances calls) := by
  induction calls using List.reverseRecOn with
  | nil => exact IntegrityMetrics.tallied_empty
  | append_singleton calls call ih =>
      rw [recordAll, advances, List.foldl_append, ← recordAll, List.map_append,
        Runs.countAlong_append_singleton, ← recordAll, ← advances]
      exact ih.record call.2

/-- **Sequence integrity in closed form.** After any numbers, in any order and with
any repetitions: the mark is their maximum, every number is a duplicate, a jump back
or an advance, the messages lost are the mark less the advances, and they bound the
values up to the mark that no message carried, with equality when nothing jumped
back. -/
theorem sequence_integrity (calls : List (UInt8 × UInt64)) :
    let metrics : IntegrityMetrics := (recordAll calls).lineData
    let seen := calls.map fun call => call.2.toNat
    let mark := metrics.lastSequenceNumber.toNat
    IsGreatest { n | n ∈ 0 :: seen } mark
      ∧ metrics.duplicates + metrics.backwardsJumps + advances calls = calls.length
      ∧ advances calls ≤ mark
      ∧ metrics.messagesLost.toNat = mark - advances calls
      ∧ metrics.gapEvents ≤ min (advances calls) metrics.messagesLost.toNat
      ∧ (metrics.gapEvents = 0 ↔ metrics.messagesLost = 0)
      ∧ missing seen mark ≤ metrics.messagesLost.toNat
      ∧ (metrics.backwardsJumps = 0 → missing seen mark = metrics.messagesLost.toNat) := by
  intro metrics seen mark
  have h : metrics.Tallied seen (advances calls) := recordAll_tallied calls
  have htotal := h.total
  have hlost := h.lost
  rw [List.length_map] at htotal
  refine ⟨h.mark, htotal, ?_, ?_, h.gapEvents_le, h.gapEvents_eq_zero_iff, h.missing_le,
    h.missing_eq⟩
  · exact Nat.le_of_add_left_le (Nat.le_of_eq hlost)
  · exact Nat.eq_sub_of_add_eq hlost

/-- A jump back finds one of the two messages lost. -/
example : (recordAll [(100, 1), (100, 4), (100, 2)]).lineData.messagesLost = 2
    ∧ missing [1, 4, 2] 4 = 1 := by
  decide

/-! ## Position by position -/

/-- How many positions hold a value that is `p` with the values at earlier positions. -/
def countPositions (p : List Nat → Nat → Bool) (values : List Nat) : Nat :=
  values.zipIdx.countP fun entry => p (values.take entry.2) entry.1

theorem countPositions_concat (p : List Nat → Nat → Bool) (values : List Nat) (v : Nat) :
    countPositions p (values ++ [v]) = countPositions p values + (p values v).toNat := by
  have hbefore : values.zipIdx.countP (fun entry => p ((values ++ [v]).take entry.2) entry.1)
      = countPositions p values := by
    refine List.countP_congr ?_
    intro entry hentry
    have hlt := (List.getElem?_eq_some_iff.mp (List.mem_zipIdx_iff_getElem?.mp hentry)).1
    rw [List.take_append_of_le_length (Nat.le_of_lt hlt)]
  rw [countPositions, List.zipIdx_append, List.countP_append, hbefore, Nat.zero_add]
  cases h : p values v <;> simp [h]

/-- The value at an earlier position that no later one exceeds is met again. -/
def isDuplicate (earlier : List Nat) (v : Nat) : Bool := earlier.max? = some v

def isBackwardsJump (earlier : List Nat) (v : Nat) : Bool := earlier.max?.any (v < ·)

theorem max?_eq_mark {metrics : IntegrityMetrics} {seen : List Nat}
    (h : IsGreatest { n | n ∈ 0 :: seen } metrics.lastSequenceNumber.toNat) :
    (0 :: seen).max? = some metrics.lastSequenceNumber.toNat :=
  List.max?_eq_some_iff.mpr ⟨h.1, fun _ hv => h.2 hv⟩

theorem record_counters (metrics : IntegrityMetrics) (sequenceNumber : UInt64) :
    (metrics.record sequenceNumber).duplicates
        = metrics.duplicates
          + (decide (metrics.lastSequenceNumber.toNat = sequenceNumber.toNat)).toNat
      ∧ (metrics.record sequenceNumber).backwardsJumps
        = metrics.backwardsJumps
          + (decide (sequenceNumber.toNat < metrics.lastSequenceNumber.toNat)).toNat := by
  rcases metrics.record_cases sequenceNumber with ⟨heq, hr⟩ | ⟨hlt, hr⟩ | ⟨hgt, hr⟩
  · rw [hr, heq]
    simp
  · have hlt' := UInt64.lt_iff_toNat_lt.mp hlt
    rw [hr, decide_eq_false (by omega), decide_eq_true hlt']
    exact ⟨rfl, rfl⟩
  · have hgt' := UInt64.lt_iff_toNat_lt.mp hgt
    rw [hr, decide_eq_false (by omega), decide_eq_false (by omega)]
    exact ⟨rfl, rfl⟩

/-- The counters are those of the values with a zero before them. -/
theorem counters_eq_countPositions (calls : List (UInt8 × UInt64)) :
    (recordAll calls).lineData.duplicates
        = countPositions (fun earlier => isDuplicate (0 :: earlier))
          (calls.map fun call => call.2.toNat)
      ∧ (recordAll calls).lineData.backwardsJumps
        = countPositions (fun earlier => isBackwardsJump (0 :: earlier))
          (calls.map fun call => call.2.toNat) := by
  induction calls using List.reverseRecOn with
  | nil => exact ⟨rfl, rfl⟩
  | append_singleton calls call ih =>
      have hmax := max?_eq_mark (recordAll_tallied calls).mark
      have hrun : (recordAll (calls ++ [call])).lineData
          = (recordAll calls).lineData.record call.2 := by
        rw [recordAll, List.foldl_append]
        rfl
      obtain ⟨hdup, hback⟩ := record_counters (recordAll calls).lineData call.2
      rw [hrun, hdup, hback, ih.1, ih.2, List.map_append, List.map_singleton,
        countPositions_concat, countPositions_concat]
      simp [isDuplicate, isBackwardsJump, hmax]

/-- The zero matters at the first position only. -/
theorem isDuplicate_zero_cons (earlier : List Nat) (v : Nat) :
    (isDuplicate (0 :: earlier) v).toNat
        = (isDuplicate earlier v).toNat + (decide (earlier = [] ∧ v = 0)).toNat
      ∧ isBackwardsJump (0 :: earlier) v = isBackwardsJump earlier v := by
  cases earlier with
  | nil =>
      by_cases hv : v = 0
      · simp [isDuplicate, isBackwardsJump, hv]
      · simp [isDuplicate, isBackwardsJump, hv, Ne.symm hv]
  | cons w earlier =>
      have hmax : (0 :: w :: earlier).max? = (w :: earlier).max? := by
        rw [List.max?_cons, List.max?_cons]
        cases earlier.max? <;> simp
      simp [isDuplicate, isBackwardsJump, hmax]

theorem countPositions_zero_cons (values : List Nat) :
    countPositions (fun earlier => isDuplicate (0 :: earlier)) values
        = countPositions isDuplicate values + (decide (values.head? = some 0)).toNat
      ∧ countPositions (fun earlier => isBackwardsJump (0 :: earlier)) values
        = countPositions isBackwardsJump values := by
  induction values using List.reverseRecOn with
  | nil => exact ⟨rfl, rfl⟩
  | append_singleton values v ih =>
      obtain ⟨hdup, hback⟩ := isDuplicate_zero_cons values v
      rw [countPositions_concat, countPositions_concat, countPositions_concat,
        countPositions_concat, ih.1, ih.2, hdup, hback]
      refine ⟨?_, rfl⟩
      cases values with
      | nil => simp; omega
      | cons w values => simp; omega

/-- **Duplicates and jumps back, position by position.** The mark starts at zero, so
the duplicates are counted against zero and the earlier values: they are the values
that equal the maximum of the earlier ones, and a first message that carries zero.
The jumps back are the values below the maximum of the earlier ones. -/
theorem duplicates_eq_countPositions (calls : List (UInt8 × UInt64)) :
    (recordAll calls).lineData.duplicates
        = countPositions (fun earlier => isDuplicate (0 :: earlier))
          (calls.map fun call => call.2.toNat)
      ∧ (recordAll calls).lineData.duplicates
        = countPositions isDuplicate (calls.map fun call => call.2.toNat)
          + (if calls.head?.map Prod.snd = some 0 then 1 else 0)
      ∧ (recordAll calls).lineData.backwardsJumps
        = countPositions isBackwardsJump (calls.map fun call => call.2.toNat) := by
  obtain ⟨hdup, hback⟩ := counters_eq_countPositions calls
  obtain ⟨hzero, hzero'⟩ := countPositions_zero_cons (calls.map fun call => call.2.toNat)
  refine ⟨hdup, ?_, hback.trans hzero'⟩
  rw [hdup, hzero]
  cases calls with
  | nil => rfl
  | cons call calls =>
      by_cases h : call.2 = 0
      · simp [h]
      · have h' : call.2.toNat ≠ 0 := fun h' => h (UInt64.toNat_inj.mp h')
        simp [h, h']

/-- A first message that carries zero is counted as a duplicate of none. -/
theorem first_zero_duplicate :
    (recordAll [(100, 0)]).lineData.duplicates = 1
      ∧ countPositions isDuplicate [0] = 0
      ∧ (recordAll [(100, 0)]).lineData.duplicates
        ≠ countPositions isDuplicate ([((100 : UInt8), (0 : UInt64))].map fun call =>
          call.2.toNat) := by
  decide

end Mde.Parser
