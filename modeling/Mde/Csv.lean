import Mde.Message
import Mde.Separated

/-!
# The CSV reader

`CSVReader` of `csv.hpp`: a line, the comma positions found so far, and
whether the line has no more of them. `GetField` first searches commas
until it has the one behind the field or the line is exhausted, then
cuts the field out.

The loop runs at most once per index up to the field's, which is what
the model uses as fuel; `Valid.fill` says that the fuel is never what
stops it, and `loop_iff` that the loop of the source, as a relation
with a constructor for each way through its body, ends from every state
of a reader where the model's does. `Valid.getField` is the
specification: whatever was asked before, a field is the element of the
plain split.
-/

namespace Mde.Nyse

open Separated

def comma : Byte := ','.toUInt8

def lineFeed : Byte := '\n'.toUInt8

def columns (line : Str) : List Str := line.splitOn comma

inductive FieldParseError where
  | invalidFieldNum
deriving DecidableEq, Repr

structure CSVReader where
  csvLine : Str
  commaPositions : List Nat := []
  exhausted : Bool := false
deriving DecidableEq, Repr

namespace CSVReader

def searchStart (reader : CSVReader) : Nat :=
  match reader.commaPositions.getLast? with
  | some p => p + 1
  | none => 0

/-- The loop of `GetField`. -/
def fill (fieldNum : Nat) : Nat → CSVReader → CSVReader
  | 0, reader => reader
  | fuel + 1, reader =>
    if reader.commaPositions.length ≤ fieldNum && !reader.exhausted then
      match next? comma reader.csvLine reader.searchStart with
      | none => { reader with exhausted := true }
      | some commaIdx =>
        fill fieldNum fuel
          { reader with commaPositions := reader.commaPositions ++ [commaIdx] }
    else reader

/-- Past the end when the field's comma was not found. -/
def fieldStart (reader : CSVReader) (fieldNum : Nat) : Nat :=
  if fieldNum = 0 then 0
  else match reader.commaPositions[fieldNum - 1]? with
    | some p => p + 1
    | none => reader.csvLine.length + 1

def fieldEnd (reader : CSVReader) (fieldNum : Nat) : Nat :=
  (reader.commaPositions[fieldNum]?).getD reader.csvLine.length

/-- The field, and the reader with the commas it found. -/
def getField (reader : CSVReader) (fieldNum : Nat) :
    Except FieldParseError Str × CSVReader :=
  let reader := reader.fill fieldNum (fieldNum + 1)
  if reader.fieldStart fieldNum > reader.csvLine.length then
    (.error .invalidFieldNum, reader)
  else
    (.ok ((reader.csvLine.drop (reader.fieldStart fieldNum)).take
      (reader.fieldEnd fieldNum - reader.fieldStart fieldNum)), reader)

/-! ## The loop -/

/-- The runs of the loop of `GetField`: the test fails, the body breaks, or it keeps
a comma and goes round again. -/
inductive Loop (fieldNum : Nat) : CSVReader → CSVReader → Prop where
  | stop {reader : CSVReader}
      (htest : ¬ (reader.commaPositions.length ≤ fieldNum ∧ reader.exhausted = false)) :
      Loop fieldNum reader reader
  | exhaust {reader : CSVReader}
      (htest : reader.commaPositions.length ≤ fieldNum ∧ reader.exhausted = false)
      (hfind : next? comma reader.csvLine reader.searchStart = none) :
      Loop fieldNum reader { reader with exhausted := true }
  | push {reader filled : CSVReader} {commaIdx : Nat}
      (htest : reader.commaPositions.length ≤ fieldNum ∧ reader.exhausted = false)
      (hfind : next? comma reader.csvLine reader.searchStart = some commaIdx)
      (hnext : Loop fieldNum
        { reader with commaPositions := reader.commaPositions ++ [commaIdx] } filled) :
      Loop fieldNum reader filled

theorem Loop.deterministic {fieldNum : Nat} {reader filled filled' : CSVReader}
    (h : Loop fieldNum reader filled) (h' : Loop fieldNum reader filled') :
    filled = filled' := by
  induction h with
  | stop htest =>
      cases h' with
      | stop => rfl
      | exhaust htest' => exact absurd htest' htest
      | push htest' => exact absurd htest' htest
  | exhaust htest hfind =>
      cases h' with
      | stop htest' => exact absurd htest htest'
      | exhaust => rfl
      | push _ hfind' => rw [hfind] at hfind'; cases hfind'
  | push htest hfind _ ih =>
      cases h' with
      | stop htest' => exact absurd htest htest'
      | exhaust _ hfind' => rw [hfind] at hfind'; cases hfind'
      | push _ hfind' hnext' =>
          rw [hfind] at hfind'
          cases hfind'
          exact ih hnext'

/-- Every pass keeps one comma more, so that many passes end the loop. -/
theorem loop_fill (fieldNum : Nat) : ∀ (fuel : Nat) (reader : CSVReader),
    fieldNum + 1 ≤ reader.commaPositions.length + fuel →
      Loop fieldNum reader (reader.fill fieldNum fuel)
  | 0, reader, hfuel => .stop fun h => by omega
  | fuel + 1, reader, hfuel => by
      rw [fill]
      split
      · rename_i htest
        have htest' : reader.commaPositions.length ≤ fieldNum
            ∧ reader.exhausted = false := by simpa using htest
        split
        · rename_i hfind
          exact .exhaust htest' hfind
        · rename_i commaIdx hfind
          refine .push htest' hfind (loop_fill fieldNum fuel _ ?_)
          rw [List.length_append, List.length_singleton]
          omega
      · rename_i htest
        exact .stop fun h => htest (by simpa using h)

/-- **The loop terminates**, whatever state the reader is in, and leaves what `fill`
computes with a pass for every index up to the field's. -/
theorem loop_iff {fieldNum : Nat} {reader filled : CSVReader} :
    Loop fieldNum reader filled ↔ filled = reader.fill fieldNum (fieldNum + 1) := by
  have hloop := loop_fill fieldNum (fieldNum + 1) reader (by omega)
  constructor
  · intro h
    exact h.deterministic hloop
  · rintro rfl
    exact hloop

/-! ## The reader's invariant -/

/-- The positions kept are the first commas of the line, all of them once it is
exhausted. -/
structure Valid (reader : CSVReader) (line : Str) : Prop where
  csvLine : reader.csvLine = line
  positions : reader.commaPositions
    = (seps comma line).take reader.commaPositions.length
  exhausted : reader.exhausted = true → reader.commaPositions = seps comma line

theorem valid_new (line : Str) : ({ csvLine := line } : CSVReader).Valid line where
  csvLine := rfl
  positions := rfl
  exhausted := fun h => by cases h

theorem Valid.next? {reader : CSVReader} {line : Str} (h : reader.Valid line) :
    Separated.next? comma reader.csvLine reader.searchStart
      = (seps comma line)[reader.commaPositions.length]? := by
  have hnext := next?_after comma line reader.commaPositions.length
  rw [← h.positions] at hnext
  rw [h.csvLine]
  exact hnext

/-- The loop keeps the invariant, and with enough fuel it stops by itself: the
comma behind the field is there, or all commas are. -/
theorem Valid.fill {line : Str} (fieldNum : Nat) : ∀ (fuel : Nat) {reader : CSVReader},
    reader.Valid line → fieldNum + 1 ≤ reader.commaPositions.length + fuel →
      (reader.fill fieldNum fuel).Valid line
        ∧ (fieldNum < (reader.fill fieldNum fuel).commaPositions.length
          ∨ (reader.fill fieldNum fuel).exhausted = true)
  | 0, reader, h, hfuel => ⟨h, .inl hfuel⟩
  | fuel + 1, reader, h, hfuel => by
      rw [CSVReader.fill]
      split
      · cases hn : Separated.next? comma reader.csvLine reader.searchStart with
        | none =>
            refine ⟨⟨h.csvLine, h.positions, ?_⟩, .inr rfl⟩
            intro _
            rw [h.next?, List.getElem?_eq_none_iff] at hn
            exact h.positions.trans (List.take_of_length_le hn)
        | some commaIdx =>
            rw [h.next?] at hn
            refine Valid.fill fieldNum fuel ⟨h.csvLine, ?_, fun hex => ?_⟩ ?_
            · show reader.commaPositions ++ [commaIdx] = _
              rw [List.length_append, List.length_singleton, List.take_add_one, hn,
                ← h.positions]
              rfl
            · have hall := h.exhausted hex
              rw [hall, List.getElem?_eq_none (Nat.le_refl _)] at hn
              cases hn
            · show fieldNum + 1 ≤ (reader.commaPositions ++ [commaIdx]).length + fuel
              rw [List.length_append, List.length_singleton]
              omega
      · rename_i hstop
        refine ⟨h, ?_⟩
        cases hex : reader.exhausted with
        | true => exact .inr rfl
        | false =>
            simp only [hex, Bool.not_false, Bool.and_true, decide_eq_true_eq] at hstop
            exact .inl (Nat.not_le.mp hstop)

/-- **The reader is a plain split.** On a reader in any state reached by earlier
calls, a field is the element of the split, and the reader stays valid. -/
theorem Valid.getField {reader : CSVReader} {line : Str} (h : reader.Valid line)
    (fieldNum : Nat) :
    (reader.getField fieldNum).1
        = (match (columns line)[fieldNum]? with
          | some field => .ok field
          | none => .error .invalidFieldNum)
      ∧ (reader.getField fieldNum).2.Valid line := by
  obtain ⟨hvalid, hdone⟩ := h.fill fieldNum (fieldNum + 1) (by omega)
  have hcut : cut (reader.fill fieldNum (fieldNum + 1)).csvLine
        (reader.fill fieldNum (fieldNum + 1)).commaPositions fieldNum
      = (columns line)[fieldNum]? := by
    rw [columns, ← cut_seps, hvalid.csvLine]
    have hat : ∀ n, n ≤ fieldNum →
        (reader.fill fieldNum (fieldNum + 1)).commaPositions[n]? = (seps comma line)[n]? := by
      intro n hn
      rcases hdone with hlt | hex
      · rw [hvalid.positions, List.getElem?_take_of_lt (by omega)]
      · rw [hvalid.exhausted hex]
    exact cut_congr (fun _ => hat _ (by omega)) (hat _ (Nat.le_refl _))
  have hstart : start (reader.fill fieldNum (fieldNum + 1)).csvLine
      (reader.fill fieldNum (fieldNum + 1)).commaPositions fieldNum
      = (reader.fill fieldNum (fieldNum + 1)).fieldStart fieldNum := rfl
  rw [CSVReader.getField, ← hcut, cut, hstart]
  split
  · exact ⟨rfl, hvalid⟩
  · exact ⟨rfl, hvalid⟩

/-! ## Sequences of calls -/

def afterCalls (reader : CSVReader) (calls : List Nat) : CSVReader :=
  calls.foldl (fun reader fieldNum => (reader.getField fieldNum).2) reader

theorem Valid.afterCalls {line : Str} : ∀ (calls : List Nat) {reader : CSVReader},
    reader.Valid line → (reader.afterCalls calls).Valid line
  | [], _, h => h
  | fieldNum :: calls, _, h => Valid.afterCalls calls (h.getField fieldNum).2

/-- **The lazy index is a plain split.** After any calls on a reader of a line, the
next one terminates, and returns the element of the split or, exactly from the number
of commas plus one on, that there is none: what a fresh reader returns. -/
theorem getField_afterCalls (line : Str) (calls : List Nat) (fieldNum : Nat) :
    (∀ filled, Loop fieldNum (afterCalls { csvLine := line } calls) filled
        ↔ filled = (afterCalls { csvLine := line } calls).fill fieldNum (fieldNum + 1))
      ∧ ((afterCalls { csvLine := line } calls).getField fieldNum).1
        = (match (line.splitOn comma)[fieldNum]? with
          | some field => .ok field
          | none => .error .invalidFieldNum)
      ∧ (((afterCalls { csvLine := line } calls).getField fieldNum).1
          = .error .invalidFieldNum ↔ line.count comma + 1 ≤ fieldNum)
      ∧ ((afterCalls { csvLine := line } calls).getField fieldNum).1
        = (({ csvLine := line } : CSVReader).getField fieldNum).1 := by
  have hanswer := (((valid_new line).afterCalls calls).getField fieldNum).1
  have hfresh := ((valid_new line).getField fieldNum).1
  refine ⟨fun filled => loop_iff, hanswer, ?_, hanswer.trans hfresh.symm⟩
  rw [hanswer, ← length_splitOn comma line, columns, ← List.getElem?_eq_none_iff]
  cases (line.splitOn comma)[fieldNum]? with
  | none => simp
  | some field => simp

end CSVReader

end Mde.Nyse
