import Mde.Destructor

/-!
# Polling a running engine

`GetSuccess`, `GetTotal` and `GetEgressCount` read atomics, so any thread may
call them while the engine runs. `RecordParseResult` counts the success of
a line before the line, and both after `ParseNext` has pushed its message.
`PolledEngine` makes the moment between the two increments visible; each of
its steps is one of the file engine or the first increment.

The counters never go back, and each is at most one ahead of the one that
is behind it (`polled_counters`). They can be ahead: a delivery may be
counted before the success, and a success before its line.
-/

namespace Mde

open Messages Nyse

variable {P C : Type} (fromChars : Str → FromChars P) (callback : C → Message P → C)
  (disk : Option Str)

/-- A file engine whose ingest thread may be between the two increments of
`RecordParseResult`. -/
structure PolledEngine (P C : Type) where
  file : FileEngine P C
  counted : Bool := false

namespace PolledEngine

variable (p : PolledEngine P C)

def ingestTurn : Option (PolledEngine P C) :=
  match p.file.engine.ingest.pc, p.counted with
  | .record _, false => some { p with counted := true }
  | _, _ => (p.file.turn fromChars callback disk .ingest).map fun file => { file }

def step : Engine.Action → Option (PolledEngine P C)
  | .turn .ingest => p.ingestTurn fromChars callback disk
  | action => (p.file.step fromChars callback disk action).map fun file => { p with file }

/-! ## The counters -/

/-- The line being recorded is a success, and counted as one. -/
def ahead : Nat :=
  match p.file.engine.ingest.pc, p.counted with
  | .record .none, true => 1
  | _, _ => 0

def getSuccess : Nat := p.file.engine.getSuccess + p.ahead
def getTotal : Nat := p.file.engine.getTotal
def getEgressCount : Nat := p.file.engine.getEgressCount

structure Before (p p' : PolledEngine P C) : Prop where
  success : p.getSuccess ≤ p'.getSuccess
  total : p.getTotal ≤ p'.getTotal
  egressCount : p.getEgressCount ≤ p'.getEgressCount

theorem Before.refl : p.Before p := ⟨Nat.le_refl _, Nat.le_refl _, Nat.le_refl _⟩

theorem Before.trans {p p' p'' : PolledEngine P C} (h : p.Before p') (h' : p'.Before p'') :
    p.Before p'' :=
  ⟨h.success.trans h'.success, h.total.trans h'.total, h.egressCount.trans h'.egressCount⟩

/-! ## Steps -/

variable {fromChars callback disk} {p} {p' : PolledEngine P C} {e e' : FileEngine P C}

theorem ingest_counters (h : e.turn fromChars callback disk .ingest = some e') :
    e'.engine.egress = e.engine.egress
      ∧ ((∃ error, e.engine.ingest.pc = .record error
          ∧ e'.engine.ingest = e.engine.ingest.recordParseResult error)
        ∨ (∀ error, e.engine.ingest.pc ≠ .record error)
          ∧ e'.engine.getSuccess = e.engine.getSuccess
          ∧ e'.engine.getTotal = e.engine.getTotal) := by
  obtain ⟨⟨ingest, file, queue⟩, hstep, rfl⟩ := Option.map_eq_some_iff.mp h
  refine ⟨rfl, ?_⟩
  unfold FileEngine.ingestStep at hstep
  split at hstep
  · rename_i hpc
    refine .inr ⟨by simp [hpc], ?_⟩
    repeat' split at hstep
    all_goals cases hstep; exact ⟨rfl, rfl⟩
  · rename_i line hpc
    cases hstep
    exact .inr ⟨by simp [hpc], rfl, rfl⟩
  · rename_i error hpc
    cases hstep
    exact .inl ⟨error, hpc, rfl⟩
  · rename_i hpc
    cases hstep
    exact .inr ⟨by simp [hpc], rfl, rfl⟩
  · cases hstep

/-- What the owner and the egress thread do leaves the ingest thread's counters alone. -/
theorem other_counters {action : Engine.Action} (haction : action ≠ .turn .ingest)
    (h : e.step fromChars callback disk action = some e') :
    e'.engine.ingest.pc = e.engine.ingest.pc
      ∧ e'.engine.getSuccess = e.engine.getSuccess ∧ e'.engine.getTotal = e.engine.getTotal
      ∧ e.engine.getEgressCount ≤ e'.engine.getEgressCount := by
  have hengine : e.engine.step fromChars callback action = some e'.engine := by
    rcases action with (_ | _ | _) | _ | _
    · exact absurd rfl haction
    all_goals
      obtain ⟨engine, hstep, rfl⟩ := Option.map_eq_some_iff.mp h
      exact hstep
  rcases action with (_ | _ | _) | _ | _
  · exact absurd rfl haction
  · obtain ⟨⟨egress, queue⟩, hstep, heq⟩ := Option.map_eq_some_iff.mp hengine
    rw [← heq]
    refine ⟨rfl, rfl, rfl, ?_⟩
    cases EgressThread.step_moves hstep with
    | take message queue' hpc hqueue hclosed => exact Nat.le_refl _
    | exit hpc hempty hwake => exact Nat.le_refl _
    | deliver message hpc => exact Nat.le_refl _
    | count hpc => exact Nat.le_succ _
  · obtain ⟨hingest, hegress, -⟩ := Engine.ownerStep_threads hengine
    have hcount : e'.engine.egress.egressCount = e.engine.egress.egressCount := by rw [hegress]
    exact ⟨by rw [hingest], by rw [Engine.getSuccess, hingest]; rfl,
      by rw [Engine.getTotal, hingest]; rfl, hcount.ge⟩
  all_goals
    rw [Engine.step] at hengine
    split at hengine
    · rw [← Option.some.inj hengine]
      exact ⟨rfl, rfl, rfl, Nat.le_refl _⟩
    · cases hengine

theorem step_file {action : Engine.Action} (h : p.step fromChars callback disk action = some p') :
    p'.file = p.file ∨ p.file.step fromChars callback disk action = some p'.file := by
  rcases action with (_ | _ | _) | _ | _
  · replace h : p.ingestTurn fromChars callback disk = some p' := h
    unfold ingestTurn at h
    split at h
    · cases h
      exact .inl rfl
    · obtain ⟨file, hturn, rfl⟩ := Option.map_eq_some_iff.mp h
      exact .inr hturn
  all_goals
    obtain ⟨file, hstep, rfl⟩ := Option.map_eq_some_iff.mp h
    exact .inr hstep

theorem step_before {action : Engine.Action}
    (h : p.step fromChars callback disk action = some p') : p.Before p' := by
  by_cases haction : action = .turn .ingest
  · subst haction
    replace h : p.ingestTurn fromChars callback disk = some p' := h
    unfold ingestTurn at h
    split at h
    · rename_i error hpc hcounted
      cases h
      refine ⟨?_, Nat.le_refl _, Nat.le_refl _⟩
      simp [getSuccess, ahead, hcounted]
    · rename_i hmiddle
      obtain ⟨file, hturn, rfl⟩ := Option.map_eq_some_iff.mp h
      obtain ⟨hegress, ⟨error, hpc, hingest⟩ | ⟨hpc, hsuccess, htotal⟩⟩ := ingest_counters hturn
      · have hcounted : p.counted = true :=
          Bool.eq_true_of_not_eq_false fun hfalse => hmiddle error hpc hfalse
        refine ⟨?_, ?_, ?_⟩
        · cases error <;>
            simp [getSuccess, ahead, Engine.getSuccess, hpc, hcounted, hingest,
              IngestThread.recordParseResult]
        · simp [getTotal, Engine.getTotal, hingest, IngestThread.recordParseResult]
        · simp [getEgressCount, Engine.getEgressCount, hegress]
      · have hahead : p.ahead = 0 := by
          unfold ahead
          split
          · exact absurd (by assumption) (hpc .none)
          · rfl
        refine ⟨?_, htotal.ge, ?_⟩
        · rw [getSuccess, getSuccess, hahead, hsuccess]
          exact Nat.le_add_right _ _
        · simp [getEgressCount, Engine.getEgressCount, hegress]
  · have hother : (p.file.step fromChars callback disk action).map (fun file => { p with file })
        = some p' := by
      rcases action with (_ | _ | _) | _ | _
      · exact absurd rfl haction
      all_goals exact h
    obtain ⟨file, hstep, rfl⟩ := Option.map_eq_some_iff.mp hother
    obtain ⟨hpc, hsuccess, htotal, hegress⟩ := other_counters haction hstep
    refine ⟨?_, htotal.ge, hegress⟩
    rw [getSuccess, getSuccess, hsuccess, ahead, ahead, hpc]

/-! ## Runs -/

variable {ingestType : IngestData} {pathExists : Bool} {sink : C} {start : FileEngine P C}

theorem play_before {actions : List Engine.Action}
    (h : Guarded.play (step fromChars callback disk) p actions = some p') : p.Before p' :=
  Guarded.play_invariant (fun _ _ _ hinv hstep => hinv.trans (step_before hstep)) h (.refl p)

theorem play_sound (hstart : FileEngine.construct ingestType pathExists sink = .ok start)
    {actions : List Engine.Action}
    (h : Guarded.play (step fromChars callback disk) { file := start } actions = some p) :
    (p.file.seen disk).Sound fromChars callback (FileEngine.lines disk) sink := by
  obtain ⟨-, actions', hplay⟩ := Guarded.play_simulated (fun _ => True) file
    (fun _ action _ _ hstep => ⟨trivial, (step_file hstep).imp_right fun h => ⟨action, h⟩⟩)
    h trivial
  exact FileEngine.play_sound hstart hplay

/-- A success is counted before its line is, and after its message was pushed. -/
theorem ahead_le : p.ahead ≤ if p.file.engine.ingest.pendingVerdict = some .none then 1 else 0 := by
  unfold ahead IngestThread.pendingVerdict
  split
  · rename_i hpc hcounted
    simp [hpc]
  · exact Nat.zero_le _

theorem counters_of_sound {lines : List Str}
    (hs : (p.file.seen disk).Sound fromChars callback lines sink) :
    p.getSuccess ≤ p.getTotal + 1 ∧ p.getEgressCount ≤ p.getSuccess + 1
      ∧ p.getTotal ≤ lines.length := by
  have hsuccess : p.file.engine.getSuccess
      + (if p.file.engine.ingest.pendingVerdict = some .none then 1 else 0)
        = p.file.engine.ingest.pushed.length := hs.ingest.success
  have htotal : p.file.engine.getTotal + p.file.engine.ingest.pendingVerdict.toList.length
      = p.file.engine.ingest.parsed.length := hs.ingest.total
  have hverdict : p.file.engine.ingest.pendingVerdict.toList.length ≤ 1 := by
    cases p.file.engine.ingest.pendingVerdict <;> simp
  have hpushed : p.file.engine.ingest.pushed.length ≤ p.file.engine.ingest.parsed.length := by
    rw [show p.file.engine.ingest.pushed = _ from hs.ingest.pushed]
    exact List.length_filterMap_le _ _
  have hcount : p.file.engine.getEgressCount + p.file.engine.egress.uncounted
      = p.file.engine.egress.delivered.length := hs.egress.count
  have hdelivered : p.file.engine.egress.delivered.length
      ≤ p.file.engine.ingest.pushed.length := by
    rw [← show _ = p.file.engine.ingest.pushed from hs.fifo, List.length_append]
    exact Nat.le_add_right _ _
  have hparsed : p.file.engine.ingest.parsed.length ≤ lines.length := by
    rw [← show p.file.engine.ingest.parsed ++ _ = lines from hs.ingest.split, List.length_append]
    exact Nat.le_add_right _ _
  have hahead := p.ahead_le
  have hone : (if p.file.engine.ingest.pendingVerdict = some .none then 1 else 0) ≤ 1 := by
    split <;> simp
  rw [getSuccess, getTotal, getEgressCount]
  refine ⟨?_, ?_, ?_⟩
  · omega
  · omega
  · omega

/-- **What a poller sees.** The counters never go back. A success read before a total is
at most one more, and so is a delivery read before a success; no more lines are counted
than there are. After `Join`, without a stop, all three are exact. -/
theorem polled_counters (hstart : FileEngine.construct ingestType pathExists sink = .ok start)
    {actions later : List Engine.Action}
    (h : Guarded.play (step fromChars callback disk) { file := start } actions = some p)
    (hlater : Guarded.play (step fromChars callback disk) p later = some p') :
    p.Before p'
      ∧ p.getSuccess ≤ p'.getTotal + 1
      ∧ p.getEgressCount ≤ p'.getSuccess + 1
      ∧ p.getTotal ≤ (FileEngine.lines disk).length
      ∧ (p.file.engine.Joined → p.file.engine.stopRequested = false →
        p.getTotal = (FileEngine.lines disk).length
          ∧ p.getSuccess = (decoded fromChars (FileEngine.lines disk)).length
          ∧ p.getEgressCount = (decoded fromChars (FileEngine.lines disk)).length) := by
  have hs := play_sound hstart h
  have hbefore := play_before hlater
  obtain ⟨hsuccess, hegress, htotal⟩ := counters_of_sound hs
  refine ⟨hbefore, hsuccess.trans (Nat.succ_le_succ hbefore.total),
    hegress.trans (Nat.succ_le_succ hbefore.success), htotal, ?_⟩
  intro hjoined hstop
  have hdone : p.file.engine.ingest.pc = .done :=
    (hs.delivered_eq_pushed (hs.egressJoined hjoined.2) hstop).1
  obtain ⟨-, hobserved⟩ := hs.joined hjoined hstop
  rw [Sequential.run_eq] at hobserved
  obtain ⟨-, hsuccess, htotal, hcount, -⟩ := Sequential.mk.injEq .. |>.mp hobserved
  refine ⟨htotal, ?_, hcount⟩
  rw [getSuccess, ahead, hdone]
  exact hsuccess

section Sample

/-- The message of the first line is delivered before the line is recorded. -/
abbrev polledRun : Option (PolledEngine Nat (OrderBook Nat)) :=
  Guarded.play (step Engine.sampleFromChars (fun book message => book.onMessage message.data)
    (some FileEngine.sampleContent)) { file := FileEngine.sampleStart }
    (List.replicate 3 (.turn .ingest) ++ List.replicate 3 (.turn .egress))

theorem polledRun_isSome : polledRun.isSome = true := by decide +kernel

abbrev polled : PolledEngine Nat (OrderBook Nat) := polledRun.get polledRun_isSome

/-- The success is counted, and the line is not. -/
abbrev polledLater : Option (PolledEngine Nat (OrderBook Nat)) :=
  Guarded.play (step Engine.sampleFromChars (fun book message => book.onMessage message.data)
    (some FileEngine.sampleContent)) polled [.turn .ingest]

theorem polledLater_isSome : polledLater.isSome = true := by decide +kernel

/-- Both bounds are reached. -/
theorem polled_counters_sample :
    let later := polledLater.get polledLater_isSome
    polled.Before later ∧ polled.getEgressCount = polled.getSuccess + 1
      ∧ later.getSuccess = later.getTotal + 1 ∧ polled.getTotal ≤ 2 := by
  intro later
  have hstart : FileEngine.construct IngestData.nysePillar true {} = .ok FileEngine.sampleStart :=
    rfl
  have hrun : polledRun = some polled := (Option.some_get _).symm
  have hlater : polledLater = some later := (Option.some_get _).symm
  obtain ⟨hbefore, -, -, htotal, -⟩ := polled_counters hstart hrun hlater
  exact ⟨hbefore, by decide +kernel, by decide +kernel, htotal⟩

end Sample

end PolledEngine

end Mde
