import Mde.Getline
import Mde.Progress

/-!
# The engine on a file

The constructor that takes a path, and `IngestLoopFromFile`, the ingest
loop it starts: the file is opened on the ingest thread and read line by
line with `std::getline`, which a requested stop is tested before.

A `FileEngine` is an engine with the stream of its ingest thread; the
`lines` of the thread itself stay empty. What the path names when the
thread opens it is a parameter, `disk`: the constructor has looked at the
path before, but only whether it exists.

`seen` is the engine on the lines that are still to be read. `step_seen`
says that a step of the file engine is one of this engine, or the opening
of the file, which cannot be seen; so every schedule is one of an engine
that was given the lines (`play_seen`), and what holds of the one holds of
the other. `file_join_returns` says what that means for who joins it.
-/

namespace Mde

open Messages Nyse Getline

/-! ## Construction -/

/-- The values of the `enum class`, which is one byte wide. -/
abbrev IngestData := UInt8

namespace IngestData

def none : IngestData := 0
def nysePillar : IngestData := 1
def invalid : IngestData := 2

end IngestData

def validateIngestType (ingestType : IngestData) : Except String Unit :=
  if ingestType = IngestData.none ∨ ingestType ≥ IngestData.invalid then
    .error "invalid IngestType was supplied"
  else .ok ()

/-- An engine whose ingest thread reads a file; `file` is what is unread of it, once
it is open. -/
structure FileEngine (P C : Type) where
  engine : Engine P C
  file : Option Str := none

namespace FileEngine

variable {P C : Type} (fromChars : Str → FromChars P) (callback : C → Message P → C)
  (disk : Option Str)

/-- `Engine(IngestType, IngestPath, Callback)`, up to the start of the threads. -/
def construct (ingestType : IngestData) (pathExists : Bool) (sink : C) :
    Except String (FileEngine P C) :=
  match validateIngestType ingestType with
  | .error e => .error e
  | .ok () =>
    if !pathExists then .error "invalid ingestData path was supplied"
    else .ok { engine := Engine.new [] sink }

/-! ## Steps -/

/-- `IngestLoopFromFile`. A file that cannot be opened ends the thread. -/
def ingestStep (t : IngestThread P) (file : Option Str) (queue : MessageQueue (Message P)) :
    Option (IngestThread P × Option Str × MessageQueue (Message P)) :=
  match t.pc with
  | .next =>
    match file with
    | none =>
      match disk with
      | none => some ({ t with pc := .close }, none, queue)
      | some content => some (t, some content, queue)
    | some rest =>
      if t.stopRequested then some ({ t with pc := .close }, some rest, queue)
      else match getline lineFeed rest with
        | none => some ({ t with pc := .close }, some rest, queue)
        | some (line, rest) => some ({ t with pc := .parse line }, some rest, queue)
  | .parse line =>
    some (t.parseLine fromChars line, file, t.emitLine fromChars line queue)
  | .record error => some (t.recordParseResult error, file, queue)
  | .close => some ({ t with pc := .done }, file, queue.close)
  | .done => none

variable (e : FileEngine P C)

def turn : Engine.Turn → Option (FileEngine P C)
  | .ingest =>
    (ingestStep fromChars disk e.engine.ingest e.file e.engine.queue).map
      fun (ingest, file, queue) => { engine := { e.engine with ingest, queue }, file }
  | .egress => (e.engine.turn fromChars callback .egress).map fun engine => { e with engine }
  | .owner => (e.engine.turn fromChars callback .owner).map fun engine => { e with engine }

def step : Engine.Action → Option (FileEngine P C)
  | .turn turn => e.turn fromChars callback disk turn
  | action => (e.engine.step fromChars callback action).map fun engine => { e with engine }

/-! ## The engine on the lines -/

def lines : List Str :=
  match disk with
  | none => []
  | some content => getlines lineFeed content

/-- The lines to be read, of a file that may not be open yet. -/
def unread (file : Option Str) : List Str :=
  match file with
  | none => lines disk
  | some rest => getlines lineFeed rest

def seen : Engine P C :=
  { e.engine with ingest := { e.engine.ingest with lines := unread disk e.file } }

variable {fromChars callback disk} {e} {e' : FileEngine P C}

theorem seen_construct {ingestType : IngestData} {pathExists : Bool} {sink : C}
    (h : construct ingestType pathExists sink = .ok e) :
    e.seen disk = Engine.new (lines disk) sink := by
  rw [construct] at h
  split at h
  · cases h
  · split at h
    · cases h
    · cases h
      rfl

/-- A turn of the ingest thread is one of the thread that has the lines, or the opening
of the file. -/
theorem ingestStep_seen {t t' : IngestThread P} {file file' : Option Str}
    {queue queue' : MessageQueue (Message P)}
    (h : ingestStep fromChars disk t file queue = some (t', file', queue')) :
    (t' = t ∧ queue' = queue ∧ unread disk file' = unread disk file
        ∧ file = none ∧ file'.isSome = true)
      ∨ file'.isSome = file.isSome
        ∧ ({ t with lines := unread disk file } : IngestThread P).step fromChars queue
          = some ({ t' with lines := unread disk file' }, queue') := by
  unfold ingestStep at h
  unfold IngestThread.step
  split at h
  · rename_i hpc
    simp only [hpc]
    split at h
    · split at h
      · cases h
        exact .inr ⟨rfl, rfl⟩
      · cases h
        exact .inl ⟨rfl, rfl, rfl, rfl, rfl⟩
    · rename_i rest
      refine .inr ?_
      split at h
      · rename_i hstop
        cases h
        refine ⟨rfl, ?_⟩
        cases unread disk (some rest) with
        | nil => rfl
        | cons line lines => simp only [hstop, if_true]
      · rename_i hstop
        split at h
        · rename_i hline
          cases h
          have hlines : unread disk (some rest) = [] := getlines_of_getline_eq_none hline
          simp only [hlines, Option.isSome_some, and_self]
        · rename_i line rest' hline
          cases h
          have hlines : unread disk (some rest) = line :: unread disk (some rest') :=
            getlines_of_getline hline
          simp only [hlines, hstop, Option.isSome_some, true_and]
          rfl
  · rename_i hpc
    cases h
    refine .inr ⟨rfl, ?_⟩
    simp only [hpc]
    rfl
  · rename_i hpc
    cases h
    refine .inr ⟨rfl, ?_⟩
    simp only [hpc]
    rfl
  · rename_i hpc
    cases h
    exact .inr ⟨rfl, by simp only [hpc]⟩
  · cases h

theorem turn_withLines {engine engine' : Engine P C} {turn : Engine.Turn}
    (hturn : turn ≠ .ingest) (h : engine.turn fromChars callback turn = some engine')
    (lines : List Str) :
    ({ engine with ingest := { engine.ingest with lines } } : Engine P C).turn fromChars
        callback turn
      = some { engine' with ingest := { engine'.ingest with lines } } := by
  cases turn with
  | ingest => exact absurd rfl hturn
  | egress =>
      obtain ⟨⟨egress, queue⟩, hstep, rfl⟩ := Option.map_eq_some_iff.mp h
      exact Option.map_eq_some_iff.mpr ⟨(egress, queue), hstep, rfl⟩
  | owner =>
      replace h : engine.ownerStep = some engine' := h
      show Engine.ownerStep _ = _
      unfold Engine.ownerStep Engine.awaitIngest Engine.awaitEgress at h ⊢
      cases howner : engine.owner <;> simp only [howner] at h ⊢ <;>
        first
          | cases h; rfl
          | cases h
          | (split at h
             · cases h
             · rename_i hexit
               cases h
               exact if_neg hexit)

/-- A turn of the file engine is one of the engine on the lines, or the opening of the
file. -/
theorem turn_seen {turn : Engine.Turn} (h : e.turn fromChars callback disk turn = some e') :
    (e'.seen disk = e.seen disk ∧ e.file = none ∧ e'.file.isSome = true)
      ∨ e'.file.isSome = e.file.isSome
        ∧ (e.seen disk).turn fromChars callback turn = some (e'.seen disk) := by
  cases turn with
  | ingest =>
      obtain ⟨⟨ingest, file, queue⟩, hstep, rfl⟩ := Option.map_eq_some_iff.mp h
      rcases ingestStep_seen hstep with ⟨rfl, rfl, hlines, hfile, hopen⟩ | ⟨hopen, hseen⟩
      · exact .inl ⟨by rw [seen, seen, hlines], hfile, hopen⟩
      · exact .inr ⟨hopen, Option.map_eq_some_iff.mpr ⟨_, hseen, rfl⟩⟩
  | egress =>
      obtain ⟨engine, hstep, rfl⟩ := Option.map_eq_some_iff.mp h
      exact .inr ⟨rfl, turn_withLines (by decide) hstep _⟩
  | owner =>
      obtain ⟨engine, hstep, rfl⟩ := Option.map_eq_some_iff.mp h
      exact .inr ⟨rfl, turn_withLines (by decide) hstep _⟩

theorem step_seen {action : Engine.Action}
    (h : e.step fromChars callback disk action = some e') :
    e'.seen disk = e.seen disk
      ∨ (e.seen disk).step fromChars callback action = some (e'.seen disk) := by
  cases action with
  | turn turn => exact (turn_seen h).imp And.left And.right
  | callJoin =>
      obtain ⟨engine, hstep, rfl⟩ := Option.map_eq_some_iff.mp h
      rw [Engine.step] at hstep
      split at hstep
      · rename_i howner
        cases hstep
        exact .inr (if_pos howner)
      · cases hstep
  | callDestructor =>
      obtain ⟨engine, hstep, rfl⟩ := Option.map_eq_some_iff.mp h
      rw [Engine.step] at hstep
      split at hstep
      · rename_i howner
        cases hstep
        exact .inr (if_pos howner)
      · cases hstep

theorem play_seen {start : FileEngine P C} {actions : List Engine.Action}
    (h : Guarded.play (step fromChars callback disk) start actions = some e) :
    ∃ actions', Guarded.play (Engine.step fromChars callback) (start.seen disk) actions'
      = some (e.seen disk) :=
  (Guarded.play_simulated (fun _ => True) (seen disk)
    (fun _ action _ _ hstep => ⟨trivial, (step_seen hstep).imp_right fun h => ⟨action, h⟩⟩)
    h trivial).2

/-- The threads of the file engine stand still only where the engine's on the lines do. -/
theorem turn_seen_eq_none {turn : Engine.Turn}
    (h : e.turn fromChars callback disk turn = none) :
    (e.seen disk).turn fromChars callback turn = none := by
  cases turn with
  | ingest =>
      have hstep : ingestStep fromChars disk e.engine.ingest e.file e.engine.queue = none :=
        Option.map_eq_none_iff.mp h
      refine Option.map_eq_none_iff.mpr ?_
      have hpc : e.engine.ingest.pc = .done := by
        unfold ingestStep at hstep
        repeat' split at hstep
        all_goals first | assumption | cases hstep
      simp only [IngestThread.step, seen, hpc]
  | egress =>
      refine Option.eq_none_iff_forall_ne_some.mpr fun engine hsome => ?_
      have hturn : e.engine.turn fromChars callback .egress = some _ :=
        turn_withLines (by decide) hsome e.engine.ingest.lines
      rw [Option.map_eq_none_iff.mp h] at hturn
      cases hturn
  | owner =>
      refine Option.eq_none_iff_forall_ne_some.mpr fun engine hsome => ?_
      have hturn : e.engine.turn fromChars callback .owner = some _ :=
        turn_withLines (by decide) hsome e.engine.ingest.lines
      rw [Option.map_eq_none_iff.mp h] at hturn
      cases hturn

/-! ## `Join` on a file -/

variable {ingestType : IngestData} {pathExists : Bool} {sink : C} {start : FileEngine P C}

theorem play_sound (hstart : construct ingestType pathExists sink = .ok start)
    {actions : List Engine.Action}
    (h : Guarded.play (step fromChars callback disk) start actions = some e) :
    (e.seen disk).Sound fromChars callback (lines disk) sink := by
  obtain ⟨actions', hplay⟩ := play_seen h
  rw [seen_construct hstart] at hplay
  exact Engine.play_sound hplay

/-- The turns left, with one for the opening of the file. -/
def work (disk : Option Str) (e : FileEngine P C) : Nat :=
  (e.seen disk).work + if e.file.isSome then 0 else 1

theorem turn_work {turn : Engine.Turn} (h : e.turn fromChars callback disk turn = some e') :
    e'.work disk < e.work disk := by
  rcases turn_seen h with ⟨hseen, hfile, hopen⟩ | ⟨hopen, hturn⟩
  · simp [work, hseen, hfile, hopen]
  · have := Engine.turn_work hturn
    simp only [work, hopen]
    omega

/-- Where no turn is left after a call of `Join`, it has returned. -/
theorem joined_of_still (hstart : construct ingestType pathExists sink = .ok start)
    {actions : List Engine.Action}
    (h : Guarded.play (step fromChars callback disk) start actions = some e)
    (howner : e.engine.owner = .joinIngest) {turns : List Engine.Turn}
    (hturns : Guarded.play (turn fromChars callback disk) e turns = some e')
    (hstill : ∀ next, e'.turn fromChars callback disk next = none) :
    e'.engine.Joined ∧ (e.engine.stopRequested = false →
      e'.engine.observed = Sequential.run fromChars callback (lines disk) sink) := by
  let called (e₁ : FileEngine P C) : Prop :=
    (e₁.seen disk).AfterCall fromChars callback (lines disk) sink e.engine.stopRequested
  have hinv : called e' := by
    refine Guarded.play_invariant ?_ hturns ⟨play_sound hstart h, .inl howner, rfl⟩
    intro e₁ turn e₂ hinv hturn
    rcases turn_seen hturn with ⟨hseen, -⟩ | ⟨-, hturn⟩
    · simp only [called, hseen]
      exact hinv
    · exact hinv.turn hturn
  exact hinv.joined fun next => turn_seen_eq_none (hstill next)

/-- **`Join` returns for a file.** However the threads take turns after a call of `Join`,
they take at most `work` of them; when no turn is left `Join` has returned, and without a
stop what can be observed is what the sequential program makes of the lines of the file:
nothing, if it could not be opened. -/
theorem file_join_returns (hstart : construct ingestType pathExists sink = .ok start)
    {actions : List Engine.Action}
    (h : Guarded.play (step fromChars callback disk) start actions = some e)
    (howner : e.engine.owner = .joinIngest) {turns : List Engine.Turn}
    (hturns : Guarded.play (turn fromChars callback disk) e turns = some e') :
    turns.length + e'.work disk ≤ e.work disk
      ∧ ((∀ next, e'.turn fromChars callback disk next = none) →
        e'.engine.Joined ∧ (e.engine.stopRequested = false →
          e'.engine.observed = Sequential.run fromChars callback (lines disk) sink)) :=
  ⟨Guarded.play_bounded (work disk) (fun _ _ _ => turn_work) hturns,
    joined_of_still hstart h howner hturns⟩

section Sample

/-- Two lines, the second one without a line feed. -/
def sampleContent : Str :=
  "100,7,09:30:00.000000001,A,1,55,125,300,B,F,\n99,8,A".toList.map Char.toUInt8

def sampleStart : FileEngine Nat (OrderBook Nat) := { engine := Engine.new [] {} }

/-- The file is opened, and `Join` called. -/
abbrev sampleCall : Option (FileEngine Nat (OrderBook Nat)) :=
  Guarded.play (step Engine.sampleFromChars (fun book message => book.onMessage message.data)
    (some sampleContent)) sampleStart [.turn .ingest, .callJoin]

theorem sampleCall_isSome : sampleCall.isSome = true := by decide +kernel

abbrev sampleCalled : FileEngine Nat (OrderBook Nat) := sampleCall.get sampleCall_isSome

def sampleTurns : List Engine.Turn :=
  [.ingest, .ingest, .ingest, .egress, .egress, .egress, .ingest, .ingest, .ingest, .ingest,
    .ingest, .owner, .egress, .owner, .owner]

abbrev sampleReturn : Option (FileEngine Nat (OrderBook Nat)) :=
  Guarded.play (turn Engine.sampleFromChars (fun book message => book.onMessage message.data)
    (some sampleContent)) sampleCalled sampleTurns

theorem sampleReturn_isSome : sampleReturn.isSome = true := by decide +kernel

abbrev sampleReturned : FileEngine Nat (OrderBook Nat) := sampleReturn.get sampleReturn_isSome

theorem file_join_returns_sample :
    sampleTurns.length + sampleReturned.work (some sampleContent)
        ≤ sampleCalled.work (some sampleContent)
      ∧ sampleReturned.engine.Joined
      ∧ sampleReturned.engine.observed = Sequential.run Engine.sampleFromChars
        (fun book message => book.onMessage message.data) (lines (some sampleContent)) {}
      ∧ sampleReturned.engine.getTotal = 2 ∧ sampleReturned.engine.getEgressCount = 1 := by
  have hstart : construct IngestData.nysePillar true {} = .ok sampleStart := rfl
  have hcall : sampleCall = some sampleCalled := (Option.some_get _).symm
  have hreturn : sampleReturn = some sampleReturned := (Option.some_get _).symm
  obtain ⟨hwork, hstill⟩ := file_join_returns hstart hcall (by decide +kernel) hreturn
  obtain ⟨hjoined, hobserved⟩ := hstill fun next => by
    refine Option.isNone_iff_eq_none.mp ?_
    cases next <;> decide +kernel
  exact ⟨hwork, hjoined, hobserved (by decide +kernel), by decide +kernel, by decide +kernel⟩

end Sample

end FileEngine

end Mde
