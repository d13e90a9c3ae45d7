import Mde.FeedFile
import Mde.Progress
import Mde.Teardown

/-!
# The destructor

`~Engine` may run at any moment between two calls, also while the file is
being read or before it has been opened. It returns: its turns lower the
work left like any other, and the threads stand still only when it has
reaped both.

What it costs is bounded. Once the stop of the ingest thread is requested,
at most the line the thread is at is still parsed. A message may arrive
behind an exited egress thread, but only that of one line (`AtMostOne`): of
all the messages pushed, the last one at most is not delivered.
-/

namespace Mde

open Messages Nyse

variable {P C : Type} {fromChars : Str → FromChars P} {callback : C → Message P → C}

namespace Engine

variable {e e' : Engine P C} {lines : List Str} {sink : C}

/-! ## Inside the destructor -/

def Destroyed (e : Engine P C) : Prop :=
  e.owner = .destroyed ∧ e.ingest.joinable = false ∧ e.egress.joinable = false

def Destroying (e : Engine P C) : Prop :=
  e.owner = .stopIngest ∨ e.owner = .destroyClose ∨ e.owner = .stopEgress
    ∨ e.owner = .reapIngest ∨ (e.owner = .reapEgress ∧ e.ingest.joinable = false)
    ∨ e.Destroyed

theorem Destroying.turn (hdestroying : e.Destroying) {turn : Turn}
    (h : e.turn fromChars callback turn = some e') : e'.Destroying := by
  cases turn with
  | ingest =>
      obtain ⟨⟨ingest, queue⟩, hstep, rfl⟩ := Option.map_eq_some_iff.mp h
      obtain ⟨-, -, hjoinable, -⟩ := (IngestThread.step_moves hstep).effect
      simpa only [Destroying, Destroyed, hjoinable] using hdestroying
  | egress =>
      obtain ⟨⟨egress, queue⟩, hstep, rfl⟩ := Option.map_eq_some_iff.mp h
      obtain ⟨-, -, hjoinable, -⟩ := (EgressThread.step_moves hstep).effect
      simpa only [Destroying, Destroyed, hjoinable] using hdestroying
  | owner =>
      have hstep : e.ownerStep = some e' := h
      rcases hdestroying with howner | howner | howner | howner | ⟨howner, hingest⟩
        | ⟨howner, -⟩ <;> simp only [ownerStep, howner] at hstep
      · cases hstep
        exact .inr (.inl rfl)
      · cases hstep
        exact .inr (.inr (.inl rfl))
      · cases hstep
        exact .inr (.inr (.inr (.inl rfl)))
      · obtain ⟨-, rfl⟩ := awaitIngest_eq_some hstep
        exact .inr (.inr (.inr (.inr (.inl ⟨rfl, rfl⟩))))
      · obtain ⟨-, rfl⟩ := awaitEgress_eq_some hstep
        exact .inr (.inr (.inr (.inr (.inr ⟨rfl, hingest, rfl⟩))))
      · cases hstep

/-! ## After the stop request -/

theorem ownerStep_threads (h : e.ownerStep = some e') :
    e'.ingest = { e.ingest with
      stopRequested := e'.ingest.stopRequested, joinable := e'.ingest.joinable }
      ∧ e'.egress = { e.egress with
        stopRequested := e'.egress.stopRequested, joinable := e'.egress.joinable }
      ∧ (e.ingest.stopRequested = true → e'.ingest.stopRequested = true) := by
  unfold ownerStep at h
  split at h
  · cases h
  · obtain ⟨-, rfl⟩ := awaitIngest_eq_some h
    exact ⟨rfl, rfl, id⟩
  · cases h
    exact ⟨rfl, rfl, id⟩
  · obtain ⟨-, rfl⟩ := awaitEgress_eq_some h
    exact ⟨rfl, rfl, id⟩
  · cases h
    exact ⟨rfl, rfl, fun _ => rfl⟩
  · cases h
    exact ⟨rfl, rfl, id⟩
  · cases h
    exact ⟨rfl, rfl, id⟩
  · obtain ⟨-, rfl⟩ := awaitIngest_eq_some h
    exact ⟨rfl, rfl, id⟩
  · obtain ⟨-, rfl⟩ := awaitEgress_eq_some h
    exact ⟨rfl, rfl, id⟩
  · cases h

end Engine

namespace IngestThread

variable {t t' : IngestThread P} {queue queue' : MessageQueue (Message P)}

def taken (t : IngestThread P) : Nat := t.parsed.length + t.pendingLine.length

theorem length_pendingLine_le (t : IngestThread P) : t.pendingLine.length ≤ 1 := by
  unfold pendingLine
  split <;> simp

theorem Moves.taken (h : Moves fromChars t queue t' queue') (hstop : t.stopRequested = true) :
    t'.taken = t.taken := by
  cases h with
  | leave hpc hend => simp [IngestThread.taken, pendingLine, hpc]
  | take line rest hpc hlines hgo => exact absurd hstop hgo
  | parse line hpc => simp [IngestThread.taken, pendingLine, parseLine, hpc]
  | record error hpc => simp [IngestThread.taken, pendingLine, recordParseResult, hpc]
  | close hpc => simp [IngestThread.taken, pendingLine, hpc]

theorem size_emitLine_le (t : IngestThread P) (line : Str) (queue : MessageQueue (Message P)) :
    (t.emitLine fromChars line queue).size ≤ queue.size + 1 := by
  unfold emitLine
  split <;> simp [MessageQueue.push, MessageQueue.size]

/-- The thread pushes at most a message for the line it was at, once it takes no more. -/
theorem Moves.room (h : Moves fromChars t queue t' queue')
    (hlast : t.pc = .done ∨ t.stopRequested = true) :
    queue'.size + t'.pendingLine.length ≤ queue.size + t.pendingLine.length := by
  cases h with
  | leave hpc hend => simp [pendingLine, hpc]
  | take line rest hpc hlines hgo =>
      rcases hlast with hdone | hstop
      · rw [hpc] at hdone
        cases hdone
      · exact absurd hstop hgo
  | parse line hpc =>
      have hsize : (t.emitLine fromChars line queue).size ≤ queue.size + 1 :=
        t.size_emitLine_le line queue
      simpa [pendingLine, parseLine, hpc] using hsize
  | record error hpc => simp [pendingLine, recordParseResult, hpc]
  | close hpc => simp [pendingLine, hpc, MessageQueue.size, MessageQueue.close]

theorem pendingLine_congr (h : t'.pc = t.pc) : t'.pendingLine = t.pendingLine := by
  rw [pendingLine, pendingLine, h]

end IngestThread

namespace Engine

variable {e e' : Engine P C} {lines : List Str} {sink : C}

/-- After the stop request no further line is taken. -/
theorem turn_taken {turn : Turn} (h : e.turn fromChars callback turn = some e')
    (hstop : e.ingest.stopRequested = true) :
    e'.ingest.stopRequested = true ∧ e'.ingest.taken = e.ingest.taken := by
  cases turn with
  | ingest =>
      obtain ⟨⟨ingest, queue⟩, hstep, rfl⟩ := Option.map_eq_some_iff.mp h
      have hmoves := IngestThread.step_moves hstep
      exact ⟨hmoves.effect.2.1.trans hstop, hmoves.taken hstop⟩
  | egress =>
      obtain ⟨⟨egress, queue⟩, -, rfl⟩ := Option.map_eq_some_iff.mp h
      exact ⟨hstop, rfl⟩
  | owner =>
      obtain ⟨hingest, -, hkeep⟩ := ownerStep_threads h
      refine ⟨hkeep hstop, ?_⟩
      rw [hingest]
      rfl

/-! ## What is lost -/

/-- Behind an exited egress thread there is at most one message, or the line of one. -/
def AtMostOne (e : Engine P C) : Prop :=
  e.egress.pc = .done → e.queue.size + e.ingest.pendingLine.length ≤ 1

theorem AtMostOne.step (ha : e.AtMostOne) (ho : e.Ordered) {action : Action}
    (h : e.step fromChars callback action = some e') : e'.AtMostOne := by
  intro hdone
  rcases step_cases h with ⟨ingest, queue, hmoves, rfl⟩ | ⟨egress, queue, hmoves, -, rfl⟩
    | ⟨-, hingest, hegress, hqueue⟩
  · exact (hmoves.room (ho.lastLine hdone)).trans (ha hdone)
  · obtain ⟨-, hempty, -⟩ := hmoves.effect.2.2.2.2.2 hdone
    have hline := e.ingest.length_pendingLine_le
    simpa [MessageQueue.size, hempty] using hline
  · rw [hegress] at hdone
    have hroom := ha hdone
    rwa [MessageQueue.size, ← hqueue, ← IngestThread.pendingLine_congr hingest] at hroom

structure InDestructor (fromChars : Str → FromChars P) (callback : C → Message P → C)
    (lines : List Str) (sink : C) (e : Engine P C) : Prop where
  sound : e.Sound fromChars callback lines sink
  ordered : e.Ordered
  atMostOne : e.AtMostOne
  destroying : e.Destroying

theorem InDestructor.turn (h : e.InDestructor fromChars callback lines sink) {turn : Turn}
    (hturn : e.turn fromChars callback turn = some e') :
    e'.InDestructor fromChars callback lines sink := by
  have hstep : e.step fromChars callback (.turn turn) = some e' := hturn
  exact ⟨h.sound.turn hturn, h.ordered.step h.sound hstep, h.atMostOne.step h.ordered hstep,
    h.destroying.turn hturn⟩

/-- At the end both threads are reaped, and of the messages of the lines read the last
one at most was not delivered. -/
theorem InDestructor.destroyed (h : e.InDestructor fromChars callback lines sink)
    (hstill : ∀ turn, e.turn fromChars callback turn = none) :
    e.Destroyed ∧ ∃ rest lost, lines = e.ingest.parsed ++ rest ∧ lost.length ≤ 1
      ∧ decoded fromChars e.ingest.parsed = e.egress.delivered ++ lost
      ∧ e.getTotal = e.ingest.parsed.length
      ∧ e.getSuccess = e.getEgressCount + lost.length := by
  obtain ⟨hingest, hegress, howner⟩ := h.sound.standstill hstill
  have hdestroyed : e.Destroyed := by
    rcases h.destroying with h | h | h | h | ⟨h, -⟩ | h
    · simp [h] at howner
    · simp [h] at howner
    · simp [h] at howner
    · simp [h] at howner
    · simp [h] at howner
    · exact h
  have hsplit := h.sound.ingest.split
  have hpushed := h.sound.ingest.pushed
  have hfifo := h.sound.fifo
  have hsuccess := h.sound.ingest.success
  have htotal := h.sound.ingest.total
  have hcount := h.sound.egress.count
  have hlost := h.atMostOne hegress
  simp only [IngestThread.pendingLine, IngestThread.pendingVerdict, EgressThread.held,
    EgressThread.uncounted, hingest, hegress, List.nil_append, List.length_nil, Nat.add_zero]
    at hsplit hfifo hsuccess htotal hcount hlost
  refine ⟨hdestroyed, e.ingest.lines, e.queue.queue, hsplit.symm, hlost, ?_, htotal, ?_⟩
  · rw [← hpushed, ← hfifo]
  · show e.ingest.success = e.egress.egressCount + e.queue.queue.length
    rw [hcount, ← List.length_append, hfifo]
    simpa using hsuccess

theorem play_atMostOne {actions : List Action}
    (h : play fromChars callback lines sink actions = some e) : e.AtMostOne := by
  have hinv : ∀ (e : Engine P C) action e',
      ((e.Sound fromChars callback lines sink ∧ e.Ordered) ∧ e.AtMostOne) →
      e.step fromChars callback action = some e' →
        ((e'.Sound fromChars callback lines sink ∧ e'.Ordered) ∧ e'.AtMostOne) :=
    fun _ _ _ ⟨hordered, ha⟩ hstep => ⟨step_ordered hordered hstep, ha.step hordered.2 hstep⟩
  exact (Guarded.play_invariant hinv h ⟨⟨sound_new, ordered_new⟩, by simp [AtMostOne, new]⟩).2

end Engine

namespace FileEngine

variable {disk : Option Str} {ingestType : IngestData} {pathExists : Bool} {sink : C}
  {start e e' : FileEngine P C}

/-- Where no turn is left after a call of the destructor, both threads are reaped and at
most one message is lost. -/
theorem destroyed_of_still (hstart : construct ingestType pathExists sink = .ok start)
    {actions : List Engine.Action}
    (h : Guarded.play (step fromChars callback disk) start actions = some e)
    (howner : e.engine.owner = .stopIngest) {turns : List Engine.Turn}
    (hturns : Guarded.play (turn fromChars callback disk) e turns = some e')
    (hstill : ∀ next, e'.turn fromChars callback disk next = none) :
    e'.engine.Destroyed ∧ ∃ rest lost,
      lines disk = e'.engine.ingest.parsed ++ rest ∧ lost.length ≤ 1
        ∧ decoded fromChars e'.engine.ingest.parsed = e'.engine.egress.delivered ++ lost
        ∧ e'.engine.getTotal = e'.engine.ingest.parsed.length
        ∧ e'.engine.getSuccess = e'.engine.getEgressCount + lost.length := by
  let destructing (e₁ : FileEngine P C) : Prop :=
    (e₁.seen disk).InDestructor fromChars callback (lines disk) sink
  have hcalled : destructing e := by
    obtain ⟨actions', hplay⟩ := play_seen h
    rw [seen_construct hstart] at hplay
    exact ⟨play_sound hstart h, (Engine.play_ordered hplay).2, Engine.play_atMostOne hplay,
      .inl howner⟩
  have hinv : destructing e' := by
    refine Guarded.play_invariant ?_ hturns hcalled
    intro e₁ turn e₂ hinv hturn
    rcases turn_seen hturn with ⟨hseen, -⟩ | ⟨-, hturn⟩
    · simp only [destructing, hseen]
      exact hinv
    · exact hinv.turn hturn
  exact hinv.destroyed fun next => turn_seen_eq_none (hstill next)

/-- **The destructor returns, and loses at most one message.** However the threads take
turns after a call of the destructor, they take at most `work` of them; after the stop
request at most one more line is parsed; and when no turn is left both threads are reaped
and every line parsed is counted. The callback has got the messages of these lines, in
order, but for the last one at most. -/
theorem destructor_returns (hstart : construct ingestType pathExists sink = .ok start)
    {actions : List Engine.Action}
    (h : Guarded.play (step fromChars callback disk) start actions = some e)
    (howner : e.engine.owner = .stopIngest) {turns : List Engine.Turn}
    (hturns : Guarded.play (turn fromChars callback disk) e turns = some e') :
    turns.length + e'.work disk ≤ e.work disk
      ∧ (∀ e₁ turns₁, Guarded.play (turn fromChars callback disk) e₁ turns₁ = some e' →
        e₁.engine.ingest.stopRequested = true →
          e'.engine.ingest.parsed.length ≤ e₁.engine.ingest.parsed.length + 1)
      ∧ ((∀ next, e'.turn fromChars callback disk next = none) →
        e'.engine.Destroyed ∧ ∃ rest lost,
          lines disk = e'.engine.ingest.parsed ++ rest ∧ lost.length ≤ 1
            ∧ decoded fromChars e'.engine.ingest.parsed = e'.engine.egress.delivered ++ lost
            ∧ e'.engine.getTotal = e'.engine.ingest.parsed.length
            ∧ e'.engine.getSuccess = e'.engine.getEgressCount + lost.length) := by
  refine ⟨Guarded.play_bounded (work disk) (fun _ _ _ => turn_work) hturns, ?_,
    destroyed_of_still hstart h howner hturns⟩
  intro e₁ turns₁ hplay hstop
  let taken (e₂ : FileEngine P C) : Prop := e₂.engine.ingest.stopRequested = true
    ∧ e₂.engine.ingest.taken = e₁.engine.ingest.taken
  have htaken : taken e' := by
    refine Guarded.play_invariant ?_ hplay ⟨hstop, rfl⟩
    intro e₂ turn e₃ ⟨hstopped, hsame⟩ hturn
    rcases turn_seen hturn with ⟨hseen, -⟩ | ⟨-, hturn⟩
    · have hstopped' : e₃.engine.ingest.stopRequested = e₂.engine.ingest.stopRequested :=
        congrArg (fun engine => engine.ingest.stopRequested) hseen
      have hsame' : e₃.engine.ingest.taken = e₂.engine.ingest.taken :=
        congrArg (fun engine => engine.ingest.taken) hseen
      exact ⟨hstopped'.trans hstopped, hsame'.trans hsame⟩
    · obtain ⟨hstopped', hsame'⟩ := Engine.turn_taken hturn hstopped
      exact ⟨hstopped', hsame'.trans hsame⟩
  have hline := e₁.engine.ingest.length_pendingLine_le
  have hsame := htaken.2
  simp only [IngestThread.taken] at hsame
  omega

section Sample

/-- The destructor is called while the ingest thread is at the first of two lines. -/
abbrev destructorCall : Option (FileEngine Nat (OrderBook Nat)) :=
  Guarded.play (step Engine.sampleFromChars (fun book message => book.onMessage message.data)
    (some sampleContent)) sampleStart [.turn .ingest, .turn .ingest, .callDestructor]

theorem destructorCall_isSome : destructorCall.isSome = true := by decide +kernel

abbrev destructorCalled : FileEngine Nat (OrderBook Nat) :=
  destructorCall.get destructorCall_isSome

/-- The egress thread exits before the line is parsed. -/
def destructorTurns : List Engine.Turn :=
  [.owner, .owner, .egress, .owner, .ingest, .ingest, .ingest, .ingest, .owner, .owner]

abbrev destructorReturn : Option (FileEngine Nat (OrderBook Nat)) :=
  Guarded.play (turn Engine.sampleFromChars (fun book message => book.onMessage message.data)
    (some sampleContent)) destructorCalled destructorTurns

theorem destructorReturn_isSome : destructorReturn.isSome = true := by decide +kernel

abbrev destructorReturned : FileEngine Nat (OrderBook Nat) :=
  destructorReturn.get destructorReturn_isSome

/-- The message of the line is lost, and the second line is not read. -/
theorem destructor_returns_sample :
    destructorTurns.length + destructorReturned.work (some sampleContent)
        ≤ destructorCalled.work (some sampleContent)
      ∧ destructorReturned.engine.Destroyed
      ∧ destructorReturned.engine.ingest.parsed.length = 1
      ∧ ∃ lost : List (Message Nat), lost.length = 1
        ∧ decoded Engine.sampleFromChars destructorReturned.engine.ingest.parsed
          = destructorReturned.engine.egress.delivered ++ lost := by
  have hstart : construct IngestData.nysePillar true {} = .ok sampleStart := rfl
  have hcall : destructorCall = some destructorCalled := (Option.some_get _).symm
  have hreturn : destructorReturn = some destructorReturned := (Option.some_get _).symm
  obtain ⟨hwork, -, hstill⟩ := destructor_returns hstart hcall (by decide +kernel) hreturn
  obtain ⟨hdestroyed, -, lost, -, -, hdecoded, -, hlost⟩ := hstill fun next => by
    refine Option.isNone_iff_eq_none.mp ?_
    cases next <;> decide +kernel
  refine ⟨hwork, hdestroyed, by decide +kernel, lost, ?_, hdecoded⟩
  have hsuccess : destructorReturned.engine.getSuccess = 1 := by decide +kernel
  have hcount : destructorReturned.engine.getEgressCount = 0 := by decide +kernel
  omega

end Sample

end FileEngine

end Mde
