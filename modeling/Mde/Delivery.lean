import Mde.Engine
import Mde.OrderBook
import Mde.Sequential

/-!
# Delivery

What the egress thread hands to the callback, under every interleaving of
the engine's threads and their owner.

`Sound` is the invariant: what each thread has done so far, by its program
counter, that delivered, held and queued messages are together the pushed
ones in order, and what a closed queue, an exited thread and a joined
thread say about the others. `play_sound` is the run lemma.

`Sound.joined` says that when `Join` has returned and no stop was
requested, nothing observable is different from the work done line by
line on one thread. `delivered_in_order` spells it out.
-/

namespace Mde

open Messages Nyse

variable {P C : Type} {fromChars : Str → FromChars P} {callback : C → Message P → C}

/-! ## What a thread may do -/

namespace IngestThread

variable {t t' : IngestThread P} {queue queue' : MessageQueue (Message P)}

inductive Moves (fromChars : Str → FromChars P) (t : IngestThread P)
    (queue : MessageQueue (Message P)) :
    IngestThread P → MessageQueue (Message P) → Prop where
  | leave (hpc : t.pc = .next) (hend : t.lines = [] ∨ t.stopRequested = true) :
      Moves fromChars t queue { t with pc := .close } queue
  | take (line : Str) (rest : List Str) (hpc : t.pc = .next)
      (hlines : t.lines = line :: rest) (hstop : ¬t.stopRequested = true) :
      Moves fromChars t queue { t with pc := .parse line, lines := rest } queue
  | parse (line : Str) (hpc : t.pc = .parse line) :
      Moves fromChars t queue (t.parseLine fromChars line) (t.emitLine fromChars line queue)
  | record (error : Parser.ParseError) (hpc : t.pc = .record error) :
      Moves fromChars t queue (t.recordParseResult error) queue
  | close (hpc : t.pc = .close) :
      Moves fromChars t queue { t with pc := .done } queue.close

theorem step_moves (h : t.step fromChars queue = some (t', queue')) :
    Moves fromChars t queue t' queue' := by
  unfold step at h
  split at h
  · rename_i hpc
    split at h
    · rename_i hlines
      cases h
      exact .leave hpc (.inl hlines)
    · rename_i line rest hlines
      split at h
      · rename_i hstop
        cases h
        exact .leave hpc (.inr hstop)
      · rename_i hstop
        cases h
        exact .take line rest hpc hlines hstop
  · rename_i line hpc
    cases h
    exact .parse line hpc
  · rename_i error hpc
    cases h
    exact .record error hpc
  · rename_i hpc
    cases h
    exact .close hpc
  · cases h

end IngestThread

namespace EgressThread

variable {t t' : EgressThread P C} {queue queue' : MessageQueue (Message P)}

inductive Moves (callback : C → Message P → C) (t : EgressThread P C)
    (queue : MessageQueue (Message P)) :
    EgressThread P C → MessageQueue (Message P) → Prop where
  | take (message : Message P) (queue' : MessageQueue (Message P)) (hpc : t.pc = .waitPop)
      (hqueue : queue.queue = message :: queue'.queue)
      (hclosed : queue'.closed = queue.closed) :
      Moves callback t queue { t with pc := .callback message } queue'
  | exit (hpc : t.pc = .waitPop) (hempty : queue.queue = [])
      (hwake : queue.closed = true ∨ t.stopRequested = true) :
      Moves callback t queue { t with pc := .done } queue
  | deliver (message : Message P) (hpc : t.pc = .callback message) :
      Moves callback t queue
        { t with
          pc := .count
          sink := callback t.sink message
          delivered := t.delivered ++ [message] } queue
  | count (hpc : t.pc = .count) :
      Moves callback t queue { t with pc := .waitPop, egressCount := t.egressCount + 1 } queue

theorem step_moves (h : t.step callback queue = some (t', queue')) :
    Moves callback t queue t' queue' := by
  unfold step at h
  split at h
  · rename_i hpc
    split at h
    · cases h
    · rename_i message next hpop
      cases h
      rcases MessageQueue.waitPop_cases hpop with ⟨_, hfound, hqueue, hclosed⟩ | ⟨hfound, -⟩
      · cases hfound
        exact .take message _ hpc hqueue hclosed
      · cases hfound
    · rename_i next hpop
      cases h
      rcases MessageQueue.waitPop_cases hpop with ⟨_, hfound, -⟩ | ⟨-, rfl, hempty, hwake⟩
      · cases hfound
      · exact .exit hpc hempty hwake
  · rename_i message hpc
    cases h
    exact .deliver message hpc
  · rename_i hpc
    cases h
    exact .count hpc
  · cases h

end EgressThread

/-! ## What a thread has done -/

namespace IngestThread

variable {t t' : IngestThread P} {queue queue' : MessageQueue (Message P)}
  {lines : List Str}

/-- The line taken but not parsed yet. -/
def pendingLine (t : IngestThread P) : List Str :=
  match t.pc with
  | .parse line => [line]
  | _ => []

/-- The verdict on a line parsed but not recorded yet. -/
def pendingVerdict (t : IngestThread P) : Option Parser.ParseError :=
  match t.pc with
  | .record error => some error
  | _ => none

structure Sound (fromChars : Str → FromChars P) (lines : List Str)
    (t : IngestThread P) : Prop where
  split : t.parsed ++ (t.pendingLine ++ t.lines) = lines
  parser : t.parser = parserAfter fromChars t.parsed
  pushed : t.pushed = decoded fromChars t.parsed
  success : t.success + (if t.pendingVerdict = some .none then 1 else 0) = t.pushed.length
  total : t.total + t.pendingVerdict.toList.length = t.parsed.length
  ended : t.pc = .close ∨ t.pc = .done → t.lines = [] ∨ t.stopRequested = true

theorem Sound.moves (hs : t.Sound fromChars lines) (h : Moves fromChars t queue t' queue') :
    t'.Sound fromChars lines := by
  obtain ⟨hsplit, hparser, hpushed, hsuccess, htotal, hended⟩ := hs
  cases h with
  | leave hpc hend =>
      simp only [pendingLine, pendingVerdict, hpc] at hsplit hsuccess htotal
      exact ⟨hsplit, hparser, hpushed, hsuccess, htotal, fun _ => hend⟩
  | take line rest hpc hlines hstop =>
      simp only [pendingLine, pendingVerdict, hpc, hlines] at hsplit hsuccess htotal
      exact ⟨hsplit, hparser, hpushed, hsuccess, htotal, by simp⟩
  | parse line hpc =>
      simp only [pendingLine, pendingVerdict, hpc] at hsplit hsuccess htotal
      refine ⟨?_, ?_, ?_, ?_, ?_, by simp [parseLine]⟩
      · simpa [parseLine, pendingLine] using hsplit
      · simp only [parseLine, parserAfter_append_singleton, ← hparser]
      · simp only [parseLine]
        rw [hpushed, ← decoded_append_singleton]
      · have hlen := @length_emitted _ fromChars t.parser line
        simp only [parseLine, pendingVerdict, List.length_append, hlen, Option.some.injEq]
        simp only [reduceCtorEq, if_false] at hsuccess
        omega
      · simp only [parseLine, pendingVerdict, List.length_append]
        simpa using htotal
  | record error hpc =>
      simp only [pendingLine, pendingVerdict, hpc] at hsplit hsuccess htotal
      refine ⟨hsplit, hparser, hpushed, ?_, ?_, by simp [recordParseResult]⟩
      · simp only [recordParseResult, pendingVerdict, Option.some.injEq] at hsuccess ⊢
        split at hsuccess <;> simp_all
      · simpa [recordParseResult, pendingVerdict] using htotal
  | close hpc =>
      simp only [pendingLine, pendingVerdict, hpc] at hsplit hsuccess htotal
      exact ⟨hsplit, hparser, hpushed, hsuccess, htotal, fun _ => hended (.inl hpc)⟩

/-- The thread's moves on its flags and on the queue: it pushes what it says it
pushed, and closes the queue with its last step. -/
theorem Moves.effect (h : Moves fromChars t queue t' queue') :
    t.pc ≠ .done ∧ t'.stopRequested = t.stopRequested ∧ t'.joinable = t.joinable
      ∧ (∃ new, t'.pushed = t.pushed ++ new ∧ queue'.queue = queue.queue ++ new)
      ∧ (queue'.closed = true ↔ queue.closed = true ∨ t'.pc = .done) := by
  cases h with
  | leave hpc hend => exact ⟨by simp [hpc], rfl, rfl, ⟨[], by simp⟩, by simp⟩
  | take line rest hpc hlines hstop =>
      exact ⟨by simp [hpc], rfl, rfl, ⟨[], by simp⟩, by simp⟩
  | parse line hpc =>
      refine ⟨by simp [hpc], rfl, rfl, ⟨_, rfl, ?_⟩, ?_⟩
      · unfold emitLine
        cases (parseNext fromChars t.parser line).emitted <;> simp [MessageQueue.push]
      · unfold emitLine
        cases (parseNext fromChars t.parser line).emitted <;>
          simp [MessageQueue.push, parseLine]
  | record error hpc =>
      exact ⟨by simp [hpc], rfl, rfl, ⟨[], by simp [recordParseResult]⟩,
        by simp [recordParseResult]⟩
  | close hpc =>
      exact ⟨by simp [hpc], rfl, rfl, ⟨[], by simp [MessageQueue.close]⟩,
        by simp [MessageQueue.close]⟩

end IngestThread

namespace EgressThread

variable {t t' : EgressThread P C} {queue queue' : MessageQueue (Message P)} {sink : C}

/-- The message taken off the queue but not handed over yet. -/
def held (t : EgressThread P C) : List (Message P) :=
  match t.pc with
  | .callback message => [message]
  | _ => []

/-- One while the last delivery is not counted yet. -/
def uncounted (t : EgressThread P C) : Nat :=
  match t.pc with
  | .count => 1
  | _ => 0

structure Sound (callback : C → Message P → C) (sink : C) (t : EgressThread P C) :
    Prop where
  sink : t.sink = t.delivered.foldl callback sink
  count : t.egressCount + t.uncounted = t.delivered.length

theorem Sound.moves (hs : t.Sound callback sink) (h : Moves callback t queue t' queue') :
    t'.Sound callback sink := by
  obtain ⟨hsink, hcount⟩ := hs
  cases h with
  | take message queue' hpc hqueue hclosed =>
      simp only [uncounted, hpc] at hcount
      exact ⟨hsink, hcount⟩
  | exit hpc hempty hwake =>
      simp only [uncounted, hpc] at hcount
      exact ⟨hsink, hcount⟩
  | deliver message hpc =>
      simp only [uncounted, hpc] at hcount
      refine ⟨?_, ?_⟩
      · simp only [List.foldl_append, List.foldl_cons, List.foldl_nil, hsink]
      · simp only [uncounted, List.length_append, List.length_singleton]
        omega
  | count hpc =>
      simp only [uncounted, hpc] at hcount
      exact ⟨hsink, hcount⟩

/-- The thread's moves on its flags and on the queue: a message it takes is
delivered or held, and it exits on an empty queue only. -/
theorem Moves.effect (h : Moves callback t queue t' queue') :
    t.pc ≠ .done ∧ t'.stopRequested = t.stopRequested ∧ t'.joinable = t.joinable
      ∧ queue'.closed = queue.closed
      ∧ t'.delivered ++ (t'.held ++ queue'.queue) = t.delivered ++ (t.held ++ queue.queue)
      ∧ (t'.pc = .done → queue.queue = [] ∧ queue'.queue = []
        ∧ (queue.closed = true ∨ t.stopRequested = true)) := by
  cases h with
  | take message queue' hpc hqueue hclosed =>
      refine ⟨by simp [hpc], rfl, rfl, hclosed, ?_, by simp⟩
      simp [held, hpc, hqueue]
  | exit hpc hempty hwake =>
      refine ⟨by simp [hpc], rfl, rfl, rfl, ?_, fun _ => ⟨hempty, hempty, hwake⟩⟩
      simp [held, hpc]
  | deliver message hpc =>
      refine ⟨by simp [hpc], rfl, rfl, rfl, ?_, by simp⟩
      simp [held, hpc]
  | count hpc =>
      refine ⟨by simp [hpc], rfl, rfl, rfl, ?_, by simp⟩
      simp [held, hpc]

end EgressThread

/-! ## The whole engine -/

namespace Engine

variable {e e' : Engine P C} {lines : List Str} {sink : C}

structure Sound (fromChars : Str → FromChars P) (callback : C → Message P → C)
    (lines : List Str) (sink : C) (e : Engine P C) : Prop where
  ingest : e.ingest.Sound fromChars lines
  egress : e.egress.Sound callback sink
  /-- delivered, held and queued messages are together the pushed ones, in order -/
  fifo : e.egress.delivered ++ (e.egress.held ++ e.queue.queue) = e.ingest.pushed
  closed : e.queue.closed = true → e.ingest.pc = .done ∨ e.ingest.stopRequested = true
  finished : e.ingest.pc = .done → e.queue.closed = true
  drained : e.egress.pc = .done → e.stopRequested = true
    ∨ e.ingest.pc = .done ∧ e.queue.queue = []
  ingestJoined : e.ingest.joinable = false → e.ingest.pc = .done
  egressJoined : e.egress.joinable = false → e.egress.pc = .done
  joining : e.owner = .joinClose → e.ingest.pc = .done
  destroying : e.owner = .destroyClose → e.ingest.stopRequested = true

theorem sound_new : (new lines sink : Engine P C).Sound fromChars callback lines sink where
  ingest := ⟨rfl, rfl, rfl, rfl, rfl, by simp [new]⟩
  egress := ⟨rfl, rfl⟩
  fifo := rfl
  closed := by simp [new]
  finished := by simp [new]
  drained := by simp [new]
  ingestJoined := by simp [new]
  egressJoined := by simp [new]
  joining := by simp [new]
  destroying := by simp [new]

theorem Sound.ingest_step (hs : e.Sound fromChars callback lines sink)
    {ingest : IngestThread P} {queue : MessageQueue (Message P)}
    (h : e.ingest.step fromChars e.queue = some (ingest, queue)) :
    ({ e with ingest, queue } : Engine P C).Sound fromChars callback lines sink := by
  have hmoves := IngestThread.step_moves h
  obtain ⟨hpc, hstop, hjoinable, ⟨new, hpushed, hqueue⟩, hclosed⟩ := hmoves.effect
  refine
    { ingest := hs.ingest.moves hmoves
      egress := hs.egress
      fifo := ?_
      closed := ?_
      finished := fun h => hclosed.mpr (.inr h)
      drained := ?_
      ingestJoined := fun h => absurd (hs.ingestJoined (hjoinable.symm.trans h)) hpc
      egressJoined := hs.egressJoined
      joining := fun h => absurd (hs.joining h) hpc
      destroying := fun h => hstop.trans (hs.destroying h) }
  · show e.egress.delivered ++ (e.egress.held ++ queue.queue) = ingest.pushed
    rw [hpushed, hqueue, ← hs.fifo, List.append_assoc, List.append_assoc]
  · intro h
    rcases hclosed.mp h with hq | hdone
    · rcases hs.closed hq with hdone | hst
      · exact absurd hdone hpc
      · exact .inr (hstop.trans hst)
    · exact .inl hdone
  · intro h
    rcases hs.drained h with hst | ⟨hdone, -⟩
    · left
      show (ingest.stopRequested || e.egress.stopRequested) = true
      rw [hstop]
      exact hst
    · exact absurd hdone hpc

theorem Sound.egress_step (hs : e.Sound fromChars callback lines sink)
    {egress : EgressThread P C} {queue : MessageQueue (Message P)}
    (h : e.egress.step callback e.queue = some (egress, queue)) :
    ({ e with egress, queue } : Engine P C).Sound fromChars callback lines sink := by
  have hmoves := EgressThread.step_moves h
  obtain ⟨hpc, hstop, hjoinable, hclosed, hfifo, hexit⟩ := hmoves.effect
  refine
    { ingest := hs.ingest
      egress := hs.egress.moves hmoves
      fifo := hfifo.trans hs.fifo
      closed := fun h => hs.closed (hclosed.symm.trans h)
      finished := fun h => hclosed.trans (hs.finished h)
      drained := ?_
      ingestJoined := hs.ingestJoined
      egressJoined := fun h => absurd (hs.egressJoined (hjoinable.symm.trans h)) hpc
      joining := hs.joining
      destroying := hs.destroying }
  intro h
  -- an exit finds the queue empty; without a stop only a closed queue wakes the thread
  show (e.ingest.stopRequested || egress.stopRequested) = true
    ∨ e.ingest.pc = .done ∧ queue.queue = []
  obtain ⟨-, hempty, hwake⟩ := hexit h
  rw [hstop, Bool.or_eq_true]
  rcases hwake with hq | hst
  · rcases hs.closed hq with hdone | hst
    · exact .inr ⟨hdone, hempty⟩
    · exact .inl (.inl hst)
  · exact .inl (.inr hst)

theorem awaitIngest_eq_some {owner : OwnerPc} (h : e.awaitIngest owner = some e') :
    (e.ingest.joinable = true → e.ingest.pc = .done)
      ∧ e' = { e with owner, ingest := { e.ingest with joinable := false } } := by
  unfold awaitIngest at h
  split at h
  · cases h
  · rename_i hexited
    refine ⟨?_, (Option.some.inj h).symm⟩
    intro hjoinable
    unfold IngestThread.exited at hexited
    split at hexited
    · rename_i hpc
      exact hpc
    · simp [hjoinable] at hexited

theorem awaitEgress_eq_some {owner : OwnerPc} (h : e.awaitEgress owner = some e') :
    (e.egress.joinable = true → e.egress.pc = .done)
      ∧ e' = { e with owner, egress := { e.egress with joinable := false } } := by
  unfold awaitEgress at h
  split at h
  · cases h
  · rename_i hexited
    refine ⟨?_, (Option.some.inj h).symm⟩
    intro hjoinable
    unfold EgressThread.exited at hexited
    split at hexited
    · rename_i hpc
      exact hpc
    · simp [hjoinable] at hexited

theorem Sound.awaitIngest (hs : e.Sound fromChars callback lines sink) {owner : OwnerPc}
    (howner : owner ≠ .destroyClose) (h : e.awaitIngest owner = some e') :
    e'.Sound fromChars callback lines sink := by
  obtain ⟨hdone, rfl⟩ := awaitIngest_eq_some h
  have hpc : e.ingest.pc = .done := by
    cases hjoinable : e.ingest.joinable with
    | true => exact hdone hjoinable
    | false => exact hs.ingestJoined hjoinable
  obtain ⟨hsplit, hparser, hpushed, hsuccess, htotal, hended⟩ := hs.ingest
  exact
    { hs with
      ingest := ⟨hsplit, hparser, hpushed, hsuccess, htotal, hended⟩
      ingestJoined := fun _ => hpc
      joining := fun _ => hpc
      destroying := fun h => absurd h howner }

theorem Sound.awaitEgress (hs : e.Sound fromChars callback lines sink) {owner : OwnerPc}
    (hclose : owner ≠ .joinClose) (hdestroy : owner ≠ .destroyClose)
    (h : e.awaitEgress owner = some e') : e'.Sound fromChars callback lines sink := by
  obtain ⟨hdone, rfl⟩ := awaitEgress_eq_some h
  have hpc : e.egress.pc = .done := by
    cases hjoinable : e.egress.joinable with
    | true => exact hdone hjoinable
    | false => exact hs.egressJoined hjoinable
  exact
    { hs with
      egress := ⟨hs.egress.sink, hs.egress.count⟩
      egressJoined := fun _ => hpc
      joining := fun h => absurd h hclose
      destroying := fun h => absurd h hdestroy }

/-- A queue may be closed by the owner once the ingest thread cannot push any more,
or has been told to stop. -/
theorem Sound.close (hs : e.Sound fromChars callback lines sink)
    (hclosed : e.ingest.pc = .done ∨ e.ingest.stopRequested = true) {owner : OwnerPc}
    (hclose : owner ≠ .joinClose) (hdestroy : owner ≠ .destroyClose) :
    ({ e with owner, queue := e.queue.close } : Engine P C).Sound fromChars callback lines
      sink :=
  { hs with
    closed := fun _ => hclosed
    finished := fun _ => rfl
    joining := fun h => absurd h hclose
    destroying := fun h => absurd h hdestroy }

theorem Sound.stopIngest (hs : e.Sound fromChars callback lines sink) :
    ({ e with
      owner := .destroyClose
      ingest := { e.ingest with stopRequested := true } } : Engine P C).Sound fromChars
      callback lines sink := by
  obtain ⟨hsplit, hparser, hpushed, hsuccess, htotal, -⟩ := hs.ingest
  exact
    { hs with
      ingest := ⟨hsplit, hparser, hpushed, hsuccess, htotal, fun _ => .inr rfl⟩
      closed := fun _ => .inr rfl
      drained := fun _ => .inl rfl
      joining := by simp
      destroying := fun _ => rfl }

theorem Sound.stopEgress (hs : e.Sound fromChars callback lines sink) :
    ({ e with
      owner := .reapIngest
      egress := { e.egress with stopRequested := true } } : Engine P C).Sound fromChars
      callback lines sink := by
  exact
    { hs with
      egress := ⟨hs.egress.sink, hs.egress.count⟩
      drained := fun _ => .inl (by simp [Engine.stopRequested])
      joining := by simp
      destroying := by simp }

theorem Sound.owner_step (hs : e.Sound fromChars callback lines sink)
    (h : e.ownerStep = some e') : e'.Sound fromChars callback lines sink := by
  unfold ownerStep at h
  split at h
  · cases h
  · exact hs.awaitIngest (by simp) h
  · rename_i howner
    cases h
    exact hs.close (.inl (hs.joining howner)) (by simp) (by simp)
  · exact hs.awaitEgress (by simp) (by simp) h
  · cases h
    exact hs.stopIngest
  · rename_i howner
    cases h
    exact hs.close (.inr (hs.destroying howner)) (by simp) (by simp)
  · cases h
    exact hs.stopEgress
  · exact hs.awaitIngest (by simp) h
  · exact hs.awaitEgress (by simp) (by simp) h
  · cases h

theorem Sound.call (hs : e.Sound fromChars callback lines sink) {owner : OwnerPc}
    (hclose : owner ≠ .joinClose) (hdestroy : owner ≠ .destroyClose) :
    ({ e with owner } : Engine P C).Sound fromChars callback lines sink :=
  { hs with
    joining := fun h => absurd h hclose
    destroying := fun h => absurd h hdestroy }

theorem Sound.turn (hs : e.Sound fromChars callback lines sink) {turn : Turn}
    (h : e.turn fromChars callback turn = some e') :
    e'.Sound fromChars callback lines sink := by
  cases turn with
  | ingest =>
      obtain ⟨⟨ingest, queue⟩, hstep, rfl⟩ := Option.map_eq_some_iff.mp h
      exact hs.ingest_step hstep
  | egress =>
      obtain ⟨⟨egress, queue⟩, hstep, rfl⟩ := Option.map_eq_some_iff.mp h
      exact hs.egress_step hstep
  | owner => exact hs.owner_step h

/-- **The step lemma.** -/
theorem Sound.step (hs : e.Sound fromChars callback lines sink) {action : Action}
    (h : e.step fromChars callback action = some e') :
    e'.Sound fromChars callback lines sink := by
  cases action with
  | turn turn => exact hs.turn h
  | callJoin =>
      rw [Engine.step] at h
      split at h
      · cases h
        exact hs.call (by simp) (by simp)
      · cases h
  | callDestructor =>
      rw [Engine.step] at h
      split at h
      · cases h
        exact hs.call (by simp) (by simp)
      · cases h

/-- **The run lemma**: the invariant holds under every interleaving. -/
theorem play_sound {actions : List Action}
    (h : play fromChars callback lines sink actions = some e) :
    e.Sound fromChars callback lines sink :=
  Guarded.play_invariant (fun _ _ _ hs hstep => Sound.step hs hstep) h sound_new

/-- An exited egress thread has handed over all that was pushed, unless it was
stopped, or the ingest thread was. -/
theorem Sound.delivered_eq_pushed (hs : e.Sound fromChars callback lines sink)
    (hpc : e.egress.pc = .done) (hstop : e.stopRequested = false) :
    e.ingest.pc = .done ∧ e.egress.delivered = e.ingest.pushed := by
  rcases hs.drained hpc with hst | ⟨hdone, hempty⟩
  · rw [hstop] at hst
    cases hst
  · refine ⟨hdone, ?_⟩
    have hfifo := hs.fifo
    rw [hempty, EgressThread.held, hpc] at hfifo
    simpa using hfifo

def observed (e : Engine P C) : Sequential P C where
  parser := e.ingest.parser
  success := e.getSuccess
  total := e.getTotal
  egressCount := e.getEgressCount
  sink := e.egress.sink

/-- **The pipeline is the sequential program** once `Join` has returned without a
stop. -/
theorem Sound.joined (hs : e.Sound fromChars callback lines sink) (hjoined : e.Joined)
    (hstop : e.stopRequested = false) :
    e.egress.delivered = decoded fromChars lines
      ∧ e.observed = Sequential.run fromChars callback lines sink := by
  have hexit := hs.egressJoined hjoined.2
  obtain ⟨hdone, hdelivered⟩ := hs.delivered_eq_pushed hexit hstop
  have hlines : e.ingest.lines = [] := by
    rcases hs.ingest.ended (.inr hdone) with hlines | hst
    · exact hlines
    · simp [Engine.stopRequested, hst] at hstop
  have hparsed : e.ingest.parsed = lines := by
    simpa [IngestThread.pendingLine, hdone, hlines] using hs.ingest.split
  have hpushed := hs.ingest.pushed
  have hsuccess := hs.ingest.success
  have htotal := hs.ingest.total
  have hcount := hs.egress.count
  simp only [IngestThread.pendingVerdict, hdone, EgressThread.uncounted, hexit]
    at hsuccess htotal hcount
  rw [hparsed] at hpushed htotal
  rw [hpushed] at hsuccess hdelivered
  rw [hdelivered] at hcount
  rw [Sequential.run_eq, observed, Sequential.mk.injEq]
  exact ⟨hdelivered, hs.ingest.parser.trans (by rw [hparsed]), hsuccess, htotal, hcount,
    hs.egress.sink.trans (by rw [hdelivered])⟩

/-- **In order, exactly once.** At every moment of every interleaving the callback
has got a prefix of what was pushed. When `Join` has returned without a stop, it has
got the messages of the lines, and what it drives is as if driven by them directly. -/
theorem delivered_in_order [LinearOrder P] {actions : List Action}
    (h : play fromChars callback lines sink actions = some e) :
    e.egress.delivered <+: e.ingest.pushed
      ∧ (e.Joined → e.stopRequested = false →
        e.egress.delivered = decoded fromChars lines
          ∧ e.getEgressCount = e.getSuccess
          ∧ e.getTotal = lines.length
          ∧ ∀ book : C → OrderBook P,
            (∀ state message, book (callback state message)
              = (book state).onMessage message.data) →
            book e.egress.sink
              = ((decoded fromChars lines).map Message.data).foldl OrderBook.onMessage
                (book sink)) := by
  have hs := play_sound h
  refine ⟨⟨_, hs.fifo⟩, ?_⟩
  intro hjoined hstop
  obtain ⟨hdelivered, hobserved⟩ := hs.joined hjoined hstop
  rw [Sequential.run_eq] at hobserved
  obtain ⟨-, hsuccess, htotal, hcount, hsink⟩ := Sequential.mk.injEq .. |>.mp hobserved
  refine ⟨hdelivered, hcount.trans hsuccess.symm, htotal, ?_⟩
  intro book hbook
  rw [hsink, List.foldl_map]
  exact (List.foldl_hom book fun state message => (hbook state message).symm).symm

section Sample

/-- Prices without a fraction. -/
def sampleFromChars : Str → FromChars Nat := unsignedFromChars (2 ^ 64)

/-- Two orders, and a line of no known type between them. -/
def sampleLines : List Str :=
  ["100,7,09:30:00.000000001,A,1,55,125,300,B,F,", "99,8,A",
    "100,9,09:30:00.000000002,A,2,56,126,100,S,F,"].map fun line =>
      line.toList.map Char.toUInt8

/-- The egress thread waits, works while the first line is recorded, and exits in
the middle of `Join`. -/
def sampleActions : List Action :=
  [.turn .ingest, .turn .ingest, .turn .egress, .turn .ingest, .turn .egress,
    .turn .ingest, .turn .ingest, .turn .egress, .callJoin, .turn .ingest, .turn .ingest,
    .turn .ingest, .turn .ingest, .turn .ingest, .turn .ingest, .turn .owner, .turn .owner,
    .turn .egress, .turn .egress, .turn .egress, .turn .egress, .turn .owner]

abbrev samplePlay : Option (Engine Nat (OrderBook Nat)) :=
  play sampleFromChars (fun book message => book.onMessage message.data) sampleLines {}
    sampleActions

theorem samplePlay_isSome : samplePlay.isSome = true := by decide +kernel

abbrev sampleEngine : Engine Nat (OrderBook Nat) := samplePlay.get samplePlay_isSome

theorem delivered_in_order_sample :
    samplePlay = some sampleEngine
      ∧ sampleEngine.Joined ∧ sampleEngine.stopRequested = false
      ∧ sampleEngine.egress.delivered <+: sampleEngine.ingest.pushed
      ∧ (decoded sampleFromChars sampleLines).length = 2
      ∧ sampleEngine.egress.delivered = decoded sampleFromChars sampleLines
      ∧ sampleEngine.getEgressCount = sampleEngine.getSuccess
      ∧ sampleEngine.getTotal = 3
      ∧ sampleEngine.egress.sink
        = OrderBook.run ((decoded sampleFromChars sampleLines).map Message.data) := by
  have hplay : samplePlay = some sampleEngine := (Option.some_get _).symm
  have hjoined : sampleEngine.Joined := ⟨by decide +kernel, by decide +kernel⟩
  have hstop : sampleEngine.stopRequested = false := by decide +kernel
  obtain ⟨hpushed, hjoin⟩ := delivered_in_order hplay
  obtain ⟨hdelivered, hcount, htotal, hbook⟩ := hjoin hjoined hstop
  exact ⟨hplay, hjoined, hstop, hpushed, by decide +kernel, hdelivered, hcount, htotal,
    hbook id fun _ _ => rfl⟩

end Sample

end Engine

end Mde
