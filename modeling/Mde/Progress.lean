import Mde.Delivery

/-!
# Progress

`Join` returns. Every turn of a thread lowers `work`, so the threads can
only take so many turns; and they come to a standstill only when both
have exited and the owner is out of `Join` and the destructor. No turn is
lost to a wait that nothing ends: an exited ingest thread leaves a closed
queue behind, and a closed queue wakes the egress thread.
-/

namespace Mde

open Messages Nyse

variable {P C : Type} {fromChars : Str → FromChars P} {callback : C → Message P → C}

/-! ## The work left -/

def IngestPc.work : IngestPc → Nat
  | .next => 2
  | .parse _ => 7
  | .record _ => 3
  | .close => 1
  | .done => 0

def EgressPc.work : EgressPc P → Nat
  | .waitPop => 1
  | .callback _ => 3
  | .count => 2
  | .done => 0

def OwnerPc.work : OwnerPc → Nat
  | .idle => 0
  | .joinIngest => 3
  | .joinClose => 2
  | .joinEgress => 1
  | .stopIngest => 5
  | .destroyClose => 4
  | .stopEgress => 3
  | .reapIngest => 2
  | .reapEgress => 1
  | .destroyed => 0

/-- A line costs the ingest thread at most seven turns, counting the egress thread's
three on the message it may have. -/
def Engine.work (e : Engine P C) : Nat :=
  e.ingest.pc.work + 7 * e.ingest.lines.length + 3 * e.queue.size + e.egress.pc.work
    + e.owner.work

theorem IngestThread.Moves.work {t t' : IngestThread P}
    {queue queue' : MessageQueue (Message P)}
    (h : IngestThread.Moves fromChars t queue t' queue') :
    t'.pc.work + 7 * t'.lines.length + 3 * queue'.size
      < t.pc.work + 7 * t.lines.length + 3 * queue.size := by
  cases h with
  | leave hpc hend =>
      simp only [hpc, IngestPc.work]
      omega
  | take line rest hpc hlines hstop =>
      simp only [hpc, hlines, IngestPc.work, List.length_cons]
      omega
  | parse line hpc =>
      have hsize : (t.emitLine fromChars line queue).size ≤ queue.size + 1 := by
        unfold IngestThread.emitLine
        split <;> simp [MessageQueue.push, MessageQueue.size]
      simp only [hpc, IngestPc.work, IngestThread.parseLine]
      omega
  | record error hpc =>
      simp only [hpc, IngestPc.work, IngestThread.recordParseResult]
      omega
  | close hpc =>
      simp only [hpc, IngestPc.work, MessageQueue.close, MessageQueue.size]
      omega

theorem EgressThread.Moves.work {t t' : EgressThread P C}
    {queue queue' : MessageQueue (Message P)}
    (h : EgressThread.Moves callback t queue t' queue') :
    3 * queue'.size + t'.pc.work < 3 * queue.size + t.pc.work := by
  cases h with
  | take message queue' hpc hqueue hclosed =>
      simp only [hpc, hqueue, EgressPc.work, MessageQueue.size, List.length_cons]
      omega
  | exit hpc hempty hwake =>
      simp only [hpc, EgressPc.work]
      omega
  | deliver message hpc =>
      simp only [hpc, EgressPc.work]
      omega
  | count hpc =>
      simp only [hpc, EgressPc.work]
      omega

theorem IngestThread.step_eq_none {t : IngestThread P} {queue : MessageQueue (Message P)}
    (h : t.step fromChars queue = none) : t.pc = .done := by
  unfold IngestThread.step at h
  split at h
  · split at h
    · cases h
    · split at h <;> cases h
  · cases h
  · cases h
  · cases h
  · assumption

theorem EgressThread.step_eq_none {t : EgressThread P C} {queue : MessageQueue (Message P)}
    (h : t.step callback queue = none) : t.pc = .done ∨ queue.closed = false := by
  unfold EgressThread.step at h
  split at h
  · split at h
    · rename_i hpop
      exact .inr (MessageQueue.waitPop_eq_none_iff.mp hpop).2.1
    · cases h
    · cases h
  · cases h
  · cases h
  · exact .inl (by assumption)

namespace Engine

variable {e e' : Engine P C} {lines : List Str} {sink : C}

theorem ownerStep_work (h : e.ownerStep = some e') : e'.work < e.work := by
  have hingest {owner : OwnerPc} (h : e.awaitIngest owner = some e')
      (hlt : owner.work < e.owner.work) : e'.work < e.work := by
    obtain ⟨-, rfl⟩ := awaitIngest_eq_some h
    exact Nat.add_lt_add_left hlt _
  have hegress {owner : OwnerPc} (h : e.awaitEgress owner = some e')
      (hlt : owner.work < e.owner.work) : e'.work < e.work := by
    obtain ⟨-, rfl⟩ := awaitEgress_eq_some h
    exact Nat.add_lt_add_left hlt _
  unfold ownerStep at h
  split at h <;> rename_i howner
  · cases h
  · exact hingest h (by rw [howner]; decide)
  · cases h
    simp only [work, howner, OwnerPc.work, MessageQueue.close, MessageQueue.size]
    omega
  · exact hegress h (by rw [howner]; decide)
  · cases h
    simp only [work, howner, OwnerPc.work]
    omega
  · cases h
    simp only [work, howner, OwnerPc.work, MessageQueue.close, MessageQueue.size]
    omega
  · cases h
    simp only [work, howner, OwnerPc.work]
    omega
  · exact hingest h (by rw [howner]; decide)
  · exact hegress h (by rw [howner]; decide)
  · cases h

theorem turn_work {turn : Turn} (h : e.turn fromChars callback turn = some e') :
    e'.work < e.work := by
  cases turn with
  | ingest =>
      obtain ⟨⟨ingest, queue⟩, hstep, rfl⟩ := Option.map_eq_some_iff.mp h
      have := (IngestThread.step_moves hstep).work
      simp only [work]
      omega
  | egress =>
      obtain ⟨⟨egress, queue⟩, hstep, rfl⟩ := Option.map_eq_some_iff.mp h
      have := (EgressThread.step_moves hstep).work
      simp only [work]
      omega
  | owner => exact ownerStep_work h

/-! ## Standstill -/

/-- **No deadlock.** The threads stand still only when both have exited and the
owner waits for nothing. -/
theorem Sound.standstill (hs : e.Sound fromChars callback lines sink)
    (h : ∀ turn, e.turn fromChars callback turn = none) :
    e.ingest.pc = .done ∧ e.egress.pc = .done
      ∧ (e.owner = .idle ∨ e.owner = .destroyed) := by
  have hingest : e.ingest.pc = .done :=
    IngestThread.step_eq_none (Option.map_eq_none_iff.mp (h .ingest))
  have hegress : e.egress.pc = .done := by
    rcases EgressThread.step_eq_none (Option.map_eq_none_iff.mp (h .egress)) with
      hdone | hopen
    · exact hdone
    · rw [hs.finished hingest] at hopen
      cases hopen
  refine ⟨hingest, hegress, ?_⟩
  have howner : e.ownerStep = none := h .owner
  have hawaitIngest {owner : OwnerPc} : e.awaitIngest owner ≠ none := by
    simp [Engine.awaitIngest, IngestThread.exited, hingest]
  have hawaitEgress {owner : OwnerPc} : e.awaitEgress owner ≠ none := by
    simp [Engine.awaitEgress, EgressThread.exited, hegress]
  unfold ownerStep at howner
  split at howner
  · exact .inl (by assumption)
  · exact absurd howner hawaitIngest
  · cases howner
  · exact absurd howner hawaitEgress
  · cases howner
  · cases howner
  · cases howner
  · exact absurd howner hawaitIngest
  · exact absurd howner hawaitEgress
  · exact .inr (by assumption)

/-! ## `Join` -/

def Joining (e : Engine P C) : Prop :=
  e.owner = .joinIngest ∨ e.owner = .joinClose ∨ e.owner = .joinEgress ∨ e.Joined

theorem Joining.turn (hjoin : e.Joining) {turn : Turn}
    (h : e.turn fromChars callback turn = some e') :
    e'.Joining ∧ e'.stopRequested = e.stopRequested := by
  cases turn with
  | ingest =>
      obtain ⟨⟨ingest, queue⟩, hstep, rfl⟩ := Option.map_eq_some_iff.mp h
      obtain ⟨-, hstop, -⟩ := (IngestThread.step_moves hstep).effect
      exact ⟨hjoin, by simp only [stopRequested, hstop]⟩
  | egress =>
      obtain ⟨⟨egress, queue⟩, hstep, rfl⟩ := Option.map_eq_some_iff.mp h
      obtain ⟨-, hstop, hjoinable, -⟩ := (EgressThread.step_moves hstep).effect
      refine ⟨?_, by simp only [stopRequested, hstop]⟩
      rcases hjoin with howner | howner | howner | ⟨howner, hjoined⟩
      · exact .inl howner
      · exact .inr (.inl howner)
      · exact .inr (.inr (.inl howner))
      · exact .inr (.inr (.inr ⟨howner, hjoinable.trans hjoined⟩))
  | owner =>
      have hstep : e.ownerStep = some e' := h
      rcases hjoin with howner | howner | howner | ⟨howner, -⟩ <;>
        simp only [ownerStep, howner] at hstep
      · obtain ⟨-, rfl⟩ := awaitIngest_eq_some hstep
        exact ⟨.inr (.inl rfl), rfl⟩
      · cases hstep
        exact ⟨.inr (.inr (.inl rfl)), rfl⟩
      · obtain ⟨-, rfl⟩ := awaitEgress_eq_some hstep
        exact ⟨.inr (.inr (.inr ⟨rfl, rfl⟩)), rfl⟩
      · cases hstep

structure AfterCall (fromChars : Str → FromChars P) (callback : C → Message P → C)
    (lines : List Str) (sink : C) (stop : Bool) (e : Engine P C) : Prop where
  sound : e.Sound fromChars callback lines sink
  joining : e.Joining
  stopRequested : e.stopRequested = stop

theorem AfterCall.turn {stop : Bool} (h : e.AfterCall fromChars callback lines sink stop)
    {turn : Turn} (hturn : e.turn fromChars callback turn = some e') :
    e'.AfterCall fromChars callback lines sink stop := by
  obtain ⟨hjoining, hstop⟩ := h.joining.turn hturn
  exact ⟨h.sound.turn hturn, hjoining, hstop.trans h.stopRequested⟩

theorem AfterCall.joined {stop : Bool} (h : e.AfterCall fromChars callback lines sink stop)
    (hstill : ∀ turn, e.turn fromChars callback turn = none) :
    e.Joined ∧ (stop = false →
      e.observed = Sequential.run fromChars callback lines sink) := by
  obtain ⟨-, -, hrest⟩ := h.sound.standstill hstill
  have hjoined : e.Joined := by
    rcases h.joining with howner | howner | howner | hjoined
    · simp [howner] at hrest
    · simp [howner] at hrest
    · simp [howner] at hrest
    · exact hjoined
  exact ⟨hjoined, fun hquiet => (h.sound.joined hjoined (h.stopRequested.trans hquiet)).2⟩

/-- **`Join` returns.** However the threads take turns after a call of `Join`, they
take at most `work` of them, and when no turn is left `Join` has returned; without a
stop, what can be observed is then the sequential program's. -/
theorem join_returns {actions : List Action}
    (h : play fromChars callback lines sink actions = some e) (howner : e.owner = .joinIngest)
    {turns : List Turn} (hturns : Guarded.play (turn fromChars callback) e turns = some e') :
    turns.length + e'.work ≤ e.work
      ∧ ((∀ next, e'.turn fromChars callback next = none) →
        e'.Joined ∧ (e.stopRequested = false →
          e'.observed = Sequential.run fromChars callback lines sink)) := by
  refine ⟨Guarded.play_bounded work (fun _ _ _ => turn_work) hturns, ?_⟩
  intro hstill
  have hinv : e'.AfterCall fromChars callback lines sink e.stopRequested :=
    Guarded.play_invariant (fun _ _ _ hinv hstep => hinv.turn hstep) hturns
      ⟨play_sound h, .inl howner, rfl⟩
  exact hinv.joined hstill

end Engine

end Mde
