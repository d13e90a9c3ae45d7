import Mde.Delivery

/-!
# Teardown without a join

The destructor may run while the ingest thread is in the middle of a
line. `Push` does not look at `_closed`, so a message can arrive on a
closed queue after the egress thread has found it empty and exited; the
message is counted as a success and never handed to the callback.

`Ordered` is what holds in every interleaving: a stop of the egress
thread comes after a stop of the ingest thread, and once the egress
thread has exited no further line is taken. What is left is the line the
ingest thread is at. `settled` is the condition on a step that decides:
the egress thread does not make its last check while the ingest thread is
between its stop check and the push of a message.
`nothing_dropped_iff` says that this is exactly when nothing is dropped.
-/

namespace Mde

open Messages Nyse

variable {P C : Type} {fromChars : Str → FromChars P} {callback : C → Message P → C}

namespace IngestThread

/-- The next step of the thread pushes a message: it is at a line that has one. -/
def pushesNext (fromChars : Str → FromChars P) (t : IngestThread P) : Bool :=
  match t.pc with
  | .parse line => (decode fromChars (columns line)).isSome
  | _ => false

end IngestThread

namespace Engine

variable {e e' : Engine P C} {lines : List Str} {sink : C}

/-! ## What every interleaving keeps -/

/-- The destructor stops the ingest thread before the egress thread, and the egress
thread exits when the ingest thread has exited or takes no further line. -/
structure Ordered (e : Engine P C) : Prop where
  stopOrder : e.egress.stopRequested = true → e.ingest.stopRequested = true
  stopping : e.owner = .destroyClose ∨ e.owner = .stopEgress →
    e.ingest.stopRequested = true
  lastLine : e.egress.pc = .done → e.ingest.pc = .done ∨ e.ingest.stopRequested = true

theorem ordered_new : (new lines sink : Engine P C).Ordered where
  stopOrder := by simp [new]
  stopping := by simp [new]
  lastLine := by simp [new]

theorem Ordered.owner_step (ho : e.Ordered) (h : e.ownerStep = some e') : e'.Ordered := by
  obtain ⟨hstop, hstopping, hlast⟩ := ho
  unfold ownerStep at h
  split at h
  · cases h
  · obtain ⟨-, rfl⟩ := awaitIngest_eq_some h
    exact ⟨hstop, by simp, hlast⟩
  · cases h
    exact ⟨hstop, by simp, hlast⟩
  · obtain ⟨-, rfl⟩ := awaitEgress_eq_some h
    exact ⟨hstop, by simp, hlast⟩
  · cases h
    exact ⟨fun _ => rfl, fun _ => rfl, fun _ => .inr rfl⟩
  · rename_i howner
    cases h
    exact ⟨hstop, fun _ => hstopping (.inl howner), hlast⟩
  · rename_i howner
    cases h
    exact ⟨fun _ => hstopping (.inr howner), by simp, hlast⟩
  · obtain ⟨-, rfl⟩ := awaitIngest_eq_some h
    exact ⟨hstop, by simp, hlast⟩
  · obtain ⟨-, rfl⟩ := awaitEgress_eq_some h
    exact ⟨hstop, by simp, hlast⟩
  · cases h

theorem ownerStep_frame (h : e.ownerStep = some e') :
    e'.ingest.pc = e.ingest.pc ∧ e'.egress.pc = e.egress.pc
      ∧ e'.queue.queue = e.queue.queue := by
  unfold ownerStep at h
  split at h
  · cases h
  · obtain ⟨-, rfl⟩ := awaitIngest_eq_some h
    exact ⟨rfl, rfl, rfl⟩
  · cases h
    exact ⟨rfl, rfl, rfl⟩
  · obtain ⟨-, rfl⟩ := awaitEgress_eq_some h
    exact ⟨rfl, rfl, rfl⟩
  · cases h
    exact ⟨rfl, rfl, rfl⟩
  · cases h
    exact ⟨rfl, rfl, rfl⟩
  · cases h
    exact ⟨rfl, rfl, rfl⟩
  · obtain ⟨-, rfl⟩ := awaitIngest_eq_some h
    exact ⟨rfl, rfl, rfl⟩
  · obtain ⟨-, rfl⟩ := awaitEgress_eq_some h
    exact ⟨rfl, rfl, rfl⟩
  · cases h

/-- An action is a move of the ingest thread, a move of the egress thread, or one of
the owner's, which leaves both threads where they are. -/
theorem step_cases {action : Action} (h : e.step fromChars callback action = some e') :
    (∃ ingest queue, IngestThread.Moves fromChars e.ingest e.queue ingest queue
        ∧ e' = { e with ingest, queue })
      ∨ (∃ egress queue, EgressThread.Moves callback e.egress e.queue egress queue
        ∧ action = .turn .egress ∧ e' = { e with egress, queue })
      ∨ ((e.ownerStep = some e' ∨ e' = { e with owner := .joinIngest }
          ∨ e' = { e with owner := .stopIngest })
        ∧ e'.ingest.pc = e.ingest.pc ∧ e'.egress.pc = e.egress.pc
        ∧ e'.queue.queue = e.queue.queue) := by
  cases action with
  | turn turn =>
      cases turn with
      | ingest =>
          obtain ⟨⟨ingest, queue⟩, hstep, rfl⟩ := Option.map_eq_some_iff.mp h
          exact .inl ⟨ingest, queue, IngestThread.step_moves hstep, rfl⟩
      | egress =>
          obtain ⟨⟨egress, queue⟩, hstep, rfl⟩ := Option.map_eq_some_iff.mp h
          exact .inr (.inl ⟨egress, queue, EgressThread.step_moves hstep, rfl, rfl⟩)
      | owner => exact .inr (.inr ⟨.inl h, ownerStep_frame h⟩)
  | callJoin =>
      rw [Engine.step] at h
      split at h
      · cases h
        exact .inr (.inr ⟨.inr (.inl rfl), rfl, rfl, rfl⟩)
      · cases h
  | callDestructor =>
      rw [Engine.step] at h
      split at h
      · cases h
        exact .inr (.inr ⟨.inr (.inr rfl), rfl, rfl, rfl⟩)
      · cases h

theorem Ordered.step (ho : e.Ordered) (hs : e.Sound fromChars callback lines sink)
    {action : Action} (h : e.step fromChars callback action = some e') : e'.Ordered := by
  obtain ⟨hstop, hstopping, hlast⟩ := ho
  rcases step_cases h with ⟨ingest, queue, hmoves, rfl⟩ | ⟨egress, queue, hmoves, -, rfl⟩
    | ⟨howner | rfl | rfl, -⟩
  · obtain ⟨hpc, hsame, -⟩ := hmoves.effect
    refine ⟨fun h => hsame.trans (hstop h), fun h => hsame.trans (hstopping h), ?_⟩
    intro hdone
    exact .inr (hsame.trans ((hlast hdone).resolve_left hpc))
  · obtain ⟨-, hsame, -, -, -, hexit⟩ := hmoves.effect
    refine ⟨fun h => hstop (hsame.symm.trans h), hstopping, ?_⟩
    intro hdone
    rcases (hexit hdone).2.2 with hclosed | hst
    · exact hs.closed hclosed
    · exact .inr (hstop hst)
  · exact Ordered.owner_step ⟨hstop, hstopping, hlast⟩ howner
  · exact ⟨hstop, by simp, hlast⟩
  · exact ⟨hstop, by simp, hlast⟩

/-! ## The last check -/

/-- The egress thread does not find the queue empty, and exit, while the ingest
thread is between its stop check and the push of a message. -/
def settled (fromChars : Str → FromChars P) (e : Engine P C) : Action → Bool
  | .turn .egress =>
    match e.egress.pc, e.queue.queue with
    | .waitPop, [] => !e.ingest.pushesNext fromChars
    | _, _ => true
  | _ => true

/-- Behind an exited egress thread the queue is empty, and nothing is on its way. -/
def Drained (fromChars : Str → FromChars P) (e : Engine P C) : Prop :=
  e.egress.pc = .done → e.queue.queue = [] ∧ e.ingest.pushesNext fromChars = false

/-- Behind an exited egress thread a message is in the queue, or on its way. -/
def Dropped (fromChars : Str → FromChars P) (e : Engine P C) : Prop :=
  e.egress.pc = .done ∧ (e.queue.queue ≠ [] ∨ e.ingest.pushesNext fromChars = true)

theorem pushesNext_congr {t t' : IngestThread P} (h : t'.pc = t.pc) :
    t'.pushesNext fromChars = t.pushesNext fromChars := by
  rw [IngestThread.pushesNext, IngestThread.pushesNext, h]

/-- A line without a message leaves the queue alone; one with a message does not leave
it empty. -/
theorem emitLine_eq_nil_iff {t : IngestThread P} {line : Str} (hpc : t.pc = .parse line)
    (queue : MessageQueue (Message P)) :
    (t.emitLine fromChars line queue).queue = []
      ↔ queue.queue = [] ∧ t.pushesNext fromChars = false := by
  rw [IngestThread.emitLine, emitted_parseNext, IngestThread.pushesNext, hpc]
  dsimp only
  cases decode fromChars (columns line) <;> simp [MessageQueue.push]

/-- Behind an exited egress thread, the ingest thread can only add what it is at. -/
theorem drained_ingest_move (ho : e.Ordered) (hdone : e.egress.pc = .done)
    {ingest : IngestThread P} {queue : MessageQueue (Message P)}
    (h : IngestThread.Moves fromChars e.ingest e.queue ingest queue) :
    (queue.queue = [] ∧ ingest.pushesNext fromChars = false)
      ↔ (e.queue.queue = [] ∧ e.ingest.pushesNext fromChars = false) := by
  cases h with
  | leave hpc hend => simp [IngestThread.pushesNext, hpc]
  | take line rest hpc hlines hstop =>
      rcases ho.lastLine hdone with hdone' | hst
      · rw [hpc] at hdone'
        cases hdone'
      · exact absurd hst hstop
  | parse line hpc =>
      rw [← emitLine_eq_nil_iff hpc]
      exact and_iff_left rfl
  | record error hpc =>
      simp [IngestThread.pushesNext, IngestThread.recordParseResult, hpc]
  | close hpc => simp [IngestThread.pushesNext, MessageQueue.close, hpc]

theorem Drained.step (hd : e.Drained fromChars) (ho : e.Ordered) {action : Action}
    (hsettled : e.settled fromChars action = true)
    (h : e.step fromChars callback action = some e') : e'.Drained fromChars := by
  rcases step_cases h with ⟨ingest, queue, hmoves, rfl⟩ | ⟨egress, queue, hmoves, rfl, rfl⟩
    | ⟨-, hingest, hegress, hqueue⟩
  · intro hdone
    exact (drained_ingest_move ho hdone hmoves).mpr (hd hdone)
  · intro hdone
    cases hmoves with
    | exit hpc hempty hwake =>
        refine ⟨hempty, ?_⟩
        simpa [settled, hpc, hempty] using hsettled
    | take message queue' hpc hqueue hclosed => cases hdone
    | deliver message hpc => cases hdone
    | count hpc => cases hdone
  · intro hdone
    rw [hqueue, pushesNext_congr hingest]
    exact hd (hegress.symm.trans hdone)

theorem Dropped.step (hd : e.Dropped fromChars) (ho : e.Ordered) {action : Action}
    (h : e.step fromChars callback action = some e') : e'.Dropped fromChars := by
  obtain ⟨hdone, hleft⟩ := hd
  rcases step_cases h with ⟨ingest, queue, hmoves, rfl⟩ | ⟨egress, queue, hmoves, rfl, rfl⟩
    | ⟨-, hingest, hegress, hqueue⟩
  · have hiff := drained_ingest_move ho hdone hmoves
    refine ⟨hdone, ?_⟩
    by_contra hnone
    simp only [not_or, not_not, Bool.not_eq_true] at hnone
    obtain ⟨hempty, hpush⟩ := hiff.mp hnone
    simp [hempty, hpush] at hleft
  · exact absurd hdone hmoves.effect.1
  · refine ⟨hegress.trans hdone, ?_⟩
    rw [hqueue, pushesNext_congr hingest]
    exact hleft

/-- An unsettled last check leaves a message behind. -/
theorem dropped_of_not_settled {action : Action}
    (hsettled : ¬e.settled fromChars action = true)
    (h : e.step fromChars callback action = some e') : e'.Dropped fromChars := by
  have haction : action = .turn .egress := by
    unfold settled at hsettled
    split at hsettled
    · rfl
    · exact absurd rfl hsettled
  subst haction
  obtain ⟨⟨egress, queue⟩, hstep, rfl⟩ := Option.map_eq_some_iff.mp h
  cases EgressThread.step_moves hstep with
  | exit hpc hempty hwake =>
      refine ⟨rfl, .inr ?_⟩
      simpa [settled, hpc, hempty] using hsettled
  | take message queue' hpc hqueue hclosed => simp [settled, hpc, hqueue] at hsettled
  | deliver message hpc => simp [settled, hpc] at hsettled
  | count hpc => simp [settled, hpc] at hsettled

/-! ## Whole runs -/

theorem step_ordered {action : Action}
    (h : e.Sound fromChars callback lines sink ∧ e.Ordered)
    (hstep : e.step fromChars callback action = some e') :
    e'.Sound fromChars callback lines sink ∧ e'.Ordered :=
  ⟨h.1.step hstep, h.2.step h.1 hstep⟩

theorem play_ordered {actions : List Action}
    (h : play fromChars callback lines sink actions = some e) :
    e.Sound fromChars callback lines sink ∧ e.Ordered :=
  Guarded.play_invariant (fun _ _ _ => step_ordered) h ⟨sound_new, ordered_new⟩

def Settled (fromChars : Str → FromChars P) (callback : C → Message P → C)
    (lines : List Str) (sink : C) (actions : List Action) : Prop :=
  Guarded.Along (step fromChars callback) (fun e action => e.settled fromChars action = true)
    (new lines sink) actions

/-- Behind every exited egress thread of the schedule the queue stays empty; and when
both threads have exited, every message pushed was delivered and counted. -/
structure NothingDropped (fromChars : Str → FromChars P) (callback : C → Message P → C)
    (lines : List Str) (sink : C) (actions : List Action) : Prop where
  final : ∀ before after e, actions = before ++ after →
    play fromChars callback lines sink before = some e → e.egress.pc = .done →
      e.queue.queue = []
  delivered : ∀ e, play fromChars callback lines sink actions = some e →
    e.ingest.pc = .done → e.egress.pc = .done →
      e.egress.delivered = e.ingest.pushed ∧ e.getEgressCount = e.getSuccess

theorem Settled.drained {actions : List Action}
    (hsettled : Settled fromChars callback lines sink actions)
    (h : play fromChars callback lines sink actions = some e) : e.Drained fromChars := by
  have hinv : ∀ (e : Engine P C) action e',
      ((e.Sound fromChars callback lines sink ∧ e.Ordered) ∧ e.Drained fromChars) →
      e.settled fromChars action = true → e.step fromChars callback action = some e' →
        ((e'.Sound fromChars callback lines sink ∧ e'.Ordered) ∧ e'.Drained fromChars) :=
    fun _ _ _ ⟨hordered, hd⟩ hok hstep =>
      ⟨step_ordered hordered hstep, hd.step hordered.2 hok hstep⟩
  exact (Guarded.Along.play_invariant hinv hsettled h
    ⟨⟨sound_new, ordered_new⟩, fun hdone => by cases hdone⟩).2

/-- What was dropped stays dropped. -/
theorem Dropped.play (hd : e.Dropped fromChars)
    (hordered : e.Sound fromChars callback lines sink ∧ e.Ordered) {actions : List Action}
    (h : Guarded.play (Engine.step fromChars callback) e actions = some e') :
    e'.Dropped fromChars := by
  have hinv : ∀ (e : Engine P C) action e',
      ((e.Sound fromChars callback lines sink ∧ e.Ordered) ∧ e.Dropped fromChars) →
      e.step fromChars callback action = some e' →
        ((e'.Sound fromChars callback lines sink ∧ e'.Ordered) ∧ e'.Dropped fromChars) :=
    fun _ _ _ ⟨hordered, hd⟩ hstep =>
      ⟨step_ordered hordered hstep, hd.step hordered.2 hstep⟩
  exact (Guarded.play_invariant hinv h ⟨hordered, hd⟩).2

/-- An exited egress thread has delivered and counted everything pushed, if the queue
is empty behind it. -/
theorem Sound.delivered_of_empty (hs : e.Sound fromChars callback lines sink)
    (hingest : e.ingest.pc = .done) (hegress : e.egress.pc = .done)
    (hempty : e.queue.queue = []) :
    e.egress.delivered = e.ingest.pushed ∧ e.getEgressCount = e.getSuccess := by
  have hfifo := hs.fifo
  have hcount := hs.egress.count
  have hsuccess := hs.ingest.success
  simp only [hempty, EgressThread.held, hegress, List.append_nil] at hfifo
  simp only [EgressThread.uncounted, hegress] at hcount
  simp only [IngestThread.pendingVerdict, hingest] at hsuccess
  refine ⟨hfifo, ?_⟩
  show e.egress.egressCount = e.ingest.success
  rw [hfifo] at hcount
  exact hcount.trans hsuccess.symm

/-- **When nothing is dropped at teardown.** A schedule all of whose steps are settled
drops nothing, whenever the destructor starts; and a schedule that runs both threads
to their ends drops nothing only then. -/
theorem nothing_dropped_iff {actions : List Action}
    (h : play fromChars callback lines sink actions = some e) :
    (Settled fromChars callback lines sink actions →
        NothingDropped fromChars callback lines sink actions)
      ∧ (e.ingest.pc = .done → e.egress.pc = .done →
        (NothingDropped fromChars callback lines sink actions
          ↔ Settled fromChars callback lines sink actions)) := by
  have hkept : Settled fromChars callback lines sink actions →
      NothingDropped fromChars callback lines sink actions := by
    intro hsettled
    refine ⟨?_, ?_⟩
    · rintro before after e' rfl hbefore hdone
      exact (Settled.drained hsettled.of_append hbefore hdone).1
    · intro e' h' hingest hegress
      exact (play_sound h').delivered_of_empty hingest hegress
        (hsettled.drained h' hegress).1
  refine ⟨hkept, fun hingest hegress => ⟨?_, hkept⟩⟩
  intro hnothing
  by_contra hsettled
  obtain ⟨before, t, action, t', after, hbefore, hok, hstep, hrest⟩ :=
    Guarded.exists_of_not_along hsettled h
  obtain ⟨-, hleft⟩ := (dropped_of_not_settled hok hstep).play
    (step_ordered (play_ordered hbefore) hstep) hrest
  rcases hleft with hleft | hleft
  · exact hleft (hnothing.final actions [] e (List.append_nil _).symm h hegress)
  · simp [IngestThread.pushesNext, hingest] at hleft

section Sample

/-- The destructor starts behind the first push, without a join. -/
def teardownActions : List Action :=
  [.turn .ingest, .turn .ingest, .callDestructor, .turn .owner, .turn .owner,
    .turn .egress, .turn .egress, .turn .egress, .turn .ingest, .turn .ingest,
    .turn .ingest, .turn .egress, .turn .owner, .turn .owner, .turn .owner]

/-- The destructor starts while the first line is parsed, and the egress thread exits
before the push. -/
def droppingActions : List Action :=
  [.turn .ingest, .callDestructor, .turn .owner, .turn .owner, .turn .egress,
    .turn .ingest, .turn .ingest, .turn .ingest, .turn .ingest, .turn .owner,
    .turn .owner, .turn .owner]

abbrev teardownPlay (actions : List Action) : Option (Engine Nat (OrderBook Nat)) :=
  play sampleFromChars (fun book message => book.onMessage message.data) sampleLines {}
    actions

theorem teardownPlay_isSome : (teardownPlay teardownActions).isSome = true := by
  decide +kernel

theorem droppingPlay_isSome : (teardownPlay droppingActions).isSome = true := by
  decide +kernel

theorem nothing_dropped_iff_teardown :
    NothingDropped sampleFromChars (fun book message => book.onMessage message.data)
      sampleLines ({} : OrderBook Nat) teardownActions :=
  (nothing_dropped_iff (Option.some_get teardownPlay_isSome).symm).1 (by
    unfold Settled
    decide +kernel)

/-- Both threads have exited and the engine is destroyed. One message was pushed and
counted as a success; it is in the queue, and the callback never got it. -/
theorem dropped_at_teardown :
    let e := (teardownPlay droppingActions).get droppingPlay_isSome
    teardownPlay droppingActions = some e
      ∧ e.owner = .destroyed ∧ e.ingest.pc = .done ∧ e.egress.pc = .done
      ∧ e.queue.closed = true ∧ e.queue.queue.length = 1
      ∧ e.ingest.pushed.length = 1 ∧ e.egress.delivered = []
      ∧ e.getSuccess = 1 ∧ e.getEgressCount = 0
      ∧ ¬NothingDropped sampleFromChars (fun book message => book.onMessage message.data)
        sampleLines ({} : OrderBook Nat) droppingActions := by
  intro e
  have hplay : teardownPlay droppingActions = some e := (Option.some_get _).symm
  refine ⟨hplay, by decide +kernel, by decide +kernel, by decide +kernel, by decide +kernel,
    by decide +kernel, by decide +kernel, by decide +kernel, by decide +kernel,
    by decide +kernel, ?_⟩
  intro hnothing
  obtain ⟨-, hcount⟩ := hnothing.delivered e hplay (by decide +kernel) (by decide +kernel)
  exact absurd hcount (by decide +kernel)

end Sample

end Engine

end Mde
