import Mde.Destructor
import Mde.QueueMonitor

/-!
# The engine over the locked queue

The threads of a `FileEngine` take each call of the queue as one step. In
a `LockedEngine` they make it: they contend for the mutex, sleep in the
condition variable, may be woken by a notification, by a stop request or
for no reason, and notify behind the mutex. A thread moves on in its own
code at the body of its call, and does nothing else until it has returned;
`join` waits for a thread that is still on its way out of the queue. The
stop request of the destructor can be seen before it has notified anybody.

- `refines_file`: whatever order the threads take these steps in, the
  engine is where some schedule of a file engine leaves it, and its queue
  where some schedule of the queue's callers does.
- `owner_returns`: a call of `Join` or of the destructor returns within a
  bounded number of moves, with what it promises for a file engine.
- `reaped_left`: a thread that was reaped is out of the queue for good, so
  nobody is left in the mutex that is destroyed behind the destructor.
-/

namespace Mde

open Messages Nyse MessageQueue

variable {P C : Type} (fromChars : Str → FromChars P) (callback : C → Message P → C)
  (disk : Option Str)

namespace Engine

instance : Fintype Turn where
  elems := {.ingest, .egress, .owner}
  complete turn := by cases turn <;> decide

variable (e : Engine P C)

def queueCall : Turn → Option (Call (Message P))
  | .ingest =>
    match e.ingest.pc with
    | .parse line => (parseNext fromChars e.ingest.parser line).emitted.map .push
    | .close => some .close
    | _ => none
  | .egress =>
    match e.egress.pc with
    | .waitPop => some .waitPop
    | _ => none
  | .owner =>
    match e.owner with
    | .joinClose => some .close
    | .destroyClose => some .close
    | _ => none

/-- The thread that the owner is about to `join`. -/
def awaited : Option Turn :=
  match e.owner with
  | .joinIngest => if e.ingest.joinable then some .ingest else none
  | .reapIngest => if e.ingest.joinable then some .ingest else none
  | .joinEgress => if e.egress.joinable then some .egress else none
  | .reapEgress => if e.egress.joinable then some .egress else none
  | _ => none

end Engine

abbrev QueueState (P : Type) :=
  Monitor.State Engine.Turn (MessageQueue (Message P)) (Call (Message P)) (Outcome (Message P))

structure LockedEngine (P C : Type) where
  file : FileEngine P C
  queue : QueueState P := { shared := {} }

namespace LockedEngine

/-! ## Steps -/

variable (e : LockedEngine P C)

/-- A step of a thread in its own code: it makes the next call of the queue, or goes on
without one. The owner waits for the thread it joins to be out of the queue, and does not
go on from its stop request before the callback has notified the egress thread. -/
def outside (t : Engine.Turn) : Option (LockedEngine P C) :=
  if t = .owner ∧ e.queue.stop .egress = .requested then
    -- still inside `request_stop`, which runs the callback before it returns
    ((monitor _).step e.queue (.stopCallback .egress)).map fun queue => { e with queue }
  else
    match e.file.engine.queueCall fromChars t with
    | some call => ((monitor _).step e.queue (.call t call)).map fun queue => { e with queue }
    | none =>
      if t = .owner ∧ ∃ u ∈ e.file.engine.awaited, (e.queue.pc u).isIdle = false then none
      else (e.file.turn fromChars callback disk t).bind fun file =>
        if t = .owner ∧ e.file.engine.owner = .stopEgress then
          ((monitor _).step e.queue (.requestStop .egress)).map fun queue => { file, queue }
        else some { e with file }

/-- A step of a thread inside its call, which at the body takes it further in its code. -/
def inside (t : Engine.Turn) : Option (LockedEngine P C) :=
  ((monitor _).step e.queue (.run t)).bind fun queue =>
    if (monitor _).works e.queue t then
      (e.file.turn fromChars callback disk t).map fun file => { file, queue }
    else some { e with queue }

inductive Move where
  | turn (t : Engine.Turn)
  | wake (t u : Engine.Turn)
deriving DecidableEq, Repr

def move : Move → Option (LockedEngine P C)
  | .turn t =>
    if (e.queue.pc t).isIdle then e.outside fromChars callback disk t
    else e.inside fromChars callback disk t
  | .wake t u => ((monitor _).step e.queue (.wake t u)).map fun queue => { e with queue }

/-- A move of the threads, a wakeup for no reason, or a call by the owner. -/
inductive Action where
  | move (move : Move)
  | spurious (u : Engine.Turn)
  | callJoin
  | callDestructor
deriving DecidableEq, Repr

/-- The owner calls once it is back from its last call. -/
def call (action : Engine.Action) : Option (LockedEngine P C) :=
  if (e.queue.pc .owner).isIdle then
    (e.file.step fromChars callback disk action).map fun file => { e with file }
  else none

def step : Action → Option (LockedEngine P C)
  | .move move => e.move fromChars callback disk move
  | .spurious u => ((monitor _).step e.queue (.spurious u)).map fun queue => { e with queue }
  | .callJoin => e.call fromChars callback disk .callJoin
  | .callDestructor => e.call fromChars callback disk .callDestructor

end LockedEngine

/-! ## What a turn does to the queue -/

variable {fromChars callback disk}

theorem IngestThread.Moves.queue_eq {t t' : IngestThread P}
    {queue queue' : MessageQueue (Message P)}
    (h : IngestThread.Moves fromChars t queue t' queue')
    (hparse : ∀ line, t.pc = .parse line → (parseNext fromChars t.parser line).emitted = none)
    (hclose : t.pc ≠ .close) : queue' = queue := by
  cases h with
  | parse line hpc => simp only [emitLine, hparse line hpc]
  | close hpc => exact absurd hpc hclose
  | _ => rfl

theorem Engine.eq_egress_of_queueCall {e : Engine P C} {t : Engine.Turn}
    (h : e.queueCall fromChars t = some .waitPop) : t = .egress := by
  unfold Engine.queueCall at h
  cases t with
  | egress => rfl
  | ingest =>
      dsimp only at h
      split at h
      · obtain ⟨message, -, heq⟩ := Option.map_eq_some_iff.mp h
        cases heq
      · cases h
      · cases h
  | owner =>
      dsimp only at h
      split at h <;> cases h

namespace FileEngine

variable {e e' : FileEngine P C} {t u : Engine.Turn}

variable (callback disk) in
theorem turn_of_queueCall {call : Call (Message P)}
    (hcall : e.engine.queueCall fromChars t = some call) :
    (e.turn fromChars callback disk t).map (fun file => file.engine.queue)
      = (e.engine.queue.atomically e.engine.egress.stopRequested call).map Prod.snd := by
  unfold Engine.queueCall at hcall
  cases t with
  | ingest =>
      dsimp only at hcall
      split at hcall
      · rename_i line hpc
        obtain ⟨message, hemit, rfl⟩ := Option.map_eq_some_iff.mp hcall
        simp only [turn, ingestStep, hpc, Option.map_some, atomically,
          IngestThread.emitLine, hemit]
      · rename_i hpc
        cases hcall
        simp only [turn, ingestStep, hpc, Option.map_some, atomically]
      · cases hcall
  | egress =>
      dsimp only at hcall
      split at hcall
      · rename_i hpc
        cases hcall
        simp only [turn, Engine.turn, EgressThread.step, hpc, atomically]
        rcases e.engine.queue.waitPop e.engine.egress.stopRequested with
          _ | ⟨_ | message, queue⟩ <;> rfl
      · cases hcall
  | owner =>
      dsimp only at hcall
      split at hcall
      · rename_i howner
        cases hcall
        simp only [turn, Engine.turn, Engine.ownerStep, howner, Option.map_some, atomically]
      · rename_i howner
        cases hcall
        simp only [turn, Engine.turn, Engine.ownerStep, howner, Option.map_some, atomically]
      · cases hcall

theorem turn_owner_of_awaited (hawaited : Engine.Turn.egress ∈ e.engine.awaited)
    (hcall : e.engine.queueCall fromChars .egress = some .waitPop) :
    e.turn fromChars callback disk .owner = none := by
  have hpc : e.engine.egress.pc = .waitPop := by
    unfold Engine.queueCall at hcall
    dsimp only at hcall
    split at hcall
    · assumption
    · cases hcall
  refine Option.map_eq_none_iff.mpr ?_
  show e.engine.ownerStep = none
  unfold Engine.awaited at hawaited
  split at hawaited <;> rename_i howner
  · split at hawaited <;> cases hawaited
  · split at hawaited <;> cases hawaited
  · simp only [Engine.ownerStep, howner, Engine.awaitEgress, EgressThread.exited, hpc]
    split at hawaited
    · rename_i hjoinable
      simp only [hjoinable, Bool.not_false, Bool.and_self, if_true]
    · cases hawaited
  · simp only [Engine.ownerStep, howner, Engine.awaitEgress, EgressThread.exited, hpc]
    split at hawaited
    · rename_i hjoinable
      simp only [hjoinable, Bool.not_false, Bool.and_self, if_true]
    · cases hawaited
  · cases hawaited

/-- The owner calls the queue or awaits a thread, not both. -/
theorem awaited_of_queueCall {call : Call (Message P)}
    (hcall : e.engine.queueCall fromChars .owner = some call) : e.engine.awaited = none := by
  unfold Engine.queueCall at hcall
  dsimp only at hcall
  split at hcall
  · rename_i howner
    simp only [Engine.awaited, howner]
  · rename_i howner
    simp only [Engine.awaited, howner]
  · cases hcall

theorem turn_queue (hcall : e.engine.queueCall fromChars t = none)
    (h : e.turn fromChars callback disk t = some e') : e'.engine.queue = e.engine.queue := by
  unfold Engine.queueCall at hcall
  cases t with
  | ingest =>
      obtain ⟨⟨ingest, file, queue⟩, hstep, rfl⟩ := Option.map_eq_some_iff.mp h
      rcases ingestStep_seen hstep with ⟨-, hqueue, -⟩ | ⟨-, hseen⟩
      · exact hqueue
      · refine (IngestThread.step_moves hseen).queue_eq ?_ ?_
        · intro line hpc
          replace hpc : e.engine.ingest.pc = .parse line := hpc
          simp only [hpc, Option.map_eq_none_iff] at hcall
          exact hcall
        · intro hpc
          replace hpc : e.engine.ingest.pc = .close := hpc
          simp only [hpc] at hcall
          cases hcall
  | egress =>
      obtain ⟨engine, hturn, rfl⟩ := Option.map_eq_some_iff.mp h
      obtain ⟨⟨egress, queue⟩, hstep, rfl⟩ := Option.map_eq_some_iff.mp hturn
      cases EgressThread.step_moves hstep with
      | take message queue' hpc hqueue hclosed => simp only [hpc] at hcall; cases hcall
      | exit hpc hempty hwake => rfl
      | deliver message hpc => rfl
      | count hpc => rfl
  | owner =>
      obtain ⟨engine, hstep, rfl⟩ := Option.map_eq_some_iff.mp h
      replace hstep : e.engine.ownerStep = some engine := hstep
      unfold Engine.ownerStep at hstep
      dsimp only at hcall
      split at hstep <;> rename_i howner <;> simp only [howner] at hcall
      · cases hstep
      · obtain ⟨-, rfl⟩ := Engine.awaitIngest_eq_some hstep
        rfl
      · cases hcall
      · obtain ⟨-, rfl⟩ := Engine.awaitEgress_eq_some hstep
        rfl
      · cases hstep
        rfl
      · cases hcall
      · cases hstep
        rfl
      · obtain ⟨-, rfl⟩ := Engine.awaitIngest_eq_some hstep
        rfl
      · obtain ⟨-, rfl⟩ := Engine.awaitEgress_eq_some hstep
        rfl
      · cases hstep

theorem queueCall_of_ne (h : e.turn fromChars callback disk t = some e') (hu : u ≠ t) :
    e'.engine.queueCall fromChars u = e.engine.queueCall fromChars u := by
  cases t with
  | ingest =>
      obtain ⟨⟨ingest, file, queue⟩, -, rfl⟩ := Option.map_eq_some_iff.mp h
      cases u with
      | ingest => exact absurd rfl hu
      | _ => rfl
  | egress =>
      obtain ⟨engine, hturn, rfl⟩ := Option.map_eq_some_iff.mp h
      obtain ⟨⟨egress, queue⟩, -, rfl⟩ := Option.map_eq_some_iff.mp hturn
      cases u with
      | egress => exact absurd rfl hu
      | _ => rfl
  | owner =>
      obtain ⟨engine, hstep, rfl⟩ := Option.map_eq_some_iff.mp h
      obtain ⟨hingest, hegress, -⟩ := Engine.ownerStep_threads hstep
      cases u with
      | ingest => simp only [Engine.queueCall]; rw [hingest]
      | egress => simp only [Engine.queueCall]; rw [hegress]
      | owner => exact absurd rfl hu

theorem turn_egress_stop (h : e.turn fromChars callback disk t = some e') :
    e'.engine.egress.stopRequested
      = (e.engine.egress.stopRequested || decide (t = .owner ∧ e.engine.owner = .stopEgress)) := by
  cases t with
  | ingest =>
      obtain ⟨⟨ingest, file, queue⟩, -, rfl⟩ := Option.map_eq_some_iff.mp h
      simp
  | egress =>
      obtain ⟨engine, hturn, rfl⟩ := Option.map_eq_some_iff.mp h
      obtain ⟨⟨egress, queue⟩, hstep, rfl⟩ := Option.map_eq_some_iff.mp hturn
      simp [(EgressThread.step_moves hstep).effect.2.1]
  | owner =>
      obtain ⟨engine, hstep, rfl⟩ := Option.map_eq_some_iff.mp h
      replace hstep : e.engine.ownerStep = some engine := hstep
      unfold Engine.ownerStep at hstep
      split at hstep <;> rename_i howner
      · cases hstep
      · obtain ⟨-, rfl⟩ := Engine.awaitIngest_eq_some hstep
        simp [howner]
      · cases hstep
        simp [howner]
      · obtain ⟨-, rfl⟩ := Engine.awaitEgress_eq_some hstep
        simp [howner]
      · cases hstep
        simp [howner]
      · cases hstep
        simp [howner]
      · cases hstep
        simp [howner]
      · obtain ⟨-, rfl⟩ := Engine.awaitIngest_eq_some hstep
        simp [howner]
      · obtain ⟨-, rfl⟩ := Engine.awaitEgress_eq_some hstep
        simp [howner]
      · cases hstep

theorem turn_owner_eq (h : e.turn fromChars callback disk t = some e') (ht : t ≠ .owner) :
    e'.engine.owner = e.engine.owner := by
  cases t with
  | ingest =>
      obtain ⟨⟨ingest, file, queue⟩, -, rfl⟩ := Option.map_eq_some_iff.mp h
      rfl
  | egress =>
      obtain ⟨engine, hturn, rfl⟩ := Option.map_eq_some_iff.mp h
      obtain ⟨⟨egress, queue⟩, -, rfl⟩ := Option.map_eq_some_iff.mp hturn
      rfl
  | owner => exact absurd rfl ht

end FileEngine

namespace LockedEngine

/-! ## What a move does -/

inductive Moves (fromChars : Str → FromChars P) (callback : C → Message P → C)
    (disk : Option Str) (e : LockedEngine P C) : Move → LockedEngine P C → Prop where
  | callback (queue : QueueState P)
      (hqueue : (monitor _).step e.queue (.stopCallback .egress) = some queue) :
      Moves fromChars callback disk e (.turn .owner) { e with queue }
  | call (t : Engine.Turn) (call : Call (Message P)) (queue : QueueState P)
      (hquiet : t = .owner → e.queue.stop .egress ≠ .requested)
      (hcall : e.file.engine.queueCall fromChars t = some call)
      (hqueue : (monitor _).step e.queue (.call t call) = some queue) :
      Moves fromChars callback disk e (.turn t) { e with queue }
  | alone (t : Engine.Turn) (file : FileEngine P C) (hidle : e.queue.pc t = .idle)
      (hquiet : t = .owner → e.queue.stop .egress ≠ .requested)
      (hcall : e.file.engine.queueCall fromChars t = none)
      (hleft : t = .owner → ∀ u ∈ e.file.engine.awaited, e.queue.pc u = .idle)
      (hturn : e.file.turn fromChars callback disk t = some file)
      (hstop : ¬(t = .owner ∧ e.file.engine.owner = .stopEgress)) :
      Moves fromChars callback disk e (.turn t) { e with file }
  | stop (file : FileEngine P C) (queue : QueueState P)
      (hidle : e.queue.pc .owner = .idle) (howner : e.file.engine.owner = .stopEgress)
      (hturn : e.file.turn fromChars callback disk .owner = some file)
      (hqueue : (monitor _).step e.queue (.requestStop .egress) = some queue) :
      Moves fromChars callback disk e (.turn .owner) { file, queue }
  | body (t : Engine.Turn) (file : FileEngine P C) (queue : QueueState P)
      (hworks : (monitor _).works e.queue t = true)
      (hqueue : (monitor _).step e.queue (.run t) = some queue)
      (hturn : e.file.turn fromChars callback disk t = some file) :
      Moves fromChars callback disk e (.turn t) { file, queue }
  | run (t : Engine.Turn) (queue : QueueState P)
      (hworks : (monitor _).works e.queue t = false)
      (hqueue : (monitor _).step e.queue (.run t) = some queue) :
      Moves fromChars callback disk e (.turn t) { e with queue }
  | wake (t u : Engine.Turn) (queue : QueueState P)
      (hqueue : (monitor _).step e.queue (.wake t u) = some queue) :
      Moves fromChars callback disk e (.wake t u) { e with queue }

variable {e e' : LockedEngine P C}

theorem move_moves {move : Move} (h : e.move fromChars callback disk move = some e') :
    Moves fromChars callback disk e move e' := by
  cases move with
  | turn t =>
      rw [LockedEngine.move] at h
      split at h
      · rename_i hidle
        rw [outside] at h
        split at h
        · rename_i hpending
          obtain ⟨rfl, -⟩ := hpending
          obtain ⟨queue, hstep, rfl⟩ := Option.map_eq_some_iff.mp h
          exact .callback queue hstep
        rename_i hquiet
        replace hquiet : t = .owner → e.queue.stop .egress ≠ .requested :=
          fun ht hpending => hquiet ⟨ht, hpending⟩
        split at h
        · rename_i call hcall
          obtain ⟨queue, hstep, rfl⟩ := Option.map_eq_some_iff.mp h
          exact .call t call queue hquiet hcall hstep
        · rename_i hcall
          split at h
          · cases h
          · rename_i hleft
            obtain ⟨file, hturn, hrest⟩ := Option.bind_eq_some_iff.mp h
            split at hrest
            · rename_i hstop
              obtain ⟨rfl, howner⟩ := hstop
              obtain ⟨queue, hstep, rfl⟩ := Option.map_eq_some_iff.mp hrest
              exact .stop file queue (Monitor.Pc.eq_idle_of_isIdle hidle) howner hturn
                hstep
            · rename_i hstop
              cases hrest
              refine .alone t file (Monitor.Pc.eq_idle_of_isIdle hidle) hquiet hcall ?_ hturn
                hstop
              intro ht u hu
              by_contra hbusy
              refine hleft ⟨ht, u, hu, ?_⟩
              exact Bool.not_eq_true _ ▸ fun hidle => hbusy (Monitor.Pc.eq_idle_of_isIdle hidle)
      · rw [inside] at h
        obtain ⟨queue, hstep, hrest⟩ := Option.bind_eq_some_iff.mp h
        split at hrest
        · rename_i hworks
          obtain ⟨file, hturn, rfl⟩ := Option.map_eq_some_iff.mp hrest
          exact .body t file queue hworks hstep hturn
        · rename_i hworks
          cases hrest
          exact .run t queue (Bool.not_eq_true _ ▸ hworks) hstep
  | wake t u =>
      obtain ⟨queue, hstep, rfl⟩ := Option.map_eq_some_iff.mp h
      exact .wake t u queue hstep

/-! ## The queue of the engine and the queue of its callers -/

/-- The two levels agree on the queue, on the stop of its consumer and on who is about to
do what to it. While the callback of a stop is to come, the owner is in `request_stop`. -/
structure Synced (fromChars : Str → FromChars P) (e : LockedEngine P C) : Prop where
  queue : e.file.engine.queue = e.queue.shared
  stopped : e.queue.stopRequested .egress = e.file.engine.egress.stopRequested
  calls : ∀ t call, call ∈ (e.queue.pc t).pending →
    e.file.engine.queueCall fromChars t = some call
  pending : ∀ t, e.queue.stop t = .requested →
    t = .egress ∧ e.queue.pc .owner = .idle ∧ e.file.engine.owner = .reapIngest
  sound : Monitor.Sound (monitor (Message P)) units Call.claim {} e.queue

/-- What the queue's callers do that the engine does not see. -/
def Unseen (fromChars : Str → FromChars P) (e : LockedEngine P C) :
    Monitor.Action Engine.Turn (Call (Message P)) → Prop
  | .call t call => e.file.engine.queueCall fromChars t = some call
    ∧ (t = .owner → e.queue.stop .egress ≠ .requested)
  | .run t => (monitor _).works e.queue t = false
  | .requestStop _ => False
  | _ => True

theorem Synced.unseen (h : Synced fromChars e)
    {action : Monitor.Action Engine.Turn (Call (Message P))} {queue : QueueState P}
    (hqueue : (monitor _).step e.queue action = some queue) (hunseen : e.Unseen fromChars action) :
    Synced fromChars { e with queue } := by
  have hmoves := Monitor.step_moves hqueue
  have hno : ∀ t, action ≠ .requestStop t := by
    rintro t rfl
    exact hunseen
  refine ⟨?_, ?_, ?_, ?_, h.sound.moves serves hmoves⟩
  · rcases hmoves.shared with ⟨hshared, -⟩ | ⟨t, -, rfl, hbody, -⟩
    · exact h.queue.trans hshared.symm
    · rw [show (monitor _).works e.queue t = false from hunseen] at hbody
      cases hbody
  · exact (hmoves.stopRequested hno _).trans h.stopped
  · intro t call hpending
    rcases hmoves.mem_pending hpending with hbefore | rfl
    · exact h.calls t call hbefore
    · exact hunseen.1
  · intro t hstop
    obtain ⟨rfl, hidle, howner⟩ :=
      h.pending t (hmoves.requested hno hstop)
    refine ⟨rfl, ?_, howner⟩
    rcases hmoves.idle hidle with hsame | ⟨call, rfl⟩
    · exact hsame
    · exact absurd (hmoves.requested hno hstop) (hunseen.2 rfl)

variable (callback disk) in
/-- The body of a call is, on the queue, the step that the thread takes of its own. -/
theorem Synced.turn_of_works (h : Synced fromChars e) {t : Engine.Turn}
    (hworks : (monitor _).works e.queue t = true) :
    ∃ call, e.queue.pc t = .test call
      ∧ (e.file.turn fromChars callback disk t).map (fun file => file.engine.queue)
        = some ((monitor _).body call e.queue.shared).2 := by
  unfold Monitor.works at hworks
  split at hworks
  · rename_i call hpc
    have hcall : e.file.engine.queueCall fromChars t = some call :=
      h.calls t call (by rw [hpc]; exact List.mem_singleton_self _)
    have hstep : e.queue.shared.atomically e.file.engine.egress.stopRequested call
        = some ((monitor _).body call e.queue.shared) := by
      cases call with
      | waitPop =>
          obtain rfl := Engine.eq_egress_of_queueCall hcall
          exact atomically_of_ready (h.stopped ▸ hworks)
      | _ => exact atomically_of_ready (Bool.true_or _)
    refine ⟨call, hpc, ?_⟩
    rw [FileEngine.turn_of_queueCall callback disk hcall, h.queue, hstep]
    rfl
  · cases hworks

theorem Synced.call_ne (h : Synced fromChars e) {t u : Engine.Turn} {call : Call (Message P)}
    (hcall : e.file.engine.queueCall fromChars t = none)
    (hpending : call ∈ (e.queue.pc u).pending) : u ≠ t := by
  rintro rfl
  rw [h.calls u call hpending] at hcall
  cases hcall

theorem Synced.alone (h : Synced fromChars e) {t : Engine.Turn} {file : FileEngine P C}
    (hcall : e.file.engine.queueCall fromChars t = none)
    (hturn : e.file.turn fromChars callback disk t = some file)
    (hquiet : t = .owner → e.queue.stop .egress ≠ .requested)
    (hstop : ¬(t = .owner ∧ e.file.engine.owner = .stopEgress)) :
    Synced fromChars { e with file } where
  queue := (FileEngine.turn_queue hcall hturn).trans h.queue
  stopped := by
    rw [FileEngine.turn_egress_stop hturn, decide_eq_false hstop, Bool.or_false]
    exact h.stopped
  calls := by
    intro u call hpending
    rw [FileEngine.queueCall_of_ne hturn (h.call_ne hcall hpending)]
    exact h.calls u call hpending
  pending := by
    intro u hpending
    obtain ⟨rfl, hidle, howner⟩ := h.pending u hpending
    refine ⟨rfl, hidle, (FileEngine.turn_owner_eq hturn ?_).trans howner⟩
    exact fun ht => hquiet ht hpending
  sound := h.sound

theorem Synced.stop (h : Synced fromChars e) {file : FileEngine P C} {queue : QueueState P}
    (hidle : e.queue.pc .owner = .idle) (howner : e.file.engine.owner = .stopEgress)
    (hturn : e.file.turn fromChars callback disk .owner = some file)
    (hmoves : Monitor.Moves (monitor _) e.queue (.requestStop .egress) queue) :
    Synced fromChars { file, queue } := by
  have hcall : e.file.engine.queueCall fromChars .owner = none := by
    simp only [Engine.queueCall, howner]
  have hsound := h.sound.moves serves hmoves
  have hpending {u : Engine.Turn} {call : Call (Message P)}
      (hu : call ∈ (queue.pc u).pending) : call ∈ (e.queue.pc u).pending := by
    rcases hmoves.mem_pending hu with hbefore | haction
    · exact hbefore
    · cases haction
  cases hmoves with
  | requestStop =>
      refine ⟨?_, ?_, ?_, ?_, hsound⟩
      · exact (FileEngine.turn_queue hcall hturn).trans h.queue
      · rw [FileEngine.turn_egress_stop hturn, decide_eq_true ⟨rfl, howner⟩, Bool.or_true,
          Monitor.State.stopRequested, Monitor.State.setStop_stop_self,
          Monitor.Stop.isRequested_request]
      · intro u call hu
        rw [FileEngine.queueCall_of_ne hturn (h.call_ne hcall (hpending hu))]
        exact h.calls u call (hpending hu)
      · intro u hu
        have hegress : u = .egress := by
          by_contra hne
          rw [Monitor.State.setStop_stop_of_ne _ hne] at hu
          exact hne (h.pending u hu).1
        refine ⟨hegress, hidle, ?_⟩
        obtain ⟨engine, hstep, rfl⟩ := Option.map_eq_some_iff.mp hturn
        replace hstep : e.file.engine.ownerStep = some engine := hstep
        rw [Engine.ownerStep, howner] at hstep
        cases hstep
        rfl

theorem Synced.body (h : Synced fromChars e) {t : Engine.Turn} {file : FileEngine P C}
    {queue : QueueState P} (hworks : (monitor _).works e.queue t = true)
    (hmoves : Monitor.Moves (monitor _) e.queue (.run t) queue)
    (hturn : e.file.turn fromChars callback disk t = some file) :
    Synced fromChars { file, queue } := by
  obtain ⟨call, hpc, hqueue⟩ := h.turn_of_works callback disk hworks
  rw [hturn, Option.map_some, Option.some.injEq] at hqueue
  have hcall : e.file.engine.queueCall fromChars t = some call :=
    h.calls t call (by rw [hpc]; exact List.mem_singleton_self _)
  have howner : ¬(t = .owner ∧ e.file.engine.owner = .stopEgress) := by
    rintro ⟨rfl, howner⟩
    simp only [Engine.queueCall, howner] at hcall
    cases hcall
  rcases hmoves.shared with ⟨-, hno⟩ | ⟨t', call', ht, -, hpc', hshared, hnone⟩
  · rw [hno t rfl] at hworks
    cases hworks
  · cases ht
    obtain rfl : call = call' := Monitor.Pc.test.inj (hpc.symm.trans hpc')
    have hno : ∀ u, (.run t : Monitor.Action Engine.Turn (Call (Message P))) ≠ .requestStop u := by
      rintro _ ⟨⟩
    refine ⟨hqueue.trans hshared.symm, ?_, ?_, ?_, h.sound.moves serves hmoves⟩
    · rw [FileEngine.turn_egress_stop hturn, decide_eq_false howner, Bool.or_false]
      exact (hmoves.stopRequested hno _).trans h.stopped
    · intro u op hpending
      by_cases hu : u = t
      · subst hu
        rw [hnone] at hpending
        cases hpending
      · rw [FileEngine.queueCall_of_ne hturn hu]
        rcases hmoves.mem_pending hpending with hbefore | haction
        · exact h.calls u op hbefore
        · cases haction
    · intro u hstop
      obtain ⟨rfl, hidle, hreap⟩ := h.pending u (hmoves.requested hno hstop)
      have ht : t ≠ .owner := by
        rintro rfl
        rw [hpc] at hidle
        cases hidle
      refine ⟨rfl, ?_, (FileEngine.turn_owner_eq hturn ht).trans hreap⟩
      rcases hmoves.idle hidle with hsame | ⟨op, haction⟩
      · exact hsame
      · cases haction

/-- **A move is a turn or unseen.** Every move keeps the levels together, and takes the
file engine no step or one. -/
theorem Synced.moves (h : Synced fromChars e) {move : Move}
    (hmoves : Moves fromChars callback disk e move e') :
    Synced fromChars e' ∧ (e'.file = e.file
      ∨ ∃ t, e.file.turn fromChars callback disk t = some e'.file) := by
  cases hmoves with
  | callback queue hqueue => exact ⟨h.unseen hqueue trivial, .inl rfl⟩
  | call t call queue hquiet hcall hqueue =>
      exact ⟨h.unseen hqueue ⟨hcall, hquiet⟩, .inl rfl⟩
  | alone t file hidle hquiet hcall hleft hturn hstop =>
      exact ⟨h.alone hcall hturn hquiet hstop, .inr ⟨t, hturn⟩⟩
  | stop file queue hidle howner hturn hqueue =>
      exact ⟨h.stop hidle howner hturn (Monitor.step_moves hqueue), .inr ⟨.owner, hturn⟩⟩
  | body t file queue hworks hqueue hturn =>
      exact ⟨h.body hworks (Monitor.step_moves hqueue) hturn, .inr ⟨t, hturn⟩⟩
  | run t queue hworks hqueue => exact ⟨h.unseen hqueue hworks, .inl rfl⟩
  | wake t u queue hqueue => exact ⟨h.unseen hqueue trivial, .inl rfl⟩

theorem call_eq_some {action : Engine.Action} (hcall : ∀ t, action ≠ .turn t)
    (h : e.call fromChars callback disk action = some e') :
    e.queue.pc .owner = .idle ∧ e.file.engine.owner = .idle
      ∧ e.file.step fromChars callback disk action = some e'.file
      ∧ ∃ owner, (owner = .joinIngest ∨ owner = .stopIngest) ∧ e' = { e with
        file := { e.file with engine := { e.file.engine with owner } } } := by
  rw [LockedEngine.call] at h
  split at h
  · rename_i hidle
    obtain ⟨file, hstep, rfl⟩ := Option.map_eq_some_iff.mp h
    refine ⟨Monitor.Pc.eq_idle_of_isIdle hidle, ?_⟩
    cases action with
    | turn t => exact absurd rfl (hcall t)
    | callJoin =>
        obtain ⟨engine, hengine, rfl⟩ := Option.map_eq_some_iff.mp hstep
        rw [Engine.step] at hengine
        split at hengine
        · rename_i howner
          cases hengine
          exact ⟨howner, hstep, _, .inl rfl, rfl⟩
        · cases hengine
    | callDestructor =>
        obtain ⟨engine, hengine, rfl⟩ := Option.map_eq_some_iff.mp hstep
        rw [Engine.step] at hengine
        split at hengine
        · rename_i howner
          cases hengine
          exact ⟨howner, hstep, _, .inr rfl, rfl⟩
        · cases hengine
  · cases h

theorem Synced.call (h : Synced fromChars e) {action : Engine.Action}
    (hcall : ∀ t, action ≠ .turn t) (hstep : e.call fromChars callback disk action = some e') :
    Synced fromChars e' := by
  obtain ⟨hidle, hback, -, owner, -, rfl⟩ := call_eq_some hcall hstep
  refine ⟨h.queue, h.stopped, ?_, ?_, h.sound⟩
  · intro t call hpending
    cases t with
    | owner =>
        replace hpending : call ∈ (e.queue.pc .owner).pending := hpending
        rw [hidle] at hpending
        cases hpending
    | _ => exact h.calls _ call hpending
  · intro t hpending
    rw [(h.pending t hpending).2.2] at hback
    cases hback

theorem Synced.step (h : Synced fromChars e) {action : Action}
    (hstep : e.step fromChars callback disk action = some e') :
    Synced fromChars e' ∧ (e'.file = e.file
      ∨ ∃ action', e.file.step fromChars callback disk action' = some e'.file) := by
  cases action with
  | move move =>
      refine (h.moves (move_moves hstep)).imp_right (Or.imp_right ?_)
      rintro ⟨t, hturn⟩
      exact ⟨.turn t, hturn⟩
  | spurious u =>
      obtain ⟨queue, hqueue, rfl⟩ := Option.map_eq_some_iff.mp hstep
      exact ⟨h.unseen hqueue trivial, .inl rfl⟩
  | callJoin =>
      have hcall : ∀ t, Engine.Action.callJoin ≠ .turn t := by rintro _ ⟨⟩
      exact ⟨h.call hcall hstep, .inr ⟨_, (call_eq_some hcall hstep).2.2.1⟩⟩
  | callDestructor =>
      have hcall : ∀ t, Engine.Action.callDestructor ≠ .turn t := by rintro _ ⟨⟩
      exact ⟨h.call hcall hstep, .inr ⟨_, (call_eq_some hcall hstep).2.2.1⟩⟩

/-- On the queue, a step is one of its callers', or none. -/
theorem step_queue {action : Action} (h : e.step fromChars callback disk action = some e') :
    e'.queue = e.queue ∨ ∃ action', (monitor _).step e.queue action' = some e'.queue := by
  cases action with
  | move move =>
      cases move_moves h with
      | alone t file hidle hquiet hcall hleft hturn hstop => exact .inl rfl
      | callback queue hqueue => exact .inr ⟨_, hqueue⟩
      | call t call queue hquiet hcall hqueue => exact .inr ⟨_, hqueue⟩
      | stop file queue hidle howner hturn hqueue => exact .inr ⟨_, hqueue⟩
      | body t file queue hworks hqueue hturn => exact .inr ⟨_, hqueue⟩
      | run t queue hworks hqueue => exact .inr ⟨_, hqueue⟩
      | wake t u queue hqueue => exact .inr ⟨_, hqueue⟩
  | spurious u =>
      obtain ⟨queue, hqueue, rfl⟩ := Option.map_eq_some_iff.mp h
      exact .inr ⟨_, hqueue⟩
  | callJoin =>
      have hcall : ∀ t, Engine.Action.callJoin ≠ .turn t := by rintro _ ⟨⟩
      obtain ⟨-, -, -, owner, -, rfl⟩ := call_eq_some hcall h
      exact .inl rfl
  | callDestructor =>
      have hcall : ∀ t, Engine.Action.callDestructor ≠ .turn t := by rintro _ ⟨⟩
      obtain ⟨-, -, -, owner, -, rfl⟩ := call_eq_some hcall h
      exact .inl rfl

/-! ## Refinement -/

variable {ingestType : IngestData} {pathExists : Bool} {sink : C} {start : FileEngine P C}

theorem engine_of_construct
    (hstart : FileEngine.construct ingestType pathExists sink = .ok start) :
    start.engine = Engine.new [] sink := by
  rw [FileEngine.construct] at hstart
  split at hstart
  · cases hstart
  · split at hstart
    · cases hstart
    · cases hstart
      rfl

theorem synced_start (hstart : FileEngine.construct ingestType pathExists sink = .ok start) :
    Synced fromChars ({ file := start } : LockedEngine P C) := by
  have hnew : start.engine = Engine.new [] sink := engine_of_construct hstart
  refine ⟨?_, ?_, ?_, by rintro t ⟨⟩, Monitor.sound_init _⟩
  · show start.engine.queue = {}
    rw [hnew]
    rfl
  · show false = start.engine.egress.stopRequested
    rw [hnew]
    rfl
  · rintro t call ⟨⟩

theorem play_synced (hstart : FileEngine.construct ingestType pathExists sink = .ok start)
    {actions : List Action}
    (h : Guarded.play (step fromChars callback disk) { file := start } actions = some e) :
    Synced fromChars e ∧ ∃ actions',
      Guarded.play (FileEngine.step fromChars callback disk) start actions' = some e.file :=
  Guarded.play_simulated (Synced fromChars) file (fun _ _ _ hs hstep => hs.step hstep) h
    (synced_start hstart)

/-- **The locked engine refines the engine.** In whatever order the threads take their
steps in and out of the queue, the engine is where a schedule of atomic calls leaves it,
the queue is where its callers leave it, and the two queues are one: the engine's is what
the calls make of it that had the mutex, one after the other. A thread on its way to the
body of a call is at that call in its code. -/
theorem refines_file (hstart : FileEngine.construct ingestType pathExists sink = .ok start)
    {actions : List Action}
    (h : Guarded.play (step fromChars callback disk) { file := start } actions = some e) :
    (∃ actions', Guarded.play (FileEngine.step fromChars callback disk) start actions'
        = some e.file)
      ∧ (∃ calls, MessageQueue.play calls = some e.queue)
      ∧ Replays {} e.queue.history e.file.engine.queue
      ∧ ∀ t call, call ∈ (e.queue.pc t).pending →
        e.file.engine.queueCall fromChars t = some call := by
  obtain ⟨hsynced, hplay⟩ := play_synced hstart h
  have hcalls := (Guarded.play_simulated (fun _ => True) queue
    (fun _ _ _ _ hstep => ⟨trivial, step_queue hstep⟩) h trivial).2
  refine ⟨hplay, hcalls, ?_, hsynced.calls⟩
  rw [hsynced.queue]
  exact replays_of_serial hsynced.sound.serial

/-! ## Return -/

/-- The steps left: a turn of the file engine costs at most one call. -/
def work (disk : Option Str) (e : LockedEngine P C) : Nat :=
  11 * e.file.work disk + e.queue.weight (monitor (Message P)) + 11 * e.queue.free

/-- The work with a queue that one of its callers took a step in: a call costs what it
brings and takes a free thread, a body frees it. -/
theorem work_of_step (disk : Option Str) {action : Monitor.Action Engine.Turn (Call (Message P))}
    {queue : QueueState P} (hqueue : (monitor _).step e.queue action = some queue)
    (file : FileEngine P C) :
    (⟨file, queue⟩ : LockedEngine P C).work disk + action.work + 11 * action.calls
      ≤ 11 * file.work disk + e.queue.weight (monitor _) + action.cost (monitor _)
        + 11 * (e.queue.free + (monitor _).bodies e.queue action) := by
  have hweight := (Monitor.step_moves hqueue).weight_le
  have hfree := (Monitor.step_moves hqueue).free_eq
  show 11 * file.work disk + queue.weight _ + 11 * queue.free + _ + _ ≤ _
  omega

theorem Moves.work {move : Move} (h : Moves fromChars callback disk e move e') :
    e'.work disk < e.work disk := by
  have hwork : e.work disk = 11 * e.file.work disk + e.queue.weight (monitor (Message P))
      + 11 * e.queue.free := rfl
  cases h with
  | callback queue hqueue =>
      have hstep := work_of_step disk hqueue e.file
      simp only [Monitor.Action.work, Monitor.Action.cost, Monitor.Action.calls, Monitor.bodies]
        at hstep
      omega
  | call t call queue hquiet hcall hqueue =>
      have hstep := work_of_step disk hqueue e.file
      have hwoken : ((monitor (Message P)).notify call).woken Engine.Turn ≤ 2 :=
        Monitor.Notify.woken_le ..
      simp only [Monitor.Action.work, Monitor.Action.cost, Monitor.Action.calls, Monitor.bodies]
        at hstep
      omega
  | alone t file hidle hquiet hcall hleft hturn hstop =>
      have hless := FileEngine.turn_work hturn
      show 11 * file.work disk + e.queue.weight _ + 11 * e.queue.free < _
      omega
  | stop file queue hidle howner hturn hqueue =>
      have hless := FileEngine.turn_work hturn
      have hstep := work_of_step disk hqueue file
      simp only [Monitor.Action.work, Monitor.Action.cost, Monitor.Action.calls, Monitor.bodies]
        at hstep
      omega
  | body t file queue hworks hqueue hturn =>
      have hless := FileEngine.turn_work hturn
      have hstep := work_of_step disk hqueue file
      simp only [Monitor.Action.work, Monitor.Action.cost, Monitor.Action.calls, Monitor.bodies,
        hworks, if_true] at hstep
      omega
  | run t queue hworks hqueue =>
      have hstep := work_of_step disk hqueue e.file
      simp only [Monitor.Action.work, Monitor.Action.cost, Monitor.Action.calls, Monitor.bodies,
        hworks, Bool.false_eq_true, if_false] at hstep
      omega
  | wake t u queue hqueue =>
      have hstep := work_of_step disk hqueue e.file
      simp only [Monitor.Action.work, Monitor.Action.cost, Monitor.Action.calls, Monitor.bodies]
        at hstep
      omega

theorem work_le (e : LockedEngine P C) : e.work disk ≤ 11 * e.file.work disk + 63 := by
  have hweight : e.queue.weight (monitor (Message P)) ≤ 30 := Monitor.weight_le e.queue
  have hfree : e.queue.free ≤ 3 := e.queue.free_le
  rw [work]
  omega

theorem Synced.stuck (h : Synced fromChars e)
    (hstill : ∀ move, e.move fromChars callback disk move = none) :
    Monitor.Stuck (monitor _) e.queue := by
  refine ⟨?_, ?_, ?_⟩
  · intro t
    by_cases hidle : (e.queue.pc t).isIdle = true
    · show Monitor.run _ _ _ = none
      rw [Monitor.run, Monitor.Pc.eq_idle_of_isIdle hidle]
    · have hinside : e.inside fromChars callback disk t = none := by
        have := hstill (.turn t)
        rwa [LockedEngine.move, if_neg hidle] at this
      refine Option.eq_none_iff_forall_ne_some.mpr fun queue hqueue => ?_
      rw [inside, hqueue, Option.bind_some] at hinside
      split at hinside
      · rename_i hworks
        obtain ⟨call, -, hturn⟩ := h.turn_of_works callback disk hworks
        rw [Option.map_eq_none_iff.mp hinside] at hturn
        cases hturn
      · cases hinside
  · intro t u
    exact Option.map_eq_none_iff.mp (hstill (.wake t u))
  · intro t
    refine Option.eq_none_iff_forall_ne_some.mpr fun queue hqueue => ?_
    have hpending : e.queue.stop t = .requested := by
      cases Monitor.step_moves hqueue with
      | stopCallback _ hstop => exact hstop
    obtain ⟨rfl, hidle, -⟩ := h.pending t hpending
    have := hstill (.turn .owner)
    rw [LockedEngine.move, hidle, Monitor.Pc.isIdle, if_pos rfl, outside,
      if_pos ⟨rfl, hpending⟩, hqueue] at this
    cases this

/-- Where no thread can work, the egress thread alone may sleep, on an open queue. -/
theorem Synced.rests (h : Synced fromChars e) (hstuck : Monitor.Stuck (monitor _) e.queue)
    (t : Engine.Turn) : e.queue.pc t = .idle ∨ t = .egress
      ∧ e.file.engine.queueCall fromChars t = some .waitPop
      ∧ e.file.engine.queue.waitPop e.file.engine.egress.stopRequested = none := by
  rcases Monitor.rests_of_stuck h.sound.exclusive hstuck t with hidle | ⟨call, hasleep⟩
  · exact .inl hidle
  · obtain ⟨hunits, hstop⟩ := h.sound.covered.of_stuck h.sound.exclusive hstuck hasleep
    have hclaim := h.sound.covered.one_le_claim t call hasleep
    have hcall := h.calls t call (by rw [hasleep]; exact List.mem_singleton_self _)
    cases call with
    | waitPop =>
        obtain rfl := Engine.eq_egress_of_queueCall hcall
        obtain ⟨hqueue, hclosed⟩ := units_eq_zero_iff.mp hunits
        rw [h.stopped] at hstop
        rw [← h.queue] at hqueue hclosed
        exact .inr ⟨rfl, hcall, waitPop_eq_none_iff.mpr ⟨hqueue, hclosed, hstop⟩⟩
    | _ => exact absurd hclaim (by simp [Call.claim])

/-- **Nothing new to wait for.** The moves come to an end only where the turns of the file
engine do. -/
theorem Synced.still (h : Synced fromChars e)
    (hstill : ∀ move, e.move fromChars callback disk move = none) (t : Engine.Turn) :
    e.file.turn fromChars callback disk t = none := by
  have hstuck := h.stuck hstill
  rcases h.rests hstuck t with hidle | ⟨-, hcall, hwait⟩
  · have houtside : e.outside fromChars callback disk t = none := by
      have := hstill (.turn t)
      rwa [LockedEngine.move, hidle, Monitor.Pc.isIdle, if_pos rfl] at this
    rw [outside] at houtside
    split at houtside
    · rename_i hpending
      have := hstuck.2.2 .egress
      simp only [Monitor.step, hpending.2] at this
      cases this
    split at houtside
    · rw [Monitor.step, hidle] at houtside
      cases houtside
    · split at houtside
      · rename_i hawaited
        obtain ⟨rfl, u, hu, hbusy⟩ := hawaited
        rcases h.rests hstuck u with hidle | ⟨rfl, hcall, -⟩
        · rw [hidle] at hbusy
          cases hbusy
        · exact FileEngine.turn_owner_of_awaited hu hcall
      · refine Option.eq_none_iff_forall_ne_some.mpr fun file hturn => ?_
        rw [hturn, Option.bind_some] at houtside
        split at houtside <;> cases houtside
  · have hturn := FileEngine.turn_of_queueCall callback disk hcall
    simp only [atomically, hwait, Option.map_none, Option.map_eq_none_iff] at hturn
    exact hturn

/-- **Calls of the owner return.** Whatever was going on inside the queue when the owner
called `Join` or the destructor, the threads make a bounded number of moves. Where no move
is left, every thread is out of the queue, both have run to their end, `Join` has returned
with what the sequential program computes from the file unless a stop was requested, and
the destructor has reaped both threads and lost at most one message. -/
theorem owner_returns (hstart : FileEngine.construct ingestType pathExists sink = .ok start)
    {actions : List Action}
    (h : Guarded.play (step fromChars callback disk) { file := start } actions = some e)
    {moves : List Move}
    (hmoves : Guarded.play (move fromChars callback disk) e moves = some e') :
    moves.length ≤ 11 * e.file.work disk + 63
      ∧ ((∀ next, e'.move fromChars callback disk next = none) →
        (∀ t, e'.queue.pc t = .idle)
          ∧ e'.file.engine.ingest.pc = .done ∧ e'.file.engine.egress.pc = .done
          ∧ (e.file.engine.owner = .joinIngest → e'.file.engine.Joined
            ∧ (e.file.engine.stopRequested = false → e'.file.engine.observed
              = Sequential.run fromChars callback (FileEngine.lines disk) sink))
          ∧ (e.file.engine.owner = .stopIngest → e'.file.engine.Destroyed
            ∧ ∃ rest lost, FileEngine.lines disk = e'.file.engine.ingest.parsed ++ rest
              ∧ lost.length ≤ 1
              ∧ decoded fromChars e'.file.engine.ingest.parsed
                = e'.file.engine.egress.delivered ++ lost)) := by
  obtain ⟨hsynced, actions', hplay⟩ := play_synced hstart h
  obtain ⟨hsynced', turns, hturns⟩ := Guarded.play_simulated (Synced fromChars) file
    (fun _ _ _ hs hstep => hs.moves (move_moves hstep)) hmoves hsynced
  constructor
  · have hbound := Guarded.play_bounded (work disk)
      (fun _ _ _ hstep => (move_moves hstep).work) hmoves
    have hwork : e.work disk ≤ 11 * e.file.work disk + 63 := work_le e
    omega
  · intro hstill
    have hturn := hsynced'.still hstill
    let sound (file : FileEngine P C) : Prop :=
      (file.seen disk).Sound fromChars callback (FileEngine.lines disk) sink
    have hsound : sound e'.file := by
      refine Guarded.play_invariant ?_ hturns (FileEngine.play_sound hstart hplay)
      intro file t file' hs hstep
      rcases FileEngine.turn_seen hstep with ⟨hseen, -⟩ | ⟨-, hseen⟩
      · simp only [sound, hseen]
        exact hs
      · exact hs.turn hseen
    obtain ⟨hingest, hegress, -⟩ :=
      hsound.standstill fun t => FileEngine.turn_seen_eq_none (hturn t)
    refine ⟨?_, hingest, hegress, ?_, ?_⟩
    · intro t
      rcases hsynced'.rests (hsynced'.stuck hstill) t with hidle | ⟨-, -, hwait⟩
      · exact hidle
      · have hclosed : e'.file.engine.queue.closed = true := hsound.finished hingest
        rw [(waitPop_eq_none_iff.mp hwait).2.1] at hclosed
        cases hclosed
    · exact fun howner => FileEngine.joined_of_still hstart hplay howner hturns hturn
    · intro howner
      obtain ⟨hdestroyed, rest, lost, hlines, hlost, hdecoded, -⟩ :=
        FileEngine.destroyed_of_still hstart hplay howner hturns hturn
      exact ⟨hdestroyed, rest, lost, hlines, hlost, hdecoded⟩

/-! ## Nobody is left in the queue -/

end LockedEngine

namespace Engine

variable {e e' : Engine P C}

structure Reaping (e : Engine P C) : Prop where
  first : e.owner = .joinClose ∨ e.owner = .joinEgress ∨ e.owner = .reapEgress
    ∨ e.egress.joinable = false → e.ingest.joinable = false
  both : e.owner = .destroyed → e.egress.joinable = false

/-- What the owner reaps, it awaited, and it has left the queue when it is back. -/
structure Reaps (fromChars : Str → FromChars P) (e e' : Engine P C) : Prop where
  reaping : e'.Reaping
  ingestPc : e'.ingest.pc = e.ingest.pc
  egressPc : e'.egress.pc = e.egress.pc
  ingest : e'.ingest.joinable = false →
    e.ingest.joinable = false ∨ Turn.ingest ∈ e.awaited ∧ e.ingest.pc = .done
  egress : e'.egress.joinable = false →
    e.egress.joinable = false ∨ Turn.egress ∈ e.awaited ∧ e.egress.pc = .done
  owner : e'.owner = .idle ∨ e'.owner = .destroyed → e.queueCall fromChars .owner = none

theorem Reaping.owner_step (hr : e.Reaping) (h : e.ownerStep = some e') :
    Reaps fromChars e e' := by
  obtain ⟨hfirst, hboth⟩ := hr
  have hkept : e.egress.joinable = false → e.ingest.joinable = false :=
    fun hjoinable => hfirst (.inr (.inr (.inr hjoinable)))
  have hreap {t : Turn} {joinable : Bool} {exited : Prop}
      (hawaited : joinable = true → t ∈ e.awaited) (hexited : joinable = true → exited) :
      joinable = false ∨ t ∈ e.awaited ∧ exited := by
    cases joinable with
    | false => exact .inl rfl
    | true => exact .inr ⟨hawaited rfl, hexited rfl⟩
  unfold ownerStep at h
  split at h <;> rename_i howner
  · cases h
  · obtain ⟨hdone, rfl⟩ := awaitIngest_eq_some h
    exact ⟨⟨fun _ => rfl, nofun⟩, rfl, rfl,
      fun _ => hreap (fun hjoinable => by simp [awaited, howner, hjoinable]) hdone, .inl, nofun⟩
  · cases h
    exact ⟨⟨fun _ => hfirst (.inl howner), nofun⟩, rfl, rfl, .inl, .inl, nofun⟩
  · obtain ⟨hdone, rfl⟩ := awaitEgress_eq_some h
    exact ⟨⟨fun _ => hfirst (.inr (.inl howner)), nofun⟩, rfl, rfl, .inl,
      fun _ => hreap (fun hjoinable => by simp [awaited, howner, hjoinable]) hdone,
      fun _ => by simp only [queueCall, howner]⟩
  · cases h
    exact ⟨⟨by simpa using hkept, nofun⟩, rfl, rfl, .inl, .inl, nofun⟩
  · cases h
    exact ⟨⟨by simpa using hkept, nofun⟩, rfl, rfl, .inl, .inl, nofun⟩
  · cases h
    exact ⟨⟨by simpa using hkept, nofun⟩, rfl, rfl, .inl, .inl, nofun⟩
  · obtain ⟨hdone, rfl⟩ := awaitIngest_eq_some h
    exact ⟨⟨fun _ => rfl, nofun⟩, rfl, rfl,
      fun _ => hreap (fun hjoinable => by simp [awaited, howner, hjoinable]) hdone, .inl, nofun⟩
  · obtain ⟨hdone, rfl⟩ := awaitEgress_eq_some h
    exact ⟨⟨fun _ => hfirst (.inr (.inr (.inl howner))), fun _ => rfl⟩, rfl, rfl, .inl,
      fun _ => hreap (fun hjoinable => by simp [awaited, howner, hjoinable]) hdone,
      fun _ => by simp only [queueCall, howner]⟩
  · cases h

end Engine

namespace LockedEngine

/-- A thread that was reaped has exited and is out of the queue, and so is the owner
between its calls. -/
structure Left (e : LockedEngine P C) : Prop where
  reaping : e.file.engine.Reaping
  ingest : e.file.engine.ingest.joinable = false →
    e.file.engine.ingest.pc = .done ∧ e.queue.pc .ingest = .idle
  egress : e.file.engine.egress.joinable = false →
    e.file.engine.egress.pc = .done ∧ e.queue.pc .egress = .idle
  owner : e.file.engine.owner = .idle ∨ e.file.engine.owner = .destroyed →
    e.queue.pc .owner = .idle

theorem Left.queue (fromChars : Str → FromChars P) (h : Left e) {queue : QueueState P}
    (hidle : ∀ t, e.file.engine.queueCall fromChars t = none → e.queue.pc t = .idle →
      queue.pc t = .idle) : Left { e with queue } where
  reaping := h.reaping
  ingest hjoinable := by
    obtain ⟨hpc, hout⟩ := h.ingest hjoinable
    exact ⟨hpc, hidle .ingest (by simp only [Engine.queueCall, hpc]) hout⟩
  egress hjoinable := by
    obtain ⟨hpc, hout⟩ := h.egress hjoinable
    exact ⟨hpc, hidle .egress (by simp only [Engine.queueCall, hpc]) hout⟩
  owner howner := by
    refine hidle .owner ?_ (h.owner howner)
    replace howner : e.file.engine.owner = .idle ∨ e.file.engine.owner = .destroyed := howner
    rcases howner with howner | howner <;> simp only [Engine.queueCall, howner]

theorem Left.of_moves (fromChars : Str → FromChars P) (h : Left e) {queue : QueueState P}
    {action : Monitor.Action Engine.Turn (Call (Message P))}
    (hqueue : (monitor _).step e.queue action = some queue)
    (hcall : ∀ t call, action = .call t call →
      e.file.engine.queueCall fromChars t = some call) : Left { e with queue } := by
  refine h.queue fromChars ?_
  intro t hnone hout
  rcases (Monitor.step_moves hqueue).idle hout with hidle | ⟨call, haction⟩
  · exact hidle
  · rw [hcall t call haction] at hnone
    cases hnone

/-- A turn of a thread that is out of the queue, or at the body of its call. -/
theorem Left.turn (h : Left e) {t : Engine.Turn} {file : FileEngine P C}
    (hturn : e.file.turn fromChars callback disk t = some file)
    (hleft : t = .owner → ∀ u ∈ e.file.engine.awaited, e.queue.pc u = .idle)
    (hout : e.file.engine.queueCall fromChars t = none → e.queue.pc t = .idle) :
    Left { e with file } := by
  cases t with
  | ingest =>
      obtain ⟨⟨ingest, rest, queue⟩, hstep, rfl⟩ := Option.map_eq_some_iff.mp hturn
      have hkeep : ingest.joinable = e.file.engine.ingest.joinable
          ∧ (e.file.engine.ingest.pc = .done → ingest.pc = .done) := by
        rcases FileEngine.ingestStep_seen hstep with ⟨rfl, -⟩ | ⟨-, hseen⟩
        · exact ⟨rfl, id⟩
        · obtain ⟨hpc, -, hjoinable, -⟩ := (IngestThread.step_moves hseen).effect
          exact ⟨hjoinable, fun hdone => absurd hdone hpc⟩
      obtain ⟨hjoinable, hdone⟩ := hkeep
      refine ⟨⟨?_, h.reaping.both⟩, ?_, h.egress, h.owner⟩
      · rw [hjoinable]
        exact h.reaping.first
      · intro hreaped
        rw [hjoinable] at hreaped
        exact (h.ingest hreaped).imp_left hdone
  | egress =>
      obtain ⟨engine, hengine, rfl⟩ := Option.map_eq_some_iff.mp hturn
      obtain ⟨⟨egress, queue⟩, hstep, rfl⟩ := Option.map_eq_some_iff.mp hengine
      obtain ⟨hpc, -, hjoinable, -⟩ := (EgressThread.step_moves hstep).effect
      refine ⟨⟨?_, ?_⟩, h.ingest, ?_, h.owner⟩
      · rw [hjoinable]
        exact h.reaping.first
      · rw [hjoinable]
        exact h.reaping.both
      · intro hreaped
        rw [hjoinable] at hreaped
        exact absurd (h.egress hreaped).1 hpc
  | owner =>
      obtain ⟨engine, hstep, rfl⟩ := Option.map_eq_some_iff.mp hturn
      have hreaps : Engine.Reaps fromChars e.file.engine engine := h.reaping.owner_step hstep
      refine ⟨hreaps.reaping, ?_, ?_, fun howner => hout (hreaps.owner howner)⟩
      · intro hreaped
        rw [hreaps.ingestPc]
        rcases hreaps.ingest hreaped with hbefore | ⟨hawaited, hdone⟩
        · exact h.ingest hbefore
        · exact ⟨hdone, hleft rfl .ingest hawaited⟩
      · intro hreaped
        rw [hreaps.egressPc]
        rcases hreaps.egress hreaped with hbefore | ⟨hawaited, hdone⟩
        · exact h.egress hbefore
        · exact ⟨hdone, hleft rfl .egress hawaited⟩

theorem Left.moves (h : Left e) (hs : Synced fromChars e) {move : Move}
    (hmoves : Moves fromChars callback disk e move e') : Left e' := by
  cases hmoves with
  | callback queue hqueue => exact h.of_moves fromChars hqueue (by rintro _ _ ⟨⟩)
  | call t call queue hquiet hcall hqueue =>
      refine h.of_moves fromChars hqueue ?_
      rintro _ _ ⟨⟩
      exact hcall
  | alone t file hidle hquiet hcall hleft hturn hstop => exact h.turn hturn hleft fun _ => hidle
  | stop file queue hidle howner hturn hqueue =>
      have hturned : Left { e with file } := by
        refine h.turn hturn ?_ fun _ => hidle
        intro _ u hu
        simp only [Engine.awaited, howner] at hu
        cases hu
      exact hturned.of_moves fromChars hqueue (by rintro _ _ ⟨⟩)
  | body t file queue hworks hqueue hturn =>
      obtain ⟨call, hpc, -⟩ := hs.turn_of_works callback disk hworks
      have hcall := hs.calls t call (by rw [hpc]; exact List.mem_singleton_self _)
      have hturned : Left { e with file } := by
        refine h.turn hturn ?_ ?_
        · rintro rfl u hu
          rw [FileEngine.awaited_of_queueCall hcall] at hu
          cases hu
        · intro hnone
          rw [hcall] at hnone
          cases hnone
      exact hturned.of_moves fromChars hqueue (by rintro _ _ ⟨⟩)
  | run t queue hworks hqueue =>
      exact h.of_moves fromChars hqueue (by rintro _ _ ⟨⟩)
  | wake t u queue hqueue =>
      exact h.of_moves fromChars hqueue (by rintro _ _ ⟨⟩)

theorem Left.call (h : Left e) {action : Engine.Action} (hcall : ∀ t, action ≠ .turn t)
    (hstep : e.call fromChars callback disk action = some e') : Left e' := by
  obtain ⟨hidle, howner, -, owner, hnext, rfl⟩ := call_eq_some hcall hstep
  refine ⟨⟨?_, ?_⟩, h.ingest, h.egress, fun _ => hidle⟩
  · intro hfirst
    refine h.reaping.first (.inr (.inr (.inr ?_)))
    rcases hnext with rfl | rfl <;> simpa using hfirst
  · rcases hnext with rfl | rfl <;> exact nofun

theorem Left.step (h : Left e) (hs : Synced fromChars e) {action : Action}
    (hstep : e.step fromChars callback disk action = some e') : Left e' := by
  cases action with
  | move move => exact h.moves hs (move_moves hstep)
  | spurious u =>
      obtain ⟨queue, hqueue, rfl⟩ := Option.map_eq_some_iff.mp hstep
      exact h.of_moves fromChars hqueue (by rintro _ _ ⟨⟩)
  | callJoin => exact h.call (by rintro _ ⟨⟩) hstep
  | callDestructor => exact h.call (by rintro _ ⟨⟩) hstep

/-- **The queue is left to nobody.** At whatever moment `Join` or the destructor has
returned, both threads have exited and been reaped, no thread is inside the queue, neither
in its mutex nor asleep nor about to notify, and no stop has a callback left to run on the
condition variable: the queue may be destroyed. -/
theorem reaped_left (hstart : FileEngine.construct ingestType pathExists sink = .ok start)
    {actions : List Action}
    (h : Guarded.play (step fromChars callback disk) { file := start } actions = some e)
    (hback : e.file.engine.Joined ∨ e.file.engine.owner = .destroyed) :
    e.file.engine.ingest.joinable = false ∧ e.file.engine.egress.joinable = false
      ∧ e.file.engine.ingest.pc = .done ∧ e.file.engine.egress.pc = .done
      ∧ e.queue.holder = none ∧ (∀ t, e.queue.pc t = .idle)
      ∧ ∀ t, e.queue.stop t ≠ .requested := by
  have hstarted : start.engine = Engine.new [] sink := engine_of_construct hstart
  let both (e : LockedEngine P C) : Prop := Synced fromChars e ∧ Left e
  have hboth : both e := by
    refine Guarded.play_invariant ?_ h ⟨synced_start hstart, ?_⟩
    · exact fun e action e' ⟨hs, hl⟩ hstep => ⟨(hs.step hstep).1, hl.step hs hstep⟩
    · refine ⟨⟨?_, ?_⟩, ?_, ?_, fun _ => rfl⟩ <;> simp [hstarted, Engine.new]
  obtain ⟨hs, hl⟩ := hboth
  have hegress : e.file.engine.egress.joinable = false :=
    hback.elim And.right hl.reaping.both
  have hingest : e.file.engine.ingest.joinable = false :=
    hl.reaping.first (.inr (.inr (.inr hegress)))
  obtain ⟨hingestDone, hingestOut⟩ := hl.ingest hingest
  obtain ⟨hegressDone, hegressOut⟩ := hl.egress hegress
  have hownerOut := hl.owner (hback.imp_left And.left)
  have hout : ∀ t, e.queue.pc t = .idle := by
    intro t
    cases t with
    | ingest => exact hingestOut
    | egress => exact hegressOut
    | owner => exact hownerOut
  refine ⟨hingest, hegress, hingestDone, hegressDone, ?_, hout, ?_⟩
  · refine Option.eq_none_iff_forall_ne_some.mpr fun t hholder => ?_
    have hinside := (hs.sound.exclusive t).mpr hholder
    rw [hout t] at hinside
    cases hinside
  · intro t hpending
    have howner := (hs.pending t hpending).2.2
    rcases hback with ⟨hidle, -⟩ | hdestroyed
    · rw [hidle] at howner
      cases howner
    · rw [hdestroyed] at howner
      cases howner

/-! ## A schedule -/

section Sample

abbrev sampleStep : LockedEngine Nat (OrderBook Nat) → Action →
    Option (LockedEngine Nat (OrderBook Nat)) :=
  step Engine.sampleFromChars (fun book message => book.onMessage message.data)
    (some FileEngine.sampleContent)

abbrev sampleMove : LockedEngine Nat (OrderBook Nat) → Move →
    Option (LockedEngine Nat (OrderBook Nat)) :=
  move Engine.sampleFromChars (fun book message => book.onMessage message.data)
    (some FileEngine.sampleContent)

/-- The egress thread goes to sleep on the empty queue, the ingest thread reads a line and
pushes its message, and while it still holds the mutex `Join` is called and the egress
thread wakes up for no reason. -/
def sampleActions : List Action :=
  [.move (.turn .egress), .move (.turn .egress), .move (.turn .egress), .move (.turn .ingest),
    .move (.turn .ingest), .move (.turn .ingest), .move (.turn .ingest), .move (.turn .ingest),
    .callJoin, .spurious .egress]

/-- The egress thread takes the message and sleeps again before the ingest thread has
notified anybody; the notification wakes it for nothing. The ingest thread closes the
queue behind the second line, which wakes the egress thread for good. -/
def sampleMoves : List Move :=
  [.turn .ingest] ++ List.replicate 9 (.turn .egress)
    ++ [.wake .ingest .egress, .turn .egress, .turn .egress]
    ++ List.replicate 10 (.turn .ingest) ++ List.replicate 4 (.turn .egress)
    ++ List.replicate 7 (.turn .owner)

theorem sampleCall_isSome :
    (Guarded.play sampleStep { file := FileEngine.sampleStart } sampleActions).isSome = true := by
  decide +kernel

abbrev sampleCalled : LockedEngine Nat (OrderBook Nat) :=
  (Guarded.play sampleStep { file := FileEngine.sampleStart } sampleActions).get
    sampleCall_isSome

theorem sampleReturn_isSome :
    (Guarded.play sampleMove sampleCalled sampleMoves).isSome = true := by
  decide +kernel

abbrev sampleReturned : LockedEngine Nat (OrderBook Nat) :=
  (Guarded.play sampleMove sampleCalled sampleMoves).get sampleReturn_isSome

theorem samplePlay_isSome :
    (Guarded.play sampleStep { file := FileEngine.sampleStart }
      (sampleActions ++ sampleMoves.map Action.move)).isSome = true := by
  decide +kernel

abbrev sampleLeft : LockedEngine Nat (OrderBook Nat) :=
  (Guarded.play sampleStep { file := FileEngine.sampleStart }
    (sampleActions ++ sampleMoves.map Action.move)).get samplePlay_isSome

theorem sampleStart_construct :
    FileEngine.construct IngestData.nysePillar true ({} : OrderBook Nat)
      = .ok FileEngine.sampleStart := rfl

theorem refines_file_sample :
    sampleCalled.queue.pc .egress = .enter .waitPop
      ∧ sampleCalled.queue.holder = some .ingest
      ∧ sampleCalled.file.engine.queue.size = 1
      ∧ Replays {} sampleCalled.queue.history sampleCalled.file.engine.queue := by
  obtain ⟨-, -, hreplays, -⟩ := refines_file sampleStart_construct
    (Option.some_get sampleCall_isSome).symm
  exact ⟨by decide +kernel, by decide +kernel, by decide +kernel, hreplays⟩

theorem owner_returns_sample :
    sampleReturned.file.engine.Joined
      ∧ sampleReturned.file.engine.observed = Sequential.run Engine.sampleFromChars
        (fun book message => book.onMessage message.data)
        (FileEngine.lines (some FileEngine.sampleContent)) {}
      ∧ sampleReturned.file.engine.getTotal = 2
      ∧ sampleReturned.file.engine.getEgressCount = 1 := by
  obtain ⟨-, hstill⟩ := owner_returns sampleStart_construct
    (Option.some_get sampleCall_isSome).symm (Option.some_get sampleReturn_isSome).symm
  have hturn : ∀ t, (sampleMove sampleReturned (.turn t)).isNone = true := by decide +kernel
  have hwake : ∀ t u, (sampleMove sampleReturned (.wake t u)).isNone = true := by
    decide +kernel
  obtain ⟨-, -, -, hjoin, -⟩ := hstill fun next => by
    refine Option.isNone_iff_eq_none.mp ?_
    cases next with
    | turn t => exact hturn t
    | wake t u => exact hwake t u
  obtain ⟨hjoined, hobserved⟩ := hjoin (by decide +kernel)
  exact ⟨hjoined, hobserved (by decide +kernel), by decide +kernel, by decide +kernel⟩

theorem reaped_left_sample :
    sampleLeft.file.engine.Joined ∧ sampleLeft.file.engine.ingest.pc = .done
      ∧ ∀ t, sampleLeft.queue.pc t = .idle := by
  have hjoined : sampleLeft.file.engine.Joined := ⟨by decide +kernel, by decide +kernel⟩
  obtain ⟨-, -, hdone, -, -, hout, -⟩ := reaped_left sampleStart_construct
    (Option.some_get samplePlay_isSome).symm (.inl hjoined)
  exact ⟨hjoined, hdone, hout⟩

end Sample

end LockedEngine

end Mde
