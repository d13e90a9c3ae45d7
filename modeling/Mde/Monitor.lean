import Mde.Guarded

/-!
# Monitors

A shared state behind a mutex, with one condition variable, used by any
finite number of threads. A call takes the mutex, waits in the condition
variable until the state is `ready` for it or its thread is asked to stop,
does its `body` on the state, releases the mutex and then notifies one
waiter, all of them or nobody. A stop request is visible before its
callback wakes the thread. Waiters may also wake up for no reason.

- `Exclusive`: the thread that holds the mutex is the one inside.
- `Serial`: the state is what the bodies make of it one after the other,
  and `Accounted`: each call has one body, between its call and its return.
- `Covered`: where the state could serve sleeping threads there are as many
  threads on the way, so no wakeup is lost (`Covered.of_stuck`).
- `play_work`: threads that only work come to rest (`weight` is what they
  have left to do), and `rests_of_stuck` says where.
-/

/-- Whom a call notifies behind the mutex. -/
inductive Monitor.Notify where
  | nobody
  | one
  | all
deriving DecidableEq, Repr

/-- The calls `O` on a state `S`, with results in `R`. -/
structure Monitor (S O R : Type*) where
  /-- what the call waits for; constantly `true` when it does not wait -/
  ready : O → S → Bool
  body : O → S → R × S
  notify : O → Monitor.Notify

namespace Monitor

inductive Pc (O R : Type*) where
  | idle
  /-- wants the mutex, at first or after it was woken -/
  | enter (op : O)
  /-- has the mutex, at the test of the waiting loop -/
  | test (op : O)
  /-- waits in the condition variable -/
  | asleep (op : O)
  /-- has the mutex, its work done -/
  | leave (op : O) (result : R)
  /-- without the mutex, about to notify and to return -/
  | notify (op : O) (result : R)
deriving DecidableEq, Repr

namespace Pc

variable {O R : Type*}

def isAsleep : Pc O R → Bool
  | .asleep _ => true
  | _ => false

def inside : Pc O R → Bool
  | .test _ => true
  | .leave _ _ => true
  | _ => false

def isIdle : Pc O R → Bool
  | .idle => true
  | _ => false

/-- A waiter that is woken wants the mutex again. -/
def woken : Pc O R → Pc O R
  | .asleep op => .enter op
  | pc => pc

/-- The call whose body is still to be done. -/
def pending : Pc O R → List O
  | .enter op => [op]
  | .test op => [op]
  | .asleep op => [op]
  | _ => []

/-- The call whose body is done and that has not returned. -/
def done : Pc O R → List (O × R)
  | .leave op result => [(op, result)]
  | .notify op result => [(op, result)]
  | _ => []

def free (pc : Pc O R) : Nat := 1 - pc.pending.length

theorem eq_idle_of_isIdle {pc : Pc O R} (h : pc.isIdle = true) : pc = .idle := by
  cases pc with
  | idle => rfl
  | _ => cases h

@[simp] theorem isAsleep_woken (pc : Pc O R) : pc.woken.isAsleep = false := by
  cases pc <;> rfl

@[simp] theorem woken_woken (pc : Pc O R) : pc.woken.woken = pc.woken := by
  cases pc <;> rfl

@[simp] theorem inside_woken (pc : Pc O R) : pc.woken.inside = pc.inside := by
  cases pc <;> rfl

@[simp] theorem pending_woken (pc : Pc O R) : pc.woken.pending = pc.pending := by
  cases pc <;> rfl

@[simp] theorem done_woken (pc : Pc O R) : pc.woken.done = pc.done := by
  cases pc <;> rfl

@[simp] theorem free_woken (pc : Pc O R) : pc.woken.free = pc.free := by
  rw [free, pending_woken, free]

end Pc

/-- How far a thread's stop is. The request can be seen before the callback that it
runs has notified the thread. -/
inductive Stop where
  | none
  | requested
  | notified
deriving DecidableEq, Repr

namespace Stop

def isRequested : Stop → Bool
  | .none => false
  | _ => true

/-- Only the first request runs the callback. -/
def request : Stop → Stop
  | .none => .requested
  | stop => stop

@[simp] theorem isRequested_request (stop : Stop) : stop.request.isRequested = true := by
  cases stop <;> rfl

theorem request_ne_notified {stop : Stop} (h : stop ≠ .notified) : stop.request ≠ .notified := by
  cases stop with
  | notified => exact absurd rfl h
  | _ => nofun

end Stop

structure Event (T O R : Type*) where
  thread : T
  op : O
  /-- what the thread knew of its stop -/
  stopped : Bool
  result : R
deriving DecidableEq, Repr

/-- `called`, `history` and `returned` record the calls, the bodies and the returns. -/
structure State (T S O R : Type*) where
  shared : S
  holder : Option T := none
  pc : T → Pc O R := fun _ => .idle
  stop : T → Stop := fun _ => .none
  called : List (T × O) := []
  history : List (Event T O R) := []
  returned : List (T × O × R) := []

/-- A call by an idle thread, a step of a thread inside a call, a notification of one
waiter, a wakeup for no reason, a stop request, and its callback, which wakes the thread. -/
inductive Action (T O : Type*) where
  | call (t : T) (op : O)
  | run (t : T)
  | wake (t u : T)
  | spurious (u : T)
  | requestStop (t : T)
  | stopCallback (t : T)
deriving DecidableEq, Repr

variable {T S O R : Type*} [DecidableEq T]

namespace State

variable (s : State T S O R)

/-- What `stop_requested` answers. -/
def stopRequested (t : T) : Bool := (s.stop t).isRequested

def goto (t : T) (pc : Pc O R) : State T S O R :=
  { s with pc := Function.update s.pc t pc }

def rouse (u : T) : State T S O R := s.goto u (s.pc u).woken

def rouseAll : State T S O R := { s with pc := fun u => (s.pc u).woken }

def finish (t : T) (op : O) (result : R) : State T S O R :=
  { s.goto t .idle with returned := s.returned ++ [(t, op, result)] }

def setStop (t : T) (stop : Stop) : State T S O R :=
  { s with stop := Function.update s.stop t stop }

@[simp] theorem setStop_pc (t : T) (stop : Stop) : (s.setStop t stop).pc = s.pc := rfl

@[simp] theorem setStop_stop_self (t : T) (stop : Stop) : (s.setStop t stop).stop t = stop :=
  Function.update_self ..

theorem setStop_stop_of_ne {t u : T} (h : u ≠ t) (stop : Stop) :
    (s.setStop t stop).stop u = s.stop u :=
  Function.update_of_ne h ..

@[simp] theorem goto_pc_self (t : T) (pc : Pc O R) : (s.goto t pc).pc t = pc :=
  Function.update_self ..

@[simp] theorem goto_called (t : T) (pc : Pc O R) : (s.goto t pc).called = s.called := rfl

@[simp] theorem goto_history (t : T) (pc : Pc O R) :
    (s.goto t pc).history = s.history := rfl

@[simp] theorem goto_returned (t : T) (pc : Pc O R) :
    (s.goto t pc).returned = s.returned := rfl

omit [DecidableEq T] in
@[simp] theorem rouseAll_pc (u : T) : s.rouseAll.pc u = (s.pc u).woken := rfl

theorem goto_pc_of_ne {t u : T} (h : u ≠ t) (pc : Pc O R) :
    (s.goto t pc).pc u = s.pc u :=
  Function.update_of_ne h ..

end State

section Step

variable [Fintype T] (m : Monitor S O R)

/-- The step of a thread inside a call. A notification of one waiter is an action
of its own (`wake`) unless nobody waits. -/
def run (s : State T S O R) (t : T) : Option (State T S O R) :=
  match s.pc t with
  | .idle => none
  | .asleep _ => none
  | .enter op =>
    match s.holder with
    | some _ => none
    | none => some { s.goto t (.test op) with holder := some t }
  | .test op =>
    if m.ready op s.shared || s.stopRequested t then
      let r := m.body op s.shared
      some { s.goto t (.leave op r.1) with
        shared := r.2
        history := s.history ++ [⟨t, op, s.stopRequested t, r.1⟩] }
    else some { s.goto t (.asleep op) with holder := none }
  | .leave op result => some { s.goto t (.notify op result) with holder := none }
  | .notify op result =>
    match m.notify op with
    | .nobody => some (s.finish t op result)
    | .one => if ∃ u, (s.pc u).isAsleep then none else some (s.finish t op result)
    | .all => some (s.rouseAll.finish t op result)

def step (s : State T S O R) : Action T O → Option (State T S O R)
  | .call t op =>
    match s.pc t with
    | .idle => some { s.goto t (.enter op) with called := s.called ++ [(t, op)] }
    | _ => none
  | .run t => m.run s t
  | .wake t u =>
    match s.pc t with
    | .notify op result =>
      if m.notify op = .one ∧ (s.pc u).isAsleep then
        some ((s.rouse u).finish t op result)
      else none
    | _ => none
  | .spurious u => if (s.pc u).isAsleep then some (s.rouse u) else none
  | .requestStop t => some (s.setStop t (s.stop t).request)
  | .stopCallback t =>
    match s.stop t with
    | .requested => some ((s.rouse t).setStop t .notified)
    | _ => none

abbrev play (shared : S) (actions : List (Action T O)) : Option (State T S O R) :=
  Guarded.play m.step { shared } actions

end Step

/-! ## What a step does -/

inductive Moves (m : Monitor S O R) (s : State T S O R) : Action T O → State T S O R → Prop where
  | call (t : T) (op : O) (hpc : s.pc t = .idle) :
      Moves m s (.call t op) { s.goto t (.enter op) with called := s.called ++ [(t, op)] }
  | lock (t : T) (op : O) (hpc : s.pc t = .enter op) (hfree : s.holder = none) :
      Moves m s (.run t) { s.goto t (.test op) with holder := some t }
  | work (t : T) (op : O) (hpc : s.pc t = .test op)
      (hready : (m.ready op s.shared || s.stopRequested t) = true) :
      Moves m s (.run t)
        { s.goto t (.leave op (m.body op s.shared).1) with
          shared := (m.body op s.shared).2
          history := s.history ++
            [⟨t, op, s.stopRequested t, (m.body op s.shared).1⟩] }
  | sleep (t : T) (op : O) (hpc : s.pc t = .test op)
      (hready : m.ready op s.shared = false) (hstop : s.stopRequested t = false) :
      Moves m s (.run t) { s.goto t (.asleep op) with holder := none }
  | unlock (t : T) (op : O) (result : R) (hpc : s.pc t = .leave op result) :
      Moves m s (.run t) { s.goto t (.notify op result) with holder := none }
  | finish (t : T) (op : O) (result : R) (hpc : s.pc t = .notify op result)
      (hnotify : m.notify op = .nobody
        ∨ m.notify op = .one ∧ ∀ u, (s.pc u).isAsleep = false) :
      Moves m s (.run t) (s.finish t op result)
  | wakeAll (t : T) (op : O) (result : R) (hpc : s.pc t = .notify op result)
      (hnotify : m.notify op = .all) :
      Moves m s (.run t) (s.rouseAll.finish t op result)
  | wake (t u : T) (op : O) (result : R) (hpc : s.pc t = .notify op result)
      (hnotify : m.notify op = .one) (op' : O) (hasleep : s.pc u = .asleep op') :
      Moves m s (.wake t u) ((s.rouse u).finish t op result)
  | spurious (u : T) (op : O) (hasleep : s.pc u = .asleep op) :
      Moves m s (.spurious u) (s.rouse u)
  | requestStop (t : T) :
      Moves m s (.requestStop t) (s.setStop t (s.stop t).request)
  | stopCallback (t : T) (hstop : s.stop t = .requested) :
      Moves m s (.stopCallback t) ((s.rouse t).setStop t .notified)

variable {m : Monitor S O R} {s s' : State T S O R} {action : Action T O}

omit [DecidableEq T] in
theorem exists_of_isAsleep {t : T} (h : (s.pc t).isAsleep = true) :
    ∃ op, s.pc t = .asleep op := by
  unfold Pc.isAsleep at h
  split at h
  · rename_i op hpc
    exact ⟨op, hpc⟩
  · cases h

omit [DecidableEq T] in
theorem ne_of_asleep {t u : T} {op op' : O} {result : R} (hpc : s.pc t = .notify op result)
    (hasleep : s.pc u = .asleep op') : t ≠ u := by
  rintro rfl
  rw [hpc] at hasleep
  cases hasleep

section Step

variable [Fintype T]

theorem run_moves {t : T} (h : m.run s t = some s') : Moves m s (.run t) s' := by
  unfold run at h
  split at h
  · cases h
  · cases h
  · rename_i op hpc
    split at h
    · cases h
    · rename_i hfree
      cases h
      exact .lock t op hpc hfree
  · rename_i op hpc
    split at h
    · rename_i hready
      cases h
      exact .work t op hpc hready
    · rename_i hready
      cases h
      rw [Bool.or_eq_true, not_or, Bool.not_eq_true, Bool.not_eq_true] at hready
      exact .sleep t op hpc hready.1 hready.2
  · rename_i op result hpc
    cases h
    exact .unlock t op result hpc
  · rename_i op result hpc
    split at h
    · rename_i hnotify
      cases h
      exact .finish t op result hpc (.inl hnotify)
    · rename_i hnotify
      split at h
      · cases h
      · rename_i hnone
        cases h
        exact .finish t op result hpc (.inr ⟨hnotify, by simpa using hnone⟩)
    · rename_i hnotify
      cases h
      exact .wakeAll t op result hpc hnotify

theorem step_moves (h : m.step s action = some s') : Moves m s action s' := by
  cases action with
  | call t op =>
      rw [step] at h
      split at h
      · rename_i hpc
        cases h
        exact .call t op hpc
      · cases h
  | run t => exact run_moves h
  | wake t u =>
      rw [step] at h
      split at h
      · rename_i op result hpc
        split at h
        · rename_i hone
          cases h
          obtain ⟨op', hasleep⟩ := exists_of_isAsleep hone.2
          exact .wake t u op result hpc hone.1 op' hasleep
        · cases h
      · cases h
  | spurious u =>
      rw [step] at h
      split at h
      · rename_i hasleep
        cases h
        obtain ⟨op, hasleep⟩ := exists_of_isAsleep hasleep
        exact .spurious u op hasleep
      · cases h
  | requestStop t =>
      cases h
      exact .requestStop t
  | stopCallback t =>
      rw [step] at h
      split at h
      · rename_i hstop
        cases h
        exact .stopCallback t hstop
      · cases h

end Step

/-! ## What a move leaves as it was -/

def works (m : Monitor S O R) (s : State T S O R) (t : T) : Bool :=
  match s.pc t with
  | .test op => m.ready op s.shared || s.stopRequested t
  | _ => false

theorem mem_pending_of_goto {t u : T} {pc : Pc O R} {op : O}
    (h : op ∈ ((s.goto t pc).pc u).pending) :
    (u = t ∧ op ∈ pc.pending) ∨ op ∈ (s.pc u).pending := by
  by_cases hu : u = t
  · subst hu
    exact .inl ⟨rfl, by rwa [State.goto_pc_self] at h⟩
  · exact .inr (by rwa [State.goto_pc_of_ne _ hu] at h)

theorem mem_pending_of_rouse {t u : T} {op : O} (h : op ∈ ((s.rouse t).pc u).pending) :
    op ∈ (s.pc u).pending := by
  rcases mem_pending_of_goto h with ⟨rfl, hop⟩ | hop
  · rwa [Pc.pending_woken] at hop
  · exact hop

theorem Moves.mem_pending (h : Moves m s action s') {u : T} {op : O}
    (hop : op ∈ (s'.pc u).pending) : op ∈ (s.pc u).pending ∨ action = .call u op := by
  cases h with
  | call t op' hpc =>
      rcases mem_pending_of_goto hop with ⟨rfl, hop'⟩ | hop'
      · obtain rfl := List.mem_singleton.mp hop'
        exact .inr rfl
      · exact .inl hop'
  | lock t op' hpc hfree =>
      rcases mem_pending_of_goto hop with ⟨rfl, hop⟩ | hop
      · exact .inl (by rwa [hpc])
      · exact .inl hop
  | work t op' hpc hready =>
      rcases mem_pending_of_goto hop with ⟨-, hop⟩ | hop
      · cases hop
      · exact .inl hop
  | sleep t op' hpc hready hstop =>
      rcases mem_pending_of_goto hop with ⟨rfl, hop⟩ | hop
      · exact .inl (by rwa [hpc])
      · exact .inl hop
  | unlock t op' result hpc =>
      rcases mem_pending_of_goto hop with ⟨-, hop⟩ | hop
      · cases hop
      · exact .inl hop
  | finish t op' result hpc hnotify =>
      rcases mem_pending_of_goto hop with ⟨-, hop⟩ | hop
      · cases hop
      · exact .inl hop
  | wakeAll t op' result hpc hnotify =>
      rcases mem_pending_of_goto hop with ⟨-, hop⟩ | hop
      · cases hop
      · exact .inl (by rwa [State.rouseAll_pc, Pc.pending_woken] at hop)
  | wake t u' op' result hpc hnotify op'' hasleep =>
      rcases mem_pending_of_goto hop with ⟨-, hop⟩ | hop
      · cases hop
      · exact .inl (mem_pending_of_rouse hop)
  | spurious u' op' hasleep => exact .inl (mem_pending_of_rouse hop)
  | requestStop t => exact .inl hop
  | stopCallback t hstop => exact .inl (mem_pending_of_rouse hop)

/-- Only a body changes the shared state. -/
theorem Moves.shared (h : Moves m s action s') :
    (s'.shared = s.shared ∧ ∀ t, action = .run t → m.works s t = false)
      ∨ ∃ t op, action = .run t ∧ m.works s t = true ∧ s.pc t = .test op
        ∧ s'.shared = (m.body op s.shared).2 ∧ (s'.pc t).pending = [] := by
  cases h with
  | work t op hpc hready =>
      refine .inr ⟨t, op, rfl, ?_, hpc, rfl, ?_⟩
      · rw [works, hpc]
        exact hready
      · show ((s.goto t _).pc t).pending = []
        rw [State.goto_pc_self]
        rfl
  | lock t op hpc hfree => exact .inl ⟨rfl, by rintro _ ⟨⟩; rw [works, hpc]⟩
  | sleep t op hpc hready hstop =>
      exact .inl ⟨rfl, by rintro _ ⟨⟩; simp only [works, hpc, hready, hstop, Bool.or_false]⟩
  | unlock t op result hpc => exact .inl ⟨rfl, by rintro _ ⟨⟩; rw [works, hpc]⟩
  | finish t op result hpc hnotify => exact .inl ⟨rfl, by rintro _ ⟨⟩; rw [works, hpc]⟩
  | wakeAll t op result hpc hnotify => exact .inl ⟨rfl, by rintro _ ⟨⟩; rw [works, hpc]⟩
  | _ => exact .inl ⟨rfl, by rintro _ ⟨⟩⟩

theorem Moves.idle (h : Moves m s action s') {u : T} (hidle : s.pc u = .idle) :
    s'.pc u = .idle ∨ ∃ op, action = .call u op := by
  have hgoto : ∀ (r : State T S O R) (t : T) (pc : Pc O R), r.pc u = .idle →
      (u = t → pc = .idle) → (r.goto t pc).pc u = .idle := by
    intro r t pc hidle hpc
    by_cases hu : u = t
    · subst hu
      rw [State.goto_pc_self, hpc rfl]
    · rw [State.goto_pc_of_ne _ hu, hidle]
  have hrouse : ∀ t, (s.rouse t).pc u = .idle := fun t =>
    hgoto s t _ hidle (by rintro rfl; rw [hidle]; rfl)
  have hbusy : ∀ {t : T}, s.pc t ≠ .idle → u ≠ t := by
    rintro t hpc rfl
    exact hpc hidle
  cases h with
  | call t op hpc =>
      by_cases hu : u = t
      · exact .inr ⟨op, by rw [hu]⟩
      · exact .inl (hgoto s t _ hidle fun heq => absurd heq hu)
  | lock t op hpc hfree =>
      exact .inl (hgoto s t _ hidle fun heq => absurd heq (hbusy (by rw [hpc]; nofun)))
  | work t op hpc hready =>
      exact .inl (hgoto s t _ hidle fun heq => absurd heq (hbusy (by rw [hpc]; nofun)))
  | sleep t op hpc hready hstop =>
      exact .inl (hgoto s t _ hidle fun heq => absurd heq (hbusy (by rw [hpc]; nofun)))
  | unlock t op result hpc =>
      exact .inl (hgoto s t _ hidle fun heq => absurd heq (hbusy (by rw [hpc]; nofun)))
  | finish t op result hpc hnotify => exact .inl (hgoto s t _ hidle fun _ => rfl)
  | wakeAll t op result hpc hnotify =>
      refine .inl (hgoto s.rouseAll t _ ?_ fun _ => rfl)
      rw [State.rouseAll_pc, hidle]
      rfl
  | wake t u' op result hpc hnotify op' hasleep =>
      exact .inl (hgoto (s.rouse u') t _ (hrouse u') fun _ => rfl)
  | spurious u' op hasleep => exact .inl (hrouse u')
  | requestStop t => exact .inl hidle
  | stopCallback t hstop => exact .inl (hrouse t)

/-- Without a new request a stop stays where it is, or its callback runs. -/
theorem Moves.stop (h : Moves m s action s') (haction : ∀ t, action ≠ .requestStop t) (u : T) :
    s'.stop u = s.stop u ∨ s.stop u = .requested ∧ s'.stop u = .notified := by
  cases h with
  | requestStop t => exact absurd rfl (haction t)
  | stopCallback t hstop =>
      by_cases hu : u = t
      · subst hu
        exact .inr ⟨hstop, State.setStop_stop_self ..⟩
      · exact .inl (State.setStop_stop_of_ne _ hu _)
  | _ => exact .inl rfl

theorem Moves.stopRequested (h : Moves m s action s') (haction : ∀ t, action ≠ .requestStop t)
    (u : T) : s'.stopRequested u = s.stopRequested u := by
  unfold State.stopRequested
  rcases h.stop haction u with hsame | ⟨hbefore, hafter⟩
  · rw [hsame]
  · rw [hbefore, hafter]
    rfl

theorem Moves.requested (h : Moves m s action s') (haction : ∀ t, action ≠ .requestStop t)
    {u : T} (hstop : s'.stop u = .requested) : s.stop u = .requested := by
  rcases h.stop haction u with hsame | ⟨hbefore, -⟩
  · rw [← hsame, hstop]
  · exact hbefore

/-! ## The mutex -/

/-- The thread that holds the mutex is the one inside. -/
def Exclusive (s : State T S O R) : Prop :=
  ∀ t, (s.pc t).inside = true ↔ s.holder = some t

theorem Exclusive.goto {t : T} {pc : Pc O R} (h : Exclusive s)
    (hout : (s.pc t).inside = pc.inside) (u : T) :
    ((s.goto t pc).pc u).inside = true ↔ s.holder = some u := by
  by_cases hu : u = t
  · subst hu
    rw [State.goto_pc_self, ← hout]
    exact h u
  · rw [State.goto_pc_of_ne _ hu]
    exact h u

/-- A thread inside that goes out leaves the mutex free. -/
theorem Exclusive.release {t : T} {pc : Pc O R} (h : Exclusive s)
    (hin : (s.pc t).inside = true) (hout : pc.inside = false) (u : T) :
    ((s.goto t pc).pc u).inside = true ↔ (none : Option T) = some u := by
  refine iff_of_false ?_ nofun
  by_cases hu : u = t
  · subst hu
    rw [State.goto_pc_self, hout]
    exact Bool.false_ne_true
  · rw [State.goto_pc_of_ne _ hu]
    intro hu'
    exact hu (Option.some.inj (((h u).mp hu').symm.trans ((h t).mp hin)))

theorem Exclusive.rouse (h : Exclusive s) (u : T) : Exclusive (s.rouse u) :=
  h.goto (Pc.inside_woken _).symm

theorem Exclusive.moves (h : Exclusive s) (hmoves : Moves m s action s') :
    Exclusive s' := by
  cases hmoves with
  | call t op hpc => exact h.goto (by rw [hpc]; rfl)
  | lock t op hpc hfree =>
      intro u
      by_cases hu : u = t
      · subst hu
        simp [State.goto, Pc.inside]
      · have := h u
        simp only [hfree, reduceCtorEq, iff_false] at this
        simp [State.goto, Function.update_of_ne hu, this, Ne.symm hu]
  | work t op hpc hready => exact h.goto (by rw [hpc]; rfl)
  | sleep t op hpc hready hstop => exact h.release (by rw [hpc]; rfl) rfl
  | unlock t op result hpc => exact h.release (by rw [hpc]; rfl) rfl
  | finish t op result hpc hnotify => exact h.goto (by rw [hpc]; rfl)
  | wakeAll t op result hpc hnotify =>
      have hall : Exclusive s.rouseAll := fun u => by
        rw [State.rouseAll_pc, Pc.inside_woken]
        exact h u
      exact hall.goto (by rw [State.rouseAll_pc, Pc.inside_woken, hpc]; rfl)
  | wake t u op result hpc hnotify op' hasleep =>
      have hne := ne_of_asleep hpc hasleep
      refine (h.rouse u).goto ?_
      rw [State.rouse, State.goto_pc_of_ne _ hne, hpc]
      rfl
  | spurious u op hasleep => exact h.rouse u
  | requestStop t => exact h
  | stopCallback t hstop => exact h.rouse t

omit [DecidableEq T] in
theorem exclusive_init (shared : S) : Exclusive ({ shared } : State T S O R) :=
  fun _ => iff_of_false Bool.false_ne_true nofun

/-! ## The bodies, one after the other -/

/-- From `shared` on the events follow one another: each finds the state ready or its
thread stopped, and has the result its body gives there. -/
inductive Serial (m : Monitor S O R) (shared : S) : List (Event T O R) → S → Prop where
  | nil : Serial m shared [] shared
  | snoc {events : List (Event T O R)} {before : S} (h : Serial m shared events before)
      (t : T) (op : O) (stopped : Bool)
      (hready : (m.ready op before || stopped) = true) :
      Serial m shared (events ++ [⟨t, op, stopped, (m.body op before).1⟩])
        (m.body op before).2

theorem Serial.moves {shared : S} (h : Serial m shared s.history s.shared)
    (hmoves : Moves m s action s') : Serial m shared s'.history s'.shared := by
  cases hmoves with
  | work t op hpc hready => exact h.snoc t op _ hready
  | _ => exact h

def own {X : Type*} (t : T) (items : List (T × X)) : List X :=
  items.filterMap fun item => if item.1 = t then some item.2 else none

theorem own_append_singleton {X : Type*} (t u : T) (items : List (T × X)) (x : X) :
    own t (items ++ [(u, x)]) = own t items ++ if u = t then [x] else [] := by
  rw [own, List.filterMap_append]
  by_cases hu : u = t
  · simp [own, hu]
  · simp [own, hu]

def Event.outcome (e : Event T O R) : T × O × R := (e.thread, e.op, e.result)

/-- Thread by thread: the calls are those whose body is done, in their order, and the
one whose body is not; the bodies done are those of the calls that returned, and the one
of the call that is about to. -/
structure Accounted (s : State T S O R) : Prop where
  called : ∀ t, own t s.called
    = (own t (s.history.map Event.outcome)).map Prod.fst ++ (s.pc t).pending
  returned : ∀ t, own t (s.history.map Event.outcome)
    = own t s.returned ++ (s.pc t).done

omit [DecidableEq T] in
theorem Accounted.congr_goto [DecidableEq T] (h : Accounted s) {t : T} {pc : Pc O R}
    (hpending : pc.pending = (s.pc t).pending) (hdone : pc.done = (s.pc t).done) :
    Accounted (s.goto t pc) := by
  have hpc : ∀ u, ((s.goto t pc).pc u).pending = (s.pc u).pending
      ∧ ((s.goto t pc).pc u).done = (s.pc u).done := by
    intro u
    by_cases hu : u = t
    · subst hu
      rw [State.goto_pc_self]
      exact ⟨hpending, hdone⟩
    · rw [State.goto_pc_of_ne _ hu]
      exact ⟨rfl, rfl⟩
  constructor
  · intro u
    rw [(hpc u).1]
    exact h.called u
  · intro u
    rw [(hpc u).2]
    exact h.returned u

theorem Accounted.rouse (h : Accounted s) (u : T) : Accounted (s.rouse u) :=
  h.congr_goto (Pc.pending_woken _) (Pc.done_woken _)

theorem Accounted.finish (h : Accounted s) {t : T} {op : O} {result : R}
    (hpc : s.pc t = .notify op result) : Accounted (s.finish t op result) := by
  constructor
  · intro u
    by_cases hu : u = t
    · subst hu
      have := h.called u
      rw [hpc] at this
      simpa [State.finish, Pc.pending] using this
    · have := h.called u
      simpa [State.finish, State.goto_pc_of_ne _ hu] using this
  · intro u
    rw [State.finish, own_append_singleton]
    by_cases hu : u = t
    · subst hu
      have := h.returned u
      rw [hpc] at this
      simpa [State.finish, Pc.done] using this
    · have := h.returned u
      simpa [State.finish, State.goto_pc_of_ne _ hu, Ne.symm hu] using this

theorem Accounted.moves (h : Accounted s) (hmoves : Moves m s action s') :
    Accounted s' := by
  cases hmoves with
  | call t op hpc =>
      constructor
      · intro u
        rw [own_append_singleton]
        by_cases hu : u = t
        · subst hu
          have := h.called u
          rw [hpc] at this
          simpa [Pc.pending, State.goto] using this
        · have := h.called u
          simpa [State.goto_pc_of_ne _ hu, Ne.symm hu] using this
      · intro u
        by_cases hu : u = t
        · subst hu
          have := h.returned u
          rw [hpc] at this
          simpa [Pc.done, State.goto] using this
        · have := h.returned u
          simpa [State.goto_pc_of_ne _ hu] using this
  | lock t op hpc hfree =>
      have : Accounted (s.goto t (.test op)) :=
        h.congr_goto (by rw [hpc]; rfl) (by rw [hpc]; rfl)
      exact ⟨this.called, this.returned⟩
  | work t op hpc hready =>
      constructor
      · intro u
        by_cases hu : u = t
        · subst hu
          have := h.called u
          rw [hpc] at this
          simpa [own_append_singleton, Event.outcome, Pc.pending] using this
        · have := h.called u
          simpa [own_append_singleton, Event.outcome, State.goto_pc_of_ne _ hu,
            Ne.symm hu] using this
      · intro u
        by_cases hu : u = t
        · subst hu
          have := h.returned u
          rw [hpc] at this
          simpa [own_append_singleton, Event.outcome, Pc.done] using this
        · have := h.returned u
          simpa [own_append_singleton, Event.outcome, State.goto_pc_of_ne _ hu,
            Ne.symm hu] using this
  | sleep t op hpc hready hstop =>
      have : Accounted (s.goto t (.asleep op)) :=
        h.congr_goto (by rw [hpc]; rfl) (by rw [hpc]; rfl)
      exact ⟨this.called, this.returned⟩
  | unlock t op result hpc =>
      have : Accounted (s.goto t (.notify op result)) :=
        h.congr_goto (by rw [hpc]; rfl) (by rw [hpc]; rfl)
      exact ⟨this.called, this.returned⟩
  | finish t op result hpc hnotify => exact h.finish hpc
  | wakeAll t op result hpc hnotify =>
      have hall : Accounted s.rouseAll := by
        constructor
        · intro u
          rw [State.rouseAll_pc, Pc.pending_woken]
          exact h.called u
        · intro u
          rw [State.rouseAll_pc, Pc.done_woken]
          exact h.returned u
      exact hall.finish (by rw [State.rouseAll_pc, hpc]; rfl)
  | wake t u op result hpc hnotify op' hasleep =>
      refine (h.rouse u).finish ?_
      have hne := ne_of_asleep hpc hasleep
      rw [State.rouse, State.goto_pc_of_ne _ hne, hpc]
  | spurious u op hasleep => exact h.rouse u
  | requestStop t => exact ⟨h.called, h.returned⟩
  | stopCallback t hstop => exact ⟨(h.rouse t).called, (h.rouse t).returned⟩

/-! ## Sums over the threads -/

namespace State

variable [Fintype T] {M : Type*} [AddCommMonoid M] (f : T → Pc O R → M)

def total (s : State T S O R) : M := ∑ t, f t (s.pc t)

def others (s : State T S O R) (t : T) : M := ∑ u ∈ Finset.univ.erase t, f u (s.pc u)

theorem total_eq (s : State T S O R) (t : T) : s.total f = f t (s.pc t) + s.others f t :=
  (Finset.add_sum_erase _ _ (Finset.mem_univ t)).symm

theorem total_goto (s : State T S O R) (t : T) (pc : Pc O R) :
    (s.goto t pc).total f = f t pc + s.others f t := by
  rw [total_eq f _ t, goto_pc_self]
  congr 1
  refine Finset.sum_congr rfl ?_
  intro u hu
  rw [goto_pc_of_ne s (Finset.ne_of_mem_erase hu)]

theorem total_goto_add (s : State T S O R) (t : T) (pc : Pc O R) :
    (s.goto t pc).total f + f t (s.pc t) = s.total f + f t pc := by
  rw [total_goto, total_eq f s t]
  abel

theorem total_rouse (hf : ∀ t pc, f t pc.woken = f t pc) (s : State T S O R) (u : T) :
    (s.rouse u).total f = s.total f := by
  rw [rouse, total_goto, hf, ← total_eq]

omit [DecidableEq T] in
theorem total_rouseAll (hf : ∀ t pc, f t pc.woken = f t pc) (s : State T S O R) :
    s.rouseAll.total f = s.total f :=
  Finset.sum_congr rfl fun u _ => hf u (s.pc u)

end State

/-! ## Wakeups -/

/-- How many waiters a notification is for. -/
def Notify.gain : Notify → ℕ∞
  | .nobody => 0
  | .one => 1
  | .all => ⊤

/-- `units` says how many waiting calls a state can serve: a call sleeps only where there
are none, its body takes what it claims, and it notifies as many as it adds. -/
structure Serves (m : Monitor S O R) (units : S → ℕ∞) (claim : O → ℕ∞) : Prop where
  sleeps : ∀ op s, m.ready op s = false → units s = 0 ∧ 1 ≤ claim op
  body_le : ∀ op s, units (m.body op s).2 ≤ units s - claim op + (m.notify op).gain

/-- What a thread is on the way to take itself, or to wake somebody for. -/
def credit (m : Monitor S O R) (claim : O → ℕ∞) : Pc O R → ℕ∞
  | .idle => 0
  | .asleep _ => 0
  | .enter op => claim op
  | .test op => claim op
  | .leave op _ => (m.notify op).gain
  | .notify op _ => (m.notify op).gain

variable {units : S → ℕ∞} {claim : O → ℕ∞}

/-- While a thread sleeps, the units are within the credit of the threads, and if its stop
is requested the callback is still to come. -/
structure Covered [Fintype T] (m : Monitor S O R) (units : S → ℕ∞) (claim : O → ℕ∞)
    (s : State T S O R) : Prop where
  units_le : ∀ u op, s.pc u = .asleep op → units s.shared ≤ s.total fun _ => m.credit claim
  one_le_claim : ∀ u op, s.pc u = .asleep op → 1 ≤ claim op
  not_notified : ∀ u op, s.pc u = .asleep op → s.stop u ≠ .notified

omit [DecidableEq T] in
/-- A thread that does not go to sleep leaves the sleepers as they were. -/
theorem asleep_of_goto [DecidableEq T] {t : T} {pc : Pc O R} (hpc : pc.isAsleep = false)
    {u : T} {op : O} (h : (s.goto t pc).pc u = .asleep op) :
    u ≠ t ∧ s.pc u = .asleep op := by
  by_cases hu : u = t
  · subst hu
    rw [State.goto_pc_self] at h
    subst h
    cases hpc
  · rw [State.goto_pc_of_ne _ hu] at h
    exact ⟨hu, h⟩

section Covered

variable [Fintype T]

theorem Covered.goto (h : Covered m units claim s) {t : T} {pc : Pc O R}
    (hpc : pc.isAsleep = false) (hle : m.credit claim (s.pc t) ≤ m.credit claim pc) :
    Covered m units claim (s.goto t pc) where
  units_le u op hu := by
    refine (h.units_le u op (asleep_of_goto hpc hu).2).trans ?_
    rw [State.total_goto, State.total_eq _ s t]
    gcongr
  one_le_claim u op hu := h.one_le_claim u op (asleep_of_goto hpc hu).2
  not_notified u op hu := h.not_notified u op (asleep_of_goto hpc hu).2

theorem Covered.rouse (h : Covered m units claim s) (u : T) :
    Covered m units claim (s.rouse u) := by
  refine h.goto (Pc.isAsleep_woken _) ?_
  cases s.pc u <;> simp [Pc.woken, credit]

/-- A body takes what its thread claimed and leaves what it will notify for. -/
theorem Covered.work (hs : Serves m units claim) (h : Covered m units claim s) {t : T}
    {op : O} (hpc : s.pc t = .test op) (result : R) :
    ∀ u op', (s.goto t (.leave op result)).pc u = .asleep op' →
      units (m.body op s.shared).2
        ≤ (s.goto t (.leave op result)).total fun _ => m.credit claim := by
  intro u op' hu
  have hle := h.units_le u op' (asleep_of_goto rfl hu).2
  rw [State.total_eq _ s t, hpc] at hle
  rw [State.total_goto]
  calc units (m.body op s.shared).2
      ≤ units s.shared - claim op + (m.notify op).gain := hs.body_le op s.shared
    _ ≤ s.others (fun _ => m.credit claim) t + (m.notify op).gain := by
        gcongr
        exact tsub_le_iff_left.mpr hle
    _ = (m.notify op).gain + s.others (fun _ => m.credit claim) t := add_comm _ _

/-- The one unit a thread notifies for goes to the waiter it wakes. -/
theorem Covered.wake (h : Covered m units claim s) {t u : T} {op op' : O} {result : R}
    (hpc : s.pc t = .notify op result) (hnotify : m.notify op = .one)
    (hasleep : s.pc u = .asleep op') :
    (s.total fun _ => m.credit claim)
      ≤ ((s.rouse u).goto t .idle).total fun _ => m.credit claim := by
  have hne := ne_of_asleep hpc hasleep
  have hroused : ((s.rouse u).total fun _ => m.credit claim)
      = claim op' + s.total fun _ => m.credit claim := by
    rw [State.rouse, State.total_goto, hasleep, State.total_eq _ s u, hasleep]
    simp [Pc.woken, credit]
  have hbefore : ((s.rouse u).total fun _ => m.credit claim)
      = 1 + (s.rouse u).others (fun _ => m.credit claim) t := by
    rw [State.total_eq _ _ t, State.rouse, State.goto_pc_of_ne _ hne, hpc]
    simp [credit, hnotify, Notify.gain]
  have hle : (1 + s.total fun _ => m.credit claim)
      ≤ 1 + (s.rouse u).others (fun _ => m.credit claim) t := by
    rw [← hbefore, hroused]
    gcongr
    exact h.one_le_claim u op' hasleep
  rw [State.total_goto]
  refine ((ENat.add_le_add_iff_left ENat.one_ne_top).mp hle).trans ?_
  exact le_add_self

theorem Covered.moves (hs : Serves m units claim) (h : Covered m units claim s)
    (hmoves : Moves m s action s') : Covered m units claim s' := by
  cases hmoves with
  | call t op hpc =>
      have : Covered m units claim (s.goto t (.enter op)) := h.goto rfl (by rw [hpc]; exact zero_le)
      exact ⟨this.units_le, this.one_le_claim, this.not_notified⟩
  | lock t op hpc hfree =>
      have : Covered m units claim (s.goto t (.test op)) := h.goto rfl (by rw [hpc]; exact le_rfl)
      exact ⟨this.units_le, this.one_le_claim, this.not_notified⟩
  | work t op hpc hready =>
      exact ⟨h.work hs hpc _,
        fun u op' hu => h.one_le_claim u op' (asleep_of_goto rfl hu).2,
        fun u op' hu => h.not_notified u op' (asleep_of_goto rfl hu).2⟩
  | sleep t op hpc hready hstop =>
      obtain ⟨hunits, hclaim⟩ := hs.sleeps op s.shared hready
      refine ⟨fun u op' hu => ?_, fun u op' hu => ?_, fun u op' hu => ?_⟩
      · exact hunits.trans_le zero_le
      · by_cases hut : u = t
        · subst hut
          obtain rfl := Pc.asleep.inj ((State.goto_pc_self ..).symm.trans hu)
          exact hclaim
        · exact h.one_le_claim u op' ((State.goto_pc_of_ne _ hut _).symm.trans hu)
      · by_cases hut : u = t
        · subst hut
          intro hnotified
          replace hnotified : s.stop u = .notified := hnotified
          rw [State.stopRequested, hnotified] at hstop
          cases hstop
        · exact h.not_notified u op' ((State.goto_pc_of_ne _ hut _).symm.trans hu)
  | unlock t op result hpc =>
      have : Covered m units claim (s.goto t (.notify op result)) :=
        h.goto rfl (by rw [hpc]; exact le_rfl)
      exact ⟨this.units_le, this.one_le_claim, this.not_notified⟩
  | finish t op result hpc hnotify =>
      rcases hnotify with hnobody | ⟨-, hnone⟩
      · have : Covered m units claim (s.goto t .idle) := h.goto rfl (by
          rw [hpc]
          change (m.notify op).gain ≤ 0
          rw [hnobody]
          exact le_rfl)
        exact ⟨this.units_le, this.one_le_claim, this.not_notified⟩
      · have hawake : ∀ u op', (s.goto t .idle).pc u ≠ .asleep op' := by
          intro u op' hu
          have := hnone u
          rw [(asleep_of_goto rfl hu).2] at this
          cases this
        exact ⟨fun u op' hu => absurd hu (hawake u op'),
          fun u op' hu => absurd hu (hawake u op'),
          fun u op' hu => absurd hu (hawake u op')⟩
  | wakeAll t op result hpc hnotify =>
      have hawake : ∀ u op', (s.rouseAll.goto t .idle).pc u ≠ .asleep op' := by
        intro u op' hu
        have := Pc.isAsleep_woken (s.pc u)
        rw [← State.rouseAll_pc, (asleep_of_goto rfl hu).2] at this
        cases this
      exact ⟨fun u op' hu => absurd hu (hawake u op'),
        fun u op' hu => absurd hu (hawake u op'),
        fun u op' hu => absurd hu (hawake u op')⟩
  | wake t u op result hpc hnotify op' hasleep =>
      have hbefore : ∀ v op'', ((s.rouse u).goto t .idle).pc v = .asleep op'' →
          s.pc v = .asleep op'' := fun v op'' hv =>
        (asleep_of_goto (Pc.isAsleep_woken _) (asleep_of_goto rfl hv).2).2
      exact ⟨fun v op'' hv =>
          (h.units_le v op'' (hbefore v op'' hv)).trans (h.wake hpc hnotify hasleep),
        fun v op'' hv => h.one_le_claim v op'' (hbefore v op'' hv),
        fun v op'' hv => h.not_notified v op'' (hbefore v op'' hv)⟩
  | spurious u op hasleep => exact h.rouse u
  | requestStop t =>
      refine ⟨h.units_le, h.one_le_claim, fun u op hu => ?_⟩
      have hbefore := h.not_notified u op hu
      by_cases hut : u = t
      · subst hut
        rw [State.setStop_stop_self]
        exact Stop.request_ne_notified hbefore
      · rwa [State.setStop_stop_of_ne _ hut]
  | stopCallback t hstop =>
      have := h.rouse t
      refine ⟨this.units_le, this.one_le_claim, fun u op hu => ?_⟩
      obtain ⟨hne, hasleep⟩ := asleep_of_goto (Pc.isAsleep_woken _) hu
      rw [State.setStop_stop_of_ne _ hne]
      exact h.not_notified u op hasleep

omit [DecidableEq T] in
theorem covered_init (shared : S) :
    Covered m units claim ({ shared } : State T S O R) :=
  ⟨nofun, nofun, nofun⟩

end Covered

/-! ## Coming to rest -/

section Rest

variable [Fintype T]

/-- No thread can work on its call, and no stop is still to be notified. -/
def Stuck (m : Monitor S O R) (s : State T S O R) : Prop :=
  (∀ t, m.step s (.run t) = none) ∧ (∀ t u, m.step s (.wake t u) = none)
    ∧ ∀ t, m.step s (.stopCallback t) = none

instance (m : Monitor S O R) (s : State T S O R) : Decidable (Stuck m s) :=
  inferInstanceAs (Decidable ((∀ _, _ = none) ∧ (∀ _ _, _ = none) ∧ ∀ _, _ = none))

theorem run_inside {t : T} (h : (s.pc t).inside = true) : (m.run s t).isSome := by
  rw [run]
  cases hpc : s.pc t with
  | test op =>
      dsimp only
      split <;> rfl
  | leave op result => rfl
  | _ =>
      rw [hpc] at h
      cases h

/-- **No deadlock.** Where no thread can work, each is idle or asleep. -/
theorem rests_of_stuck (hx : Exclusive s) (h : Stuck m s) (t : T) :
    s.pc t = .idle ∨ ∃ op, s.pc t = .asleep op := by
  obtain ⟨hrun, hwake, -⟩ := h
  have hout : ∀ u, (s.pc u).inside = false := by
    intro u
    by_contra hin
    have := run_inside (m := m) (Bool.not_eq_false _ ▸ hin)
    rw [show m.run s u = none from hrun u] at this
    cases this
  have hfree : s.holder = none := by
    cases hholder : s.holder with
    | none => rfl
    | some u =>
        have := (hx u).mpr hholder
        rw [hout u] at this
        cases this
  have ht : m.run s t = none := hrun t
  rw [run] at ht
  cases hpc : s.pc t with
  | idle => exact .inl rfl
  | asleep op => exact .inr ⟨op, rfl⟩
  | enter op =>
      rw [hpc] at ht
      simp only [hfree] at ht
      cases ht
  | test op =>
      have := hout t
      rw [hpc] at this
      cases this
  | leave op result =>
      have := hout t
      rw [hpc] at this
      cases this
  | notify op result =>
      rw [hpc] at ht
      cases hnotify : m.notify op with
      | nobody =>
          simp only [hnotify] at ht
          cases ht
      | all =>
          simp only [hnotify] at ht
          cases ht
      | one =>
          simp only [hnotify] at ht
          split at ht
          · rename_i hasleep
            obtain ⟨u, hu⟩ := hasleep
            have := hwake t u
            rw [step, hpc] at this
            simp only [hnotify, hu, and_self, if_true] at this
            cases this
          · cases ht

/-- **No lost wakeup.** Where no thread can work, a thread sleeps only if the state
can serve nobody and its stop is not requested. -/
theorem Covered.of_stuck (hc : Covered m units claim s) (hx : Exclusive s)
    (h : Stuck m s) {u : T} {op : O} (hu : s.pc u = .asleep op) :
    units s.shared = 0 ∧ s.stopRequested u = false := by
  have hcredit : (s.total fun _ => m.credit claim) = 0 := by
    refine Finset.sum_eq_zero ?_
    intro t _
    rcases rests_of_stuck hx h t with hpc | ⟨op', hpc⟩
    · simp only [hpc, credit]
    · simp only [hpc, credit]
  have hle := hc.units_le u op hu
  rw [hcredit] at hle
  refine ⟨nonpos_iff_eq_zero.mp hle, ?_⟩
  cases hstop : s.stop u with
  | none => rw [State.stopRequested, hstop, Stop.isRequested]
  | requested =>
      have := h.2.2 u
      simp only [step, hstop] at this
      cases this
  | notified => exact absurd hstop (hc.not_notified u op hu)

/-! ### The work that is left -/

/-- How many other threads a notification may wake. -/
def Notify.woken (T : Type*) [Fintype T] : Notify → Nat
  | .nobody => 0
  | .one => min 1 (Fintype.card T - 1)
  | .all => Fintype.card T - 1

theorem Notify.woken_le (T : Type*) [Fintype T] (notify : Notify) :
    notify.woken T ≤ Fintype.card T - 1 := by
  cases notify with
  | nobody => exact Nat.zero_le _
  | one => exact Nat.min_le_right ..
  | all => exact Nat.le_refl _

/-- The steps a thread has left in its call, with two for every thread it may wake. -/
def weight (T : Type*) [Fintype T] (m : Monitor S O R) : Pc O R → Nat
  | .idle => 0
  | .notify op _ => 1 + 2 * (m.notify op).woken T
  | .leave op _ => 2 + 2 * (m.notify op).woken T
  | .asleep op => 2 + 2 * (m.notify op).woken T
  | .test op => 3 + 2 * (m.notify op).woken T
  | .enter op => 4 + 2 * (m.notify op).woken T

/-- The same with a stop callback that is still to come, and that wakes the thread. -/
def weightWith (T : Type*) [Fintype T] (m : Monitor S O R) : Stop → Pc O R → Nat
  | .requested, pc => 1 + m.weight T pc.woken
  | _, pc => m.weight T pc

def State.weight (m : Monitor S O R) (s : State T S O R) : Nat :=
  s.total fun t => m.weightWith T (s.stop t)

omit [DecidableEq T] in
theorem weightWith_woken_le (stop : Stop) (pc : Pc O R) :
    m.weightWith T stop pc.woken ≤ m.weightWith T stop pc + 2 := by
  cases stop <;> cases pc <;> simp only [Pc.woken, weightWith, weight] <;> omega

omit [DecidableEq T] in
/-- Threads that do not sleep have the one step more. -/
theorem weightWith_of_awake (stop : Stop) {pc : Pc O R} (h : pc.isAsleep = false) :
    m.weightWith T stop pc = m.weightWith T stop .idle + m.weight T pc := by
  have hwoken : pc.woken = pc := by
    cases pc with
    | asleep op => cases h
    | _ => rfl
  cases stop with
  | requested =>
      show 1 + m.weight T pc.woken = 1 + 0 + m.weight T pc
      rw [hwoken]
  | _ => exact (Nat.zero_add _).symm

omit [DecidableEq T] in
/-- No thread has more left than a whole call that wakes everybody. -/
theorem weight_le (s : State T S O R) :
    s.weight m ≤ Fintype.card T * (4 + 2 * Fintype.card T) := by
  have hone : ∀ t ∈ Finset.univ, m.weightWith T (s.stop t) (s.pc t)
      ≤ 4 + 2 * Fintype.card T := by
    intro t _
    have : 0 < Fintype.card T := Fintype.card_pos_iff.mpr ⟨t⟩
    have hwoken := Notify.woken_le T
    cases s.stop t <;> cases s.pc t <;> simp only [weightWith, Pc.woken, weight] <;> grind
  have := Finset.sum_le_card_nsmul Finset.univ _ _ hone
  rwa [smul_eq_mul, Finset.card_univ] at this

theorem weight_rouse_le (s : State T S O R) (u : T) : (s.rouse u).weight m ≤ s.weight m + 2 := by
  have := weightWith_woken_le (T := T) (m := m) (s.stop u) (s.pc u)
  change (s.rouse u).total (fun t => m.weightWith T (s.stop t)) ≤ _
  rw [State.weight, State.rouse, State.total_goto, State.total_eq _ s u]
  omega

theorem others_rouseAll_le (s : State T S O R) (t : T) :
    s.rouseAll.others (fun u => m.weightWith T (s.stop u)) t
      ≤ s.others (fun u => m.weightWith T (s.stop u)) t + 2 * (Fintype.card T - 1) := by
  calc s.rouseAll.others (fun u => m.weightWith T (s.stop u)) t
      ≤ ∑ u ∈ Finset.univ.erase t, (m.weightWith T (s.stop u) (s.pc u) + 2) :=
        Finset.sum_le_sum fun u _ => weightWith_woken_le (s.stop u) (s.pc u)
    _ = s.others (fun u => m.weightWith T (s.stop u)) t
          + (Finset.univ.erase t).card * 2 := by
        rw [Finset.sum_add_distrib, Finset.sum_const, smul_eq_mul]
        rfl
    _ = s.others (fun u => m.weightWith T (s.stop u)) t + 2 * (Fintype.card T - 1) := by
        rw [Finset.card_erase_of_mem (Finset.mem_univ t), Finset.card_univ, Nat.mul_comm]

theorem weight_goto_add (s : State T S O R) (t : T) (pc : Pc O R)
    (hbefore : (s.pc t).isAsleep = false) (hafter : pc.isAsleep = false) :
    (s.goto t pc).weight m + m.weight T (s.pc t) = s.weight m + m.weight T pc := by
  have hadd := s.total_goto_add (fun u => m.weightWith T (s.stop u)) t pc
  have h1 := weightWith_of_awake (T := T) (m := m) (s.stop t) hbefore
  have h2 := weightWith_of_awake (T := T) (m := m) (s.stop t) hafter
  change (s.goto t pc).total (fun u => m.weightWith T (s.stop u)) + _ = _
  rw [State.weight]
  omega

theorem weight_setStop_add (s : State T S O R) (t : T) (stop : Stop) :
    (s.setStop t stop).weight m + m.weightWith T (s.stop t) (s.pc t)
      = s.weight m + m.weightWith T stop (s.pc t) := by
  have hothers : (s.setStop t stop).others (fun u => m.weightWith T ((s.setStop t stop).stop u)) t
      = s.others (fun u => m.weightWith T (s.stop u)) t := by
    refine Finset.sum_congr rfl ?_
    intro u hu
    dsimp only
    rw [State.setStop_stop_of_ne _ (Finset.ne_of_mem_erase hu), State.setStop_pc]
  rw [State.weight, State.weight, State.total_eq _ _ t, State.total_eq _ s t, hothers,
    State.setStop_stop_self, State.setStop_pc]
  omega

/-- The actions by which threads work on their calls and stops are notified. -/
def Action.work : Action T O → Nat
  | .run _ => 1
  | .wake _ _ => 1
  | .stopCallback _ => 1
  | _ => 0

/-- The work that a call brings, and the work of a thread that is woken from outside. -/
def Action.cost (m : Monitor S O R) : Action T O → Nat
  | .call _ op => 4 + 2 * (m.notify op).woken T
  | .spurious _ => 2
  | .requestStop _ => 3
  | _ => 0

theorem Moves.weight_le (h : Moves m s action s') :
    action.work + s'.weight m ≤ s.weight m + action.cost m := by
  cases h with
  | call t op hpc =>
      have := weight_goto_add (m := m) s t (.enter op) (by rw [hpc]; rfl) rfl
      rw [hpc] at this
      change 0 + (s.goto t (.enter op)).weight m ≤ _
      simp only [weight, Action.cost] at this ⊢
      omega
  | lock t op hpc hfree =>
      have := weight_goto_add (m := m) s t (.test op) (by rw [hpc]; rfl) rfl
      rw [hpc] at this
      change 1 + (s.goto t (.test op)).weight m ≤ _
      simp only [weight] at this
      omega
  | work t op hpc hready =>
      have := weight_goto_add (m := m) s t (.leave op (m.body op s.shared).1)
        (by rw [hpc]; rfl) rfl
      rw [hpc] at this
      change 1 + (s.goto t (.leave op _)).weight m ≤ _
      simp only [weight] at this
      omega
  | sleep t op hpc hready hstop =>
      -- a thread goes to sleep only where no callback of its stop is to come
      have hnone : s.stop t = .none := by
        cases hs : s.stop t with
        | none => rfl
        | _ =>
            rw [State.stopRequested, hs] at hstop
            cases hstop
      have := s.total_goto_add (fun u => m.weightWith T (s.stop u)) t (.asleep op)
      rw [hpc, hnone] at this
      change 1 + (s.goto t (.asleep op)).total (fun u => m.weightWith T (s.stop u)) ≤ _
      rw [State.weight]
      simp only [weightWith, weight] at this
      omega
  | unlock t op result hpc =>
      have := weight_goto_add (m := m) s t (.notify op result) (by rw [hpc]; rfl) rfl
      rw [hpc] at this
      change 1 + (s.goto t (.notify op result)).weight m ≤ _
      simp only [weight] at this
      omega
  | finish t op result hpc hnotify =>
      have := weight_goto_add (m := m) s t .idle (by rw [hpc]; rfl) rfl
      rw [hpc] at this
      change 1 + (s.goto t .idle).weight m ≤ _
      simp only [weight] at this
      omega
  | wakeAll t op result hpc hnotify =>
      have hothers := others_rouseAll_le (m := m) s t
      have hawake := weightWith_of_awake (T := T) (m := m) (s.stop t)
        (show (Pc.notify op result).isAsleep = false from rfl)
      change 1 + (s.rouseAll.goto t .idle).total (fun u => m.weightWith T (s.stop u)) ≤ _
      rw [State.weight, State.total_goto, State.total_eq _ s t, hpc, hawake]
      simp only [weight, hnotify, Notify.woken]
      omega
  | wake t u op result hpc hnotify op' hasleep =>
      have hne := ne_of_asleep hpc hasleep
      have hrouse := weight_rouse_le (m := m) s u
      have hone : min 1 (Fintype.card T - 1) = 1 := by
        have := Fintype.one_lt_card_iff.mpr ⟨t, u, hne⟩
        omega
      have hpc' : (s.rouse u).pc t = .notify op result := by
        rw [State.rouse, State.goto_pc_of_ne _ hne, hpc]
      have := weight_goto_add (m := m) (s.rouse u) t .idle
        (by rw [hpc']; rfl) rfl
      rw [hpc'] at this
      change 1 + ((s.rouse u).goto t .idle).weight m ≤ _
      simp only [weight, hnotify, Notify.woken, hone] at this
      omega
  | spurious u op hasleep =>
      have := weight_rouse_le (m := m) s u
      simp only [Action.work, Action.cost]
      omega
  | requestStop t =>
      have := weight_setStop_add (m := m) s t (s.stop t).request
      have hle : m.weightWith T (s.stop t).request (s.pc t)
          ≤ m.weightWith T (s.stop t) (s.pc t) + 3 := by
        cases s.stop t <;> cases s.pc t <;>
          simp only [Stop.request, weightWith, Pc.woken, weight] <;> omega
      simp only [Action.work, Action.cost]
      omega
  | stopCallback t hstop =>
      have hrouse := s.total_goto_add (fun u => m.weightWith T (s.stop u)) t (s.pc t).woken
      have hnotified := weight_setStop_add (m := m) (s.rouse t) t .notified
      change _ = (s.goto t (s.pc t).woken).total (fun u => m.weightWith T (s.stop u)) + _
        at hnotified
      have hpc : (s.rouse t).pc t = (s.pc t).woken := State.goto_pc_self ..
      have hbefore : (s.rouse t).stop t = .requested := hstop
      rw [hpc, hbefore] at hnotified
      simp only [hstop, weightWith, Pc.woken_woken] at hnotified hrouse
      simp only [Action.work, Action.cost, State.weight] at hnotified ⊢
      omega

def State.free (s : State T S O R) : Nat := s.total fun _ => Pc.free

omit [DecidableEq T] in
theorem State.free_le (s : State T S O R) : s.free ≤ Fintype.card T := by
  have hone : ∀ t ∈ Finset.univ, (s.pc t).free ≤ 1 := fun t _ => Nat.sub_le ..
  have := Finset.sum_le_card_nsmul _ _ _ hone
  rwa [smul_eq_mul, mul_one, Finset.card_univ] at this

def Action.calls : Action T O → Nat
  | .call _ _ => 1
  | _ => 0

def bodies (m : Monitor S O R) (s : State T S O R) : Action T O → Nat
  | .run t => if m.works s t then 1 else 0
  | _ => 0

/-- A call takes a free thread, and its body frees it. -/
theorem Moves.free_eq (h : Moves m s action s') :
    s'.free + action.calls = s.free + m.bodies s action := by
  have hgoto := s.total_goto_add fun _ => Pc.free
  have hbodies : ∀ t, m.works s t = false → m.bodies s (.run t) = 0 := fun t hworks => by
    simp only [bodies, hworks, Bool.false_eq_true, if_false]
  cases h with
  | call t op hpc =>
      have := hgoto t (.enter op)
      rw [hpc] at this
      exact this
  | lock t op hpc hfree =>
      have := hgoto t (.test op)
      rw [hpc] at this
      rw [hbodies t (by rw [works, hpc])]
      exact this
  | work t op hpc hready =>
      have := hgoto t (.leave op (m.body op s.shared).1)
      rw [hpc] at this
      have hbody : m.bodies s (.run t) = 1 := by simp only [bodies, works, hpc, hready, if_true]
      rw [hbody]
      exact this
  | sleep t op hpc hready hstop =>
      have := hgoto t (.asleep op)
      rw [hpc] at this
      rw [hbodies t (by simp only [works, hpc, hready, hstop, Bool.or_false])]
      exact this
  | unlock t op result hpc =>
      have := hgoto t (.notify op result)
      rw [hpc] at this
      rw [hbodies t (by rw [works, hpc])]
      exact Nat.add_right_cancel this
  | finish t op result hpc hnotify =>
      have := hgoto t .idle
      rw [hpc] at this
      rw [hbodies t (by rw [works, hpc])]
      exact Nat.add_right_cancel this
  | wakeAll t op result hpc hnotify =>
      have := s.rouseAll.total_goto_add (fun _ => Pc.free) t .idle
      rw [State.total_rouseAll _ (fun _ => Pc.free_woken), State.rouseAll_pc, hpc] at this
      rw [hbodies t (by rw [works, hpc])]
      exact Nat.add_right_cancel this
  | wake t u op result hpc hnotify op' hasleep =>
      have hne := ne_of_asleep hpc hasleep
      have := (s.rouse u).total_goto_add (fun _ => Pc.free) t .idle
      rw [State.total_rouse _ (fun _ => Pc.free_woken), State.rouse, State.goto_pc_of_ne _ hne,
        hpc] at this
      exact Nat.add_right_cancel this
  | spurious u op hasleep => exact State.total_rouse _ (fun _ => Pc.free_woken) s u
  | requestStop t => rfl
  | stopCallback t hstop => exact State.total_rouse _ (fun _ => Pc.free_woken) s t

end Rest

/-! ## Any schedule -/

structure Sound [Fintype T] (m : Monitor S O R) (units : S → ℕ∞) (claim : O → ℕ∞)
    (shared : S) (s : State T S O R) : Prop where
  exclusive : Exclusive s
  serial : Serial m shared s.history s.shared
  accounted : Accounted s
  covered : Covered m units claim s

theorem Sound.moves [Fintype T] (hs : Serves m units claim) {shared : S}
    (h : Sound m units claim shared s) (hmoves : Moves m s action s') :
    Sound m units claim shared s' :=
  ⟨h.exclusive.moves hmoves, h.serial.moves hmoves, h.accounted.moves hmoves,
    h.covered.moves hs hmoves⟩

theorem sound_init [Fintype T] (shared : S) :
    Sound m units claim shared ({ shared } : State T S O R) :=
  ⟨exclusive_init shared, .nil, ⟨fun _ => rfl, fun _ => rfl⟩, covered_init shared⟩

theorem Sound.play [Fintype T] (hs : Serves m units claim) {shared : S}
    (h : Sound m units claim shared s) {actions : List (Action T O)}
    (hplay : Guarded.play m.step s actions = some s') : Sound m units claim shared s' :=
  Guarded.play_invariant (fun _ _ _ hsound hstep => hsound.moves hs (step_moves hstep)) hplay h

theorem play_sound [Fintype T] (hs : Serves m units claim) {shared : S}
    {actions : List (Action T O)} (h : m.play shared actions = some s) :
    Sound m units claim shared s :=
  Sound.play hs (sound_init shared) h

end Monitor
