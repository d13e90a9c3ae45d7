import Mathlib.Data.List.Basic

/-!
# The message queue

`MessageQueue` of `queue.hpp`, the hand-off between the ingest and the
egress thread. Every member function runs under the mutex, so each one is
a single step. `waitPop` answers `none` while the condition variable
keeps its caller waiting.
-/

namespace Mde

structure MessageQueue (M : Type*) where
  queue : List M := []
  closed : Bool := false
deriving DecidableEq, Repr

namespace MessageQueue

variable {M : Type*}

def push (q : MessageQueue M) (message : M) : MessageQueue M :=
  { q with queue := q.queue ++ [message] }

def close (q : MessageQueue M) : MessageQueue M := { q with closed := true }

def size (q : MessageQueue M) : Nat := q.queue.length

/-- `WaitPop` under a stop token. It returns once there is a message, or none will
come, or the stop is requested; what it returns depends on the queue alone. -/
def waitPop (q : MessageQueue M) (stopRequested : Bool) :
    Option (Option M × MessageQueue M) :=
  match q.queue with
  | message :: rest => some (some message, { q with queue := rest })
  | [] => if q.closed || stopRequested then some (none, q) else none

/-- What `WaitPop` may do: take the front message, or give up on an empty queue. -/
theorem waitPop_cases {q q' : MessageQueue M} {stopRequested : Bool} {found : Option M}
    (h : q.waitPop stopRequested = some (found, q')) :
    (∃ message, found = some message ∧ q.queue = message :: q'.queue
        ∧ q'.closed = q.closed)
      ∨ (found = none ∧ q' = q ∧ q.queue = []
        ∧ (q.closed = true ∨ stopRequested = true)) := by
  unfold waitPop at h
  split at h
  · rename_i message rest hqueue
    obtain ⟨rfl, rfl⟩ := Prod.mk.injEq .. |>.mp (Option.some.inj h)
    exact .inl ⟨message, rfl, hqueue, rfl⟩
  · rename_i hqueue
    split at h
    · rename_i hwake
      obtain ⟨rfl, rfl⟩ := Prod.mk.injEq .. |>.mp (Option.some.inj h)
      exact .inr ⟨rfl, rfl, hqueue, by simpa using hwake⟩
    · cases h

theorem waitPop_eq_none_iff {q : MessageQueue M} {stopRequested : Bool} :
    q.waitPop stopRequested = none
      ↔ q.queue = [] ∧ q.closed = false ∧ stopRequested = false := by
  unfold waitPop
  split <;> rename_i hqueue
  · simp [hqueue]
  · simp [hqueue]

end MessageQueue

end Mde
