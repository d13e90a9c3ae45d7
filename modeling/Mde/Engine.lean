import Mde.Guarded
import Mde.Parser
import Mde.Queue

/-!
# The engine

`Engine` of `engine.cpp`: the ingest thread, the egress thread and the
thread that owns the engine, which may call `Join` and at some point runs
the destructor. A thread has a program counter; the steps between two
values of it are atomic.

- The ingest thread takes the next line, unless a stop is requested,
  gives it to `ParseNext`, which pushes the message if there is one,
  records the verdict, and closes the queue behind the last line.
- The egress thread waits for a message, hands it to the callback and
  counts it. It exits when `WaitPop` comes back empty-handed.
- `Join` waits for the ingest thread, closes the queue and waits for the
  egress thread. The destructor requests a stop of the ingest thread,
  closes the queue, requests a stop of the egress thread, and waits for
  both, in the order in which the `std::jthread` members are destroyed.

The lines are a list, the lines of the file or of the vector; a file
that cannot be opened has none. The callback acts on a state of its own,
`sink`. `parsed`, `pushed` and `delivered` are history: the lines given to
`ParseNext`, the messages pushed and the messages handed to the callback.
-/

namespace Mde

open Messages Nyse

/-! ## Threads -/

inductive IngestPc where
  /-- at the head of the loop over the lines -/
  | next
  | parse (line : Str)
  | record (error : Parser.ParseError)
  | close
  | done
deriving DecidableEq, Repr

structure IngestThread (P : Type) where
  pc : IngestPc := .next
  lines : List Str
  parser : Parser := {}
  success : Nat := 0
  total : Nat := 0
  stopRequested : Bool := false
  joinable : Bool := true
  parsed : List Str := []
  pushed : List (Message P) := []

inductive EgressPc (P : Type) where
  | waitPop
  | callback (message : Message P)
  | count
  | done
deriving DecidableEq

structure EgressThread (P C : Type) where
  pc : EgressPc P := .waitPop
  egressCount : Nat := 0
  sink : C
  stopRequested : Bool := false
  joinable : Bool := true
  delivered : List (Message P) := []

inductive OwnerPc where
  /-- in neither `Join` nor the destructor -/
  | idle
  | joinIngest
  | joinClose
  | joinEgress
  | stopIngest
  | destroyClose
  | stopEgress
  | reapIngest
  | reapEgress
  | destroyed
deriving DecidableEq, Repr

structure Engine (P C : Type) where
  ingest : IngestThread P
  egress : EgressThread P C
  owner : OwnerPc := .idle
  queue : MessageQueue (Message P) := {}

variable {P C : Type} (fromChars : Str → FromChars P) (callback : C → Message P → C)

/-! ## The ingest thread -/

namespace IngestThread

variable (t : IngestThread P)

/-- What `join` waits for. -/
def exited : Bool :=
  match t.pc with
  | .done => true
  | _ => false

def recordParseResult (error : Parser.ParseError) : IngestThread P :=
  { t with
    pc := .next
    success := if error = .none then t.success + 1 else t.success
    total := t.total + 1 }

/-- `ParseNext` on a line, on the thread's side. -/
def parseLine (line : Str) : IngestThread P :=
  let parsed := parseNext fromChars t.parser line
  { t with
    pc := .record parsed.error
    parser := parsed.parser
    parsed := t.parsed ++ [line]
    pushed := t.pushed ++ parsed.emitted.toList }

/-- `ParseNext` on a line, on the queue's side. -/
def emitLine (line : Str) (queue : MessageQueue (Message P)) :
    MessageQueue (Message P) :=
  match (parseNext fromChars t.parser line).emitted with
  | some message => queue.push message
  | none => queue

/-- `IngestLoopFromVector`. -/
def step (queue : MessageQueue (Message P)) :
    Option (IngestThread P × MessageQueue (Message P)) :=
  match t.pc with
  | .next =>
    match t.lines with
    | [] => some ({ t with pc := .close }, queue)
    | line :: rest =>
      if t.stopRequested then some ({ t with pc := .close }, queue)
      else some ({ t with pc := .parse line, lines := rest }, queue)
  | .parse line => some (t.parseLine fromChars line, t.emitLine fromChars line queue)
  | .record error => some (t.recordParseResult error, queue)
  | .close => some ({ t with pc := .done }, queue.close)
  | .done => none

end IngestThread

/-! ## The egress thread -/

namespace EgressThread

variable (t : EgressThread P C)

/-- What `join` waits for. -/
def exited : Bool :=
  match t.pc with
  | .done => true
  | _ => false

/-- `EgressLoop`. -/
def step (queue : MessageQueue (Message P)) :
    Option (EgressThread P C × MessageQueue (Message P)) :=
  match t.pc with
  | .waitPop =>
    match queue.waitPop t.stopRequested with
    | none => none
    | some (some message, queue) => some ({ t with pc := .callback message }, queue)
    | some (none, queue) => some ({ t with pc := .done }, queue)
  | .callback message =>
    some ({ t with
      pc := .count
      sink := callback t.sink message
      delivered := t.delivered ++ [message] }, queue)
  | .count => some ({ t with pc := .waitPop, egressCount := t.egressCount + 1 }, queue)
  | .done => none

end EgressThread

/-! ## The owner -/

namespace Engine

variable (e : Engine P C)

/-- `joinable` and then `join` of the ingest thread. -/
def awaitIngest (owner : OwnerPc) : Option (Engine P C) :=
  if e.ingest.joinable && !e.ingest.exited then none
  else some { e with owner, ingest := { e.ingest with joinable := false } }

/-- `joinable` and then `join` of the egress thread. -/
def awaitEgress (owner : OwnerPc) : Option (Engine P C) :=
  if e.egress.joinable && !e.egress.exited then none
  else some { e with owner, egress := { e.egress with joinable := false } }

/-- `Join` and `~Engine`, statement by statement. -/
def ownerStep : Option (Engine P C) :=
  match e.owner with
  | .idle => none
  | .joinIngest => e.awaitIngest .joinClose
  | .joinClose => some { e with owner := .joinEgress, queue := e.queue.close }
  | .joinEgress => e.awaitEgress .idle
  | .stopIngest =>
    some { e with owner := .destroyClose, ingest := { e.ingest with stopRequested := true } }
  | .destroyClose => some { e with owner := .stopEgress, queue := e.queue.close }
  | .stopEgress =>
    some { e with owner := .reapIngest, egress := { e.egress with stopRequested := true } }
  | .reapIngest => e.awaitIngest .reapEgress
  | .reapEgress => e.awaitEgress .destroyed
  | .destroyed => none

inductive Turn where
  | ingest
  | egress
  | owner
deriving DecidableEq, Repr

def turn : Turn → Option (Engine P C)
  | .ingest => (e.ingest.step fromChars e.queue).map fun (ingest, queue) =>
    { e with ingest, queue }
  | .egress => (e.egress.step callback e.queue).map fun (egress, queue) =>
    { e with egress, queue }
  | .owner => e.ownerStep

inductive Action where
  | turn (turn : Turn)
  | callJoin
  | callDestructor
deriving DecidableEq, Repr

def step : Action → Option (Engine P C)
  | .turn turn => e.turn fromChars callback turn
  | .callJoin => if e.owner = .idle then some { e with owner := .joinIngest } else none
  | .callDestructor =>
    if e.owner = .idle then some { e with owner := .stopIngest } else none

/-- The engine as its constructor leaves it. -/
def new (lines : List Str) (sink : C) : Engine P C where
  ingest := { lines }
  egress := { sink }

abbrev play (lines : List Str) (sink : C) (actions : List Action) : Option (Engine P C) :=
  Guarded.play (step fromChars callback) (new lines sink) actions

def Joined : Prop := e.owner = .idle ∧ e.egress.joinable = false

/-- A stop of one of the threads was requested; a request is never taken back. -/
def stopRequested : Bool := e.ingest.stopRequested || e.egress.stopRequested

/-! ## Observations -/

def getSuccess : Nat := e.ingest.success
def getTotal : Nat := e.ingest.total
def getEgressCount : Nat := e.egress.egressCount
def getIntegrityMetrics : Parser.IntegrityMetrics := e.ingest.parser.lineData
def getMsgTypeCounts : UInt8 → Nat := e.ingest.parser.msgTypeCounts

end Engine

end Mde
