import Mde.Message
import Mde.Shard

/-!
# The trade ledger

The class `TradeLedger` of `trade_ledger.hpp` and `trade_ledger.cpp`: a
log of trade records per symbol, the map from trade IDs to log indices,
and the `DailyStats` kept beside the log.

Each method of the source starts with `GetOrCreate(symbol)` and then
works through the reference it got. The operations are therefore
written on one `SymbolLedger`, returning the ledger and the boolean the
method returns, and `TradeLedger.call` does the look-up, the write-back
and the failure counter. The counter goes up by at most one a call; it
is a `Nat`.

Prices are a linear order `P`. The source compares `double`s with `<` and
`>`, which is a linear order on all values but NaN: trades at NaN are left
out, and what a NaN makes of the high and the low is not modelled.

A log index comes out of the ID map and is used unchecked in the
source. Where it would be out of range the source's behaviour is
undefined and the model leaves the ledger as it is; no reachable ledger
gets there.
-/

open Std

namespace Mde

variable {P : Type*}

structure DailyStats (P : Type*) where
  open' : Option P := none
  high : Option P := none
  low : Option P := none
  close : Option P := none
  totalVolume : UInt64 := 0
deriving DecidableEq, Repr

/-- The record both `TradeLedger` and `OrderBook` keep in their logs. -/
structure TradeRecord (P : Type*) where
  price : P
  volume : UInt64
  cancelled : Bool := false
deriving DecidableEq, Repr

namespace DailyStats

variable [LinearOrder P]

/-- `FoldIntoStats`, whose body `OrderBook::AppendTrade` repeats. -/
def foldIntoStats (stats : DailyStats P) (price : P) (volume : UInt64) : DailyStats P where
  open' := match stats.open' with
    | none => some price
    | some first => some first
  high := match stats.high with
    | none => some price
    | some high => if price > high then some price else some high
  low := match stats.low with
    | none => some price
    | some low => if price < low then some price else some low
  close := some price
  totalVolume := stats.totalVolume + volume

/-- The loop of `Recompute`: fold the records that are not cancelled. -/
def recompute (log : List (TradeRecord P)) : DailyStats P :=
  log.foldl (fun stats trade =>
    if trade.cancelled then stats else stats.foldIntoStats trade.price trade.volume) {}

/-- The signed volume delta of `AdjustVolume` and `ApplyCrossCorrection`. The
casts to and from `std::int64_t` are two's complement. -/
def adjustTotal (stats : DailyStats P) (newVolume oldVolume : UInt64) : DailyStats P :=
  let delta := newVolume.toInt64 - oldVolume.toInt64
  { stats with totalVolume := (stats.totalVolume.toInt64 + delta).toUInt64 }

end DailyStats

structure SymbolLedger (P : Type*) where
  log : List (TradeRecord P) := []
  byId : ExtTreeMap UInt64 Nat := ∅
  stats : DailyStats P := {}

/-- A call of one of the four mutating methods, less the symbol. -/
inductive LedgerOp (P : Type*) where
  | recordTrade (id : UInt64) (price : P) (volume : UInt64)
  | cancelTrade (id : UInt64)
  | adjustVolume (id : UInt64) (newVolume : UInt64)
  | replaceTrade (oldId newId : UInt64) (price : P) (volume : UInt64)
deriving DecidableEq, Repr

structure LedgerCall (P : Type*) where
  symbol : Str
  op : LedgerOp P
deriving DecidableEq, Repr

namespace SymbolLedger

variable [LinearOrder P]

/-- `AppendRaw`: the ledger with the record pushed, and the record's index. -/
def appendRaw (ledger : SymbolLedger P) (price : P) (volume : UInt64) :
    SymbolLedger P × Nat :=
  let log := ledger.log ++ [{ price := price, volume := volume }]
  ({ ledger with log }, log.length - 1)

def recompute (ledger : SymbolLedger P) : SymbolLedger P :=
  { ledger with stats := DailyStats.recompute ledger.log }

/-- `_log[index]._cancelled = true`. -/
def markCancelled (ledger : SymbolLedger P) (index : Nat) : SymbolLedger P :=
  { ledger with log := ledger.log.modify index fun trade => { trade with cancelled := true } }

def recordTrade (ledger : SymbolLedger P) (id : UInt64) (price : P) (volume : UInt64) :
    SymbolLedger P :=
  let appended := ledger.appendRaw price volume
  { appended.1 with
    byId := ledger.byId.insert id appended.2
    stats := ledger.stats.foldIntoStats price volume }

/-- The index of `id` when it is recorded and its record not cancelled: the
test `CancelTrade` and `ReplaceTrade` make. -/
def liveIndex? (ledger : SymbolLedger P) (id : UInt64) : Option Nat :=
  match ledger.byId[id]? with
  | none => none
  | some index => if (ledger.log[index]?).any (·.cancelled) then none else some index

def cancelTrade (ledger : SymbolLedger P) (id : UInt64) : SymbolLedger P × Bool :=
  match ledger.liveIndex? id with
  | none => (ledger, false)
  | some index => ((ledger.markCancelled index).recompute, true)

def adjustVolume (ledger : SymbolLedger P) (id newVolume : UInt64) :
    SymbolLedger P × Bool :=
  match ledger.byId[id]? with
  | none => (ledger, false)
  | some index =>
    match ledger.log[index]? with
    | none => (ledger, true)
    | some trade =>
      ({ ledger with
          stats := ledger.stats.adjustTotal newVolume trade.volume
          log := ledger.log.set index { trade with volume := newVolume } }, true)

def replaceTrade (ledger : SymbolLedger P) (oldId newId : UInt64) (price : P)
    (volume : UInt64) : SymbolLedger P × Bool :=
  let cancelled := match ledger.liveIndex? oldId with
    | none => (ledger, false)
    | some index => (ledger.markCancelled index, true)
  let appended := cancelled.1.appendRaw price volume
  ({ appended.1 with byId := cancelled.1.byId.insert newId appended.2 }.recompute,
    cancelled.2)

/-- Dispatch; `RecordTrade` returns nothing and never counts a failure. -/
def apply (ledger : SymbolLedger P) : LedgerOp P → SymbolLedger P × Bool
  | .recordTrade id price volume => (ledger.recordTrade id price volume, true)
  | .cancelTrade id => ledger.cancelTrade id
  | .adjustVolume id newVolume => ledger.adjustVolume id newVolume
  | .replaceTrade oldId newId price volume => ledger.replaceTrade oldId newId price volume

end SymbolLedger

structure TradeLedger (P : Type*) where
  ledgers : ExtTreeMap Str (SymbolLedger P) := ∅
  failures : Nat := 0

namespace TradeLedger

/-- `_ledgers[symbol]`, before it is written back. -/
def getOrCreate (tape : TradeLedger P) (symbol : Str) : SymbolLedger P :=
  tape.ledgers.getD symbol {}

def getDailyStats (tape : TradeLedger P) (symbol : Str) : DailyStats P :=
  match tape.ledgers[symbol]? with
  | none => {}
  | some ledger => ledger.stats

def getSymbols (tape : TradeLedger P) : List Str := tape.ledgers.keys

def getFailureCount (tape : TradeLedger P) : Nat := tape.failures

@[simp] theorem getOrCreate_empty (symbol : Str) :
    ({} : TradeLedger P).getOrCreate symbol = {} := by
  simp [getOrCreate]

theorem getDailyStats_eq (tape : TradeLedger P) (symbol : Str) :
    tape.getDailyStats symbol = (tape.getOrCreate symbol).stats := by
  rw [getDailyStats, getOrCreate, ExtTreeMap.getD_eq_getD_getElem?]
  cases tape.ledgers[symbol]? <;> rfl

variable [LinearOrder P]

/-- One call: the ledger of the symbol is created or found, changed and kept,
and a returned `false` raises the failure counter. -/
def call (tape : TradeLedger P) (c : LedgerCall P) : TradeLedger P × Bool :=
  let r := (tape.getOrCreate c.symbol).apply c.op
  ({ ledgers := tape.ledgers.insert c.symbol r.1
     failures := tape.failures + if r.2 then 0 else 1 }, r.2)

def recordTrade (tape : TradeLedger P) (symbol : Str) (id : UInt64) (price : P)
    (volume : UInt64) : TradeLedger P :=
  (tape.call ⟨symbol, .recordTrade id price volume⟩).1

def cancelTrade (tape : TradeLedger P) (symbol : Str) (id : UInt64) :
    TradeLedger P × Bool :=
  tape.call ⟨symbol, .cancelTrade id⟩

def adjustVolume (tape : TradeLedger P) (symbol : Str) (id newVolume : UInt64) :
    TradeLedger P × Bool :=
  tape.call ⟨symbol, .adjustVolume id newVolume⟩

def replaceTrade (tape : TradeLedger P) (symbol : Str) (oldId newId : UInt64) (price : P)
    (volume : UInt64) : TradeLedger P × Bool :=
  tape.call ⟨symbol, .replaceTrade oldId newId price volume⟩

def run (calls : List (LedgerCall P)) : TradeLedger P :=
  calls.foldl (fun tape c => (tape.call c).1) {}

/-! ## The ledger as a sharded machine -/

def machine : Shard.Machine Str (SymbolLedger P) (LedgerCall P) Nat where
  key := LedgerCall.symbol
  init := {}
  step ledger c := ((ledger.apply c.op).1, if (ledger.apply c.op).2 then 0 else 1)

abbrev own (symbol : Str) (calls : List (LedgerCall P)) : List (LedgerCall P) :=
  machine.own symbol calls

abbrev shards (calls : List (LedgerCall P)) :
    Shard.State Str (SymbolLedger P) Nat compare :=
  machine.run calls

theorem run_eq_shards (calls : List (LedgerCall P)) :
    run calls = ⟨(shards calls).cells, (shards calls).total⟩ := by
  induction calls using List.reverseRecOn with
  | nil => rfl
  | append_singleton calls c ih =>
      rw [shards, Shard.Machine.run_append_singleton, run, List.foldl_append, ← run, ih]
      rfl

theorem getOrCreate_run (calls : List (LedgerCall P)) (symbol : Str) :
    (run calls).getOrCreate symbol = (machine.alone (own symbol calls)).1 := by
  rw [run_eq_shards]
  exact Shard.Machine.cells_getD machine calls symbol

end TradeLedger

end Mde
