import Mde.TradeLedger

/-!
# The order book

The class `OrderBook` of `order_book.hpp` and `order_book.cpp`: per
symbol, the live orders by ID, the two level maps, the trade log with
its two ID maps, the daily statistics and the last status messages.

Every handler starts with `GetOrCreateBook(msg._symbol)` and then works
through the reference it got, so the handlers are written on one
`SymbolBook` and return the increments of the two failure counters;
`OrderBook.onMessage` does the look-up, the write-back and the
counters. A message raises each counter by at most one, and the
counters are `Nat`; volumes are `UInt64` and wrap as in the source.

The bid map is ordered by `std::greater`, so its keys live in the order
dual `Pᵒᵈ` and both maps begin with their best price. Prices are a linear
order `P`, as the `double`s of the source are without NaN; the level maps
over the comparison `<` alone, NaN included, are `KeyedBook`.
-/

open Std OrderDual

namespace Mde

open Messages

variable {P : Type*}

/-! ## Price levels -/

/-- `std::map<K, std::uint64_t>`: price to aggregate volume. -/
abbrev LevelMap (K : Type*) [Ord K] := ExtTreeMap K UInt64

namespace LevelMap

variable {K : Type*} [LinearOrder K]

/-- `levels[price] += volume`. -/
def add (levels : LevelMap K) (price : K) (volume : UInt64) : LevelMap K :=
  levels.insert price (levels.getD price 0 + volume)

/-- One branch of `RemoveLevel`: `false`, and the map untouched, when less than
`volume` rests at `price`. -/
def remove (levels : LevelMap K) (price : K) (volume : UInt64) : LevelMap K × Bool :=
  match levels[price]? with
  | none => (levels, false)
  | some resting =>
    if resting < volume then (levels, false)
    else if resting - volume = 0 then (levels.erase price, true)
    else (levels.insert price (resting - volume), true)

end LevelMap

structure PriceLevel (P : Type*) where
  price : P
  aggregateVolume : UInt64
deriving DecidableEq, Repr

structure TopOfBook (P : Type*) where
  bestBid : Option (PriceLevel P) := none
  bestAsk : Option (PriceLevel P) := none
deriving DecidableEq, Repr

structure LiveOrder (P : Type*) where
  price : P
  volume : UInt64
  side : Byte
deriving DecidableEq, Repr

/-- The test `side == 'B'`; every other byte is the ask side. -/
def isBid (side : Byte) : Bool := side == 'B'.toUInt8

/-- What a handler adds to `_bookBuildFailures` and `_tradeLedgerFailures`. -/
@[ext] structure Failures where
  bookBuild : Nat := 0
  tradeLedger : Nat := 0
deriving DecidableEq, Repr

namespace Failures

/-- The caller's side of `if (!RemoveLevel(..)) _bookBuildFailures++`. -/
def ofRemoved (removed : Bool) : Failures := { bookBuild := if removed then 0 else 1 }

instance : Zero Failures := ⟨{}⟩

instance : Add Failures :=
  ⟨fun f g => ⟨f.bookBuild + g.bookBuild, f.tradeLedger + g.tradeLedger⟩⟩

@[simp] theorem zero_bookBuild : (0 : Failures).bookBuild = 0 := rfl

@[simp] theorem zero_tradeLedger : (0 : Failures).tradeLedger = 0 := rfl

@[simp] theorem add_bookBuild (f g : Failures) :
    (f + g).bookBuild = f.bookBuild + g.bookBuild := rfl

@[simp] theorem add_tradeLedger (f g : Failures) :
    (f + g).tradeLedger = f.tradeLedger + g.tradeLedger := rfl

instance : AddCommMonoid Failures where
  add_assoc f g h := by ext <;> simp [Nat.add_assoc]
  zero_add f := by ext <;> simp
  add_zero f := by ext <;> simp
  add_comm f g := by ext <;> simp [Nat.add_comm]
  nsmul := nsmulRec

def bookBuildHom : Failures →+ Nat where
  toFun := bookBuild
  map_zero' := rfl
  map_add' _ _ := rfl

def tradeLedgerHom : Failures →+ Nat where
  toFun := tradeLedger
  map_zero' := rfl
  map_add' _ _ := rfl

end Failures

/-! ## One symbol's book -/

structure SymbolBook (P : Type*) [LinearOrder P] where
  orders : ExtTreeMap UInt64 (LiveOrder P) := ∅
  bidLevels : LevelMap Pᵒᵈ := ∅
  askLevels : LevelMap P := ∅
  stats : DailyStats P := {}
  halted : Bool := false
  lastRpiIndicator : Option Byte := none
  info : Option (SymbolIndexMapping P) := none
  lastImbalance : Option (Imbalance P) := none
  tradeLog : List (TradeRecord P) := []
  tradesById : ExtTreeMap UInt64 Nat := ∅
  crossesById : ExtTreeMap UInt64 Nat := ∅

namespace SymbolBook

variable [LinearOrder P]

def addLevel (book : SymbolBook P) (side : Byte) (price : P) (volume : UInt64) :
    SymbolBook P :=
  if isBid side then { book with bidLevels := book.bidLevels.add (toDual price) volume }
  else { book with askLevels := book.askLevels.add price volume }

def removeLevel (book : SymbolBook P) (side : Byte) (price : P) (volume : UInt64) :
    SymbolBook P × Bool :=
  if isBid side then
    let r := book.bidLevels.remove (toDual price) volume
    ({ book with bidLevels := r.1 }, r.2)
  else
    let r := book.askLevels.remove price volume
    ({ book with askLevels := r.1 }, r.2)

/-- `AppendTrade`: the book with the trade folded in and logged, and the log
index of the record. -/
def appendTrade (book : SymbolBook P) (price : P) (volume : UInt64) :
    SymbolBook P × Nat :=
  let tradeLog := book.tradeLog ++ [{ price := price, volume := volume }]
  ({ book with stats := book.stats.foldIntoStats price volume, tradeLog },
    tradeLog.length - 1)

def recomputeStats (book : SymbolBook P) : SymbolBook P :=
  { book with stats := DailyStats.recompute book.tradeLog }

def applySymbolIndexMapping (book : SymbolBook P) (msg : SymbolIndexMapping P) :
    SymbolBook P × Failures :=
  ({ book with info := some msg }, 0)

/-- `'4'` halts and `'5'` resumes; the other status codes change nothing. -/
def applySecurityStatus (book : SymbolBook P) (msg : SecurityStatus P) :
    SymbolBook P × Failures :=
  if msg.securityStatus = '4'.toUInt8 then ({ book with halted := true }, 0)
  else if msg.securityStatus = '5'.toUInt8 then ({ book with halted := false }, 0)
  else (book, 0)

/-- The common body of `ApplyAddOrder` and `ApplyAddOrderRefresh`, and the
second half of `ApplyReplaceOrder`. -/
def putOrder (book : SymbolBook P) (orderId : UInt64) (order : LiveOrder P) :
    SymbolBook P :=
  { book with orders := book.orders.insert orderId order }.addLevel
    order.side order.price order.volume

def applyAddOrder (book : SymbolBook P) (msg : AddOrder P) : SymbolBook P × Failures :=
  (book.putOrder msg.orderId ⟨msg.price, msg.volume, msg.side⟩, 0)

/-- The order keeps its side: `ApplyModifyOrder` does not read the message's. -/
def applyModifyOrder (book : SymbolBook P) (msg : ModifyOrder P) :
    SymbolBook P × Failures :=
  match book.orders[msg.orderId]? with
  | none => (book, { bookBuild := 1 })
  | some order =>
    let r := book.removeLevel order.side order.price order.volume
    let order := { order with price := msg.price, volume := msg.volume }
    (r.1.putOrder msg.orderId order, .ofRemoved r.2)

/-- The common first half of `ApplyDeleteOrder` and `ApplyReplaceOrder`: look the
order up, take its volume off its level and erase it. -/
def dropOrder (book : SymbolBook P) (orderId : UInt64) : SymbolBook P × Failures :=
  match book.orders[orderId]? with
  | none => (book, { bookBuild := 1 })
  | some order =>
    let r := book.removeLevel order.side order.price order.volume
    ({ r.1 with orders := r.1.orders.erase orderId }, .ofRemoved r.2)

def applyDeleteOrder (book : SymbolBook P) (msg : DeleteOrder) :
    SymbolBook P × Failures :=
  book.dropOrder msg.orderId

/-- Log a trade under its trade ID: the first half of `ApplyOrderExecution` and
the body of `ApplyNonDisplayedTrade`. -/
def logTrade (book : SymbolBook P) (tradeId : UInt64) (price : P) (volume : UInt64) :
    SymbolBook P :=
  let r := book.appendTrade price volume
  { r.1 with tradesById := r.1.tradesById.insert tradeId r.2 }

/-- The second half of `ApplyOrderExecution`. The level gives up no more than the
order's volume, at the order's resting price. -/
def executeOrder (book : SymbolBook P) (orderId : UInt64) (volume : UInt64) :
    SymbolBook P × Failures :=
  match book.orders[orderId]? with
  | none => (book, { bookBuild := 1 })
  | some order =>
    let executed := if volume > order.volume then order.volume else volume
    let r := book.removeLevel order.side order.price executed
    if volume ≥ order.volume then
      ({ r.1 with orders := r.1.orders.erase orderId }, .ofRemoved r.2)
    else
      let order := { order with volume := order.volume - volume }
      ({ r.1 with orders := r.1.orders.insert orderId order }, .ofRemoved r.2)

/-- The trade is logged whether or not the order is live. -/
def applyOrderExecution (book : SymbolBook P) (msg : OrderExecution P) :
    SymbolBook P × Failures :=
  (book.logTrade msg.tradeId msg.price msg.volume).executeOrder msg.orderId msg.volume

/-- The new order is put whether or not the old one was live. -/
def applyReplaceOrder (book : SymbolBook P) (msg : ReplaceOrder P) :
    SymbolBook P × Failures :=
  let r := book.dropOrder msg.orderId
  (r.1.putOrder msg.newOrderId ⟨msg.price, msg.volume, msg.side⟩, r.2)

def applyRetailPriceImprovement (book : SymbolBook P) (msg : RetailPriceImprovement) :
    SymbolBook P × Failures :=
  ({ book with lastRpiIndicator := msg.rpiIndicator }, 0)

def applyImbalance (book : SymbolBook P) (msg : Imbalance P) :
    SymbolBook P × Failures :=
  ({ book with lastImbalance := some msg }, 0)

def applyAddOrderRefresh (book : SymbolBook P) (msg : AddOrderRefresh P) :
    SymbolBook P × Failures :=
  (book.putOrder msg.orderId ⟨msg.price, msg.volume, msg.side⟩, 0)

def applyNonDisplayedTrade (book : SymbolBook P) (msg : NonDisplayedTrade P) :
    SymbolBook P × Failures :=
  (book.logTrade msg.tradeId msg.price msg.volume, 0)

def applyCrossTrade (book : SymbolBook P) (msg : CrossTrade P) :
    SymbolBook P × Failures :=
  let r := book.appendTrade msg.price msg.volume
  ({ r.1 with crossesById := r.1.crossesById.insert msg.crossId r.2 }, 0)

def applyTradeCancel (book : SymbolBook P) (msg : TradeCancel) :
    SymbolBook P × Failures :=
  match book.tradesById[msg.tradeId]? with
  | none => (book, { tradeLedger := 1 })
  | some index =>
    if (book.tradeLog[index]?).any (·.cancelled) then (book, { tradeLedger := 1 })
    else
      let tradeLog := book.tradeLog.modify index fun trade => { trade with cancelled := true }
      ({ book with tradeLog }.recomputeStats, 0)

/-- The cancelled flag of the cross is not looked at. -/
def applyCrossCorrection (book : SymbolBook P) (msg : CrossCorrection) :
    SymbolBook P × Failures :=
  match book.crossesById[msg.crossId]? with
  | none => (book, { tradeLedger := 1 })
  | some index =>
    match book.tradeLog[index]? with
    | none => (book, 0)
    | some trade =>
      ({ book with
          stats := book.stats.adjustTotal msg.volume trade.volume
          tradeLog := book.tradeLog.set index { trade with volume := msg.volume } }, 0)

/-- The switch of `OnMessage`. -/
def apply (book : SymbolBook P) : Payload P → SymbolBook P × Failures
  | .symbolIndexMapping msg => book.applySymbolIndexMapping msg
  | .securityStatus msg => book.applySecurityStatus msg
  | .addOrder msg => book.applyAddOrder msg
  | .modifyOrder msg => book.applyModifyOrder msg
  | .deleteOrder msg => book.applyDeleteOrder msg
  | .orderExecution msg => book.applyOrderExecution msg
  | .replaceOrder msg => book.applyReplaceOrder msg
  | .retailPriceImprovement msg => book.applyRetailPriceImprovement msg
  | .imbalance msg => book.applyImbalance msg
  | .addOrderRefresh msg => book.applyAddOrderRefresh msg
  | .nonDisplayedTrade msg => book.applyNonDisplayedTrade msg
  | .crossTrade msg => book.applyCrossTrade msg
  | .tradeCancel msg => book.applyTradeCancel msg
  | .crossCorrection msg => book.applyCrossCorrection msg

def level (book : SymbolBook P) (bid : Bool) (price : P) : Option UInt64 :=
  if bid then book.bidLevels[toDual price]? else book.askLevels[price]?

/-- The two `begin()` entries. -/
def topOfBook (book : SymbolBook P) : TopOfBook P where
  bestBid := book.bidLevels.toList.head?.map fun e => ⟨ofDual e.1, e.2⟩
  bestAsk := book.askLevels.toList.head?.map fun e => ⟨e.1, e.2⟩

/-- The levels of a side from the best one on, as an iterator visits them. -/
def entries (book : SymbolBook P) (bid : Bool) : List (P × UInt64) :=
  if bid then book.bidLevels.toList.map fun e => (ofDual e.1, e.2) else book.askLevels.toList

end SymbolBook

/-! ## All books -/

structure OrderBook (P : Type*) [LinearOrder P] where
  books : ExtTreeMap Str (SymbolBook P) := ∅
  bookBuildFailures : Nat := 0
  tradeLedgerFailures : Nat := 0

namespace OrderBook

variable [LinearOrder P]

/-- `_books[symbol]`, before it is written back. -/
def getOrCreateBook (ob : OrderBook P) (symbol : Str) : SymbolBook P :=
  ob.books.getD symbol {}

def onMessage (ob : OrderBook P) (data : Payload P) : OrderBook P :=
  let r := (ob.getOrCreateBook data.symbol).apply data
  { books := ob.books.insert data.symbol r.1
    bookBuildFailures := ob.bookBuildFailures + r.2.bookBuild
    tradeLedgerFailures := ob.tradeLedgerFailures + r.2.tradeLedger }

def run (msgs : List (Payload P)) : OrderBook P := msgs.foldl onMessage {}

def getTopOfBook (ob : OrderBook P) (symbol : Str) : TopOfBook P :=
  match ob.books[symbol]? with
  | none => {}
  | some book => book.topOfBook

def getDailyStats (ob : OrderBook P) (symbol : Str) : DailyStats P :=
  match ob.books[symbol]? with
  | none => {}
  | some book => book.stats

def isHalted (ob : OrderBook P) (symbol : Str) : Bool :=
  match ob.books[symbol]? with
  | none => false
  | some book => book.halted

def getSymbolInfo (ob : OrderBook P) (symbol : Str) : Option (SymbolIndexMapping P) :=
  match ob.books[symbol]? with
  | none => none
  | some book => book.info

def getImbalance (ob : OrderBook P) (symbol : Str) : Option (Imbalance P) :=
  match ob.books[symbol]? with
  | none => none
  | some book => book.lastImbalance

/-- The keys of `_books`. The source iterates over an unordered map; nothing
here depends on the order. -/
def getSymbols (ob : OrderBook P) : List Str := ob.books.keys

def getActiveBookCount (ob : OrderBook P) : Nat := ob.books.size

def getLiveOrderCount (ob : OrderBook P) : Nat :=
  (ob.books.toList.map fun e => e.2.orders.size).sum

def getBookBuildFailures (ob : OrderBook P) : Nat := ob.bookBuildFailures

def getTradeLedgerFailures (ob : OrderBook P) : Nat := ob.tradeLedgerFailures

/-! ## The accessors read the symbol's own book -/

theorem topOfBook_empty : ({} : SymbolBook P).topOfBook = {} := by
  have hb : (∅ : LevelMap Pᵒᵈ).toList.head? = none :=
    TreeSum.head?_toList_eq_none_iff.mpr fun _ => by simp
  have ha : (∅ : LevelMap P).toList.head? = none :=
    TreeSum.head?_toList_eq_none_iff.mpr fun _ => by simp
  simp [SymbolBook.topOfBook, hb, ha]

theorem getTopOfBook_eq (ob : OrderBook P) (symbol : Str) :
    ob.getTopOfBook symbol = (ob.getOrCreateBook symbol).topOfBook := by
  rw [getTopOfBook, getOrCreateBook, ExtTreeMap.getD_eq_getD_getElem?]
  cases ob.books[symbol]? with
  | none => exact topOfBook_empty.symm
  | some book => rfl

theorem getDailyStats_eq (ob : OrderBook P) (symbol : Str) :
    ob.getDailyStats symbol = (ob.getOrCreateBook symbol).stats := by
  rw [getDailyStats, getOrCreateBook, ExtTreeMap.getD_eq_getD_getElem?]
  cases ob.books[symbol]? <;> rfl

theorem isHalted_eq (ob : OrderBook P) (symbol : Str) :
    ob.isHalted symbol = (ob.getOrCreateBook symbol).halted := by
  rw [isHalted, getOrCreateBook, ExtTreeMap.getD_eq_getD_getElem?]
  cases ob.books[symbol]? <;> rfl

theorem getSymbolInfo_eq (ob : OrderBook P) (symbol : Str) :
    ob.getSymbolInfo symbol = (ob.getOrCreateBook symbol).info := by
  rw [getSymbolInfo, getOrCreateBook, ExtTreeMap.getD_eq_getD_getElem?]
  cases ob.books[symbol]? <;> rfl

theorem getImbalance_eq (ob : OrderBook P) (symbol : Str) :
    ob.getImbalance symbol = (ob.getOrCreateBook symbol).lastImbalance := by
  rw [getImbalance, getOrCreateBook, ExtTreeMap.getD_eq_getD_getElem?]
  cases ob.books[symbol]? <;> rfl

/-! ## The book as a sharded machine -/

def machine : Shard.Machine Str (SymbolBook P) (Payload P) Failures where
  key := Payload.symbol
  init := {}
  step := SymbolBook.apply

abbrev own (symbol : Str) (msgs : List (Payload P)) : List (Payload P) :=
  machine.own symbol msgs

abbrev shards (msgs : List (Payload P)) : Shard.State Str (SymbolBook P) Failures compare :=
  machine.run msgs

/-- The book a symbol's messages produce alone, with its share of the
counters. -/
abbrev alone (msgs : List (Payload P)) : SymbolBook P × Failures := machine.alone msgs

theorem run_append_singleton (msgs : List (Payload P)) (msg : Payload P) :
    run (msgs ++ [msg]) = (run msgs).onMessage msg := by
  simp [run]

theorem run_eq_shards (msgs : List (Payload P)) :
    run msgs = ⟨(shards msgs).cells, (shards msgs).total.bookBuild,
      (shards msgs).total.tradeLedger⟩ := by
  induction msgs using List.reverseRecOn with
  | nil => rfl
  | append_singleton msgs msg ih =>
      rw [shards, Shard.Machine.run_append_singleton, run_append_singleton, ih]
      rfl

/-- A symbol's book is what its own messages produce alone. -/
theorem getOrCreateBook_run (msgs : List (Payload P)) (symbol : Str) :
    (run msgs).getOrCreateBook symbol = (alone (own symbol msgs)).1 := by
  rw [run_eq_shards]
  exact Shard.Machine.cells_getD machine msgs symbol

@[simp] theorem getOrCreateBook_empty (symbol : Str) :
    ({} : OrderBook P).getOrCreateBook symbol = {} := by
  simp [getOrCreateBook]

/-! ## The frame of one message -/

theorem getOrCreateBook_onMessage (ob : OrderBook P) (data : Payload P) (symbol : Str) :
    (ob.onMessage data).getOrCreateBook symbol
      = if symbol = data.symbol then ((ob.getOrCreateBook symbol).apply data).1
        else ob.getOrCreateBook symbol := by
  simp only [onMessage, getOrCreateBook, ExtTreeMap.getD_eq_getD_getElem?,
    TreeSum.getElem?_insert]
  split
  · rename_i h; subst h; rfl
  · rfl

theorem getOrCreateBook_onMessage_self (ob : OrderBook P) (data : Payload P) :
    (ob.onMessage data).getOrCreateBook data.symbol
      = ((ob.getOrCreateBook data.symbol).apply data).1 := by
  rw [getOrCreateBook_onMessage, if_pos rfl]

theorem getLiveOrderCount_onMessage (ob : OrderBook P) (data : Payload P) :
    (ob.onMessage data).getLiveOrderCount + (ob.getOrCreateBook data.symbol).orders.size
      = ((ob.onMessage data).getOrCreateBook data.symbol).orders.size
        + ob.getLiveOrderCount := by
  let size : Str → SymbolBook P → Nat := fun _ book => book.orders.size
  have hnew := TreeSum.sumOver_insert ob.books data.symbol
    ((ob.getOrCreateBook data.symbol).apply data).1 size
  have hold : TreeSum.sumOver ob.books size
      = (ob.getOrCreateBook data.symbol).orders.size
        + TreeSum.sumOver (ob.books.erase data.symbol) size := by
    rw [getOrCreateBook, ExtTreeMap.getD_eq_getD_getElem?]
    cases hbook : ob.books[data.symbol]? with
    | none => simp [TreeSum.erase_of_none hbook]
    | some book => exact TreeSum.sumOver_eq_add_erase hbook size
  change TreeSum.sumOver (ob.onMessage data).books size + _ = _
    + TreeSum.sumOver ob.books size
  rw [getOrCreateBook_onMessage_self, onMessage, hnew, hold]
  simp only [size]
  omega

end OrderBook

end Mde
