import Mde.BookIndependence
import Mde.LedgerStats

/-!
# Refused operations

A Modify or Delete of an order that is not live, a cancel of a trade that
is unknown or cancelled, a correction of an unknown cross, and on the
ledger a cancel or an adjustment that returns `false`, all come down to
writing back what was looked up and counting one failure.

What was looked up is `GetOrCreate(symbol)`, so a refusal is not without
effect: a symbol that nothing named before is a symbol of the book
afterwards (`OnlyNames`). Every other accessor reads the same.

On the book's side the counter counts nothing else, as long as the levels
agree with the live orders: `ApplyOrderExecution` cuts the volume it takes
off a level down to the order's own, so that an execution of more than
rests there is no failure (`bookBuildFailures_eq`).
-/

open Std

namespace Mde

open Messages

variable {P : Type*} [LinearOrder P]

/-! ## One symbol's book -/

namespace SymbolBook

/-- A Modify or Delete of an order that is not live, a cancel of a trade that is
unknown or cancelled, a correction of an unknown cross. -/
def refuses (book : SymbolBook P) : Payload P → Bool
  | .modifyOrder msg => !book.orders.contains msg.orderId
  | .deleteOrder msg => !book.orders.contains msg.orderId
  | .tradeCancel msg =>
    (book.tradesById[msg.tradeId]?).all fun index =>
      (book.tradeLog[index]?).any (·.cancelled)
  | .crossCorrection msg => !book.crossesById.contains msg.crossId
  | _ => false

/-- The failure counter an operation counts on: the book's for a Modify or Delete,
the trades' for a cancel or a correction. -/
def refusal : Payload P → Failures
  | .modifyOrder _ => { bookBuild := 1 }
  | .deleteOrder _ => { bookBuild := 1 }
  | .tradeCancel _ => { tradeLedger := 1 }
  | .crossCorrection _ => { tradeLedger := 1 }
  | _ => 0

/-- A refused operation writes back the book it found, and counts one failure. -/
theorem apply_of_refuses {book : SymbolBook P} {msg : Payload P}
    (h : book.refuses msg = true) : book.apply msg = (book, refusal msg) := by
  cases msg with
  | modifyOrder msg =>
      have hnone : book.orders[msg.orderId]? = none :=
        ExtTreeMap.getElem?_eq_none_of_contains_eq_false (by simpa [refuses] using h)
      simp only [apply, applyModifyOrder, hnone]
      rfl
  | deleteOrder msg =>
      have hnone : book.orders[msg.orderId]? = none :=
        ExtTreeMap.getElem?_eq_none_of_contains_eq_false (by simpa [refuses] using h)
      simp only [apply, applyDeleteOrder, dropOrder, hnone]
      rfl
  | tradeCancel msg =>
      simp only [refuses] at h
      simp only [apply, applyTradeCancel]
      cases hid : book.tradesById[msg.tradeId]? with
      | none => rfl
      | some index =>
          rw [hid, Option.all_some] at h
          dsimp only
          rw [if_pos h]
          rfl
  | crossCorrection msg =>
      have hnone : book.crossesById[msg.crossId]? = none :=
        ExtTreeMap.getElem?_eq_none_of_contains_eq_false (by simpa [refuses] using h)
      simp only [apply, applyCrossCorrection, hnone]
      rfl
  | _ => cases h

end SymbolBook

/-! ## All books -/

namespace OrderBook

/-- Nothing is different but that the book now has the symbol. -/
structure OnlyNames (symbol : Str) (ob ob' : OrderBook P) : Prop where
  accessors : ∀ s, SameAccessors s ob' ob
  liveOrderCount : ob'.getLiveOrderCount = ob.getLiveOrderCount
  symbols : ∀ s, s ∈ ob'.getSymbols ↔ s ∈ ob.getSymbols ∨ s = symbol
  activeBookCount : ob'.getActiveBookCount
    = ob.getActiveBookCount + if symbol ∈ ob.getSymbols then 0 else 1

theorem onlyNames_of_refuses {ob : OrderBook P} {msg : Payload P}
    (h : (ob.getOrCreateBook msg.symbol).refuses msg = true) :
    OnlyNames msg.symbol ob (ob.onMessage msg) := by
  have hsame : ∀ s, (ob.onMessage msg).getOrCreateBook s = ob.getOrCreateBook s := by
    intro s
    rw [getOrCreateBook_onMessage]
    split
    · rename_i hs
      rw [hs, SymbolBook.apply_of_refuses h]
    · rfl
  refine ⟨fun s => sameAccessors_of_book (hsame s), ?_, fun s => ?_, ?_⟩
  · have hcount := getLiveOrderCount_onMessage ob msg
    rw [hsame] at hcount
    omega
  · rw [getSymbols, getSymbols, ExtTreeMap.mem_keys, ExtTreeMap.mem_keys, onMessage,
      ExtTreeMap.mem_insert, Std.compare_eq_iff_eq, eq_comm, or_comm]
  · rw [getActiveBookCount, getActiveBookCount, onMessage, ExtTreeMap.size_insert]
    simp only [getSymbols, ExtTreeMap.mem_keys, ExtTreeMap.contains_iff_mem]
    split <;> rfl

end OrderBook

/-! ## All ledgers -/

namespace TradeLedger

/-- Nothing is different but that the ledger now has the symbol. -/
structure OnlyNames (symbol : Str) (tape tape' : TradeLedger P) : Prop where
  dailyStats : ∀ s, tape'.getDailyStats s = tape.getDailyStats s
  symbols : ∀ s, s ∈ tape'.getSymbols ↔ s ∈ tape.getSymbols ∨ s = symbol

theorem onlyNames_call {tape : TradeLedger P} {symbol : Str} (op : LedgerOp P)
    (h : ((tape.getOrCreate symbol).apply op).1 = tape.getOrCreate symbol) :
    OnlyNames symbol tape (tape.call ⟨symbol, op⟩).1 := by
  refine ⟨fun s => ?_, fun s => ?_⟩
  · rw [getDailyStats_eq, getDailyStats_eq, getOrCreate_call]
    split
    · rename_i hs
      rw [hs, h]
    · rfl
  · rw [getSymbols, getSymbols, ExtTreeMap.mem_keys, ExtTreeMap.mem_keys, call,
      ExtTreeMap.mem_insert, Std.compare_eq_iff_eq, eq_comm, or_comm]

theorem cancelTrade_refused {tape : TradeLedger P} {symbol : Str} {id : UInt64}
    (h : (tape.cancelTrade symbol id).2 = false) :
    OnlyNames symbol tape (tape.cancelTrade symbol id).1
      ∧ (tape.cancelTrade symbol id).1.getFailureCount = tape.getFailureCount + 1 := by
  have hfalse : ((tape.getOrCreate symbol).cancelTrade id).2 = false := h
  refine ⟨onlyNames_call (.cancelTrade id) ?_, ?_⟩
  · show ((tape.getOrCreate symbol).cancelTrade id).1 = _
    unfold SymbolLedger.cancelTrade at hfalse ⊢
    split at hfalse
    · rfl
    · cases hfalse
  · show tape.failures + (if ((tape.getOrCreate symbol).cancelTrade id).2 then 0 else 1) = _
    rw [hfalse]
    rfl

theorem adjustVolume_refused {tape : TradeLedger P} {symbol : Str} {id newVolume : UInt64}
    (h : (tape.adjustVolume symbol id newVolume).2 = false) :
    OnlyNames symbol tape (tape.adjustVolume symbol id newVolume).1
      ∧ (tape.adjustVolume symbol id newVolume).1.getFailureCount
        = tape.getFailureCount + 1 := by
  have hfalse : ((tape.getOrCreate symbol).adjustVolume id newVolume).2 = false := h
  refine ⟨onlyNames_call (.adjustVolume id newVolume) ?_, ?_⟩
  · show ((tape.getOrCreate symbol).adjustVolume id newVolume).1 = _
    unfold SymbolLedger.adjustVolume at hfalse ⊢
    split at hfalse
    · rfl
    · split at hfalse <;> cases hfalse
  · show tape.failures
      + (if ((tape.getOrCreate symbol).adjustVolume id newVolume).2 then 0 else 1) = _
    rw [hfalse]
    rfl

end TradeLedger

/-! ## Both classes -/

/-- **A refused operation changes nothing but its counter and the set of symbols.** It
counts one failure; and the symbol it names, if nothing named it before, is one of the
symbols from then on. -/
theorem refused_only_names :
    (∀ (ob : OrderBook P) (msg : Payload P),
      (ob.getOrCreateBook msg.symbol).refuses msg = true →
        OrderBook.OnlyNames msg.symbol ob (ob.onMessage msg)
          ∧ (ob.onMessage msg).getBookBuildFailures
            = ob.getBookBuildFailures + (SymbolBook.refusal msg).bookBuild
          ∧ (ob.onMessage msg).getTradeLedgerFailures
            = ob.getTradeLedgerFailures + (SymbolBook.refusal msg).tradeLedger)
    ∧ (∀ (tape : TradeLedger P) (symbol : Str) (id : UInt64),
      (tape.cancelTrade symbol id).2 = false →
        TradeLedger.OnlyNames symbol tape (tape.cancelTrade symbol id).1
          ∧ (tape.cancelTrade symbol id).1.getFailureCount = tape.getFailureCount + 1)
    ∧ ∀ (tape : TradeLedger P) (symbol : Str) (id newVolume : UInt64),
      (tape.adjustVolume symbol id newVolume).2 = false →
        TradeLedger.OnlyNames symbol tape (tape.adjustVolume symbol id newVolume).1
          ∧ (tape.adjustVolume symbol id newVolume).1.getFailureCount
            = tape.getFailureCount + 1 := by
  refine ⟨?_, fun _ _ _ h => TradeLedger.cancelTrade_refused h,
    fun _ _ _ _ h => TradeLedger.adjustVolume_refused h⟩
  intro ob msg h
  refine ⟨OrderBook.onlyNames_of_refuses h, ?_, ?_⟩
  · show ob.bookBuildFailures + _ = _
    rw [SymbolBook.apply_of_refuses h]
    rfl
  · show ob.tradeLedgerFailures + _ = _
    rw [SymbolBook.apply_of_refuses h]
    rfl

def deleteUnknown : Payload Nat := .deleteOrder ⟨0, [65], 0, 1⟩

theorem refused_only_names_deleteUnknown :
    OrderBook.OnlyNames [65] (OrderBook.run []) ((OrderBook.run []).onMessage deleteUnknown)
      ∧ ((OrderBook.run []).onMessage deleteUnknown).getBookBuildFailures = 1 := by
  obtain ⟨hnames, hbuild, -⟩ := refused_only_names.1 (OrderBook.run []) deleteUnknown (by decide)
  exact ⟨hnames, hbuild⟩

/-- The refused Delete makes a book for its symbol. -/
theorem deleteUnknown_creates_book :
    ((OrderBook.run []).getOrCreateBook deleteUnknown.symbol).refuses deleteUnknown = true
      ∧ (OrderBook.run ([] : List (Payload Nat))).getActiveBookCount = 0
      ∧ ((OrderBook.run []).onMessage deleteUnknown).getActiveBookCount = 1
      ∧ (OrderBook.run ([] : List (Payload Nat))).getSymbols = []
      ∧ ((OrderBook.run []).onMessage deleteUnknown).getSymbols = [[65]] := by
  decide

/-! ## What the build-failure counter counts -/

/-- **Only an ID that is not live counts.** When the levels of the symbol agree with its
live orders and these have volume, a Modify, Delete, Execution or Replace raises the
build-failure counter by one if its order is not live and leaves it alone otherwise. The
level it takes volume off, if it takes any, holds what it asks for. -/
theorem bookBuildFailures_eq {ob : OrderBook P} {msg : Payload P}
    (hagrees : (ob.getOrCreateBook msg.symbol).Agrees)
    (hpos : OrdersPositive (ob.getOrCreateBook msg.symbol).orders) :
    let book := ob.getOrCreateBook msg.symbol
    (∀ id, targetOrder msg = some id →
      (ob.onMessage msg).getBookBuildFailures
        = ob.getBookBuildFailures + if book.orders.contains id then 0 else 1)
    ∧ ∀ taken : LiveOrder P, removal book.orders msg = some taken →
      taken.volume.toNat ≤ book.levelVolume (isBid taken.side) taken.price
        ∧ (book.removeLevel taken.side taken.price taken.volume).2 = true := by
  intro book
  have hacc : book.Accounted 0 := SymbolBook.agrees_iff_accounted_zero.mp hagrees
  refine ⟨fun id hid => ?_,
    fun taken ht => ⟨hacc.removal_le_levelVolume ht, hacc.removal_ok hpos ht⟩⟩
  show ob.bookBuildFailures + (book.apply msg).2.bookBuild = _
  rw [hacc.bookBuild_eq hpos, misses, hid, Option.any_some]
  cases book.orders.contains id <;> rfl

def loneBid : List (Payload Nat) := [.addOrder ⟨0, [], 0, 1, 10, 100, 'B'.toUInt8, []⟩]

theorem loneBid_sound : (OrderBook.run loneBid).Sound 0 :=
  (RefBook.admissible_of_sum (by decide)).sound.1

/-- An execution of the bid, and one of an order nobody added. -/
theorem bookBuildFailures_eq_loneBid :
    let partly : Payload Nat := .orderExecution ⟨0, [], 0, 1, 7, 10, 40, true⟩
    let unknown : Payload Nat := .orderExecution ⟨0, [], 0, 2, 8, 10, 40, true⟩
    ((OrderBook.run loneBid).onMessage partly).getBookBuildFailures = 0
      ∧ ((OrderBook.run loneBid).onMessage unknown).getBookBuildFailures = 1 := by
  intro partly unknown
  have hsound := loneBid_sound []
  obtain ⟨hpartly, -⟩ := @bookBuildFailures_eq Nat _ (OrderBook.run loneBid) partly
    hsound.accounted hsound.ordersPositive
  obtain ⟨hunknown, -⟩ := @bookBuildFailures_eq Nat _ (OrderBook.run loneBid) unknown
    hsound.accounted hsound.ordersPositive
  exact ⟨(hpartly 1 rfl).trans (by decide), (hunknown 2 rfl).trans (by decide)⟩

/-- An execution of 500 asks a level of 100 for more than rests there. The level gives up
the order's 100, and nothing is counted. -/
theorem overExecution_not_counted :
    let exec : OrderExecution Nat := ⟨0, [], 0, 1, 7, 10, 500, true⟩
    let book := (OrderBook.run loneBid).getOrCreateBook []
    book.Agrees ∧ OrdersPositive book.orders
      ∧ book.orders[(1 : UInt64)]? = some ⟨10, 100, 'B'.toUInt8⟩
      ∧ book.levelVolume true 10 < exec.volume.toNat
      ∧ ((OrderBook.run loneBid).onMessage (.orderExecution exec)).getBookBuildFailures
        = (OrderBook.run loneBid).getBookBuildFailures := by
  intro exec book
  have hsound := loneBid_sound []
  exact ⟨hsound.accounted, hsound.ordersPositive, by decide, by decide, by decide⟩

end Mde
