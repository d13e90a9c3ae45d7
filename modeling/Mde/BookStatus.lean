import Mde.LastWrite
import Mde.OrderBook

/-!
# What the last message said

The members of a book that messages overwrite: whether the symbol is
halted, its RPI indicator, its static data and its last imbalance. The
order handlers leave them alone (`status_putOrder` and the like), every
message writes at most one of them, and what is written does not depend
on the book.

So after any run each of them is what the symbol's last message of the
kind said (`statuses_last`), and a symbol has a book once a message has
named it, whatever the message was.
-/

open Std

namespace Mde

open Messages

variable {P : Type*} [LinearOrder P]

/-! ## What a message writes -/

/-- `'4'` and `'5'` are the status codes that halt and resume. -/
def haltOf : Payload P → Option Bool
  | .securityStatus msg =>
    if msg.securityStatus = '4'.toUInt8 then some true
    else if msg.securityStatus = '5'.toUInt8 then some false
    else none
  | _ => none

/-- A blank indicator is written too. -/
def rpiOf : Payload P → Option (Option Byte)
  | .retailPriceImprovement msg => some msg.rpiIndicator
  | _ => none

def infoOf : Payload P → Option (SymbolIndexMapping P)
  | .symbolIndexMapping msg => some msg
  | _ => none

def imbalanceOf : Payload P → Option (Imbalance P)
  | .imbalance msg => some msg
  | _ => none

namespace SymbolBook

/-- The members that messages overwrite. -/
abbrev status (book : SymbolBook P) :
    Bool × Option Byte × Option (SymbolIndexMapping P) × Option (Imbalance P) :=
  (book.halted, book.lastRpiIndicator, book.info, book.lastImbalance)

variable (book : SymbolBook P)

theorem status_addLevel (side : Byte) (price : P) (volume : UInt64) :
    (book.addLevel side price volume).status = book.status := by
  rw [addLevel]
  split <;> rfl

theorem status_removeLevel (side : Byte) (price : P) (volume : UInt64) :
    (book.removeLevel side price volume).1.status = book.status := by
  rw [removeLevel]
  split <;> rfl

theorem status_putOrder (orderId : UInt64) (order : LiveOrder P) :
    (book.putOrder orderId order).status = book.status :=
  status_addLevel _ ..

theorem status_dropOrder (orderId : UInt64) :
    (book.dropOrder orderId).1.status = book.status := by
  rw [dropOrder]
  split
  · rfl
  · exact status_removeLevel _ ..

theorem status_executeOrder (orderId volume : UInt64) :
    (book.executeOrder orderId volume).1.status = book.status := by
  rw [executeOrder]
  split
  · rfl
  · dsimp only
    split
    · exact status_removeLevel _ ..
    · exact status_removeLevel _ ..

theorem status_modifyOrder (msg : ModifyOrder P) :
    (book.applyModifyOrder msg).1.status = book.status := by
  rw [applyModifyOrder]
  split
  · rfl
  · exact (status_putOrder _ ..).trans (status_removeLevel _ ..)

theorem status_tradeCancel (msg : TradeCancel) :
    (book.applyTradeCancel msg).1.status = book.status := by
  rw [applyTradeCancel]
  split
  · rfl
  · split <;> rfl

theorem status_crossCorrection (msg : CrossCorrection) :
    (book.applyCrossCorrection msg).1.status = book.status := by
  rw [applyCrossCorrection]
  split
  · rfl
  · split <;> rfl

/-- A message writes what it says, and leaves the rest of the status alone. -/
theorem status_apply (data : Payload P) :
    (book.apply data).1.status
      = ((haltOf data).getD book.halted, (rpiOf data).getD book.lastRpiIndicator,
        ((infoOf data).map some).getD book.info,
        ((imbalanceOf data).map some).getD book.lastImbalance) := by
  cases data with
  | securityStatus msg =>
      rw [apply, applySecurityStatus, haltOf]
      split
      · rfl
      · split <;> rfl
  | modifyOrder msg => exact book.status_modifyOrder msg
  | deleteOrder msg => exact book.status_dropOrder msg.orderId
  | orderExecution msg => exact status_executeOrder _ ..
  | replaceOrder msg => exact (status_putOrder _ ..).trans (book.status_dropOrder msg.orderId)
  | addOrder msg => exact book.status_putOrder ..
  | addOrderRefresh msg => exact book.status_putOrder ..
  | tradeCancel msg => exact book.status_tradeCancel msg
  | crossCorrection msg => exact book.status_crossCorrection msg
  | symbolIndexMapping msg => rfl
  | retailPriceImprovement msg => rfl
  | imbalance msg => rfl
  | nonDisplayedTrade msg => rfl
  | crossTrade msg => rfl

end SymbolBook

/-! ## Runs -/

namespace OrderBook

/-- A member that messages overwrite is what the symbol's last message said that wrote
it. -/
theorem member_run {V : Type*} (member : SymbolBook P → V) (write : Payload P → Option V)
    (hwrite : ∀ book data, member (SymbolBook.apply book data).1
      = (write data).getD (member book)) (msgs : List (Payload P)) (symbol : Str) :
    member ((run msgs).getOrCreateBook symbol)
      = ((own symbol msgs).filterMap write).getLast?.getD (member {}) := by
  have halone : ∀ ms : List (Payload P), member (alone ms).1
      = ms.foldl (fun v data => (write data).getD v) (member {}) := by
    intro ms
    induction ms using List.reverseRecOn with
    | nil => rfl
    | append_singleton ms data ih =>
        rw [List.foldl_append, ← ih, alone, Shard.Machine.alone_append_singleton]
        exact hwrite _ data
  rw [getOrCreateBook_run, halone, LastWrite.foldl_getD]

theorem optional_member_run {V : Type*} (member : SymbolBook P → Option V)
    (write : Payload P → Option V) (hempty : member {} = none)
    (hwrite : ∀ book data, member (SymbolBook.apply book data).1
      = ((write data).map some).getD (member book)) (msgs : List (Payload P)) (symbol : Str) :
    member ((run msgs).getOrCreateBook symbol)
      = ((own symbol msgs).filterMap write).getLast? := by
  rw [member_run member (fun data => (write data).map some) hwrite, hempty,
    ← List.map_filterMap, List.getLast?_map]
  cases ((own symbol msgs).filterMap write).getLast? <;> rfl

/-- **Status, static data and imbalance are the last ones published.** After any run, of
each symbol: it is halted when its last halt or resume was a halt, and its RPI indicator,
its static data and its imbalance are those of its last messages of these kinds. The
symbols with a book are those that some message named, each listed once. -/
theorem statuses_last (msgs : List (Payload P)) :
    (∀ symbol : Str,
      (run msgs).isHalted symbol = ((own symbol msgs).filterMap haltOf).getLast?.getD false
        ∧ ((run msgs).getOrCreateBook symbol).lastRpiIndicator
          = ((own symbol msgs).filterMap rpiOf).getLast?.getD none
        ∧ (run msgs).getSymbolInfo symbol = ((own symbol msgs).filterMap infoOf).getLast?
        ∧ (run msgs).getImbalance symbol
          = ((own symbol msgs).filterMap imbalanceOf).getLast?)
      ∧ (run msgs).getSymbols.Perm (msgs.map Payload.symbol).dedup
      ∧ (run msgs).getActiveBookCount = (msgs.map Payload.symbol).dedup.length := by
  have hperm : (run msgs).getSymbols.Perm (msgs.map Payload.symbol).dedup := by
    refine (List.perm_ext_iff_of_nodup ExtTreeMap.nodup_keys (List.nodup_dedup _)).mpr ?_
    intro symbol
    show symbol ∈ (run msgs).books.keys ↔ _
    rw [run_eq_shards, ExtTreeMap.mem_keys, List.mem_dedup, List.mem_map,
      Shard.Machine.mem_cells_iff]
    rfl
  refine ⟨fun symbol => ⟨?_, ?_, ?_, ?_⟩, hperm, ?_⟩
  · rw [isHalted_eq]
    exact member_run SymbolBook.halted haltOf
      (fun book data => (Prod.mk.injEq .. |>.mp (book.status_apply data)).1) msgs symbol
  · exact member_run SymbolBook.lastRpiIndicator rpiOf
      (fun book data => (Prod.mk.injEq .. |>.mp
        (Prod.mk.injEq .. |>.mp (book.status_apply data)).2).1) msgs symbol
  · rw [getSymbolInfo_eq]
    exact optional_member_run SymbolBook.info infoOf rfl
      (fun book data => congrArg (fun status => status.2.2.1) (book.status_apply data)) msgs symbol
  · rw [getImbalance_eq]
    exact optional_member_run SymbolBook.lastImbalance imbalanceOf rfl
      (fun book data => congrArg (fun status => status.2.2.2) (book.status_apply data)) msgs symbol
  · rw [← hperm.length_eq, getSymbols, ExtTreeMap.length_keys]
    rfl

end OrderBook

end Mde
