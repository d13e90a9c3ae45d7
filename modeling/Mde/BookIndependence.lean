import Mde.BookReference
import Mde.BookTrades

/-!
# What does not influence a book

Two-run laws of the order book.

- Symbols are independent (`interleaving_irrelevant`): the book is a
  machine sharded by symbol, so only each symbol's own subsequence
  matters, not how the subsequences interleave.
- The displayed book and the trade statistics are independent
  (`halves_independent`): each is driven by its own messages, and the
  execution, which drives both, does to each what it would do alone.
-/

open Std

namespace Mde

open Messages OrderBook

variable {P : Type*} [LinearOrder P]

/-! ## Symbols -/

structure SameAccessors (symbol : Str) (ob ob' : OrderBook P) : Prop where
  topOfBook : ob.getTopOfBook symbol = ob'.getTopOfBook symbol
  dailyStats : ob.getDailyStats symbol = ob'.getDailyStats symbol
  halted : ob.isHalted symbol = ob'.isHalted symbol
  symbolInfo : ob.getSymbolInfo symbol = ob'.getSymbolInfo symbol
  imbalance : ob.getImbalance symbol = ob'.getImbalance symbol

theorem sameAccessors_of_book {symbol : Str} {ob ob' : OrderBook P}
    (h : ob.getOrCreateBook symbol = ob'.getOrCreateBook symbol) :
    SameAccessors symbol ob ob' where
  topOfBook := by rw [getTopOfBook_eq, getTopOfBook_eq, h]
  dailyStats := by rw [getDailyStats_eq, getDailyStats_eq, h]
  halted := by rw [isHalted_eq, isHalted_eq, h]
  symbolInfo := by rw [getSymbolInfo_eq, getSymbolInfo_eq, h]
  imbalance := by rw [getImbalance_eq, getImbalance_eq, h]

theorem run_eq_of_own_eq {msgs msgs' : List (Payload P)}
    (h : ∀ symbol, own symbol msgs = own symbol msgs') : run msgs = run msgs' := by
  have hshards : shards msgs = shards msgs' := machine.run_eq_of_own_eq h
  rw [run_eq_shards, run_eq_shards, hshards]

/-- **Symbols are independent.** Sequences with the same messages for every symbol
end with the same accessors, symbols and counts; and a symbol's accessors depend
on its own messages only. -/
theorem interleaving_irrelevant (msgs msgs' : List (Payload P)) :
    ((∀ symbol, own symbol msgs = own symbol msgs') →
        (∀ symbol, SameAccessors symbol (run msgs) (run msgs'))
          ∧ (∀ symbol, symbol ∈ (run msgs).getSymbols ↔ symbol ∈ (run msgs').getSymbols)
          ∧ (run msgs).getLiveOrderCount = (run msgs').getLiveOrderCount
          ∧ (run msgs).getBookBuildFailures = (run msgs').getBookBuildFailures
          ∧ (run msgs).getTradeLedgerFailures = (run msgs').getTradeLedgerFailures)
      ∧ ∀ symbol, own symbol msgs = own symbol msgs' →
        SameAccessors symbol (run msgs) (run msgs') := by
  have hown : ∀ symbol, own symbol msgs = own symbol msgs' →
      SameAccessors symbol (run msgs) (run msgs') := by
    intro symbol hsymbol
    refine sameAccessors_of_book ?_
    rw [getOrCreateBook_run, getOrCreateBook_run, hsymbol]
  refine ⟨?_, hown⟩
  intro h
  have hrun := run_eq_of_own_eq h
  refine ⟨fun symbol => hown symbol (h symbol), fun symbol => ?_, ?_, ?_, ?_⟩
  · rw [hrun]
  · rw [hrun]
  · rw [hrun]
  · rw [hrun]

/-- Two symbols' messages with coinciding IDs, interleaved in two ways. -/
theorem interleaving_irrelevant_two_symbols :
    let add (symbol : Str) (price : Nat) : Payload Nat :=
      .addOrder ⟨0, symbol, 0, 1, price, 100, 'B'.toUInt8, []⟩
    let delete (symbol : Str) : Payload Nat := .deleteOrder ⟨0, symbol, 0, 1⟩
    SameAccessors [65] (run [add [65] 10, delete [66], delete [65], add [66] 20])
        (run [delete [66], add [66] 20, add [65] 10, delete [65]])
      ∧ (run [add [65] 10, delete [66], delete [65], add [66] 20]).getBookBuildFailures
        = (run [delete [66], add [66] 20, add [65] 10, delete [65]]).getBookBuildFailures := by
  intro add delete
  obtain ⟨hall, hsymbol⟩ := interleaving_irrelevant
    [add [65] 10, delete [66], delete [65], add [66] 20]
    [delete [66], add [66] 20, add [65] 10, delete [65]]
  have hown : ∀ symbol, own symbol [add [65] 10, delete [66], delete [65], add [66] 20]
      = own symbol [delete [66], add [66] 20, add [65] 10, delete [65]] := by
    intro symbol
    by_cases ha : [65] = symbol
    · subst ha; decide
    · by_cases hb : [66] = symbol
      · subst hb; decide
      · simp [own, Shard.Machine.own, machine, Payload.symbol, add, delete, ha, hb]
  exact ⟨hsymbol [65] (by decide), (hall hown).2.2.2.1⟩

/-! ## The two halves of a book -/

/-- Without the messages that are not order messages, every displayed part and
the build failures are the same. -/
theorem run_filter_display (msgs : List (Payload P)) :
    (∀ symbol, ((run (msgs.filter isOrderMessage)).getOrCreateBook symbol).display
        = ((run msgs).getOrCreateBook symbol).display)
      ∧ (run (msgs.filter isOrderMessage)).getBookBuildFailures
        = (run msgs).getBookBuildFailures := by
  rw [run_eq_shards, run_eq_shards]
  exact machine.run_filter SymbolBook.display Failures.bookBuildHom
    (fun _ _ msg h => SymbolBook.apply_display_congr h msg)
    (fun book _ h => book.apply_display_frame h) msgs

/-- Without the messages that are not trade messages, every trade side and the
trade failures are the same. -/
theorem run_filter_trades (msgs : List (Payload P)) :
    (∀ symbol, ((run (msgs.filter isTradeMessage)).getOrCreateBook symbol).trades
        = ((run msgs).getOrCreateBook symbol).trades)
      ∧ (run (msgs.filter isTradeMessage)).getTradeLedgerFailures
        = (run msgs).getTradeLedgerFailures := by
  rw [run_eq_shards, run_eq_shards]
  exact machine.run_filter SymbolBook.trades Failures.tradeLedgerHom
    (fun _ _ msg h => SymbolBook.apply_trades_congr h msg)
    (fun book _ h => book.apply_trades_frame h) msgs

omit [LinearOrder P] in
theorem RefBook.run_filter (msgs : List (Payload P)) :
    RefBook.run (msgs.filter isOrderMessage) = RefBook.run msgs := by
  rw [RefBook.run, RefBook.run, List.foldl_filter]
  congr 1
  funext ref msg
  cases msg <;> rfl

theorem sameDisplayed_of_filter_eq {msgs msgs' : List (Payload P)}
    (h : msgs.filter isOrderMessage = msgs'.filter isOrderMessage) :
    SameDisplayed (run msgs) (run msgs') := by
  obtain ⟨hdisplay, hbuild⟩ := run_filter_display msgs
  obtain ⟨hdisplay', hbuild'⟩ := run_filter_display msgs'
  have hlevel : ∀ symbol bid price, ((run msgs).getOrCreateBook symbol).level bid price
      = ((run msgs').getOrCreateBook symbol).level bid price := by
    intro symbol bid price
    have hsame : ((run msgs).getOrCreateBook symbol).display
        = ((run msgs').getOrCreateBook symbol).display := by
      rw [← hdisplay, h, hdisplay']
    obtain ⟨-, hb, ha⟩ := Display.mk.injEq .. |>.mp hsame
    rw [SymbolBook.level, SymbolBook.level, hb, ha]
  refine ⟨hlevel, fun symbol => ?_, ?_, ?_⟩
  · rw [getTopOfBook_eq, getTopOfBook_eq]
    exact SymbolBook.topOfBook_congr (hlevel symbol)
  · rw [(run_orders msgs).getLiveOrderCount, (run_orders msgs').getLiveOrderCount,
      ← RefBook.run_filter msgs, h, RefBook.run_filter]
  · rw [← hbuild, h, hbuild']

/-- **The displayed book and the trade statistics do not interfere.** Each is the
same without the messages that drive only the other. -/
theorem halves_independent (msgs : List (Payload P)) :
    SameDisplayed (run (msgs.filter isOrderMessage)) (run msgs)
      ∧ (∀ symbol, (run (msgs.filter isTradeMessage)).getDailyStats symbol
        = (run msgs).getDailyStats symbol)
      ∧ (run (msgs.filter isTradeMessage)).getTradeLedgerFailures
        = (run msgs).getTradeLedgerFailures := by
  obtain ⟨htrades, htrade⟩ := run_filter_trades msgs
  refine ⟨sameDisplayed_of_filter_eq (by simp [List.filter_filter]), fun symbol => ?_, htrade⟩
  rw [getDailyStats_eq, getDailyStats_eq]
  exact congrArg Trades.stats (htrades symbol)

end Mde
