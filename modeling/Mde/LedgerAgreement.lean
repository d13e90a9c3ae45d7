import Mde.BookTrades

/-!
# The book's trades and the trade ledger

`trade_ledger.hpp` documents `TradeLedger` as the ledger `OrderBook`
reuses; `OrderBook` keeps a second copy of it, with two ID maps instead
of one. Here the two run side by side.

`toLedgerCall` translates a message into the ledger call it stands for.
`SameLedger` relates a symbol's book and ledger: equal logs, equal
statistics, and ID maps that agree, the trade map on the numbers used
as trade IDs and the cross map on those used as cross IDs. As long as no
number is used as both, every message keeps the relation and counts the
same failures (`ledgers_agree`).
-/

open Std

namespace Mde

open Messages

variable {P : Type*}

/-! ## The translation -/

/-- The call of a `TradeLedger` that a message stands for. -/
def toLedgerCall : Payload P → Option (LedgerCall P)
  | .orderExecution msg =>
    some ⟨msg.symbol, .recordTrade msg.tradeId msg.price msg.volume⟩
  | .nonDisplayedTrade msg =>
    some ⟨msg.symbol, .recordTrade msg.tradeId msg.price msg.volume⟩
  | .crossTrade msg => some ⟨msg.symbol, .recordTrade msg.crossId msg.price msg.volume⟩
  | .tradeCancel msg => some ⟨msg.symbol, .cancelTrade msg.tradeId⟩
  | .crossCorrection msg => some ⟨msg.symbol, .adjustVolume msg.crossId msg.volume⟩
  | _ => none

def toLedgerCalls (msgs : List (Payload P)) : List (LedgerCall P) :=
  msgs.filterMap toLedgerCall

/-- The number an execution, a non-displayed trade or a cancel uses as trade ID. -/
def tradeIdOf : Payload P → Option UInt64
  | .orderExecution msg => some msg.tradeId
  | .nonDisplayedTrade msg => some msg.tradeId
  | .tradeCancel msg => some msg.tradeId
  | _ => none

/-- The number a cross or a correction uses as cross ID. -/
def crossIdOf : Payload P → Option UInt64
  | .crossTrade msg => some msg.crossId
  | .crossCorrection msg => some msg.crossId
  | _ => none

def DisjointIds (msgs : List (Payload P)) : Prop :=
  ∀ msg ∈ msgs, ∀ msg' ∈ msgs, msg.symbol = msg'.symbol →
    ∀ id ∈ tradeIdOf msg, crossIdOf msg' ≠ some id

theorem toLedgerCall_symbol {msg : Payload P} {c : LedgerCall P}
    (h : toLedgerCall msg = some c) : c.symbol = msg.symbol := by
  cases msg with
  | orderExecution msg => obtain rfl := Option.some.inj h; rfl
  | nonDisplayedTrade msg => obtain rfl := Option.some.inj h; rfl
  | crossTrade msg => obtain rfl := Option.some.inj h; rfl
  | tradeCancel msg => obtain rfl := Option.some.inj h; rfl
  | crossCorrection msg => obtain rfl := Option.some.inj h; rfl
  | _ => cases h

theorem isTradeMessage_of_toLedgerCall_none {msg : Payload P}
    (h : toLedgerCall msg = none) : isTradeMessage msg = false := by
  cases msg <;> first | rfl | cases h

variable [LinearOrder P]

/-! ## One symbol, side by side -/

/-- A book's trade side and a ledger with the same content. `IsCross` tells the
numbers used as cross IDs from those used as trade IDs. -/
structure SameLedger (IsCross : UInt64 → Prop) (book : SymbolBook P)
    (ledger : SymbolLedger P) : Prop where
  log : book.tradeLog = ledger.log
  stats : book.stats = ledger.stats
  trades : ∀ id, ¬IsCross id → book.tradesById[id]? = ledger.byId[id]?
  crosses : ∀ id, IsCross id → book.crossesById[id]? = ledger.byId[id]?

/-- What one call leads to on both sides: the relation again, and equal failures. -/
def SameStep (IsCross : UInt64 → Prop) (r : SymbolBook P × Failures)
    (r' : SymbolLedger P × Bool) : Prop :=
  SameLedger IsCross r.1 r'.1 ∧ r.2.tradeLedger = if r'.2 then 0 else 1

namespace SameLedger

variable {IsCross : UInt64 → Prop} {book : SymbolBook P} {ledger : SymbolLedger P}

theorem congr {book' : SymbolBook P} (hbook : book'.trades = book.trades)
    (h : SameLedger IsCross book ledger) : SameLedger IsCross book' ledger := by
  obtain ⟨hs, hl, ht, hc⟩ := Trades.mk.injEq .. |>.mp hbook
  refine ⟨hl.trans h.log, hs.trans h.stats, fun id hid => ?_, fun id hid => ?_⟩
  · rw [ht]; exact h.trades id hid
  · rw [hc]; exact h.crosses id hid

theorem logTrade (h : SameLedger IsCross book ledger) {id : UInt64} (hid : ¬IsCross id)
    (price : P) (volume : UInt64) :
    SameLedger IsCross (book.logTrade id price volume)
      (ledger.recordTrade id price volume) where
  log := by
    show book.tradeLog ++ _ = ledger.log ++ _
    rw [h.log]
  stats := by
    show book.stats.foldIntoStats price volume = ledger.stats.foldIntoStats price volume
    rw [h.stats]
  trades id' hid' := by
    simp only [SymbolBook.logTrade, SymbolBook.appendTrade, SymbolLedger.recordTrade,
      SymbolLedger.appendRaw, TreeSum.getElem?_insert, h.log, h.trades id' hid']
  crosses id' hid' := by
    have hne : id' ≠ id := fun heq => hid (heq ▸ hid')
    simp only [SymbolBook.logTrade, SymbolBook.appendTrade, SymbolLedger.recordTrade,
      SymbolLedger.appendRaw, TreeSum.getElem?_insert, if_neg hne, h.crosses id' hid']

theorem crossTrade (h : SameLedger IsCross book ledger) (msg : CrossTrade P)
    (hid : IsCross msg.crossId) :
    SameLedger IsCross (book.applyCrossTrade msg).1
      (ledger.recordTrade msg.crossId msg.price msg.volume) where
  log := by
    show book.tradeLog ++ _ = ledger.log ++ _
    rw [h.log]
  stats := by
    show book.stats.foldIntoStats _ _ = ledger.stats.foldIntoStats _ _
    rw [h.stats]
  trades id' hid' := by
    have hne : id' ≠ msg.crossId := fun heq => hid' (heq ▸ hid)
    simp only [SymbolBook.applyCrossTrade, SymbolBook.appendTrade, SymbolLedger.recordTrade,
      SymbolLedger.appendRaw, TreeSum.getElem?_insert, if_neg hne, h.trades id' hid']
  crosses id' hid' := by
    simp only [SymbolBook.applyCrossTrade, SymbolBook.appendTrade, SymbolLedger.recordTrade,
      SymbolLedger.appendRaw, TreeSum.getElem?_insert, h.log, h.crosses id' hid']

theorem tradeCancel (h : SameLedger IsCross book ledger) (msg : TradeCancel)
    (hid : ¬IsCross msg.tradeId) :
    SameStep IsCross (book.applyTradeCancel msg) (ledger.cancelTrade msg.tradeId) := by
  rw [SymbolBook.applyTradeCancel, SymbolLedger.cancelTrade, SymbolLedger.liveIndex?,
    h.trades _ hid, h.log]
  cases ledger.byId[msg.tradeId]? with
  | none => exact ⟨h, rfl⟩
  | some index =>
      dsimp only
      split
      · exact ⟨h, rfl⟩
      · exact ⟨⟨rfl, rfl, h.trades, h.crosses⟩, rfl⟩

theorem crossCorrection (h : SameLedger IsCross book ledger) (msg : CrossCorrection)
    (hid : IsCross msg.crossId) :
    SameStep IsCross (book.applyCrossCorrection msg)
      (ledger.adjustVolume msg.crossId msg.volume) := by
  rw [SymbolBook.applyCrossCorrection, SymbolLedger.adjustVolume, h.crosses _ hid, h.log,
    h.stats]
  cases ledger.byId[msg.crossId]? with
  | none => exact ⟨h, rfl⟩
  | some index =>
      dsimp only
      cases ledger.log[index]? with
      | none => exact ⟨h, rfl⟩
      | some trade => exact ⟨⟨rfl, rfl, h.trades, h.crosses⟩, rfl⟩

/-- **The step lemma.** A message with a call moves book and ledger alike. -/
theorem apply (h : SameLedger IsCross book ledger) {msg : Payload P} {c : LedgerCall P}
    (hcall : toLedgerCall msg = some c)
    (htrade : ∀ id, tradeIdOf msg = some id → ¬IsCross id)
    (hcross : ∀ id, crossIdOf msg = some id → IsCross id) :
    SameStep IsCross (book.apply msg) (ledger.apply c.op) := by
  cases msg with
  | orderExecution msg =>
      obtain rfl := Option.some.inj hcall
      obtain ⟨htrades, hfail⟩ := book.applyOrderExecution_trades msg
      exact ⟨(h.logTrade (htrade _ rfl) _ _).congr htrades, hfail⟩
  | nonDisplayedTrade msg =>
      obtain rfl := Option.some.inj hcall
      exact ⟨h.logTrade (htrade _ rfl) _ _, rfl⟩
  | crossTrade msg =>
      obtain rfl := Option.some.inj hcall
      exact ⟨h.crossTrade msg (hcross _ rfl), rfl⟩
  | tradeCancel msg =>
      obtain rfl := Option.some.inj hcall
      exact h.tradeCancel msg (htrade _ rfl)
  | crossCorrection msg =>
      obtain rfl := Option.some.inj hcall
      exact h.crossCorrection msg (hcross _ rfl)
  | _ => cases hcall

end SameLedger

/-! ## All symbols -/

def SameLedgers (IsCross : Str → UInt64 → Prop) (ob : OrderBook P) (tape : TradeLedger P) :
    Prop :=
  (∀ symbol, SameLedger (IsCross symbol) (ob.getOrCreateBook symbol)
      (tape.getOrCreate symbol))
    ∧ ob.getTradeLedgerFailures = tape.getFailureCount

theorem sameLedgers_empty (IsCross : Str → UInt64 → Prop) :
    SameLedgers IsCross ({} : OrderBook P) {} := by
  refine ⟨?_, rfl⟩
  intro symbol
  rw [OrderBook.getOrCreateBook_empty, TradeLedger.getOrCreate_empty]
  exact ⟨rfl, rfl, fun id _ => by simp, fun id _ => by simp⟩

namespace SameLedgers

variable {IsCross : Str → UInt64 → Prop} {ob : OrderBook P} {tape : TradeLedger P}

theorem frame (h : SameLedgers IsCross ob tape) {msg : Payload P}
    (hcall : toLedgerCall msg = none) : SameLedgers IsCross (ob.onMessage msg) tape := by
  have hmsg := isTradeMessage_of_toLedgerCall_none hcall
  refine ⟨fun symbol => ?_, ?_⟩
  · rw [OrderBook.getOrCreateBook_onMessage]
    split
    · exact (h.1 symbol).congr (SymbolBook.apply_trades_frame _ hmsg).1
    · exact h.1 symbol
  · show ob.tradeLedgerFailures + _ = _
    rw [(SymbolBook.apply_trades_frame _ hmsg).2]
    exact h.2

theorem call (h : SameLedgers IsCross ob tape) {msg : Payload P} {c : LedgerCall P}
    (hcall : toLedgerCall msg = some c)
    (htrade : ∀ id, tradeIdOf msg = some id → ¬IsCross msg.symbol id)
    (hcross : ∀ id, crossIdOf msg = some id → IsCross msg.symbol id) :
    SameLedgers IsCross (ob.onMessage msg) (tape.call c).1 := by
  have hsymbol := toLedgerCall_symbol hcall
  obtain ⟨hsame, hfail⟩ := (h.1 msg.symbol).apply hcall htrade hcross
  refine ⟨fun symbol => ?_, ?_⟩
  · rw [OrderBook.getOrCreateBook_onMessage, TradeLedger.getOrCreate_call, hsymbol]
    split
    · rename_i hs
      subst hs
      exact hsame
    · exact h.1 symbol
  · show ob.tradeLedgerFailures + _ = tape.failures + _
    rw [hfail, hsymbol]
    exact congrArg (· + _) h.2

end SameLedgers

/-- The run lemma: the relation holds after any messages that use their numbers
as `IsCross` says. -/
theorem sameLedgers_run {IsCross : Str → UInt64 → Prop} {msgs : List (Payload P)}
    (htrade : ∀ msg ∈ msgs, ∀ id, tradeIdOf msg = some id → ¬IsCross msg.symbol id)
    (hcross : ∀ msg ∈ msgs, ∀ id, crossIdOf msg = some id → IsCross msg.symbol id) :
    SameLedgers IsCross (OrderBook.run msgs) (TradeLedger.run (toLedgerCalls msgs)) := by
  induction msgs using List.reverseRecOn with
  | nil => exact sameLedgers_empty IsCross
  | append_singleton msgs msg ih =>
      have hprev := ih (fun m hm => htrade m (List.mem_append_left _ hm))
        fun m hm => hcross m (List.mem_append_left _ hm)
      rw [OrderBook.run_append_singleton, toLedgerCalls, List.filterMap_append]
      cases hcall : toLedgerCall msg with
      | none =>
          rw [List.filterMap_cons_none hcall, List.filterMap_nil, List.append_nil]
          exact hprev.frame hcall
      | some c =>
          rw [List.filterMap_cons_some hcall, List.filterMap_nil, TradeLedger.run,
            List.foldl_append]
          exact hprev.call hcall (htrade msg (by simp)) (hcross msg (by simp))

/-- **The two ledgers agree.** When no number is used as a trade ID and as a cross
ID of one symbol, the book's statistics and failure count are those of a
`TradeLedger` that gets the translated calls. -/
theorem ledgers_agree {msgs : List (Payload P)} (h : DisjointIds msgs) :
    (∀ symbol, (OrderBook.run msgs).getDailyStats symbol
        = (TradeLedger.run (toLedgerCalls msgs)).getDailyStats symbol)
      ∧ (OrderBook.run msgs).getTradeLedgerFailures
        = (TradeLedger.run (toLedgerCalls msgs)).getFailureCount := by
  let IsCross : Str → UInt64 → Prop := fun symbol id =>
    ∃ msg ∈ msgs, msg.symbol = symbol ∧ crossIdOf msg = some id
  have htrade : ∀ msg ∈ msgs, ∀ id, tradeIdOf msg = some id → ¬IsCross msg.symbol id := by
    rintro msg hm id hid ⟨msg', hm', hs, hid'⟩
    exact h msg hm msg' hm' hs.symm id hid hid'
  have hcross : ∀ msg ∈ msgs, ∀ id, crossIdOf msg = some id → IsCross msg.symbol id :=
    fun msg hm id hid => ⟨msg, hm, rfl, hid⟩
  obtain ⟨hsame, hfail⟩ := sameLedgers_run htrade hcross
  refine ⟨?_, hfail⟩
  intro symbol
  rw [OrderBook.getDailyStats_eq, TradeLedger.getDailyStats_eq]
  exact (hsame symbol).stats

/-- A trade cancelled twice, and a cross corrected. -/
def tradesAndCrosses : List (Payload Nat) :=
  [.nonDisplayedTrade ⟨0, [], 0, 1, 10, 100, true⟩,
    .crossTrade ⟨0, [], 0, 2, 12, 200, 'O'.toUInt8⟩,
    .tradeCancel ⟨0, [], 0, 1⟩, .tradeCancel ⟨0, [], 0, 1⟩,
    .crossCorrection ⟨0, [], 0, 2, 250⟩]

theorem ledgers_agree_tradesAndCrosses :
    (OrderBook.run tradesAndCrosses).getDailyStats []
        = (TradeLedger.run (toLedgerCalls tradesAndCrosses)).getDailyStats []
      ∧ (TradeLedger.run (toLedgerCalls tradesAndCrosses)).getFailureCount = 1 := by
  have h : DisjointIds tradesAndCrosses := by
    simp [DisjointIds, tradesAndCrosses, tradeIdOf, crossIdOf]
  obtain ⟨hstats, hfail⟩ := ledgers_agree h
  refine ⟨hstats [], hfail.symm.trans ?_⟩
  decide

end Mde
