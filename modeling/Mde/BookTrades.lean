import Mde.KeyedLog
import Mde.LedgerStats
import Mde.OrderBook

/-!
# The trades of a book

The trade side of a book: the statistics, the trade log and the two ID
maps. Five messages write it (`apply_trades_frame`), and none of them
reads anything else (`apply_trades_congr`).

`Tape` is the log as the messages define it, without index maps: an
execution, a non-displayed trade and a cross append under their ID, a
cancel and a correction revise the last trade or cross under theirs.
`Taped` relates a book to its tape. Trades and crosses have separate
keys, so a cancel never reaches a cross; that is why the correction's
volume delta is right without looking at the cancelled flag, and the
statistics are those of a full rebuild after any messages
(`bookStats_agree`).
-/

open Std KeyedLog

namespace Mde

open Messages

variable {P : Type*}

/-! ## The trade side of a book -/

def isTradeMessage : Payload P → Bool
  | .orderExecution _ => true
  | .nonDisplayedTrade _ => true
  | .crossTrade _ => true
  | .tradeCancel _ => true
  | .crossCorrection _ => true
  | _ => false

@[ext] structure Trades (P : Type*) where
  stats : DailyStats P
  tradeLog : List (TradeRecord P)
  tradesById : ExtTreeMap UInt64 Nat
  crossesById : ExtTreeMap UInt64 Nat

variable [LinearOrder P]

namespace SymbolBook

def trades (book : SymbolBook P) : Trades P :=
  ⟨book.stats, book.tradeLog, book.tradesById, book.crossesById⟩

@[simp] theorem addLevel_trades (book : SymbolBook P) (side : Byte) (price : P)
    (volume : UInt64) : (book.addLevel side price volume).trades = book.trades := by
  unfold addLevel
  split <;> rfl

@[simp] theorem removeLevel_trades (book : SymbolBook P) (side : Byte) (price : P)
    (volume : UInt64) : (book.removeLevel side price volume).1.trades = book.trades := by
  unfold removeLevel
  split <;> rfl

@[simp] theorem putOrder_trades (book : SymbolBook P) (id : UInt64) (order : LiveOrder P) :
    (book.putOrder id order).trades = book.trades :=
  addLevel_trades ..

theorem dropOrder_trades (book : SymbolBook P) (id : UInt64) :
    (book.dropOrder id).1.trades = book.trades ∧ (book.dropOrder id).2.tradeLedger = 0 := by
  unfold dropOrder
  split
  · exact ⟨rfl, rfl⟩
  · exact ⟨removeLevel_trades .., rfl⟩

theorem executeOrder_trades (book : SymbolBook P) (id volume : UInt64) :
    (book.executeOrder id volume).1.trades = book.trades
      ∧ (book.executeOrder id volume).2.tradeLedger = 0 := by
  unfold executeOrder
  split
  · exact ⟨rfl, rfl⟩
  · dsimp only
    split <;> exact ⟨removeLevel_trades .., rfl⟩

/-- An execution logs its trade whether or not the order is live. -/
theorem applyOrderExecution_trades (book : SymbolBook P) (msg : OrderExecution P) :
    (book.applyOrderExecution msg).1.trades
        = (book.logTrade msg.tradeId msg.price msg.volume).trades
      ∧ (book.applyOrderExecution msg).2.tradeLedger = 0 :=
  executeOrder_trades ..

/-- Every other message leaves the trade side and its failure counter alone. -/
theorem apply_trades_frame (book : SymbolBook P) {msg : Payload P}
    (h : isTradeMessage msg = false) :
    (book.apply msg).1.trades = book.trades ∧ (book.apply msg).2.tradeLedger = 0 := by
  cases msg with
  | addOrder msg => exact ⟨putOrder_trades .., rfl⟩
  | addOrderRefresh msg => exact ⟨putOrder_trades .., rfl⟩
  | deleteOrder msg => exact dropOrder_trades ..
  | replaceOrder msg =>
      obtain ⟨htrades, hfail⟩ := dropOrder_trades book msg.orderId
      exact ⟨(putOrder_trades ..).trans htrades, hfail⟩
  | modifyOrder msg =>
      show (book.applyModifyOrder msg).1.trades = _ ∧ (book.applyModifyOrder msg).2.tradeLedger = 0
      unfold applyModifyOrder
      split
      · exact ⟨rfl, rfl⟩
      · exact ⟨(putOrder_trades ..).trans (removeLevel_trades ..), rfl⟩
  | securityStatus msg =>
      show (book.applySecurityStatus msg).1.trades = _
        ∧ (book.applySecurityStatus msg).2.tradeLedger = 0
      unfold applySecurityStatus
      split
      · exact ⟨rfl, rfl⟩
      · split <;> exact ⟨rfl, rfl⟩
  | symbolIndexMapping msg => exact ⟨rfl, rfl⟩
  | retailPriceImprovement msg => exact ⟨rfl, rfl⟩
  | imbalance msg => exact ⟨rfl, rfl⟩
  | _ => cases h

theorem logTrade_congr {book book' : SymbolBook P} (h : book.trades = book'.trades)
    (id : UInt64) (price : P) (volume : UInt64) :
    (book.logTrade id price volume).trades = (book'.logTrade id price volume).trades := by
  obtain ⟨hs, hl, ht, hc⟩ := Trades.mk.injEq .. |>.mp h
  simp only [trades, logTrade, appendTrade, hs, hl, ht, hc]

theorem apply_trades_congr {book book' : SymbolBook P} (h : book.trades = book'.trades)
    (msg : Payload P) :
    (book.apply msg).1.trades = (book'.apply msg).1.trades
      ∧ (book.apply msg).2.tradeLedger = (book'.apply msg).2.tradeLedger := by
  obtain ⟨hs, hl, ht, hc⟩ := Trades.mk.injEq .. |>.mp h
  cases hmsg : isTradeMessage msg with
  | false =>
      obtain ⟨htrades, hfail⟩ := book.apply_trades_frame hmsg
      obtain ⟨htrades', hfail'⟩ := book'.apply_trades_frame hmsg
      rw [htrades, htrades', hfail, hfail']
      exact ⟨h, rfl⟩
  | true =>
      cases msg with
      | orderExecution msg =>
          obtain ⟨htrades, hfail⟩ := book.applyOrderExecution_trades msg
          obtain ⟨htrades', hfail'⟩ := book'.applyOrderExecution_trades msg
          exact ⟨htrades.trans ((logTrade_congr h ..).trans htrades'.symm),
            hfail.trans hfail'.symm⟩
      | nonDisplayedTrade msg => exact ⟨logTrade_congr h .., rfl⟩
      | crossTrade msg =>
          simp [apply, applyCrossTrade, appendTrade, trades, hs, hl, ht, hc]
      | tradeCancel msg =>
          simp only [apply, applyTradeCancel, ht, hl]
          split
          · exact ⟨h, rfl⟩
          · split
            · exact ⟨h, rfl⟩
            · simp [trades, recomputeStats, hc]
      | crossCorrection msg =>
          simp only [apply, applyCrossCorrection, hc, hl, hs]
          split
          · exact ⟨h, rfl⟩
          · split
            · exact ⟨h, rfl⟩
            · simp [trades, ht]
      | _ => cases hmsg

end SymbolBook

/-! ## The tape -/

/-- What a trade record is logged under. Trade IDs and cross IDs are separate. -/
inductive TradeKey where
  | trade (id : UInt64)
  | cross (id : UInt64)
deriving DecidableEq, Repr

/-- The trade log as the messages define it. -/
abbrev Tape (P : Type*) := List (TradeKey × TradeRecord P)

omit [LinearOrder P] in
/-- A cancel revises the last trade under its trade ID, a correction the last
cross under its cross ID. -/
def Tape.step (tape : Tape P) : Payload P → Tape P
  | .orderExecution msg => tape ++ [(.trade msg.tradeId, ⟨msg.price, msg.volume, false⟩)]
  | .nonDisplayedTrade msg => tape ++ [(.trade msg.tradeId, ⟨msg.price, msg.volume, false⟩)]
  | .crossTrade msg => tape ++ [(.cross msg.crossId, ⟨msg.price, msg.volume, false⟩)]
  | .tradeCancel msg =>
    reviseLast (fun trade => { trade with cancelled := true }) tape (.trade msg.tradeId)
  | .crossCorrection msg =>
    reviseLast (fun trade => { trade with volume := msg.volume }) tape (.cross msg.crossId)
  | _ => tape

def Tape.ofMessages (msgs : List (Payload P)) : Tape P := msgs.foldl Tape.step []

/-- A book keeps its tape: the log holds the records, the ID maps the positions,
no cross is cancelled, and the statistics are those of a rebuild. -/
structure Taped (book : SymbolBook P) (tape : Tape P) : Prop where
  log : book.tradeLog = tape.map Prod.snd
  trades : ∀ id : UInt64, book.tradesById[id]? = lastIdx? tape (.trade id)
  crosses : ∀ id : UInt64, book.crossesById[id]? = lastIdx? tape (.cross id)
  crossLive : ∀ (id : UInt64) (trade : TradeRecord P),
    (TradeKey.cross id, trade) ∈ tape → trade.cancelled = false
  stats : book.stats = DailyStats.recompute book.tradeLog

theorem taped_empty : Taped ({} : SymbolBook P) [] where
  log := rfl
  trades := fun id => by simp [lastIdx?]
  crosses := fun id => by simp [lastIdx?]
  crossLive := fun id trade h => by cases h
  stats := rfl

namespace Taped

variable {book : SymbolBook P} {tape : Tape P}

theorem congr {book' : SymbolBook P} (hbook : book'.trades = book.trades)
    (h : Taped book tape) : Taped book' tape := by
  obtain ⟨hs, hl, ht, hc⟩ := Trades.mk.injEq .. |>.mp hbook
  refine ⟨?_, fun id => ?_, fun id => ?_, h.crossLive, ?_⟩
  · rw [hl]; exact h.log
  · rw [ht]; exact h.trades id
  · rw [hc]; exact h.crosses id
  · rw [hs, hl]; exact h.stats

theorem getElem?_log (h : Taped book tape) {key : TradeKey} {index : Nat}
    (hindex : lastIdx? tape key = some index) :
    ∃ trade, book.tradeLog[index]? = some trade ∧ (key, trade) ∈ tape := by
  obtain ⟨trade, htrade⟩ := getElem?_of_lastIdx? hindex
  refine ⟨trade, ?_, List.mem_of_getElem? htrade⟩
  rw [h.log, List.getElem?_map, htrade]
  rfl

/-- Appending a record under a key, as `AppendTrade` does with the statistics
folded in. -/
theorem append (h : Taped book tape) (key : TradeKey) (price : P) (volume : UInt64)
    {tradesById crossesById : ExtTreeMap UInt64 Nat}
    (htrades : ∀ id : UInt64, tradesById[id]?
      = if key = .trade id then some tape.length else book.tradesById[id]?)
    (hcrosses : ∀ id : UInt64, crossesById[id]?
      = if key = .cross id then some tape.length else book.crossesById[id]?) :
    Taped { (book.appendTrade price volume).1 with tradesById, crossesById }
      (tape ++ [(key, ⟨price, volume, false⟩)]) where
  log := by
    show book.tradeLog ++ [_] = _
    rw [h.log, List.map_append]
    rfl
  trades id := by
    rw [lastIdx?_concat, ← h.trades]
    exact htrades id
  crosses id := by
    rw [lastIdx?_concat, ← h.crosses]
    exact hcrosses id
  crossLive id trade hmem := by
    rcases List.mem_append.mp hmem with hmem | hmem
    · exact h.crossLive id trade hmem
    · obtain ⟨-, rfl⟩ := Prod.mk.injEq .. |>.mp (List.mem_singleton.mp hmem)
      rfl
  stats := by
    show book.stats.foldIntoStats price volume
      = DailyStats.recompute (book.tradeLog ++ [⟨price, volume, false⟩])
    rw [h.stats, DailyStats.recompute_append_live]

theorem length_eq (h : Taped book tape) : book.tradeLog.length = tape.length := by
  rw [h.log, List.length_map]

theorem logTrade (h : Taped book tape) (id : UInt64) (price : P) (volume : UInt64) :
    Taped (book.logTrade id price volume) (tape ++ [(.trade id, ⟨price, volume, false⟩)]) := by
  refine h.append (.trade id) price volume (fun id' => ?_) fun id' => ?_
  · rw [TreeSum.getElem?_insert]
    simp only [SymbolBook.appendTrade, List.length_append, h.length_eq, TradeKey.trade.injEq,
      eq_comm (a := id'), List.length_singleton, Nat.add_sub_cancel]
  · rw [if_neg (by simp)]
    rfl

theorem crossTrade (h : Taped book tape) (msg : CrossTrade P) :
    Taped (book.applyCrossTrade msg).1 (tape.step (.crossTrade msg)) := by
  refine h.append (.cross msg.crossId) msg.price msg.volume (fun id' => ?_) fun id' => ?_
  · rw [if_neg (by simp)]
    rfl
  · rw [TreeSum.getElem?_insert]
    simp only [SymbolBook.appendTrade, List.length_append, h.length_eq, TradeKey.cross.injEq,
      eq_comm (a := id'), List.length_singleton, Nat.add_sub_cancel]

/-- A cancel rebuilds the statistics; it reaches trades only. -/
theorem tradeCancel (h : Taped book tape) (msg : TradeCancel) :
    Taped (book.applyTradeCancel msg).1 (tape.step (.tradeCancel msg)) := by
  let cancel : TradeRecord P → TradeRecord P := fun trade => { trade with cancelled := true }
  show Taped _ (reviseLast cancel tape (.trade msg.tradeId))
  rw [SymbolBook.applyTradeCancel]
  cases hid : book.tradesById[msg.tradeId]? with
  | none =>
      have hlast : lastIdx? tape (.trade msg.tradeId) = none := (h.trades _).symm.trans hid
      rw [reviseLast, hlast]
      exact h
  | some index =>
      have hlast : lastIdx? tape (.trade msg.tradeId) = some index :=
        (h.trades _).symm.trans hid
      obtain ⟨trade, hlog, -⟩ := h.getElem?_log hlast
      dsimp only
      rw [hlog, Option.any_some]
      cases hc : trade.cancelled with
      | false =>
          refine ⟨?_, fun id => ?_, fun id => ?_, fun id trade' hmem => ?_, rfl⟩
          · rw [map_snd_reviseLast hlast, ← h.log]
            rfl
          · rw [lastIdx?_reviseLast]
            exact h.trades id
          · rw [lastIdx?_reviseLast]
            exact h.crosses id
          · rcases mem_reviseLast hmem with hmem | ⟨hkey, -⟩
            · exact h.crossLive id trade' hmem
            · cases hkey
      | true =>
          -- the record is cancelled already: the code stops, and the revision
          -- writes what is there
          have hsame : reviseLast cancel tape (.trade msg.tradeId) = tape := by
            refine reviseLast_eq_self fun trade' hlast' => ?_
            rw [last?, hlast, Option.bind_some, ← List.getElem?_map, ← h.log, hlog] at hlast'
            obtain rfl := Option.some.inj hlast'
            cases trade
            cases hc
            rfl
          rw [if_pos rfl, hsame]
          exact h

/-- A correction applies its delta to the statistics. The record is a cross, so it
is live and a rebuild would count it. -/
theorem crossCorrection (h : Taped book tape) (msg : CrossCorrection) :
    Taped (book.applyCrossCorrection msg).1 (tape.step (.crossCorrection msg)) := by
  let correct : TradeRecord P → TradeRecord P := fun trade => { trade with volume := msg.volume }
  show Taped _ (reviseLast correct tape (.cross msg.crossId))
  rw [SymbolBook.applyCrossCorrection]
  cases hid : book.crossesById[msg.crossId]? with
  | none =>
      have hlast : lastIdx? tape (.cross msg.crossId) = none := (h.crosses _).symm.trans hid
      rw [reviseLast, hlast]
      exact h
  | some index =>
      have hlast : lastIdx? tape (.cross msg.crossId) = some index :=
        (h.crosses _).symm.trans hid
      obtain ⟨trade, hlog, hmem⟩ := h.getElem?_log hlast
      have hlive := h.crossLive _ _ hmem
      have hset : book.tradeLog.set index (correct trade)
          = book.tradeLog.modify index correct := by
        rw [List.modify_eq_set_getElem?, hlog]
        rfl
      simp only [hlog]
      refine ⟨?_, fun id => ?_, fun id => ?_, fun id trade' hmem' => ?_, ?_⟩
      · rw [map_snd_reviseLast hlast, ← h.log]
        exact hset
      · rw [lastIdx?_reviseLast]
        exact h.trades id
      · rw [lastIdx?_reviseLast]
        exact h.crosses id
      · rcases mem_reviseLast hmem' with hmem' | ⟨-, old, hold, rfl⟩
        · exact h.crossLive id trade' hmem'
        · show old.cancelled = false
          exact h.crossLive _ _ hold
      · show book.stats.adjustTotal msg.volume trade.volume
          = DailyStats.recompute (book.tradeLog.set index (correct trade))
        rw [DailyStats.recompute_set hlog, if_neg (by simp [hlive]), h.stats]

/-- **The step lemma.** A message takes a book and its tape to a book and its
tape. -/
theorem apply (h : Taped book tape) (msg : Payload P) :
    Taped (book.apply msg).1 (tape.step msg) := by
  cases hmsg : isTradeMessage msg with
  | false =>
      have hstep : tape.step msg = tape := by
        cases msg <;> first | rfl | cases hmsg
      rw [hstep]
      exact h.congr (book.apply_trades_frame hmsg).1
  | true =>
      cases msg with
      | orderExecution msg =>
          exact (h.logTrade _ _ _).congr (book.applyOrderExecution_trades msg).1
      | nonDisplayedTrade msg => exact h.logTrade _ _ _
      | crossTrade msg => exact h.crossTrade msg
      | tradeCancel msg => exact h.tradeCancel msg
      | crossCorrection msg => exact h.crossCorrection msg
      | _ => cases hmsg

theorem alone (msgs : List (Payload P)) :
    Taped (OrderBook.alone msgs).1 (Tape.ofMessages msgs) := by
  induction msgs using List.reverseRecOn with
  | nil => exact taped_empty
  | append_singleton msgs msg ih =>
      rw [OrderBook.alone, Shard.Machine.alone_append_singleton, Tape.ofMessages,
        List.foldl_append]
      exact ih.apply msg

end Taped

/-- **The statistics are those of a full rebuild.** After any messages, whatever
IDs they repeat, `RecomputeStats` would leave a symbol's statistics as they are:
they are those of the live records of the symbol's tape. -/
theorem bookStats_agree (msgs : List (Payload P)) (symbol : Str) :
    let book := (OrderBook.run msgs).getOrCreateBook symbol
    let stats := (OrderBook.run msgs).getDailyStats symbol
    let records := (Tape.ofMessages (OrderBook.own symbol msgs)).map Prod.snd
    book.recomputeStats.stats = stats
      ∧ book.tradeLog = records
      ∧ stats = DailyStats.ofTrades (liveTrades records)
      ∧ stats.Coherent := by
  intro book stats records
  have htaped : Taped book (Tape.ofMessages (OrderBook.own symbol msgs)) := by
    rw [show book = _ from OrderBook.getOrCreateBook_run msgs symbol]
    exact Taped.alone _
  have hstats : stats = DailyStats.recompute book.tradeLog :=
    (OrderBook.getDailyStats_eq _ symbol).trans htaped.stats
  have hrecords : stats = DailyStats.ofTrades (liveTrades records) := by
    rw [hstats, DailyStats.recompute_eq, htaped.log]
  refine ⟨hstats.symm, htaped.log, hrecords, ?_⟩
  rw [hrecords]
  exact DailyStats.ofTrades_coherent _

end Mde
