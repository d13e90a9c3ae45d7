import Mde.Streams
import Mde.TradeErasure

/-!
# The trade statistics and the streams of their IDs

Which order of the messages matters to the statistics of a symbol. What a
message makes of the records under its key it reads from these records
alone, so the records under every key, and the refusals, depend on the
messages under this key only. A log is the same up to its order when it is
the same under every key: then the high, the low and the total volume are
the same too, and only the open and the close tell in which order the
trades were logged.

No ID has to be fresh: a trade that a repeated ID hides is among the
records under its key all the same.
-/

open Std KeyedLog

namespace Mde

open Messages

variable {P : Type*}

/-! ## The streams of a book -/

namespace Tape

def cells (P : Type*) : Streams TradeKey (Tape P) (Payload P) where
  touched msg := (tradeKey msg).toList
  step key tape msg := if tradeKey msg = some key then tape.step msg else tape
  frame key tape msg h := if_neg fun hkey => h (by rw [hkey]; exact List.mem_singleton_self key)

theorem stream_cells (key : TradeKey) (msgs : List (Payload P)) :
    (cells P).stream key msgs = under (· == key) msgs := by
  refine List.filter_congr fun msg _ => ?_
  show decide (key ∈ (tradeKey msg).toList) = _
  cases tradeKey msg with
  | none => rfl
  | some key' =>
      rw [Option.any_some, Option.toList_some, Bool.beq_eq_decide_eq]
      simp only [List.mem_singleton, eq_comm]

theorem refusals_eq_of_under_eq {msgs msgs' : List (Payload P)}
    (h : ∀ key, under (· == key) msgs = under (· == key) msgs') :
    refusals msgs = refusals msgs' := by
  refine (cells P).countAlong_eq_of_stream_eq tradeKey (fun tape msg => tape.refuses msg)
    (fun (tape : Tape P) key => tape.restrict (· == key)) ?_ ?_ ?_ [] fun key => ?_
  · intro tape msg
    funext key
    show _ = if tradeKey msg = some key then _ else _
    rw [restrict_step]
    cases tradeKey msg with
    | none => rfl
    | some key' => simp
  · intro tape msg
    cases hkey : tradeKey msg with
    | none => cases msg <;> first | rfl | cases hkey
    | some key =>
        rw [Option.any_some]
        exact (refuses_restrict (· == key) tape msg (by simp [hkey])).symm
  · intro msg key hkey
    show key ∈ (tradeKey msg).toList
    simp [hkey]
  · rw [stream_cells, stream_cells, h]

theorem ofMessages_perm {msgs msgs' : List (Payload P)}
    (h : ∀ key, under (· == key) msgs = under (· == key) msgs') :
    (ofMessages msgs).Perm (ofMessages msgs') := by
  refine perm_of_filter_eq fun key => ?_
  show restrict (· == key) _ = restrict (· == key) _
  rw [restrict_ofMessages, restrict_ofMessages, h]

end Tape

variable [LinearOrder P]

/-! ## Statistics up to the order -/

/-- The high, the low and the total volume do not depend on the order of the trades. -/
structure SameRange (stats stats' : DailyStats P) : Prop where
  high : stats.high = stats'.high
  low : stats.low = stats'.low
  totalVolume : stats.totalVolume = stats'.totalVolume

theorem sameRange_ofTrades {trades trades' : List (TradeRecord P)} (h : trades.Perm trades') :
    SameRange (DailyStats.ofTrades trades) (DailyStats.ofTrades trades') where
  high := by
    refine Option.ext fun price => ?_
    simp only [DailyStats.ofTrades, List.max?_eq_some_iff, (h.map TradeRecord.price).mem_iff]
  low := by
    refine Option.ext fun price => ?_
    simp only [DailyStats.ofTrades, List.min?_eq_some_iff, (h.map TradeRecord.price).mem_iff]
  totalVolume := (h.map TradeRecord.volume).sum_eq

/-! ## The book -/

/-- **Only the streams of the trades matter to the range.** Two runs in which every trade
ID and every cross ID of a symbol has the same messages in the same order, however these
are interleaved with other messages and whatever IDs are repeated, log the same live
trades up to their order. Every symbol has the same high, low and total volume, and the
same messages are refused. The prices are of a linear order: with trades at NaN the high
and the low of the source do depend on the interleaving. -/
theorem trade_interleaving_irrelevant {msgs msgs' : List (Payload P)}
    (h : ∀ symbol key, under (· == key) (OrderBook.own symbol msgs)
      = under (· == key) (OrderBook.own symbol msgs')) :
    (∀ symbol, (liveTrades ((OrderBook.run msgs).getOrCreateBook symbol).tradeLog).Perm
        (liveTrades ((OrderBook.run msgs').getOrCreateBook symbol).tradeLog))
      ∧ (∀ symbol, SameRange ((OrderBook.run msgs).getDailyStats symbol)
        ((OrderBook.run msgs').getDailyStats symbol))
      ∧ (OrderBook.run msgs).getTradeLedgerFailures
        = (OrderBook.run msgs').getTradeLedgerFailures := by
  have htaped : ∀ (ms : List (Payload P)) symbol, Taped ((OrderBook.run ms).getOrCreateBook symbol)
      (Tape.ofMessages (OrderBook.own symbol ms)) := by
    intro ms symbol
    rw [OrderBook.getOrCreateBook_run]
    exact Taped.alone _
  have hlive : ∀ symbol, (liveTrades ((OrderBook.run msgs).getOrCreateBook symbol).tradeLog).Perm
      (liveTrades ((OrderBook.run msgs').getOrCreateBook symbol).tradeLog) := by
    intro symbol
    rw [(htaped msgs symbol).log, (htaped msgs' symbol).log]
    exact ((Tape.ofMessages_perm (h symbol)).map Prod.snd).filter _
  refine ⟨hlive, fun symbol => ?_, ?_⟩
  · rw [OrderBook.getDailyStats_eq, OrderBook.getDailyStats_eq, (htaped msgs symbol).stats,
      (htaped msgs' symbol).stats, DailyStats.recompute_eq, DailyStats.recompute_eq]
    exact sameRange_ofTrades (hlive symbol)
  · have hrefusals : ∀ symbol, (OrderBook.alone (OrderBook.own symbol msgs)).2.tradeLedger
        = (OrderBook.alone (OrderBook.own symbol msgs')).2.tradeLedger := by
      intro symbol
      rw [Taped.alone_tradeLedger, Taped.alone_tradeLedger]
      exact Tape.refusals_eq_of_under_eq (h symbol)
    rw [OrderBook.run_eq_shards, OrderBook.run_eq_shards]
    exact (OrderBook.machine.run_part_eq (fun _ : SymbolBook P => ()) Failures.tradeLedgerHom
      fun symbol => ⟨rfl, hrefusals symbol⟩).2

/-- A cancelled trade, a trade and a cross in two orders: the range is the same, and the
open is not. -/
theorem trade_interleaving_irrelevant_sample :
    let trade (id : UInt64) (price : Nat) : Payload Nat :=
      .nonDisplayedTrade ⟨0, [], 0, id, price, 100, true⟩
    let cross : Payload Nat := .crossTrade ⟨0, [], 0, 1, 15, 200, 'O'.toUInt8⟩
    let cancel : Payload Nat := .tradeCancel ⟨0, [], 0, 1⟩
    let stats (msgs : List (Payload Nat)) := (OrderBook.run msgs).getDailyStats []
    SameRange (stats [trade 1 30, trade 2 20, cancel, cross])
        (stats [cross, trade 2 20, trade 1 30, cancel])
      ∧ (stats [trade 1 30, trade 2 20, cancel, cross]).open' = some 20
      ∧ (stats [cross, trade 2 20, trade 1 30, cancel]).open' = some 15 := by
  intro trade cross cancel stats
  have hstream : ∀ symbol key,
      under (· == key) (OrderBook.own symbol [trade 1 30, trade 2 20, cancel, cross])
        = under (· == key) (OrderBook.own symbol [cross, trade 2 20, trade 1 30, cancel]) := by
    intro symbol key
    by_cases hs : [] = symbol
    · subst hs
      by_cases h1 : .trade 1 = key
      · subst h1; decide
      · by_cases h2 : .trade 2 = key
        · subst h2; decide
        · by_cases h3 : .cross 1 = key
          · subst h3; decide
          · simp [under, tradeKey, OrderBook.own, Shard.Machine.own, trade, cross, cancel, h1, h2,
              h3]
    · simp [under, OrderBook.own, Shard.Machine.own, OrderBook.machine, Payload.symbol, trade,
        cross, cancel, hs]
  exact ⟨(trade_interleaving_irrelevant hstream).2.1 [], by decide, by decide⟩

end Mde
