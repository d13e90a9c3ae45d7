import Mde.BookTrades
import Mde.SignedDelta

/-!
# Correcting a volume in signed arithmetic

`ApplyCrossCorrection` and `AdjustVolume` compute the new volume less the
old one, and the total plus that, in `std::int64_t`. The total they store
is the right one whenever that is a 64-bit number, but the operations on
the way are undefined where they overflow.

* `volumeCorrected_adjustTotal` — when one correction is defined and
  exact.
* `SymbolBook.inRange_cross`, `SymbolLedger.inRange_record` — in a book,
  and in a ledger whose statistics agree, the old volume is part of the
  total, so the exact total is no obstacle.
* `volumeCorrected_iff` — the two over whole runs.
* `oneShareCross_overflows` — a cross of one share corrected to the first
  volume that reads as a negative number.
-/

open Std

namespace Mde

open Messages SignedDelta

variable {P : Type*}

/-! ## The exact volume of a list of trades -/

def exactVolume (trades : List (TradeRecord P)) : Nat :=
  (trades.map fun trade => trade.volume.toNat).sum

theorem le_exactVolume {trades : List (TradeRecord P)} {trade : TradeRecord P}
    (h : trade ∈ trades) : trade.volume.toNat ≤ exactVolume trades :=
  List.le_sum_of_mem (List.mem_map_of_mem h)

theorem toNat_sum_volume (trades : List (TradeRecord P)) :
    ((trades.map TradeRecord.volume).sum).toNat = exactVolume trades % 2 ^ 64 := by
  induction trades with
  | nil => rfl
  | cons trade trades ih =>
      simp only [exactVolume, List.map_cons, List.sum_cons] at ih ⊢
      rw [UInt64.toNat_add, ih, Nat.add_mod_mod]

theorem mem_liveTrades {log : List (TradeRecord P)} {index : Nat} {trade : TradeRecord P}
    (h : log[index]? = some trade) (hlive : trade.cancelled = false) :
    trade ∈ liveTrades log :=
  List.mem_filter.mpr ⟨List.mem_of_getElem? h, by rw [hlive]; rfl⟩

variable [LinearOrder P]

/-- The total of a rebuild is exact while the exact one is a 64-bit number. -/
theorem totalVolume_recompute {log : List (TradeRecord P)}
    (h : exactVolume (liveTrades log) < 2 ^ 64) :
    (DailyStats.recompute log).totalVolume.toNat = exactVolume (liveTrades log) := by
  rw [DailyStats.recompute_eq]
  exact (toNat_sum_volume _).trans (Nat.mod_eq_of_lt h)

/-! ## One correction -/

/-- The signed operations of a correction are defined, and the total it stores is the
total less the old volume plus the new one. -/
structure VolumeCorrected (total oldVolume newVolume total' : UInt64) : Prop where
  defined : NoOverflow total oldVolume newVolume
  exact : (total'.toNat : Int) = total.toNat - oldVolume.toNat + newVolume.toNat

/-- The exact total after a correction is a 64-bit number. -/
def InRange (total oldVolume newVolume : Nat) : Prop :=
  oldVolume ≤ total + newVolume ∧ total + newVolume - oldVolume < 2 ^ 64

omit [LinearOrder P] in
/-- **One correction.** The stored total is exact as soon as it can be; the
operations are defined when the difference fits as well. -/
theorem volumeCorrected_adjustTotal (stats : DailyStats P) (newVolume oldVolume : UInt64) :
    VolumeCorrected stats.totalVolume oldVolume newVolume
        (stats.adjustTotal newVolume oldVolume).totalVolume
      ↔ InRange stats.totalVolume.toNat oldVolume.toNat newVolume.toNat
        ∧ Fits stats.totalVolume.toNat oldVolume.toNat newVolume.toNat := by
  show VolumeCorrected _ _ _ (stats.totalVolume + (newVolume - oldVolume)) ↔ _
  constructor
  · rintro ⟨hdefined, hexact⟩
    have hlt := (stats.totalVolume + (newVolume - oldVolume)).toNat_lt
    have hrange : InRange stats.totalVolume.toNat oldVolume.toNat newVolume.toNat := by
      unfold InRange
      omega
    exact ⟨hrange, (noOverflow_iff hrange.1 hrange.2).mp hdefined⟩
  · rintro ⟨hrange, hfits⟩
    refine ⟨(noOverflow_iff hrange.1 hrange.2).mpr hfits, ?_⟩
    have hle := hrange.1
    rw [toNat_applied hrange.1 hrange.2]
    omega

/-- While the statistics are those of a rebuild and the sums are 64-bit numbers, the
correction of a live record is in range. -/
theorem inRange_of_live {log : List (TradeRecord P)} {index : Nat} {trade : TradeRecord P}
    (h : log[index]? = some trade) (hlive : trade.cancelled = false)
    (htotal : exactVolume (liveTrades log) < 2 ^ 64) {newVolume : UInt64}
    (hcorrected : exactVolume (liveTrades log) - trade.volume.toNat + newVolume.toNat < 2 ^ 64) :
    InRange (DailyStats.recompute log).totalVolume.toNat trade.volume.toNat
      newVolume.toNat := by
  have hle := le_exactVolume (mem_liveTrades h hlive)
  rw [totalVolume_recompute htotal]
  unfold InRange
  omega

namespace SymbolBook

/-- The record `_tradeLog[_crossesById[crossId]]`. -/
def cross? (book : SymbolBook P) (crossId : UInt64) : Option (TradeRecord P) :=
  match book.crossesById[crossId]? with
  | none => none
  | some index => book.tradeLog[index]?

theorem applyCrossCorrection_stats {book : SymbolBook P} {msg : CrossCorrection}
    {trade : TradeRecord P} (h : book.cross? msg.crossId = some trade) :
    (book.applyCrossCorrection msg).1.stats
      = book.stats.adjustTotal msg.volume trade.volume := by
  rw [cross?] at h
  rw [applyCrossCorrection]
  cases hid : book.crossesById[msg.crossId]? with
  | none =>
      rw [hid] at h
      cases h
  | some index =>
      rw [hid] at h
      dsimp only at h ⊢
      rw [h]

theorem inRange_cross {book : SymbolBook P} {tape : Tape P} (htaped : Taped book tape)
    {msg : CrossCorrection} {trade : TradeRecord P}
    (h : book.cross? msg.crossId = some trade)
    (htotal : exactVolume (liveTrades book.tradeLog) < 2 ^ 64)
    (hcorrected : exactVolume (liveTrades book.tradeLog) - trade.volume.toNat
      + msg.volume.toNat < 2 ^ 64) :
    InRange book.stats.totalVolume.toNat trade.volume.toNat msg.volume.toNat := by
  rw [cross?] at h
  split at h
  · cases h
  · rename_i index hindex
    obtain ⟨trade', hlog, hmem⟩ := htaped.getElem?_log ((htaped.crosses _).symm.trans hindex)
    obtain rfl : trade = trade' := Option.some.inj (h.symm.trans hlog)
    rw [htaped.stats]
    exact inRange_of_live hlog (htaped.crossLive _ _ hmem) htotal hcorrected

end SymbolBook

namespace SymbolLedger

omit [LinearOrder P] in
theorem adjustVolume_stats {ledger : SymbolLedger P} {id : UInt64} {trade : TradeRecord P}
    (h : ledger.record? id = some trade) (newVolume : UInt64) :
    (ledger.adjustVolume id newVolume).1.stats
      = ledger.stats.adjustTotal newVolume trade.volume := by
  rw [record?] at h
  rw [adjustVolume]
  cases hid : ledger.byId[id]? with
  | none =>
      rw [hid] at h
      cases h
  | some index =>
      rw [hid] at h
      dsimp only at h ⊢
      rw [h]

theorem inRange_record {ledger : SymbolLedger P} (hagrees : ledger.Agrees) {id : UInt64}
    {trade : TradeRecord P} (h : ledger.record? id = some trade)
    (hlive : trade.cancelled = false)
    (htotal : exactVolume (liveTrades ledger.log) < 2 ^ 64) {newVolume : UInt64}
    (hcorrected : exactVolume (liveTrades ledger.log) - trade.volume.toNat
      + newVolume.toNat < 2 ^ 64) :
    InRange ledger.stats.totalVolume.toNat trade.volume.toNat newVolume.toNat := by
  rw [record?] at h
  split at h
  · cases h
  · rw [agrees_iff_recompute.mp hagrees]
    exact inRange_of_live h hlive htotal hcorrected

end SymbolLedger

/-! ## Over whole runs -/

/-- The total of a symbol's statistics, before and after a correction of a cross, in
the book that some messages leave. -/
def CrossCorrected (msgs : List (Payload P)) (msg : CrossCorrection)
    (trade : TradeRecord P) : Prop :=
  VolumeCorrected ((OrderBook.run msgs).getDailyStats msg.symbol).totalVolume
    trade.volume msg.volume
    (((OrderBook.run msgs).onMessage (.crossCorrection msg)).getDailyStats
      msg.symbol).totalVolume

/-- The total before and after an `AdjustVolume` in the ledger that some calls leave. -/
def Adjusted (calls : List (LedgerCall P)) (symbol : Str) (id newVolume : UInt64)
    (trade : TradeRecord P) : Prop :=
  VolumeCorrected ((TradeLedger.run calls).getDailyStats symbol).totalVolume
    trade.volume newVolume
    (((TradeLedger.run calls).adjustVolume symbol id newVolume).1.getDailyStats
      symbol).totalVolume

theorem crossCorrected_iff {msgs : List (Payload P)} {msg : CrossCorrection}
    {trade : TradeRecord P}
    (h : ((OrderBook.run msgs).getOrCreateBook msg.symbol).cross? msg.crossId = some trade) :
    CrossCorrected msgs msg trade
      ↔ InRange ((OrderBook.run msgs).getDailyStats msg.symbol).totalVolume.toNat
          trade.volume.toNat msg.volume.toNat
        ∧ Fits ((OrderBook.run msgs).getDailyStats msg.symbol).totalVolume.toNat
          trade.volume.toNat msg.volume.toNat := by
  have hstats : ((OrderBook.run msgs).onMessage (.crossCorrection msg)).getDailyStats msg.symbol
      = ((OrderBook.run msgs).getDailyStats msg.symbol).adjustTotal msg.volume trade.volume := by
    rw [OrderBook.getDailyStats_eq, OrderBook.getDailyStats_eq]
    exact (congrArg SymbolBook.stats (OrderBook.getOrCreateBook_onMessage_self ..)).trans
      (SymbolBook.applyCrossCorrection_stats h)
  rw [CrossCorrected, hstats]
  exact volumeCorrected_adjustTotal ..

theorem adjusted_iff {calls : List (LedgerCall P)} {symbol : Str} {id : UInt64}
    {trade : TradeRecord P}
    (h : ((TradeLedger.run calls).getOrCreate symbol).record? id = some trade)
    (newVolume : UInt64) :
    Adjusted calls symbol id newVolume trade
      ↔ InRange ((TradeLedger.run calls).getDailyStats symbol).totalVolume.toNat
          trade.volume.toNat newVolume.toNat
        ∧ Fits ((TradeLedger.run calls).getDailyStats symbol).totalVolume.toNat
          trade.volume.toNat newVolume.toNat := by
  have hstats : ((TradeLedger.run calls).adjustVolume symbol id newVolume).1.getDailyStats symbol
      = ((TradeLedger.run calls).getDailyStats symbol).adjustTotal newVolume trade.volume := by
    rw [TradeLedger.getDailyStats_eq, TradeLedger.getDailyStats_eq, TradeLedger.adjustVolume,
      TradeLedger.getOrCreate_call, if_pos rfl]
    exact SymbolLedger.adjustVolume_stats h newVolume
  rw [Adjusted, hstats]
  exact volumeCorrected_adjustTotal ..

/-- **When a volume correction is defined and exact.** In a book whose trades, and
whose corrected trades, add up to a 64-bit number: exactly when the difference fits.
In a ledger the same holds of a live record, as long as no `AdjustVolume` has changed
the volume of a cancelled one; of any record, exactly when the corrected total is in
range as well. -/
theorem volumeCorrected_iff :
    (∀ (msgs : List (Payload P)) (msg : CrossCorrection) (trade : TradeRecord P),
      let book := (OrderBook.run msgs).getOrCreateBook msg.symbol
      book.cross? msg.crossId = some trade →
      exactVolume (liveTrades book.tradeLog) < 2 ^ 64 →
      exactVolume (liveTrades book.tradeLog) - trade.volume.toNat + msg.volume.toNat
        < 2 ^ 64 →
      (CrossCorrected msgs msg trade
        ↔ Fits (exactVolume (liveTrades book.tradeLog)) trade.volume.toNat msg.volume.toNat))
    ∧ (∀ (calls : List (LedgerCall P)) (symbol : Str) (id newVolume : UInt64)
        (trade : TradeRecord P),
      let ledger := (TradeLedger.run calls).getOrCreate symbol
      ledger.record? id = some trade →
      ((Runs.Along (fun tape c => (TradeLedger.call tape c).1) TradeLedger.SparesCancelled {}
          calls ∧ trade.cancelled = false ∧
        exactVolume (liveTrades ledger.log) < 2 ^ 64 ∧
        exactVolume (liveTrades ledger.log) - trade.volume.toNat + newVolume.toNat
          < 2 ^ 64) →
        (Adjusted calls symbol id newVolume trade
          ↔ Fits (exactVolume (liveTrades ledger.log)) trade.volume.toNat newVolume.toNat))
      ∧ (Adjusted calls symbol id newVolume trade
        ↔ InRange ledger.stats.totalVolume.toNat trade.volume.toNat newVolume.toNat
          ∧ Fits ledger.stats.totalVolume.toNat trade.volume.toNat newVolume.toNat)) := by
  constructor
  · intro msgs msg trade book hcross htotal hcorrected
    have htaped : Taped book (Tape.ofMessages (OrderBook.own msg.symbol msgs)) := by
      rw [show book = _ from OrderBook.getOrCreateBook_run msgs msg.symbol]
      exact Taped.alone _
    have hrange := SymbolBook.inRange_cross htaped hcross htotal hcorrected
    have hvolume : book.stats.totalVolume.toNat = exactVolume (liveTrades book.tradeLog) := by
      rw [htaped.stats]
      exact totalVolume_recompute htotal
    rw [crossCorrected_iff hcross, OrderBook.getDailyStats_eq, and_iff_right hrange, hvolume]
  · intro calls symbol id newVolume trade ledger hrecord
    have hadjusted := adjusted_iff hrecord newVolume
    rw [TradeLedger.getDailyStats_eq] at hadjusted
    refine ⟨?_, hadjusted⟩
    rintro ⟨hspare, hlive, htotal, hcorrected⟩
    have hagrees : ledger.Agrees :=
      TradeLedger.agrees_iff.mp (TradeLedger.agrees_run hspare) symbol
    have hrange := SymbolLedger.inRange_record hagrees hrecord hlive htotal hcorrected
    have hvolume : ledger.stats.totalVolume.toNat = exactVolume (liveTrades ledger.log) := by
      rw [SymbolLedger.agrees_iff_recompute.mp hagrees]
      exact totalVolume_recompute htotal
    rw [hadjusted, and_iff_right hrange, hvolume]

/-- A cross of 200 corrected to 250 beside a trade of 100, and the same trades in a
ledger. -/
theorem volumeCorrected_iff_cross :
    let trade : NonDisplayedTrade Nat := ⟨0, [], 0, 1, 10, 100, true⟩
    let cross : CrossTrade Nat := ⟨0, [], 0, 2, 12, 200, 'O'.toUInt8⟩
    CrossCorrected [.nonDisplayedTrade trade, .crossTrade cross] ⟨0, [], 0, 2, 250⟩
        ⟨12, 200, false⟩
      ∧ Adjusted [⟨[], .recordTrade 1 10 100⟩, ⟨[], .recordTrade 2 12 200⟩] [] 2 250
        (⟨12, 200, false⟩ : TradeRecord Nat) := by
  intro trade cross
  let calls : List (LedgerCall Nat) :=
    [⟨[], .recordTrade 1 10 100⟩, ⟨[], .recordTrade 2 12 200⟩]
  obtain ⟨hbook, hledger⟩ := @volumeCorrected_iff Nat _
  obtain ⟨hlive, -⟩ := hledger calls [] 2 250 ⟨12, 200, false⟩ (by decide)
  refine ⟨(hbook _ ⟨0, [], 0, 2, 250⟩ ⟨12, 200, false⟩ ?_ ?_ ?_).mpr ?_,
    (hlive ⟨⟨trivial, trivial, trivial⟩, rfl, ?_, ?_⟩).mpr ?_⟩
  all_goals decide

def oneShareCross : List (Payload Nat) := [.crossTrade ⟨0, [], 0, 1, 10, 1, 'O'.toUInt8⟩]

/-- It is corrected to the first volume that reads as a negative number: the difference
of the signed readings is below every signed 64-bit integer. -/
theorem oneShareCross_overflows :
    let msg : CrossCorrection := ⟨0, [], 0, 1, 2 ^ 63⟩
    let book := (OrderBook.run oneShareCross).getOrCreateBook []
    book.cross? 1 = some ⟨10, 1, false⟩
      ∧ exactVolume (liveTrades book.tradeLog) = 1
      ∧ signed msg.volume - signed 1 = -2 ^ 63 - 1
      ∧ ¬ CrossCorrected oneShareCross msg ⟨10, 1, false⟩ := by
  intro msg book
  have hsub : signed msg.volume - signed 1 = -2 ^ 63 - 1 := by decide +kernel
  refine ⟨by decide, by decide, hsub, fun h => ?_⟩
  obtain ⟨hlow, -⟩ := h.defined.subtraction
  rw [hsub] at hlow
  omega

end Mde
