import Mde.Runs
import Mde.TradeLedger

/-!
# The statistics of the trade ledger

`DailyStats.ofTrades` says what the statistics of a list of trades are:
the first and the last price, the greatest and the least, and the sum of
the volumes. `recompute_eq` is the specification of the rebuild, and
`Agrees` compares the statistics a ledger keeps with it.

Recording folds one trade in, cancelling and replacing rebuild; all
three keep the agreement. `AdjustVolume` applies the difference of the
volumes whether or not the record is cancelled, and `stats_agree_iff`
says exactly which runs that spoils. While the statistics agree, it does
not matter that `ReplaceTrade` rebuilds once where `CancelTrade` and
`RecordTrade` rebuild and fold, or only fold
(`replaceTrade_eq_cancel_record`).
-/

namespace Mde

variable {P : Type*}

/-! ## What the statistics of a list of trades are -/

def liveTrades (log : List (TradeRecord P)) : List (TradeRecord P) :=
  log.filter fun trade => !trade.cancelled

theorem liveTrades_append_singleton (log : List (TradeRecord P)) (trade : TradeRecord P) :
    liveTrades (log ++ [trade])
      = if trade.cancelled then liveTrades log else liveTrades log ++ [trade] := by
  cases h : trade.cancelled <;> simp [liveTrades, h]

variable [LinearOrder P]

namespace DailyStats

/-- The statistics of a list of trades, all of them live. -/
def ofTrades (trades : List (TradeRecord P)) : DailyStats P where
  open' := (trades.map TradeRecord.price).head?
  high := (trades.map TradeRecord.price).max?
  low := (trades.map TradeRecord.price).min?
  close := (trades.map TradeRecord.price).getLast?
  totalVolume := (trades.map TradeRecord.volume).sum

theorem foldIntoStats_ofTrades (trades : List (TradeRecord P)) (trade : TradeRecord P) :
    (ofTrades trades).foldIntoStats trade.price trade.volume
      = ofTrades (trades ++ [trade]) := by
  cases trades with
  | nil => simp [foldIntoStats, ofTrades]
  | cons first rest =>
      simp only [ofTrades, foldIntoStats, List.cons_append, List.map_cons, List.map_append,
        List.map_nil, List.max?_cons', List.min?_cons', List.foldl_append, List.foldl_cons,
        List.foldl_nil, List.head?_cons, List.sum_cons, List.sum_append, List.sum_nil]
      refine DailyStats.mk.injEq .. |>.mpr ⟨rfl, ?_, ?_, ?_, ?_⟩
      · rw [max_def]
        split
        · rename_i hgt
          rw [if_pos (le_of_lt hgt)]
        · rename_i hle
          split
          · rename_i hge
            rw [le_antisymm hge (not_lt.mp hle)]
          · rfl
      · rw [min_def]
        split
        · rename_i hlt
          rw [if_neg (not_le.mpr hlt)]
        · rename_i hge
          rw [if_pos (not_lt.mp hge)]
      · rw [← List.cons_append, List.getLast?_concat]
      · rw [add_zero, add_assoc]

theorem ofTrades_absent_iff (trades : List (TradeRecord P)) :
    ((ofTrades trades).open' = none ↔ trades = [])
      ∧ ((ofTrades trades).high = none ↔ trades = [])
      ∧ ((ofTrades trades).low = none ↔ trades = [])
      ∧ ((ofTrades trades).close = none ↔ trades = []) := by
  simp [ofTrades]

theorem ofTrades_bounds {trades : List (TradeRecord P)} {low high price : P}
    (hlow : (ofTrades trades).low = some low) (hhigh : (ofTrades trades).high = some high)
    (hprice : (ofTrades trades).open' = some price ∨ (ofTrades trades).close = some price) :
    low ≤ price ∧ price ≤ high := by
  have hmem : price ∈ trades.map TradeRecord.price := by
    rcases hprice with h | h
    · exact List.mem_of_mem_head? h
    · exact List.mem_of_mem_getLast? h
  exact ⟨(List.min?_eq_some_iff.mp hlow).2 price hmem,
    (List.max?_eq_some_iff.mp hhigh).2 price hmem⟩

/-- The four prices come and go together, and the low and the high bound the open
and the close. -/
structure Coherent (stats : DailyStats P) : Prop where
  together : (stats.open'.isSome ∧ stats.high.isSome ∧ stats.low.isSome ∧ stats.close.isSome)
    ∨ (stats.open' = none ∧ stats.high = none ∧ stats.low = none ∧ stats.close = none)
  bounds : ∀ low high price, stats.low = some low → stats.high = some high →
    stats.open' = some price ∨ stats.close = some price → low ≤ price ∧ price ≤ high

theorem ofTrades_coherent (trades : List (TradeRecord P)) : (ofTrades trades).Coherent where
  together := by
    obtain ⟨hopen, hhigh, hlow, hclose⟩ := ofTrades_absent_iff trades
    by_cases h : trades = []
    · exact .inr ⟨hopen.mpr h, hhigh.mpr h, hlow.mpr h, hclose.mpr h⟩
    · simp only [← Option.ne_none_iff_isSome]
      exact .inl ⟨mt hopen.mp h, mt hhigh.mp h, mt hlow.mp h, mt hclose.mp h⟩
  bounds := fun _ _ _ hlow hhigh hprice => ofTrades_bounds hlow hhigh hprice

theorem recompute_eq (log : List (TradeRecord P)) :
    recompute log = ofTrades (liveTrades log) := by
  induction log using List.reverseRecOn with
  | nil => rfl
  | append_singleton log trade ih =>
      rw [recompute, List.foldl_append, ← recompute, ih, liveTrades_append_singleton]
      simp only [List.foldl_cons, List.foldl_nil]
      split
      · rfl
      · exact foldIntoStats_ofTrades _ trade

/-- A rebuild folds an appended live trade in last. -/
theorem recompute_append_live (log : List (TradeRecord P)) (price : P) (volume : UInt64) :
    recompute (log ++ [⟨price, volume, false⟩])
      = (recompute log).foldIntoStats price volume := by
  simp [recompute, List.foldl_append]

/-! ## Changing the volume of one record -/

omit [LinearOrder P] in
theorem adjustTotal_eq (stats : DailyStats P) (newVolume oldVolume : UInt64) :
    stats.adjustTotal newVolume oldVolume
      = { stats with totalVolume := stats.totalVolume + (newVolume - oldVolume) } := rfl

omit [LinearOrder P] in
theorem adjustTotal_eq_self_iff (stats : DailyStats P) (newVolume oldVolume : UInt64) :
    stats.adjustTotal newVolume oldVolume = stats ↔ newVolume = oldVolume := by
  rw [adjustTotal_eq]
  constructor
  · intro h
    have htotal : stats.totalVolume + (newVolume - oldVolume) = stats.totalVolume :=
      congrArg totalVolume h
    exact sub_eq_zero.mp (add_eq_left.mp htotal)
  · rintro rfl
    rw [sub_self, add_zero]

/-- The new volume of a record moves the total when the record is live, and
nothing when it is cancelled. -/
theorem recompute_set {log : List (TradeRecord P)} {index : Nat} {trade : TradeRecord P}
    (h : log[index]? = some trade) (newVolume : UInt64) :
    recompute (log.set index { trade with volume := newVolume })
      = if trade.cancelled then recompute log
        else (recompute log).adjustTotal newVolume trade.volume := by
  obtain ⟨hlt, hget⟩ := List.getElem?_eq_some_iff.mp h
  have hsplit : log = log.take index ++ trade :: log.drop (index + 1) := by
    rw [← hget, ← List.drop_eq_getElem_cons hlt, List.take_append_drop]
  have hset : log.set index { trade with volume := newVolume }
      = log.take index ++ { trade with volume := newVolume } :: log.drop (index + 1) :=
    List.set_eq_take_append_cons_drop.trans (if_pos hlt)
  rw [recompute_eq, recompute_eq, hset]
  conv_rhs => rw [hsplit]
  simp only [liveTrades, List.filter_append, List.filter_cons]
  cases hc : trade.cancelled with
  | true => simp
  | false =>
      simp only [Bool.not_false, if_true, Bool.false_eq_true, if_false, adjustTotal_eq, ofTrades,
        List.map_append, List.map_cons, List.sum_append, List.sum_cons]
      refine DailyStats.mk.injEq .. |>.mpr ⟨rfl, rfl, rfl, rfl, ?_⟩
      abel

end DailyStats

/-! ## One symbol's ledger -/

namespace SymbolLedger

/-- The statistics kept are those of the live trades, which is what a rebuild
computes. -/
def Agrees (ledger : SymbolLedger P) : Prop :=
  ledger.stats = DailyStats.ofTrades (liveTrades ledger.log)

theorem agrees_iff_recompute {ledger : SymbolLedger P} :
    ledger.Agrees ↔ ledger.stats = DailyStats.recompute ledger.log := by
  rw [Agrees, DailyStats.recompute_eq]

theorem recompute_agrees (ledger : SymbolLedger P) : ledger.recompute.Agrees :=
  agrees_iff_recompute.mpr rfl

/-- The record `_log[_byId[id]]`. -/
def record? (ledger : SymbolLedger P) (id : UInt64) : Option (TradeRecord P) :=
  match ledger.byId[id]? with
  | none => none
  | some index => ledger.log[index]?

/-- An `AdjustVolume` on a cancelled record asks for the volume already stored.
The other operations are free. -/
def SparesCancelled (ledger : SymbolLedger P) : LedgerOp P → Prop
  | .adjustVolume id newVolume => ∀ trade, ledger.record? id = some trade →
    trade.cancelled = true → newVolume = trade.volume
  | _ => True

theorem Agrees.recordTrade {ledger : SymbolLedger P} (h : ledger.Agrees) (id : UInt64)
    (price : P) (volume : UInt64) : (ledger.recordTrade id price volume).Agrees := by
  rw [agrees_iff_recompute] at h ⊢
  show ledger.stats.foldIntoStats price volume = _
  rw [h]
  exact (DailyStats.recompute_append_live ..).symm

/-- `AdjustVolume` keeps the agreement exactly when it spares the cancelled
records. -/
theorem Agrees.adjustVolume_iff {ledger : SymbolLedger P} (h : ledger.Agrees)
    (id newVolume : UInt64) :
    (ledger.adjustVolume id newVolume).1.Agrees
      ↔ ledger.SparesCancelled (.adjustVolume id newVolume) := by
  have hstats := agrees_iff_recompute.mp h
  rw [SymbolLedger.adjustVolume, SparesCancelled, record?]
  cases ledger.byId[id]? with
  | none => exact iff_of_true h fun trade hrecord => by cases hrecord
  | some index =>
      cases hlog : ledger.log[index]? with
      | none =>
          refine iff_of_true ?_ fun trade hrecord => ?_
          · simpa only [hlog] using h
          · exact absurd (hlog.symm.trans hrecord) (by simp)
      | some trade =>
          simp only [hlog, agrees_iff_recompute]
          rw [DailyStats.recompute_set hlog, ← hstats]
          cases hc : trade.cancelled with
          | false =>
              refine iff_of_true (if_neg Bool.false_ne_true).symm ?_
              intro trade' hrecord hc'
              rw [← Option.some.inj hrecord, hc] at hc'
              cases hc'
          | true =>
              rw [if_pos rfl, DailyStats.adjustTotal_eq_self_iff]
              constructor
              · rintro rfl trade' hrecord -
                rw [Option.some.inj hrecord]
              · exact fun hspare => hspare trade rfl hc

/-- **The step lemma.** From agreement, an operation leads to agreement exactly
when it spares the cancelled records. -/
theorem Agrees.apply_iff {ledger : SymbolLedger P} (h : ledger.Agrees) (op : LedgerOp P) :
    (ledger.apply op).1.Agrees ↔ ledger.SparesCancelled op := by
  cases op with
  | recordTrade id price volume => exact iff_of_true (h.recordTrade id price volume) trivial
  | cancelTrade id =>
      refine iff_of_true ?_ trivial
      show (ledger.cancelTrade id).1.Agrees
      unfold cancelTrade
      split
      · exact h
      · exact recompute_agrees _
  | adjustVolume id newVolume => exact h.adjustVolume_iff id newVolume
  | replaceTrade oldId newId price volume =>
      exact iff_of_true (recompute_agrees _) trivial

theorem Agrees.replaceTrade_eq {ledger : SymbolLedger P} (h : ledger.Agrees)
    (oldId newId : UInt64) (price : P) (volume : UInt64) :
    ledger.replaceTrade oldId newId price volume
      = ((ledger.cancelTrade oldId).1.recordTrade newId price volume,
        (ledger.cancelTrade oldId).2) := by
  rw [agrees_iff_recompute] at h
  rw [replaceTrade, cancelTrade]
  cases ledger.liveIndex? oldId with
  | none =>
      -- nothing is cancelled: the rebuild finds what the fold is applied to
      simp only [SymbolLedger.recordTrade, recompute, appendRaw,
        DailyStats.recompute_append_live, h]
  | some index =>
      -- both rebuild over the marked log, one of them before the record is folded in
      simp only [SymbolLedger.recordTrade, recompute, appendRaw,
        DailyStats.recompute_append_live]

end SymbolLedger

/-! ## The prices alone -/

def DailyStats.prices (stats : DailyStats P) : DailyStats P := { stats with totalVolume := 0 }

def SymbolLedger.PricesAgree (ledger : SymbolLedger P) : Prop :=
  ledger.stats.prices = (DailyStats.recompute ledger.log).prices

/-- The prices stay those of the live trades whatever is called: what drifts is the volume
alone. -/
theorem SymbolLedger.PricesAgree.apply {ledger : SymbolLedger P} (h : ledger.PricesAgree)
    (op : LedgerOp P) : (ledger.apply op).1.PricesAgree := by
  cases op with
  | recordTrade id price volume =>
      show (ledger.stats.foldIntoStats price volume).prices
        = (DailyStats.recompute (_ ++ [_])).prices
      rw [DailyStats.recompute_append_live]
      have hfold : (ledger.stats.prices.foldIntoStats price volume).prices
          = ((DailyStats.recompute ledger.log).prices.foldIntoStats price volume).prices :=
        congrArg (fun stats : DailyStats P => (stats.foldIntoStats price volume).prices) h
      exact hfold
  | cancelTrade id =>
      show (ledger.cancelTrade id).1.PricesAgree
      unfold SymbolLedger.cancelTrade
      split
      · exact h
      · rfl
  | adjustVolume id newVolume =>
      show (ledger.adjustVolume id newVolume).1.PricesAgree
      unfold SymbolLedger.adjustVolume
      split
      · exact h
      · split
        · exact h
        · rename_i trade hlog
          show ledger.stats.prices = (DailyStats.recompute (ledger.log.set _ _)).prices
          rw [h, DailyStats.recompute_set hlog]
          split <;> rfl
  | replaceTrade oldId newId price volume => rfl

/-! ## All symbols -/

namespace TradeLedger

/-- `GetDailyStats` of every symbol gives the statistics of its live trades. -/
def Agrees (tape : TradeLedger P) : Prop :=
  ∀ symbol, tape.getDailyStats symbol
    = DailyStats.ofTrades (liveTrades (tape.getOrCreate symbol).log)

/-- The call spares the cancelled records of its symbol. -/
def SparesCancelled (tape : TradeLedger P) (c : LedgerCall P) : Prop :=
  (tape.getOrCreate c.symbol).SparesCancelled c.op

theorem agrees_iff {tape : TradeLedger P} :
    tape.Agrees ↔ ∀ symbol, (tape.getOrCreate symbol).Agrees := by
  simp only [Agrees, SymbolLedger.Agrees, getDailyStats_eq]

theorem getOrCreate_call (tape : TradeLedger P) (c : LedgerCall P) (symbol : Str) :
    (tape.call c).1.getOrCreate symbol
      = if symbol = c.symbol then ((tape.getOrCreate symbol).apply c.op).1
        else tape.getOrCreate symbol := by
  simp only [call, getOrCreate, Std.ExtTreeMap.getD_eq_getD_getElem?, TreeSum.getElem?_insert]
  split
  · rename_i h; subst h; rfl
  · rfl

theorem Agrees.call_iff {tape : TradeLedger P} (h : tape.Agrees) (c : LedgerCall P) :
    (tape.call c).1.Agrees ↔ tape.SparesCancelled c := by
  rw [agrees_iff] at h ⊢
  have hown := (h c.symbol).apply_iff c.op
  constructor
  · intro hcall
    have hc := hcall c.symbol
    rw [getOrCreate_call, if_pos rfl] at hc
    exact hown.mp hc
  · intro hspare symbol
    rw [getOrCreate_call]
    split
    · rename_i hs
      subst hs
      exact hown.mpr hspare
    · exact h symbol

theorem agrees_empty : ({} : TradeLedger P).Agrees := by
  intro symbol
  rw [getDailyStats_eq]
  simp [liveTrades, DailyStats.ofTrades]

/-- **When the incremental statistics agree with a rebuild.** They do after every
prefix of a sequence of calls exactly when no `AdjustVolume` of it changes the
volume of a cancelled record. -/
theorem stats_agree_iff (calls : List (LedgerCall P)) :
    (∀ before, before <+: calls → (run before).Agrees)
      ↔ Runs.Along (fun tape c => (tape.call c).1) SparesCancelled {} calls :=
  Runs.forall_prefix_iff_along (fun _ c h => h.call_iff c) agrees_empty

def adjustCancelled : List (LedgerCall Nat) :=
  [⟨[], .recordTrade 1 10 100⟩, ⟨[], .cancelTrade 1⟩, ⟨[], .adjustVolume 1 150⟩]

/-- No trade is live, yet the total is the delta of the cancelled one. -/
theorem adjustCancelled_drifts :
    ((run adjustCancelled).getDailyStats []).totalVolume = 50
      ∧ DailyStats.recompute ((run adjustCancelled).getOrCreate []).log = {} := by
  decide

theorem pricesAgree_run (calls : List (LedgerCall P)) (symbol : Str) :
    ((run calls).getOrCreate symbol).PricesAgree := by
  induction calls using List.reverseRecOn with
  | nil => rw [run, List.foldl_nil, getOrCreate_empty]; rfl
  | append_singleton calls c ih =>
      rw [run, List.foldl_append, ← run]
      show (((run calls).call c).1.getOrCreate symbol).PricesAgree
      rw [getOrCreate_call]
      split
      · exact ih.apply c.op
      · exact ih

/-! ### Replacing is cancelling and recording -/

/-- The run lemma, in the direction the calls need. -/
theorem agrees_run {calls : List (LedgerCall P)}
    (h : Runs.Along (fun tape c => (tape.call c).1) SparesCancelled {} calls) :
    (run calls).Agrees := by
  have hstep : ∀ (tape : TradeLedger P) (c : LedgerCall P), tape.Agrees →
      ((tape.call c).1.Agrees ↔ tape.SparesCancelled c) := fun _ c h => h.call_iff c
  exact (Runs.forall_prefix_iff_along hstep agrees_empty).mpr h calls List.prefix_rfl

/-- Two calls for one symbol are one look-up and one write-back. -/
theorem call_call (tape : TradeLedger P) (symbol : Str) (op op' : LedgerOp P) :
    ((tape.call ⟨symbol, op⟩).1.call ⟨symbol, op'⟩).1
      = { ledgers := tape.ledgers.insert symbol
            ((((tape.getOrCreate symbol).apply op).1).apply op').1
          failures := (tape.failures + if ((tape.getOrCreate symbol).apply op).2 then 0 else 1)
            + if ((((tape.getOrCreate symbol).apply op).1).apply op').2 then 0 else 1 } := by
  have hfound : (tape.call ⟨symbol, op⟩).1.getOrCreate symbol
      = ((tape.getOrCreate symbol).apply op).1 := by
    rw [getOrCreate_call, if_pos rfl]
  rw [call, hfound]
  simp only [call, TreeSum.insert_insert]

/-- **Replacing is cancelling and recording.** As long as no `AdjustVolume` has changed
the volume of a cancelled record, `ReplaceTrade` ends in the same state and returns
the same as `CancelTrade` followed by `RecordTrade`, whichever of the IDs are known,
cancelled or equal. -/
theorem replaceTrade_eq_cancel_record {calls : List (LedgerCall P)}
    (h : Runs.Along (fun tape c => (tape.call c).1) SparesCancelled {} calls)
    (symbol : Str) (oldId newId : UInt64) (price : P) (volume : UInt64) :
    (run calls).replaceTrade symbol oldId newId price volume
      = (((run calls).cancelTrade symbol oldId).1.recordTrade symbol newId price volume,
        ((run calls).cancelTrade symbol oldId).2) := by
  have hagrees := agrees_iff.mp (agrees_run h) symbol
  have hreplace := hagrees.replaceTrade_eq oldId newId price volume
  rw [cancelTrade, recordTrade, call_call, replaceTrade, call]
  simp only [SymbolLedger.apply, hreplace, if_true, Nat.add_zero]
  rfl

/-- A trade replaced under its own ID, after another one was replaced. -/
theorem replaceTrade_eq_cancel_record_same_id :
    let calls : List (LedgerCall Nat) :=
      [⟨[], .recordTrade 1 10 100⟩, ⟨[], .replaceTrade 1 2 12 80⟩, ⟨[], .adjustVolume 2 90⟩]
    (run calls).replaceTrade [] 2 2 11 70
        = (((run calls).cancelTrade [] 2).1.recordTrade [] 2 11 70, true)
      ∧ ((run calls).replaceTrade [] 2 2 11 70).1.getDailyStats []
        = ⟨some 11, some 11, some 11, some 11, 70⟩ := by
  intro calls
  refine ⟨(replaceTrade_eq_cancel_record ?_ [] 2 2 11 70).trans ?_, by decide⟩
  · refine ⟨trivial, trivial, ?_, trivial⟩
    intro trade hrecord hcancelled
    obtain rfl : ⟨12, 80, false⟩ = trade := Option.some.inj hrecord
    cases hcancelled
  · rfl

end TradeLedger

end Mde
