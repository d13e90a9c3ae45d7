import Mde.BboValidation

/-!
# The reports of the validation drivers

The last loops of `stock-summary` and `bbo-validation`: they go through
the symbols in the order of a hash map, compare what was rebuilt with the
reference, count what agrees and print the first few symbols that do not.

`stock-summary` dereferences the high, the low and the close after testing
only that there is an open. In `compare` a dereference of an empty optional
is the end of the run; that it never happens rests on the statistics of the
loaded ledger, whatever the trades file says (`stock_summary_report`).
Neither report depends on the order of the symbols, up to the choice of
the ones printed.
-/

open Std

namespace Mde

open Messages Nyse

variable {P : Type} [LinearOrder P] (nearlyEqual : P → P → Bool)

/-! ## Counting and printing -/

theorem countP_append_singleton {α : Type} (p : α → Bool) (elements : List α) (element : α) :
    (elements ++ [element]).countP p = elements.countP p + (p element).toNat := by
  rw [List.countP_append, List.countP_singleton]
  cases p element <;> rfl

/-- `if (mismatch && examples < 5)`: prints one more symbol. -/
def printMismatch (printed : List Str) (mismatch : Bool) (symbol : Str) : List Str :=
  if mismatch && decide (printed.length < 5) then printed ++ [symbol] else printed

theorem printMismatch_take (mismatches : List Str) (mismatch : Bool) (symbol : Str) :
    printMismatch (mismatches.take 5) mismatch symbol
      = (mismatches ++ bif mismatch then [symbol] else []).take 5 := by
  cases mismatch with
  | false => simp [printMismatch]
  | true =>
      rw [printMismatch, List.length_take, List.take_append]
      by_cases h : mismatches.length < 5
      · have hroom : 5 - mismatches.length = (4 - mismatches.length) + 1 := by omega
        rw [if_pos (by simp; omega), hroom, cond_true, List.take_succ_cons, List.take_nil]
      · have hfull : 5 - mismatches.length = 0 := by omega
        rw [if_neg (by simp; omega), hfull, List.take_zero, List.append_nil]

/-! ## Stock Summary -/

structure SummaryReport where
  compared : Nat := 0
  openMatch : Nat := 0
  highMatch : Nat := 0
  lowMatch : Nat := 0
  closeMatch : Nat := 0
  volumeMatch : Nat := 0
  volumeSum : UInt64 := 0
  refVolumeSum : UInt64 := 0
  volumeMismatches : List Str := []

namespace SummaryReport

variable (tape : TradeLedger P) (reference : Summaries P)

/-- The body of the loop of `stock-summary`; `none` is a dereference of an empty optional. -/
def compare (report : SummaryReport) (symbol : Str) : Option SummaryReport :=
  match reference[symbol]? with
  | none => some report
  | some ref =>
    let stats := tape.getDailyStats symbol
    match stats.open' with
    | none => some report
    | some open' => do
      let high ← stats.high
      let low ← stats.low
      let close ← stats.close
      return {
        compared := report.compared + 1
        openMatch := report.openMatch + (nearlyEqual open' ref.open').toNat
        highMatch := report.highMatch + (nearlyEqual high ref.high).toNat
        lowMatch := report.lowMatch + (nearlyEqual low ref.low).toNat
        closeMatch := report.closeMatch + (nearlyEqual close ref.close).toNat
        volumeMatch := report.volumeMatch + (stats.totalVolume == ref.totalVolume).toNat
        volumeSum := report.volumeSum + stats.totalVolume
        refVolumeSum := report.refVolumeSum + ref.totalVolume
        volumeMismatches := printMismatch report.volumeMismatches
          (stats.totalVolume != ref.totalVolume) symbol }

/-! ### What is counted -/

def compares (symbol : Str) : Bool :=
  reference.contains symbol && !(liveTrades (tape.getOrCreate symbol).log).isEmpty

def agreesOn (price : DailyStats P → Option P) (refPrice : ReferenceSummary P → P)
    (symbol : Str) : Bool :=
  (reference[symbol]?).any fun ref =>
    (price (DailyStats.ofTrades (liveTrades (tape.getOrCreate symbol).log))).any
      fun rebuilt => nearlyEqual rebuilt (refPrice ref)

def liveVolume (symbol : Str) : UInt64 :=
  (DailyStats.ofTrades (liveTrades (tape.getOrCreate symbol).log)).totalVolume

def refVolume (symbol : Str) : UInt64 :=
  (reference[symbol]?).elim 0 ReferenceSummary.totalVolume

def comparedIn (symbols : List Str) : List Str := symbols.filter (compares tape reference)

def of (symbols : List Str) : SummaryReport where
  compared := (comparedIn tape reference symbols).length
  openMatch := (comparedIn tape reference symbols).countP
    (agreesOn nearlyEqual tape reference DailyStats.open' ReferenceSummary.open')
  highMatch := (comparedIn tape reference symbols).countP
    (agreesOn nearlyEqual tape reference DailyStats.high ReferenceSummary.high)
  lowMatch := (comparedIn tape reference symbols).countP
    (agreesOn nearlyEqual tape reference DailyStats.low ReferenceSummary.low)
  closeMatch := (comparedIn tape reference symbols).countP
    (agreesOn nearlyEqual tape reference DailyStats.close ReferenceSummary.close)
  volumeMatch := (comparedIn tape reference symbols).countP
    fun symbol => liveVolume tape symbol == refVolume reference symbol
  volumeSum := ((comparedIn tape reference symbols).map (liveVolume tape)).sum
  refVolumeSum := ((comparedIn tape reference symbols).map (refVolume reference)).sum
  volumeMismatches := ((comparedIn tape reference symbols).filter
    fun symbol => liveVolume tape symbol != refVolume reference symbol).take 5

/-! ### The loop -/

omit [LinearOrder P] in
theorem comparedIn_append_singleton (symbols : List Str) (symbol : Str) :
    comparedIn tape reference (symbols ++ [symbol])
      = comparedIn tape reference symbols
        ++ bif compares tape reference symbol then [symbol] else [] := by
  rw [comparedIn, List.filter_append, List.filter_singleton]
  rfl

variable {tape reference}

theorem of_append_skipped {symbol : Str} (h : compares tape reference symbol = false)
    (symbols : List Str) :
    of nearlyEqual tape reference (symbols ++ [symbol])
      = of nearlyEqual tape reference symbols := by
  have hcompared := comparedIn_append_singleton tape reference symbols symbol
  rw [h, cond_false, List.append_nil] at hcompared
  rw [of, of, hcompared]

theorem of_append_compared {symbol : Str} (h : compares tape reference symbol = true)
    (symbols : List Str) :
    let report := of nearlyEqual tape reference symbols
    let agrees (price : DailyStats P → Option P) (refPrice : ReferenceSummary P → P) : Nat :=
      (agreesOn nearlyEqual tape reference price refPrice symbol).toNat
    of nearlyEqual tape reference (symbols ++ [symbol])
      = { compared := report.compared + 1
          openMatch := report.openMatch + agrees DailyStats.open' ReferenceSummary.open'
          highMatch := report.highMatch + agrees DailyStats.high ReferenceSummary.high
          lowMatch := report.lowMatch + agrees DailyStats.low ReferenceSummary.low
          closeMatch := report.closeMatch + agrees DailyStats.close ReferenceSummary.close
          volumeMatch := report.volumeMatch
            + (liveVolume tape symbol == refVolume reference symbol).toNat
          volumeSum := report.volumeSum + liveVolume tape symbol
          refVolumeSum := report.refVolumeSum + refVolume reference symbol
          volumeMismatches := printMismatch report.volumeMismatches
            (liveVolume tape symbol != refVolume reference symbol) symbol } := by
  have hcompared := comparedIn_append_singleton tape reference symbols symbol
  rw [h, cond_true] at hcompared
  simp only [of, hcompared, countP_append_singleton, List.length_append, List.length_singleton,
    List.map_append, List.map_singleton, List.sum_append, List.sum_singleton, List.filter_append,
    List.filter_singleton, printMismatch_take]

/-- On a ledger whose statistics are those of its live trades no pass dereferences an empty
optional; it adds its symbol to the report. -/
theorem compare_of (hagrees : tape.Agrees) (symbols : List Str) (symbol : Str) :
    compare nearlyEqual tape reference (of nearlyEqual tape reference symbols) symbol
      = some (of nearlyEqual tape reference (symbols ++ [symbol])) := by
  have hstats := hagrees symbol
  obtain ⟨hopen, hhigh, hlow, hclose⟩ :=
    DailyStats.ofTrades_absent_iff (liveTrades (tape.getOrCreate symbol).log)
  unfold compare
  cases href : reference[symbol]? with
  | none =>
      rw [of_append_skipped]
      simp [compares, ExtTreeMap.contains_eq_isSome_getElem?, href]
  | some ref =>
      dsimp only
      by_cases hlive : liveTrades (tape.getOrCreate symbol).log = []
      · have hopen' : (tape.getDailyStats symbol).open' = none := by
          rw [hstats, hopen.mpr hlive]
        rw [hopen', of_append_skipped]
        simp [compares, hlive]
      · obtain ⟨open', hopen'⟩ := Option.ne_none_iff_exists'.mp (mt hopen.mp hlive)
        obtain ⟨high, hhigh'⟩ := Option.ne_none_iff_exists'.mp (mt hhigh.mp hlive)
        obtain ⟨low, hlow'⟩ := Option.ne_none_iff_exists'.mp (mt hlow.mp hlive)
        obtain ⟨close, hclose'⟩ := Option.ne_none_iff_exists'.mp (mt hclose.mp hlive)
        have hcompares : compares tape reference symbol = true := by
          simp [compares, ExtTreeMap.contains_eq_isSome_getElem?, href, hlive]
        rw [hstats, of_append_compared nearlyEqual hcompares]
        simp [agreesOn, liveVolume, refVolume, href, hopen', hhigh', hlow', hclose']

theorem foldlM_compare (hagrees : tape.Agrees) (symbols : List Str) :
    symbols.foldlM (compare nearlyEqual tape reference) {}
      = some (of nearlyEqual tape reference symbols) := by
  induction symbols using List.reverseRecOn with
  | nil => rfl
  | append_singleton symbols symbol ih =>
      rw [List.foldlM_append, ih]
      simp [compare_of nearlyEqual hagrees]

/-- Nothing but the printed symbols depends on the order of the loop. -/
theorem of_perm {symbols symbols' : List Str} (h : symbols.Perm symbols') :
    { of nearlyEqual tape reference symbols with volumeMismatches := [] }
        = { of nearlyEqual tape reference symbols' with volumeMismatches := [] }
      ∧ (of nearlyEqual tape reference symbols).volumeMismatches.length
        = (of nearlyEqual tape reference symbols').volumeMismatches.length := by
  have hcompared : (comparedIn tape reference symbols).Perm (comparedIn tape reference symbols') :=
    h.filter _
  constructor
  · simp only [of, SummaryReport.mk.injEq, and_true]
    exact ⟨hcompared.length_eq, hcompared.countP_eq _, hcompared.countP_eq _,
      hcompared.countP_eq _, hcompared.countP_eq _, hcompared.countP_eq _,
      (hcompared.map _).sum_eq, (hcompared.map _).sum_eq⟩
  · simp only [of, List.length_take, (hcompared.filter _).length_eq]

/-- As many symbols are printed as did not match, up to five. -/
theorem length_volumeMismatches_of (symbols : List Str) :
    let report := of nearlyEqual tape reference symbols
    report.volumeMismatches.length = min 5 (report.compared - report.volumeMatch) := by
  intro report
  have hsplit := List.length_eq_countP_add_countP
    (fun symbol => liveVolume tape symbol == refVolume reference symbol)
    (l := comparedIn tape reference symbols)
  simp only [report, of, List.length_take, ← List.countP_eq_length_filter]
  congr 1
  rw [hsplit, Nat.add_sub_cancel_left]
  refine List.countP_congr fun symbol _ => ?_
  simp [bne]

/-- When the volume of every symbol matches, the sums do. -/
theorem volumeSum_of {symbols : List Str}
    (h : (of nearlyEqual tape reference symbols).volumeMatch
      = (of nearlyEqual tape reference symbols).compared) :
    (of nearlyEqual tape reference symbols).volumeSum
      = (of nearlyEqual tape reference symbols).refVolumeSum := by
  have hall := List.countP_eq_length.mp h
  refine congrArg List.sum (List.map_congr_left fun symbol hsymbol => ?_)
  exact eq_of_beq (hall symbol hsymbol)

end SummaryReport

omit [LinearOrder P] in
theorem TradeLedger.mem_getSymbols_of_log {tape : TradeLedger P} {symbol : Str}
    (h : (tape.getOrCreate symbol).log ≠ []) : symbol ∈ tape.getSymbols := by
  rw [TradeLedger.getSymbols, ExtTreeMap.mem_keys]
  by_contra hmem
  refine h ?_
  rw [TradeLedger.getOrCreate, ExtTreeMap.getD_eq_fallback hmem]

/-- **The Stock Summary report is safe and exact.** For every trades file that can be
opened and has no trade at NaN (the prices are of a linear order), every reference and
every order of the symbols, the loop reaches its end without dereferencing an empty
optional. It compares each symbol with a reference and a live trade exactly once; its
counters are those of these symbols, whatever the order; it prints as many mismatches as
there are, up to five; and when every volume matches the sums do. -/
theorem stock_summary_report (fromChars : Str → FromChars P) (reference : Summaries P)
    (path : String) (content : Str) :
    ∃ tape, loadTrades fromChars path (some content) = .ok tape
      ∧ ∀ symbols : List Str, symbols.Perm tape.getSymbols →
        let compared := SummaryReport.comparedIn tape reference symbols
        ∃ report,
          symbols.foldlM (SummaryReport.compare nearlyEqual tape reference) {} = some report
            ∧ (compared.Nodup
              ∧ ∀ symbol, symbol ∈ compared ↔ SummaryReport.compares tape reference symbol = true)
            ∧ report = SummaryReport.of nearlyEqual tape reference symbols
            ∧ { report with volumeMismatches := [] }
              = { SummaryReport.of nearlyEqual tape reference tape.getSymbols with
                  volumeMismatches := [] }
            ∧ report.volumeMismatches.length = min 5 (report.compared - report.volumeMatch)
            ∧ (report.volumeMatch = report.compared → report.volumeSum = report.refVolumeSum) := by
  refine ⟨_, loadTrades_eq fromChars path content, ?_⟩
  intro symbols hperm compared
  refine ⟨_, SummaryReport.foldlM_compare nearlyEqual (agrees_run_tradeCalls fromChars content)
    symbols, ⟨?_, ?_⟩, rfl, (SummaryReport.of_perm nearlyEqual hperm).1,
    SummaryReport.length_volumeMismatches_of nearlyEqual symbols,
    SummaryReport.volumeSum_of nearlyEqual⟩
  · exact (hperm.nodup_iff.mpr ExtTreeMap.nodup_keys).filter _
  · intro symbol
    show symbol ∈ List.filter _ symbols ↔ _
    rw [List.mem_filter, and_iff_right_iff_imp]
    intro hcompares
    rw [hperm.mem_iff]
    refine TradeLedger.mem_getSymbols_of_log fun hlog => ?_
    simp [SummaryReport.compares, hlog, liveTrades] at hcompares

/-! ## BBO -/

structure BboReport where
  compared : Nat := 0
  bidPriceMatch : Nat := 0
  bidVolumeMatch : Nat := 0
  askPriceMatch : Nat := 0
  askVolumeMatch : Nat := 0
  mismatches : List Str := []

namespace BboReport

variable (reference : Quotes P)

section Loop

omit [LinearOrder P]

/-- `top._bestBid && top._bestBid->_price` is nearly that of the quote, and the like. -/
def priceOk (level : Option (PriceLevel P)) (price : P) : Bool :=
  level.any fun level => nearlyEqual level.price price

def volumeOk (level : Option (PriceLevel P)) (volume : UInt64) : Bool :=
  level.any fun level => level.aggregateVolume == volume

/-- The body of the loop of `bbo-validation`. -/
def compare (report : BboReport) (entry : Str × TopOfBook P) : BboReport :=
  let (symbol, top) := entry
  match reference[symbol]? with
  | none => report
  | some ref =>
    if top.bestBid.isNone && top.bestAsk.isNone then report
    else
      let bidPriceOk := priceOk nearlyEqual top.bestBid ref.bidPrice
      let askPriceOk := priceOk nearlyEqual top.bestAsk ref.askPrice
      { compared := report.compared + 1
        bidPriceMatch := report.bidPriceMatch + bidPriceOk.toNat
        bidVolumeMatch := report.bidVolumeMatch + (volumeOk top.bestBid ref.bidVolume).toNat
        askPriceMatch := report.askPriceMatch + askPriceOk.toNat
        askVolumeMatch := report.askVolumeMatch + (volumeOk top.bestAsk ref.askVolume).toNat
        mismatches := printMismatch report.mismatches (!(bidPriceOk && askPriceOk)) symbol }

/-! ### What is counted -/

def compares (entry : Str × TopOfBook P) : Bool :=
  reference.contains entry.1 && !(entry.2.bestBid.isNone && entry.2.bestAsk.isNone)

def agreesOn (ok : TopOfBook P → ReferenceQuote P → Bool) (entry : Str × TopOfBook P) : Bool :=
  (reference[entry.1]?).any (ok entry.2)

def pricesOk (top : TopOfBook P) (ref : ReferenceQuote P) : Bool :=
  priceOk nearlyEqual top.bestBid ref.bidPrice && priceOk nearlyEqual top.bestAsk ref.askPrice

def of (entries : List (Str × TopOfBook P)) : BboReport :=
  let compared := entries.filter (compares reference)
  { compared := compared.length
    bidPriceMatch := compared.countP
      (agreesOn reference fun top ref => priceOk nearlyEqual top.bestBid ref.bidPrice)
    bidVolumeMatch := compared.countP
      (agreesOn reference fun top ref => volumeOk top.bestBid ref.bidVolume)
    askPriceMatch := compared.countP
      (agreesOn reference fun top ref => priceOk nearlyEqual top.bestAsk ref.askPrice)
    askVolumeMatch := compared.countP
      (agreesOn reference fun top ref => volumeOk top.bestAsk ref.askVolume)
    mismatches := ((compared.filter fun entry =>
      !agreesOn reference (pricesOk nearlyEqual) entry).map Prod.fst).take 5 }

variable {reference}

theorem compare_of (entries : List (Str × TopOfBook P)) (entry : Str × TopOfBook P) :
    compare nearlyEqual reference (of nearlyEqual reference entries) entry
      = of nearlyEqual reference (entries ++ [entry]) := by
  obtain ⟨symbol, top⟩ := entry
  have hfilter : (entries ++ [(symbol, top)]).filter (compares reference)
      = entries.filter (compares reference)
        ++ bif compares reference (symbol, top) then [(symbol, top)] else [] := by
    rw [List.filter_append, List.filter_singleton]
  cases hquote : reference[symbol]? with
  | none =>
      have hcompares : compares reference (symbol, top) = false := by
        simp [compares, ExtTreeMap.contains_eq_isSome_getElem?, hquote]
      rw [hcompares, cond_false, List.append_nil] at hfilter
      simp only [compare, hquote, of, hfilter]
  | some ref =>
      simp only [compare, hquote]
      split
      · rename_i hempty
        have hcompares : compares reference (symbol, top) = false := by
          rw [compares, hempty, Bool.not_true, Bool.and_false]
        rw [hcompares, cond_false, List.append_nil] at hfilter
        simp only [of, hfilter]
      · rename_i hshown
        have hcompares : compares reference (symbol, top) = true := by
          simp [compares, ExtTreeMap.contains_eq_isSome_getElem?, hquote, hshown]
        rw [hcompares, cond_true] at hfilter
        simp only [of, hfilter, countP_append_singleton, List.length_append,
          List.length_singleton, List.filter_append, List.filter_singleton, List.map_append,
          Bool.apply_cond (List.map Prod.fst), List.map_singleton, List.map_nil,
          printMismatch_take, agreesOn, hquote, Option.any_some, pricesOk]

theorem foldl_compare (entries : List (Str × TopOfBook P)) :
    entries.foldl (compare nearlyEqual reference) {} = of nearlyEqual reference entries := by
  induction entries using List.reverseRecOn with
  | nil => rfl
  | append_singleton entries entry ih =>
      rw [List.foldl_append, ih]
      exact compare_of nearlyEqual entries entry

variable (reference) in
/-- Nothing but the printed symbols depends on the order of the loop. -/
theorem of_perm {entries entries' : List (Str × TopOfBook P)} (h : entries.Perm entries') :
    { of nearlyEqual reference entries with mismatches := [] }
        = { of nearlyEqual reference entries' with mismatches := [] }
      ∧ (of nearlyEqual reference entries).mismatches.length
        = (of nearlyEqual reference entries').mismatches.length := by
  have hcompared := h.filter (compares reference)
  constructor
  · simp only [of, BboReport.mk.injEq, and_true]
    exact ⟨hcompared.length_eq, hcompared.countP_eq _, hcompared.countP_eq _,
      hcompared.countP_eq _, hcompared.countP_eq _⟩
  · simp only [of, List.length_take, List.length_map, (hcompared.filter _).length_eq]

end Loop

end BboReport

/-! ### What there is to compare -/

/-- The snapshot that events leave of a symbol, if one of them is not later than its
quote. -/
def bboSnapshot (reference : Quotes P) (events : List (Payload P)) (symbol : Str) :
    Option (Str × TopOfBook P) :=
  let seen := Frozen.upTo (qualifies reference symbol) events
  if seen = [] then none else some (symbol, (OrderBook.run seen).getTopOfBook symbol)

def bboSnapshots (reference : Quotes P) (events : List (Payload P)) :
    List (Str × TopOfBook P) :=
  reference.keys.filterMap (bboSnapshot reference events)

theorem bboSnapshot_eq_some_iff {reference : Quotes P} {events : List (Payload P)}
    {symbol : Str} {entry : Str × TopOfBook P} :
    bboSnapshot reference events symbol = some entry
      ↔ entry.1 = symbol
        ∧ (events.foldl (bboCallback reference) {}).frozen[symbol]? = some entry.2 := by
  obtain ⟨symbol', top⟩ := entry
  rw [frozen_run, bboSnapshot]
  dsimp only
  split
  · simp
  · simp [eq_comm]

omit [LinearOrder P] in
theorem mem_keys_of_upTo_ne_nil {reference : Quotes P} {symbol : Str}
    {events : List (Payload P)} (h : Frozen.upTo (qualifies reference symbol) events ≠ []) :
    symbol ∈ reference.keys := by
  rw [Ne, Frozen.upTo_eq_nil_iff, List.filter_eq_nil_iff] at h
  obtain ⟨data, -, hdata⟩ := by simpa using h
  obtain ⟨quote, hquote, -⟩ := Option.any_eq_true .. |>.mp (Bool.and_eq_true_iff.mp hdata).2
  rw [ExtTreeMap.mem_keys]
  exact ExtTreeMap.mem_iff_isSome_getElem?.mpr (by rw [hquote]; rfl)

theorem mem_bboSnapshots_iff {reference : Quotes P} {events : List (Payload P)} {symbol : Str}
    {top : TopOfBook P} :
    (symbol, top) ∈ bboSnapshots reference events
      ↔ (events.foldl (bboCallback reference) {}).frozen[symbol]? = some top := by
  simp only [bboSnapshots, List.mem_filterMap, bboSnapshot_eq_some_iff]
  constructor
  · rintro ⟨_, -, rfl, hfrozen⟩
    exact hfrozen
  · intro hfrozen
    have hseen : Frozen.upTo (qualifies reference symbol) events ≠ [] := by
      intro hseen
      rw [frozen_run, if_pos hseen] at hfrozen
      cases hfrozen
    exact ⟨symbol, mem_keys_of_upTo_ne_nil hseen, rfl, hfrozen⟩

theorem frozen_toList_perm (reference : Quotes P) (events : List (Payload P)) :
    (events.foldl (bboCallback reference) {}).frozen.toList.Perm
      (bboSnapshots reference events) := by
  refine (List.perm_ext_iff_of_nodup ?_ ?_).mpr ?_
  · refine List.Nodup.of_map Prod.fst ?_
    rw [ExtTreeMap.map_fst_toList_eq_keys]
    exact ExtTreeMap.nodup_keys
  · refine List.Nodup.filterMap (fun symbol symbol' entry h h' => ?_) ExtTreeMap.nodup_keys
    exact (bboSnapshot_eq_some_iff.mp h).1.symm.trans (bboSnapshot_eq_some_iff.mp h').1
  · rintro ⟨symbol, top⟩
    rw [ExtTreeMap.mem_toList_iff_getElem?_eq_some, mem_bboSnapshots_iff]

/-- **The BBO report is that of the snapshots.** Once `Join` has returned without a stop,
whatever the interleaving of the threads and the order of the map: every frozen symbol has
its quote, so exactly the snapshots that show a side are compared; the counters are those
of the snapshots that the events leave; and as many symbols are printed as disagree on a
price, up to five. -/
theorem bbo_report {fromChars : Str → FromChars P} {reference : Quotes P}
    {ingestType : IngestData} {pathExists : Bool} {disk : Option Str}
    {start e : FileEngine P (BboState P)} {actions : List Engine.Action}
    (hstart : FileEngine.construct ingestType pathExists {} = .ok start)
    (h : Guarded.play (FileEngine.step fromChars
      (fun state message => bboCallback reference state message.data) disk) start actions = some e)
    (hjoined : e.engine.Joined) (hstop : e.engine.stopRequested = false)
    {entries : List (Str × TopOfBook P)}
    (hentries : entries.Perm e.engine.egress.sink.frozen.toList) :
    let snapshots := bboSnapshots reference
      ((decoded fromChars (FileEngine.lines disk)).map Message.data)
    let report := entries.foldl (BboReport.compare nearlyEqual reference) {}
    let shown := snapshots.filter fun entry =>
      !(entry.2.bestBid.isNone && entry.2.bestAsk.isNone)
    { report with mismatches := [] }
        = { BboReport.of nearlyEqual reference snapshots with mismatches := [] }
      ∧ report.compared = shown.length
      ∧ report.mismatches.length = min 5 (shown.countP fun entry =>
          !BboReport.agreesOn reference (BboReport.pricesOk nearlyEqual) entry) := by
  intro snapshots report shown
  have hsnapshots : entries.Perm snapshots := by
    rw [sink_joined hstart h hjoined hstop] at hentries
    exact hentries.trans (frozen_toList_perm reference _)
  have hcompares : snapshots.filter (BboReport.compares reference) = shown := by
    refine List.filter_congr fun entry hentry => ?_
    obtain ⟨symbol, hsymbol, hsnapshot⟩ := List.mem_filterMap.mp hentry
    rw [ExtTreeMap.mem_keys, ← (bboSnapshot_eq_some_iff.mp hsnapshot).1,
      ← ExtTreeMap.contains_iff_mem] at hsymbol
    rw [BboReport.compares, hsymbol, Bool.true_and]
  have hreport : report = BboReport.of nearlyEqual reference entries :=
    BboReport.foldl_compare nearlyEqual entries
  obtain ⟨hcounters, hprinted⟩ :=
    BboReport.of_perm nearlyEqual reference hsnapshots
  rw [← hreport] at hcounters hprinted
  refine ⟨hcounters, ?_, ?_⟩
  · rw [show report.compared = _ from (BboReport.mk.injEq .. |>.mp hcounters).1, BboReport.of,
      hcompares]
  · rw [hprinted, BboReport.of, hcompares, List.length_take, List.length_map,
      List.countP_eq_length_filter]

section Sample

/-- One symbol is compared: the bid agrees, and there is no ask. -/
theorem bbo_report_sample :
    let frozen := (sampleRun.get sampleRun_isSome).engine.egress.sink.frozen
    let report := frozen.toList.foldl
      (BboReport.compare (fun a b : Nat => a == b) sampleQuotes) {}
    report.compared = 1 ∧ report.bidPriceMatch = 1 ∧ report.bidVolumeMatch = 1
      ∧ report.askPriceMatch = 0 ∧ report.mismatches.length = 1 := by
  intro frozen report
  have hstart : FileEngine.construct IngestData.nysePillar true {} = .ok sampleDriver := rfl
  have hrun : sampleRun = some (sampleRun.get sampleRun_isSome) := (Option.some_get _).symm
  obtain ⟨hcounters, hcompared, hprinted⟩ := bbo_report (fun a b : Nat => a == b) hstart hrun
    ⟨by decide +kernel, by decide +kernel⟩ (by decide +kernel) (List.Perm.refl _)
  obtain ⟨-, hbid, hvolume, hask, -⟩ := BboReport.mk.injEq .. |>.mp hcounters
  exact ⟨hcompared.trans (by decide +kernel), hbid.trans (by decide +kernel),
    hvolume.trans (by decide +kernel), hask.trans (by decide +kernel),
    hprinted.trans (by decide +kernel)⟩

end Sample

end Mde
