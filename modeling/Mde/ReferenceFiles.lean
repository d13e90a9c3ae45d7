import Mde.Getline
import Mde.LastWrite
import Mde.LedgerStats
import Mde.ReferenceTypes

/-!
# The reference files

How the validation drivers load the files they compare with:
`LoadStockSummary` and `LoadTrades` of `stock-summary`, `LoadLastQuote` of
`bbo-validation`. Each goes through the lines of a file, looks at the
first column, reads the struct of that message type and leaves out the
lines that do not spell one.

`record` is the struct of a line by its columns alone. A loaded map has
for each symbol the last record of it in the file (`references_last`), and
the loaded ledger is the run of the calls that the lines spell, so its
statistics are those of the trades still live (`loadTrades_stats`): the
file has no line that adjusts a volume.
-/

open Std

namespace Mde.Nyse

open Getline

variable {P : Type} (fromChars : Str → FromChars P)

/-! ## One line -/

/-- The bytes of a message type column. -/
def digitsOf (msgType : String) : Str := msgType.toList.map Char.toUInt8

/-- The constructor call in the `try` block; what it throws is caught, and the line
left out. -/
def tryConstruct {α : Type} (construct : Construct α) (reader : CSVReader) : Option α :=
  match construct reader with
  | .error _ => none
  | .ok (value, _) => some value

theorem tryConstruct_eq {α : Type} {construct : Construct α} {spec : Columns α}
    (h : Meets construct spec) {line : Str} {reader : CSVReader} (hvalid : reader.Valid line) :
    tryConstruct construct reader = spec (columns line) := by
  have hreads := h line reader hvalid
  unfold tryConstruct
  cases hconstruct : construct reader with
  | error e =>
      rw [hconstruct] at hreads
      exact Eq.symm hreads
  | ok r =>
      rw [hconstruct] at hreads
      exact hreads.1.symm

/-- The struct of a message type that a line spells. -/
def record {α : Type} (msgType : String) (spec : Columns α) (line : Str) : Option α :=
  if (columns line)[0]? = some (digitsOf msgType) then spec (columns line) else none

/-! ## Stock Summary -/

structure ReferenceSummary (P : Type) where
  high : P
  low : P
  open' : P
  close : P
  totalVolume : UInt64
deriving DecidableEq

def StockSummary.toReference (summary : StockSummary P) : ReferenceSummary P where
  high := summary.highPrice
  low := summary.lowPrice
  open' := summary.open'
  close := summary.close
  totalVolume := summary.totalVolume

abbrev Summaries (P : Type) := ExtTreeMap Str (ReferenceSummary P)

/-- The body of the loop of `LoadStockSummary`. -/
def summaryLine (summaries : Summaries P) (line : Str) : Summaries P :=
  match ({ csvLine := line } : CSVReader).getField 0 with
  | (.error _, _) => summaries
  | (.ok msgType, reader) =>
    if msgType ≠ digitsOf "223" then summaries
    else
      match tryConstruct (StockSummary.construct fromChars) reader with
      | none => summaries
      | some summary => summaries.insert summary.symbol summary.toReference

/-- `file` is what the path names, if it can be opened. -/
def loadStockSummary (path : String) (file : Option Str) : Except String (Summaries P) :=
  match file with
  | none => .error ("failed to open " ++ path)
  | some content => .ok ((getlines lineFeed content).foldl (summaryLine fromChars) ∅)

/-! ## Quotes -/

structure ReferenceQuote (P : Type) where
  askPrice : P
  askVolume : UInt64
  bidPrice : P
  bidVolume : UInt64
  nanosSinceMidnight : UInt64
deriving DecidableEq

def Quote.toReference (quote : Quote P) : ReferenceQuote P where
  askPrice := quote.askPrice
  askVolume := quote.askVolume
  bidPrice := quote.bidPrice
  bidVolume := quote.bidVolume
  nanosSinceMidnight := headerNanos quote.header

abbrev Quotes (P : Type) := ExtTreeMap Str (ReferenceQuote P)

variable (isZero : P → Bool)

/-- The quote published at the close, with prices of zero. -/
def Quote.zeroed (quote : Quote P) : Bool := isZero quote.askPrice && isZero quote.bidPrice

/-- The body of the loop of `LoadLastQuote`. `isZero` is the comparison with `0.0`. -/
def quoteLine (quotes : Quotes P) (line : Str) : Quotes P :=
  match ({ csvLine := line } : CSVReader).getField 0 with
  | (.error _, _) => quotes
  | (.ok msgType, reader) =>
    if msgType ≠ digitsOf "140" then quotes
    else
      match tryConstruct (Quote.construct fromChars) reader with
      | none => quotes
      | some quote =>
        if quote.zeroed isZero then quotes
        else quotes.insert (headerSymbol quote.header) quote.toReference

def loadLastQuote (path : String) (file : Option Str) : Except String (Quotes P) :=
  match file with
  | none => .error ("failed to open " ++ path)
  | some content => .ok ((getlines lineFeed content).foldl (quoteLine fromChars isZero) ∅)

/-! ## Trades -/

section Trades

variable [LinearOrder P]

/-- The body of the loop of `LoadTrades`. -/
def tradeLine (tape : TradeLedger P) (line : Str) : TradeLedger P :=
  match ({ csvLine := line } : CSVReader).getField 0 with
  | (.error _, _) => tape
  | (.ok msgType, reader) =>
    if msgType = digitsOf "220" then
      match tryConstruct (TaqTrade.construct fromChars) reader with
      | none => tape
      | some trade =>
        tape.recordTrade (headerSymbol trade.header) trade.tradeId trade.price trade.volume
    else if msgType = digitsOf "221" then
      match tryConstruct (tradeCancelConstruct fromChars) reader with
      | none => tape
      | some (header, tradeId, ()) => (tape.cancelTrade (headerSymbol header) tradeId).1
    else if msgType = digitsOf "222" then
      match tryConstruct (TaqTradeCorrection.construct fromChars) reader with
      | none => tape
      | some correction =>
        (tape.replaceTrade (headerSymbol correction.header) correction.originalTradeId
          correction.tradeId correction.price correction.volume).1
    else tape

def loadTrades (path : String) (file : Option Str) : Except String (TradeLedger P) :=
  match file with
  | none => .error ("failed to open " ++ path)
  | some content => .ok ((getlines lineFeed content).foldl (tradeLine fromChars) {})

end Trades

/-! ## What the lines spell -/

theorem getField_zero (line : Str) :
    ∃ msgType reader, ({ csvLine := line } : CSVReader).getField 0 = (.ok msgType, reader)
      ∧ (columns line)[0]? = some msgType ∧ reader.Valid line := by
  rcases getField_cases (CSVReader.valid_new line) 0 with ⟨reader, error, hget, hcol⟩
    | ⟨reader, msgType, hget, hcol, hvalid⟩
  · have hne : columns line ≠ [] := List.splitOn_ne_nil comma line
    exact absurd (List.getElem?_eq_none_iff.mp hcol) (by simpa using hne)
  · exact ⟨msgType, reader, hget, hcol, hvalid⟩

theorem record_of_eq {α : Type} {msgType : String} {spec : Columns α} {line : Str}
    (h : (columns line)[0]? = some (digitsOf msgType)) :
    record msgType spec line = spec (columns line) :=
  if_pos h

theorem record_of_ne {α : Type} {msgType : String} {spec : Columns α} {line column : Str}
    (h : (columns line)[0]? = some column) (hne : column ≠ digitsOf msgType) :
    record msgType spec line = none := by
  refine if_neg ?_
  rw [h]
  exact fun heq => hne (Option.some.inj heq)

theorem summaryLine_eq (summaries : Summaries P) (line : Str) :
    summaryLine fromChars summaries line
      = ((record "223" (StockSummary.parse fromChars) line).map fun summary =>
          summaries.insert summary.symbol summary.toReference).getD summaries := by
  obtain ⟨msgType, reader, hget, hcol, hvalid⟩ := getField_zero line
  rw [summaryLine, hget]
  dsimp only
  split
  · rename_i hne
    rw [record_of_ne hcol hne]
    rfl
  · rename_i heq
    rw [record_of_eq (by rw [hcol, not_not.mp heq]),
      tryConstruct_eq (StockSummary.meets fromChars) hvalid]
    cases StockSummary.parse fromChars (columns line) <;> rfl

theorem quoteLine_eq (quotes : Quotes P) (line : Str) :
    quoteLine fromChars isZero quotes line
      = (((record "140" (Quote.parse fromChars) line).filter
          fun quote => !quote.zeroed isZero).map fun quote =>
          quotes.insert (headerSymbol quote.header) quote.toReference).getD quotes := by
  obtain ⟨msgType, reader, hget, hcol, hvalid⟩ := getField_zero line
  rw [quoteLine, hget]
  dsimp only
  split
  · rename_i hne
    rw [record_of_ne hcol hne]
    rfl
  · rename_i heq
    rw [record_of_eq (by rw [hcol, not_not.mp heq]),
      tryConstruct_eq (Quote.meets fromChars) hvalid]
    cases Quote.parse fromChars (columns line) with
    | none => rfl
    | some quote =>
        cases hzero : quote.zeroed isZero with
        | true => simp [Option.filter, hzero]
        | false => simp [Option.filter, hzero]

/-! ## The loaded references -/

def summaryRecords (content : Str) : List (StockSummary P) :=
  (getlines lineFeed content).filterMap (record "223" (StockSummary.parse fromChars))

def quoteRecords (content : Str) : List (Quote P) :=
  (getlines lineFeed content).filterMap fun line =>
    (record "140" (Quote.parse fromChars) line).filter fun quote => !quote.zeroed isZero

/-- **A reference is the last record of its symbol.** Of a file that can be opened, both
loaders keep for each symbol the last record that the file spells for it, quotes with
zeroed prices left out; other lines and records that do not decode have no influence. -/
theorem references_last (path : String) (content : Str) :
    (∃ summaries, loadStockSummary fromChars path (some content) = .ok summaries
        ∧ ∀ symbol : Str, summaries[symbol]?
          = (((summaryRecords fromChars content).filter
              fun summary => summary.symbol = symbol).getLast?).map StockSummary.toReference)
      ∧ ∃ quotes, loadLastQuote fromChars isZero path (some content) = .ok quotes
        ∧ ∀ symbol : Str, quotes[symbol]?
          = (((quoteRecords fromChars isZero content).filter
              fun quote => headerSymbol quote.header = symbol).getLast?).map
                Quote.toReference := by
  constructor
  · refine ⟨_, rfl, ?_⟩
    intro symbol
    rw [funext₂ (summaryLine_eq fromChars), LastWrite.foldl_insert_eq,
      LastWrite.getElem?_insertAll_map, summaryRecords]
  · refine ⟨_, rfl, ?_⟩
    intro symbol
    rw [funext₂ (quoteLine_eq fromChars isZero), LastWrite.foldl_insert_eq,
      LastWrite.getElem?_insertAll_map, quoteRecords]

/-! ## The loaded ledger -/

section Ledger

variable [LinearOrder P]

/-- The call of the ledger that a line spells. -/
def tradeCall (line : Str) : Option (LedgerCall P) :=
  ((record "220" (TaqTrade.parse fromChars) line).map fun trade =>
      ⟨headerSymbol trade.header, .recordTrade trade.tradeId trade.price trade.volume⟩).or <|
  ((record "221" (parseStruct fromChars tradeCancelMembers 0) line).map fun cancel =>
      ⟨headerSymbol cancel.1, .cancelTrade cancel.2.1⟩).or <|
  (record "222" (TaqTradeCorrection.parse fromChars) line).map fun correction =>
      ⟨headerSymbol correction.header, .replaceTrade correction.originalTradeId
        correction.tradeId correction.price correction.volume⟩

theorem tradeLine_eq (tape : TradeLedger P) (line : Str) :
    tradeLine fromChars tape line
      = ((tradeCall fromChars line).map fun call => (tape.call call).1).getD tape := by
  obtain ⟨msgType, reader, hget, hcol, hvalid⟩ := getField_zero line
  rw [tradeLine, hget, tradeCall]
  dsimp only
  split
  · rename_i heq
    rw [record_of_eq (by rw [hcol, heq]), tryConstruct_eq (TaqTrade.meets fromChars) hvalid,
      record_of_ne hcol (by rw [heq]; decide), record_of_ne hcol (by rw [heq]; decide)]
    cases TaqTrade.parse fromChars (columns line) <;> rfl
  · rename_i hne
    rw [record_of_ne hcol hne]
    split
    · rename_i heq
      rw [record_of_eq (by rw [hcol, heq]), record_of_ne hcol (by rw [heq]; decide),
        tryConstruct_eq (tradeCancel_meets fromChars) hvalid]
      cases parseStruct fromChars tradeCancelMembers 0 (columns line) <;> rfl
    · rename_i hne'
      rw [record_of_ne hcol hne']
      split
      · rename_i heq
        rw [record_of_eq (by rw [hcol, heq]),
          tryConstruct_eq (TaqTradeCorrection.meets fromChars) hvalid]
        cases TaqTradeCorrection.parse fromChars (columns line) <;> rfl
      · rename_i hne''
        rw [record_of_ne hcol hne'']
        rfl

def tradeCalls (content : Str) : List (LedgerCall P) :=
  (getlines lineFeed content).filterMap (tradeCall fromChars)

theorem loadTrades_eq (path : String) (content : Str) :
    loadTrades fromChars path (some content)
      = .ok (TradeLedger.run (tradeCalls fromChars content)) := by
  rw [loadTrades, funext₂ (tradeLine_eq fromChars), TradeLedger.run, tradeCalls]
  refine congrArg Except.ok ?_
  generalize ({} : TradeLedger P) = tape
  induction getlines lineFeed content generalizing tape with
  | nil => rfl
  | cons line lines ih =>
      rw [List.foldl_cons, ih, List.filterMap_cons]
      cases tradeCall fromChars line <;> rfl

omit [LinearOrder P] in
theorem sparesCancelled_of_mem {content : Str} {call : LedgerCall P}
    (h : call ∈ tradeCalls fromChars content) (tape : TradeLedger P) :
    tape.SparesCancelled call := by
  obtain ⟨line, -, hline⟩ := List.mem_filterMap.mp h
  simp only [tradeCall, Option.or_eq_some_iff, Option.map_eq_some_iff] at hline
  rcases hline with ⟨_, -, rfl⟩ | ⟨-, ⟨_, -, rfl⟩ | ⟨-, _, -, rfl⟩⟩ <;> trivial

theorem agrees_run_tradeCalls (content : Str) :
    (TradeLedger.run (tradeCalls fromChars content)).Agrees := by
  refine TradeLedger.agrees_run (Runs.along_iff_forall_append.mpr ?_)
  intro before call after heq
  exact sparesCancelled_of_mem fromChars (heq ▸ List.mem_append_right _ (List.mem_cons_self ..)) _

/-- **What the loaded ledger says of a symbol.** The prices are of a linear order, so no
trade of the file is at NaN. Of a file that can be opened, the ledger of a symbol is what
the lines for this symbol alone make of an empty one; its statistics are those of its
trades that are neither cancelled nor corrected away; and it is listed exactly if some
line spells a call for it. -/
theorem loadTrades_stats (path : String) (content : Str) :
    ∃ tape, loadTrades fromChars path (some content) = .ok tape
      ∧ ∀ symbol,
        tape.getOrCreate symbol = (TradeLedger.machine.alone
            (TradeLedger.own symbol (tradeCalls fromChars content))).1
          ∧ tape.getDailyStats symbol
            = DailyStats.ofTrades (liveTrades (tape.getOrCreate symbol).log)
          ∧ (symbol ∈ tape.getSymbols
            ↔ ∃ call ∈ tradeCalls fromChars content, call.symbol = symbol) := by
  refine ⟨_, loadTrades_eq fromChars path content, ?_⟩
  intro symbol
  refine ⟨TradeLedger.getOrCreate_run _ symbol, agrees_run_tradeCalls fromChars content symbol, ?_⟩
  show symbol ∈ (TradeLedger.run _).ledgers.keys ↔ _
  rw [TradeLedger.run_eq_shards, ExtTreeMap.mem_keys, Shard.Machine.mem_cells_iff]
  rfl

end Ledger

end Mde.Nyse
