import Mde.WireMessages

/-!
# The reference structs

The structs of `reference_types.hpp`, which the validation drivers read
from the reference files: `StockSummary`, `Quote`, `TaqTrade` and
`TaqTradeCorrection`.

A member table is written once, like the macro, with what becomes of a
nested struct and of a field as its parameters. `Construct` fills it from
a reader, as the constructors that `DEFINE_STRUCT` makes do, and stops at
the first member that throws; `Columns` fills it from the columns of a
line. `Meets.bind` carries the agreement of the two through a table, so
that each constructor meets its specification on every line, whatever the
reader was asked before.
-/

namespace Mde.Nyse

open Members

/-! ## Filling a table -/

/-- What reads from a reader and may throw. -/
abbrev Construct (α : Type) := StateT CSVReader (Except CSVReader.Error) α

abbrev Columns (α : Type) := ReaderT (List Str) Option α

section Fill

variable {P : Type} (fromChars : Str → FromChars P)

/-- `PopulateMember` at a struct. -/
def populateStruct (members : Members) (idx : Nat) : Construct (members.Row P) :=
  fun reader => members.populate fromChars reader idx

/-- `PopulateMember` at a field. -/
def populateMember (type : FieldType) (idx : Nat) : Construct (type.Value P) :=
  fun reader => populateField fromChars type reader idx

def parseStruct (members : Members) (idx : Nat) : Columns (members.Row P) :=
  fun texts => members.parse fromChars (texts.drop idx)

def parseMember (type : FieldType) (idx : Nat) : Columns (type.Value P) :=
  fun texts => texts[idx]?.bind (type.parse fromChars)

/-! ### Agreement -/

/-- From a valid reader the constructor gives what the columns give, and keeps the
reader valid. -/
def Meets {α : Type} (construct : Construct α) (spec : Columns α) : Prop :=
  ∀ (line : Str) (reader : CSVReader), reader.Valid line →
    Reads line (construct reader) (spec (columns line))

theorem meets_populateStruct (members : Members) (idx : Nat) :
    Meets (populateStruct fromChars members idx) (parseStruct fromChars members idx) :=
  fun _ _ hvalid => members.populate_reads fromChars hvalid idx

theorem meets_populateMember (type : FieldType) (idx : Nat) :
    Meets (populateMember fromChars type idx) (parseMember fromChars type idx) :=
  fun _ _ hvalid => populateField_reads fromChars hvalid type idx

theorem Meets.pure {α : Type} (value : α) :
    Meets (Pure.pure value : Construct α) (Pure.pure value) :=
  fun _ _ hvalid => ⟨rfl, hvalid⟩

theorem Meets.bind {α β : Type} {construct : Construct α} {spec : Columns α}
    {next : α → Construct β} {nextSpec : α → Columns β} (h : Meets construct spec)
    (hnext : ∀ value, Meets (next value) (nextSpec value)) :
    Meets (construct >>= next) (spec >>= nextSpec) := by
  intro line reader hvalid
  have hfirst := h line reader hvalid
  have hspec : (spec >>= nextSpec) (columns line)
      = (spec (columns line)).bind fun value => nextSpec value (columns line) := rfl
  rw [hspec]
  cases hconstruct : construct reader with
  | error e =>
      have hthrow : (construct >>= next) reader = .error e := by
        simp [Bind.bind, StateT.bind, Except.bind, hconstruct]
      rw [hconstruct] at hfirst
      rw [hthrow, show spec (columns line) = none from hfirst]
      rfl
  | ok r =>
      have hcontinue : (construct >>= next) reader = next r.1 r.2 := by
        simp [Bind.bind, StateT.bind, Except.bind, hconstruct]
      rw [hconstruct] at hfirst
      rw [hcontinue, hfirst.1]
      exact hnext r.1 line r.2 hfirst.2

variable {fromChars}

theorem meets_struct {β : Type} {members : Members} {idx : Nat}
    {next : members.Row P → Construct β} {nextSpec : members.Row P → Columns β}
    (hnext : ∀ value, Meets (next value) (nextSpec value)) :
    Meets (populateStruct fromChars members idx >>= next)
      (parseStruct fromChars members idx >>= nextSpec) :=
  Meets.bind (meets_populateStruct fromChars members idx) hnext

theorem meets_member {β : Type} {type : FieldType} {idx : Nat}
    {next : type.Value P → Construct β} {nextSpec : type.Value P → Columns β}
    (hnext : ∀ value, Meets (next value) (nextSpec value)) :
    Meets (populateMember fromChars type idx >>= next)
      (parseMember fromChars type idx >>= nextSpec) :=
  Meets.bind (meets_populateMember fromChars type idx) hnext

end Fill

/-! ## Tables -/

section Tables

variable {P : Type} {m : Type → Type} [Monad m]
  (struct : (members : Members) → Nat → m (members.Row P))
  (field : (type : FieldType) → Nat → m (type.Value P))

structure StockSummary (P : Type) where
  header : messageHeaderMembers.Row P
  sourceTime : SourceTime
  symbol : Str
  highPrice : P
  lowPrice : P
  open' : P
  close : P
  totalVolume : UInt64

/-- No `SymbolSeqNum`, and so not the per-symbol header. -/
def stockSummaryMembers : m (StockSummary P) := do
  let header ← struct messageHeaderMembers 0
  let sourceTime ← field (.base .sourceTime) 2
  let symbol ← field (.base .string) 3
  let highPrice ← field (.base .double) 4
  let lowPrice ← field (.base .double) 5
  let open' ← field (.base .double) 6
  let close ← field (.base .double) 7
  let totalVolume ← field (.base .uint64) 8
  return { header, sourceTime, symbol, highPrice, lowPrice, open', close, totalVolume }

structure Quote (P : Type) where
  header : perSymbolHeaderMembers.Row P
  askPrice : P
  askVolume : UInt64
  bidPrice : P
  bidVolume : UInt64
  quoteCondition : Byte
  rpiIndicator : Option Byte

def quoteMembers : m (Quote P) := do
  let header ← struct perSymbolHeaderMembers 0
  let askPrice ← field (.base .double) 5
  let askVolume ← field (.base .uint64) 6
  let bidPrice ← field (.base .double) 7
  let bidVolume ← field (.base .uint64) 8
  let quoteCondition ← field (.base .char) 9
  let rpiIndicator ← field (.optional .char) 10
  return { header, askPrice, askVolume, bidPrice, bidVolume, quoteCondition, rpiIndicator }

structure TaqTrade (P : Type) where
  header : perSymbolHeaderMembers.Row P
  tradeId : UInt64
  price : P
  volume : UInt64
  tradeCondition1 : Option Byte
  tradeCondition2 : Option Byte
  tradeCondition3 : Option Byte
  tradeCondition4 : Option Byte

def taqTradeMembers : m (TaqTrade P) := do
  let header ← struct perSymbolHeaderMembers 0
  let tradeId ← field (.base .uint64) 5
  let price ← field (.base .double) 6
  let volume ← field (.base .uint64) 7
  let tradeCondition1 ← field (.optional .char) 8
  let tradeCondition2 ← field (.optional .char) 9
  let tradeCondition3 ← field (.optional .char) 10
  let tradeCondition4 ← field (.optional .char) 11
  return { header, tradeId, price, volume, tradeCondition1, tradeCondition2,
           tradeCondition3, tradeCondition4 }

structure TaqTradeCorrection (P : Type) where
  header : perSymbolHeaderMembers.Row P
  originalTradeId : UInt64
  tradeId : UInt64
  price : P
  volume : UInt64
  tradeCondition1 : Option Byte
  tradeCondition2 : Option Byte
  tradeCondition3 : Option Byte
  tradeCondition4 : Option Byte

def taqTradeCorrectionMembers : m (TaqTradeCorrection P) := do
  let header ← struct perSymbolHeaderMembers 0
  let originalTradeId ← field (.base .uint64) 5
  let tradeId ← field (.base .uint64) 6
  let price ← field (.base .double) 7
  let volume ← field (.base .uint64) 8
  let tradeCondition1 ← field (.optional .char) 9
  let tradeCondition2 ← field (.optional .char) 10
  let tradeCondition3 ← field (.optional .char) 11
  let tradeCondition4 ← field (.optional .char) 12
  return { header, originalTradeId, tradeId, price, volume, tradeCondition1,
           tradeCondition2, tradeCondition3, tradeCondition4 }

end Tables

/-- `_symbol` of the per-symbol header. -/
def headerSymbol {P : Type} (header : perSymbolHeaderMembers.Row P) : Str := header.2.2.1

/-- `_sourceTime._nanosSinceMidnight` of the per-symbol header. -/
def headerNanos {P : Type} (header : perSymbolHeaderMembers.Row P) : UInt64 :=
  header.2.1.nanosSinceMidnight

/-! ## The constructors -/

section Constructors

variable {P : Type} (fromChars : Str → FromChars P)

def StockSummary.construct : Construct (StockSummary P) :=
  stockSummaryMembers (populateStruct fromChars) (populateMember fromChars)

def Quote.construct : Construct (Quote P) :=
  quoteMembers (populateStruct fromChars) (populateMember fromChars)

def TaqTrade.construct : Construct (TaqTrade P) :=
  taqTradeMembers (populateStruct fromChars) (populateMember fromChars)

def TaqTradeCorrection.construct : Construct (TaqTradeCorrection P) :=
  taqTradeCorrectionMembers (populateStruct fromChars) (populateMember fromChars)

/-- The struct of Integrated's Trade Cancel is used for msgType 221. -/
def tradeCancelConstruct : Construct (tradeCancelMembers.Row P) :=
  populateStruct fromChars tradeCancelMembers 0

/-! ### What the columns give -/

def StockSummary.parse : Columns (StockSummary P) :=
  stockSummaryMembers (parseStruct fromChars) (parseMember fromChars)

def Quote.parse : Columns (Quote P) :=
  quoteMembers (parseStruct fromChars) (parseMember fromChars)

def TaqTrade.parse : Columns (TaqTrade P) :=
  taqTradeMembers (parseStruct fromChars) (parseMember fromChars)

def TaqTradeCorrection.parse : Columns (TaqTradeCorrection P) :=
  taqTradeCorrectionMembers (parseStruct fromChars) (parseMember fromChars)

/-! ### The constructors meet it -/

theorem StockSummary.meets :
    Meets (StockSummary.construct fromChars) (StockSummary.parse fromChars) := by
  refine meets_struct fun _ => ?_
  iterate 7 refine meets_member fun _ => ?_
  exact Meets.pure _

theorem Quote.meets : Meets (Quote.construct fromChars) (Quote.parse fromChars) := by
  refine meets_struct fun _ => ?_
  iterate 6 refine meets_member fun _ => ?_
  exact Meets.pure _

theorem TaqTrade.meets :
    Meets (TaqTrade.construct fromChars) (TaqTrade.parse fromChars) := by
  refine meets_struct fun _ => ?_
  iterate 7 refine meets_member fun _ => ?_
  exact Meets.pure _

theorem TaqTradeCorrection.meets :
    Meets (TaqTradeCorrection.construct fromChars) (TaqTradeCorrection.parse fromChars) := by
  refine meets_struct fun _ => ?_
  iterate 8 refine meets_member fun _ => ?_
  exact Meets.pure _

theorem tradeCancel_meets :
    Meets (tradeCancelConstruct fromChars) (parseStruct fromChars tradeCancelMembers 0) :=
  meets_populateStruct fromChars tradeCancelMembers 0

end Constructors

end Mde.Nyse
