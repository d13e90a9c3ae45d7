import Mde.BookTrades
import Mde.LedgerTape

/-!
# The indices of the trade logs

`OrderBook` and `TradeLedger` store a log index once, when they append,
and use it unchecked later. The tapes say where an index can lead: it is
the last position of its ID's key, so it is in range, no two IDs share it,
and the record there was logged under the ID.

Trade and cross IDs are different keys of one tape. Their indices are
disjoint, and since a cancel revises trades only, no record that was ever
logged under a cross ID is cancelled (`cross_never_cancelled`).
-/

open Std KeyedLog

namespace Mde

open Messages

variable {P : Type*}

/-! ## The book -/

def revisedKey : Payload P → Option TradeKey
  | .tradeCancel msg => some (.trade msg.tradeId)
  | .crossCorrection msg => some (.cross msg.crossId)
  | _ => none

/-- A message appends behind the tape, or revises the last record under its key. -/
theorem Tape.step_frame {tape : Tape P} {msg : Payload P} {index : Nat}
    (hlt : index < tape.length) (hne : (tape.step msg)[index]? ≠ tape[index]?) :
    ∃ key, revisedKey msg = some key ∧ lastIdx? tape key = some index := by
  have happ : ∀ e, (tape ++ [e])[index]? = tape[index]? := fun e =>
    List.getElem?_append_left hlt
  cases msg with
  | orderExecution msg => exact absurd (happ _) hne
  | nonDisplayedTrade msg => exact absurd (happ _) hne
  | crossTrade msg => exact absurd (happ _) hne
  | tradeCancel msg =>
      rw [Tape.step] at hne
      exact ⟨_, rfl, lastIdx?_of_reviseLast_ne hne⟩
  | crossCorrection msg =>
      rw [Tape.step] at hne
      exact ⟨_, rfl, lastIdx?_of_reviseLast_ne hne⟩
  | _ => exact absurd rfl hne

theorem Tape.map_fst_step_prefix (tape : Tape P) (msg : Payload P) :
    tape.map Prod.fst <+: (tape.step msg).map Prod.fst := by
  cases msg with
  | orderExecution msg => exact ⟨_, (List.map_append ..).symm⟩
  | nonDisplayedTrade msg => exact ⟨_, (List.map_append ..).symm⟩
  | crossTrade msg => exact ⟨_, (List.map_append ..).symm⟩
  | tradeCancel msg => rw [Tape.step, map_fst_reviseLast]
  | crossCorrection msg => rw [Tape.step, map_fst_reviseLast]
  | _ => exact List.prefix_rfl

theorem Tape.map_fst_foldl_prefix (tape : Tape P) (msgs : List (Payload P)) :
    tape.map Prod.fst <+: (msgs.foldl Tape.step tape).map Prod.fst := by
  induction msgs generalizing tape with
  | nil => exact List.prefix_rfl
  | cons msg msgs ih => exact (tape.map_fst_step_prefix msg).trans (ih _)

variable [LinearOrder P]

namespace SymbolBook

def indexOf (book : SymbolBook P) : TradeKey → Option Nat
  | .trade id => book.tradesById[id]?
  | .cross id => book.crossesById[id]?

/-- Every index of the ID maps is in range, the two maps share none, nor do two IDs of
one map, each leads to a record logged under its ID, a cross's is not cancelled, and a
message changes no other record. -/
structure IndicesSafe (book : SymbolBook P) (tape : Tape P) : Prop where
  trades_lt : ∀ (id : UInt64) index, book.tradesById[id]? = some index →
    index < book.tradeLog.length
  crosses_lt : ∀ (id : UInt64) index, book.crossesById[id]? = some index →
    index < book.tradeLog.length
  disjoint : ∀ (id id' : UInt64) index, book.tradesById[id]? = some index →
    book.crossesById[id']? ≠ some index
  trades_inj : ∀ (id id' : UInt64) index, book.tradesById[id]? = some index →
    book.tradesById[id']? = some index → id = id'
  crosses_inj : ∀ (id id' : UInt64) index, book.crossesById[id]? = some index →
    book.crossesById[id']? = some index → id = id'
  crosses_live : ∀ (id : UInt64) index, book.crossesById[id]? = some index →
    ∃ trade, book.tradeLog[index]? = some trade ∧ trade.cancelled = false
  own : ∀ key index, book.indexOf key = some index →
    ∃ trade, book.tradeLog[index]? = some trade ∧ tape[index]? = some (key, trade)
  writes : ∀ msg index, index < book.tradeLog.length →
    (book.apply msg).1.tradeLog[index]? ≠ book.tradeLog[index]? →
      ∃ key, revisedKey msg = some key ∧ book.indexOf key = some index

end SymbolBook

namespace Taped

variable {book : SymbolBook P} {tape : Tape P}

theorem indexOf_eq (h : Taped book tape) (key : TradeKey) :
    book.indexOf key = lastIdx? tape key := by
  cases key with
  | trade id => exact h.trades id
  | cross id => exact h.crosses id

theorem indicesSafe (h : Taped book tape) : book.IndicesSafe tape := by
  have hlt : ∀ {key : TradeKey} {index : Nat}, lastIdx? tape key = some index →
      index < book.tradeLog.length := fun hindex => by
    rw [h.length_eq]
    exact lastIdx?_lt hindex
  refine ⟨fun id index hi => ?_, fun id index hi => ?_, fun id id' index hi hi' => ?_,
    fun id id' index hi hi' => ?_, fun id id' index hi hi' => ?_, fun id index hi => ?_,
    fun key index hi => ?_, fun msg index hi hne => ?_⟩
  · exact hlt ((h.trades id).symm.trans hi)
  · exact hlt ((h.crosses id).symm.trans hi)
  · rw [h.trades] at hi
    rw [h.crosses] at hi'
    cases lastIdx?_inj hi hi'
  · rw [h.trades] at hi hi'
    exact TradeKey.trade.inj (lastIdx?_inj hi hi')
  · rw [h.crosses] at hi hi'
    exact TradeKey.cross.inj (lastIdx?_inj hi hi')
  · obtain ⟨trade, hlog, hmem⟩ := h.getElem?_log ((h.crosses id).symm.trans hi)
    exact ⟨trade, hlog, h.crossLive id trade hmem⟩
  · rw [h.indexOf_eq] at hi
    obtain ⟨trade, htrade⟩ := getElem?_of_lastIdx? hi
    refine ⟨trade, ?_, htrade⟩
    rw [h.log, List.getElem?_map, htrade]
    rfl
  · simp only [h.indexOf_eq]
    rw [h.length_eq] at hi
    refine Tape.step_frame hi fun heq => hne ?_
    rw [(h.apply msg).log, h.log, List.getElem?_map, List.getElem?_map, heq]

end Taped

/-- The tape of a symbol grows with the messages, and keeps the keys it has. -/
theorem tape_keys_prefix (msgs later : List (Payload P)) (symbol : Str) :
    (Tape.ofMessages (OrderBook.own symbol msgs)).map Prod.fst
      <+: (Tape.ofMessages (OrderBook.own symbol (msgs ++ later))).map Prod.fst := by
  have hown : OrderBook.own symbol (msgs ++ later)
      = OrderBook.own symbol msgs ++ OrderBook.own symbol later := List.filter_append ..
  rw [hown, Tape.ofMessages, Tape.ofMessages, List.foldl_append]
  exact Tape.map_fst_foldl_prefix _ _

/-- A record that a cross ID led to is not cancelled then or later, whatever becomes of
the ID. -/
theorem cross_never_cancelled {msgs : List (Payload P)} {symbol : Str} {id : UInt64}
    {index : Nat}
    (h : ((OrderBook.run msgs).getOrCreateBook symbol).crossesById[id]? = some index)
    (later : List (Payload P)) :
    ∃ trade, ((OrderBook.run (msgs ++ later)).getOrCreateBook symbol).tradeLog[index]?
        = some trade
      ∧ trade.cancelled = false := by
  rw [OrderBook.getOrCreateBook_run] at h ⊢
  have hnow := Taped.alone (OrderBook.own symbol msgs)
  have hthen := Taped.alone (OrderBook.own symbol (msgs ++ later))
  obtain ⟨trade, htrade⟩ := getElem?_of_lastIdx? ((hnow.crosses id).symm.trans h)
  -- the key at the position stays
  obtain ⟨keys, hkeys⟩ := tape_keys_prefix msgs later symbol
  have hkey : ((Tape.ofMessages (OrderBook.own symbol (msgs ++ later))).map Prod.fst)[index]?
      = some (.cross id) := by
    obtain ⟨hlt, -⟩ := List.getElem?_eq_some_iff.mp htrade
    rw [← hkeys, List.getElem?_append_left (by rwa [List.length_map]), List.getElem?_map, htrade]
    rfl
  rw [List.getElem?_map, Option.map_eq_some_iff] at hkey
  obtain ⟨⟨key, trade'⟩, htrade', rfl⟩ := hkey
  refine ⟨trade', ?_, hthen.crossLive id trade' (List.mem_of_getElem? htrade')⟩
  rw [hthen.log, List.getElem?_map, htrade']
  rfl

/-! ## The trade ledger -/

def revisedId : LedgerOp P → Option UInt64
  | .recordTrade _ _ _ => none
  | .cancelTrade id => some id
  | .adjustVolume id _ => some id
  | .replaceTrade oldId _ _ _ => some oldId

omit [LinearOrder P] in
theorem LedgerTape.step_frame {tape : LedgerTape P} {op : LedgerOp P} {index : Nat}
    (hlt : index < tape.length) (hne : (tape.step op)[index]? ≠ tape[index]?) :
    ∃ id, revisedId op = some id ∧ lastIdx? tape id = some index := by
  cases op with
  | recordTrade id price volume => exact absurd (List.getElem?_append_left hlt) hne
  | cancelTrade id => exact ⟨id, rfl, lastIdx?_of_reviseLast_ne hne⟩
  | adjustVolume id newVolume =>
      rw [LedgerTape.step] at hne
      exact ⟨id, rfl, lastIdx?_of_reviseLast_ne hne⟩
  | replaceTrade oldId newId price volume =>
      have hlt' : index < (reviseLast TradeRecord.cancel tape oldId).length := by
        have hlen := congrArg List.length (map_fst_reviseLast TradeRecord.cancel tape oldId)
        rw [List.length_map, List.length_map] at hlen
        omega
      rw [LedgerTape.step, List.getElem?_append_left hlt'] at hne
      exact ⟨oldId, rfl, lastIdx?_of_reviseLast_ne hne⟩

/-- Every index of the ID map is in range, no two IDs share one, each leads to a record
logged under its ID, and an operation changes no other record. -/
structure SymbolLedger.IndicesSafe (ledger : SymbolLedger P) (tape : LedgerTape P) : Prop where
  ids_lt : ∀ (id : UInt64) index, ledger.byId[id]? = some index → index < ledger.log.length
  ids_inj : ∀ (id id' : UInt64) index, ledger.byId[id]? = some index →
    ledger.byId[id']? = some index → id = id'
  own : ∀ (id : UInt64) index, ledger.byId[id]? = some index →
    ∃ trade, ledger.log[index]? = some trade ∧ tape[index]? = some (id, trade)
  writes : ∀ op index, index < ledger.log.length →
    (ledger.apply op).1.log[index]? ≠ ledger.log[index]? →
      ∃ id, revisedId op = some id ∧ ledger.byId[id]? = some index

theorem SymbolLedger.Kept.indicesSafe {ledger : SymbolLedger P} {tape : LedgerTape P}
    (h : ledger.Kept tape) : ledger.IndicesSafe tape := by
  refine ⟨fun id index hi => ?_, fun id id' index hi hi' => ?_,
    fun id index hi => h.getElem?_log hi, fun op index hi hne => ?_⟩
  · rw [h.length_eq]
    exact lastIdx?_lt ((h.ids id).symm.trans hi)
  · rw [h.ids] at hi hi'
    exact lastIdx?_inj hi hi'
  · simp only [h.ids]
    rw [h.length_eq] at hi
    refine LedgerTape.step_frame hi fun heq => hne ?_
    rw [(h.apply op).log, h.log, List.getElem?_map, List.getElem?_map, heq]

/-! ## Runs -/

/-- **The indices are safe.** After any messages the indices of a symbol's book are, and
no record that a cross ID led to is cancelled then or later; after any calls the indices
of a symbol's trade ledger are. -/
theorem ledger_indices_safe :
    (∀ (msgs : List (Payload P)) (symbol : Str),
      ((OrderBook.run msgs).getOrCreateBook symbol).IndicesSafe
        (Tape.ofMessages (OrderBook.own symbol msgs)))
    ∧ (∀ (msgs later : List (Payload P)) (symbol : Str) (id : UInt64) (index : Nat),
      ((OrderBook.run msgs).getOrCreateBook symbol).crossesById[id]? = some index →
        ∃ trade, ((OrderBook.run (msgs ++ later)).getOrCreateBook symbol).tradeLog[index]?
            = some trade
          ∧ trade.cancelled = false)
    ∧ (∀ (calls : List (LedgerCall P)) (symbol : Str),
      ((TradeLedger.run calls).getOrCreate symbol).IndicesSafe
        (TradeLedger.tapeOf calls symbol)) := by
  refine ⟨fun msgs symbol => ?_, fun msgs later symbol id index h =>
    cross_never_cancelled h later, fun calls symbol =>
    (TradeLedger.kept_run calls symbol).indicesSafe⟩
  rw [OrderBook.getOrCreateBook_run]
  exact (Taped.alone _).indicesSafe

end Mde
