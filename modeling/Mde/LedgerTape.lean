import Mde.KeyedLog
import Mde.LedgerStats

/-!
# The tape of a trade ledger

A trade record does not keep the ID it was recorded under. `LedgerTape` is
the log with these IDs, as the calls define it: `RecordTrade` and
`ReplaceTrade` append, `CancelTrade` and `AdjustVolume` revise the last
record under their ID.

* `Kept` — a ledger's log holds the records of its tape, and its ID map
  the last position of every ID. Every operation keeps it, whatever IDs
  are repeated (`Kept.apply`).
* `SparesLive` — the operation does not record under an ID whose last
  record is live, unless it cancels that record itself. These are the
  operations that hide no live record (`Kept.visible_step_iff`).
-/

open Std KeyedLog

namespace Mde

variable {P : Type*}

/-- The trade log of a symbol with the IDs the records were recorded under. -/
abbrev LedgerTape (P : Type*) := List (UInt64 × TradeRecord P)

/-- `_cancelled = true`. -/
def TradeRecord.cancel (trade : TradeRecord P) : TradeRecord P := { trade with cancelled := true }

def TradeRecord.live (trade : TradeRecord P) : Bool := !trade.cancelled

namespace LedgerTape

def step (tape : LedgerTape P) : LedgerOp P → LedgerTape P
  | .recordTrade id price volume => tape ++ [(id, ⟨price, volume, false⟩)]
  | .cancelTrade id => reviseLast TradeRecord.cancel tape id
  | .adjustVolume id newVolume =>
    reviseLast (fun trade => { trade with volume := newVolume }) tape id
  | .replaceTrade oldId newId price volume =>
    reviseLast TradeRecord.cancel tape oldId ++ [(newId, ⟨price, volume, false⟩)]

def ofOps (ops : List (LedgerOp P)) : LedgerTape P := ops.foldl step []

end LedgerTape

namespace SymbolLedger

/-- A ledger keeps its tape: the log holds the records, the ID map the last
positions. -/
structure Kept (ledger : SymbolLedger P) (tape : LedgerTape P) : Prop where
  log : ledger.log = tape.map Prod.snd
  ids : ∀ id : UInt64, ledger.byId[id]? = lastIdx? tape id

theorem kept_empty : Kept ({} : SymbolLedger P) [] where
  log := rfl
  ids := fun id => by simp [lastIdx?]

namespace Kept

variable {ledger : SymbolLedger P} {tape : LedgerTape P}

theorem length_eq (h : Kept ledger tape) : ledger.log.length = tape.length := by
  rw [h.log, List.length_map]

theorem getElem?_log (h : Kept ledger tape) {id : UInt64} {index : Nat}
    (hindex : ledger.byId[id]? = some index) :
    ∃ trade, ledger.log[index]? = some trade ∧ tape[index]? = some (id, trade) := by
  obtain ⟨trade, htrade⟩ := getElem?_of_lastIdx? ((h.ids id).symm.trans hindex)
  refine ⟨trade, ?_, htrade⟩
  rw [h.log, List.getElem?_map, htrade]
  rfl

theorem reviseLast_cancel_of_dead {id : UInt64}
    (hdead : ∀ trade, last? tape id = some trade → trade.live = false) :
    reviseLast TradeRecord.cancel tape id = tape := by
  refine reviseLast_eq_self fun trade htrade => ?_
  have hlive := hdead trade htrade
  obtain ⟨price, volume, cancelled⟩ := trade
  cases cancelled with
  | true => rfl
  | false => cases hlive

theorem markCancelled (h : Kept ledger tape) {id : UInt64} {index : Nat}
    (hindex : lastIdx? tape id = some index) :
    Kept (ledger.markCancelled index) (reviseLast TradeRecord.cancel tape id) where
  log := by
    rw [map_snd_reviseLast hindex, ← h.log]
    rfl
  ids id' := by
    rw [lastIdx?_reviseLast]
    exact h.ids id'

theorem liveIndex?_cases (h : Kept ledger tape) (id : UInt64) :
    (ledger.liveIndex? id = none ∧ ∀ trade, last? tape id = some trade → trade.live = false)
      ∨ ∃ index trade, ledger.liveIndex? id = some index ∧ lastIdx? tape id = some index
        ∧ last? tape id = some trade ∧ trade.live = true := by
  rw [liveIndex?, last?, h.ids]
  cases hi : lastIdx? tape id with
  | none => exact .inl ⟨rfl, fun trade htrade => by cases htrade⟩
  | some index =>
      obtain ⟨trade, hlog, htape⟩ := h.getElem?_log ((h.ids id).trans hi)
      simp only [hlog, Option.any_some, Option.bind_some, htape, Option.map_some]
      cases hc : trade.cancelled with
      | true =>
          refine .inl ⟨by simp, ?_⟩
          rintro trade' ⟨⟩
          rw [TradeRecord.live, hc, Bool.not_true]
      | false =>
          refine .inr ⟨index, trade, by simp, rfl, rfl, ?_⟩
          rw [TradeRecord.live, hc, Bool.not_false]

theorem append (h : Kept ledger tape) (id : UInt64) (price : P) (volume : UInt64)
    {stats : DailyStats P} :
    Kept { log := (ledger.appendRaw price volume).1.log
           byId := ledger.byId.insert id (ledger.appendRaw price volume).2, stats }
      (tape ++ [(id, ⟨price, volume, false⟩)]) where
  log := by
    show ledger.log ++ [_] = _
    rw [h.log, List.map_append]
    rfl
  ids id' := by
    show (ledger.byId.insert id _)[id']? = _
    rw [TreeSum.getElem?_insert, lastIdx?_concat, ← h.ids]
    simp only [appendRaw, List.length_append, h.length_eq, List.length_singleton,
      Nat.add_sub_cancel, eq_comm (a := id')]

theorem adjustVolume (h : Kept ledger tape) (id newVolume : UInt64) :
    Kept (ledger.adjustVolume id newVolume).1
      (reviseLast (fun trade => { trade with volume := newVolume }) tape id) := by
  rw [SymbolLedger.adjustVolume]
  cases hid : ledger.byId[id]? with
  | none =>
      rw [reviseLast, (h.ids id).symm.trans hid]
      exact h
  | some index =>
      have hindex : lastIdx? tape id = some index := (h.ids id).symm.trans hid
      obtain ⟨trade, hlog, -⟩ := h.getElem?_log hid
      simp only [hlog]
      refine ⟨?_, fun id' => ?_⟩
      · show ledger.log.set index _ = _
        rw [map_snd_reviseLast hindex, ← h.log, List.modify_eq_set_getElem?, hlog]
        rfl
      · rw [lastIdx?_reviseLast]
        exact h.ids id'

variable [LinearOrder P]

theorem recompute (h : Kept ledger tape) : Kept ledger.recompute tape := ⟨h.log, h.ids⟩

theorem cancelTrade (h : Kept ledger tape) (id : UInt64) :
    Kept (ledger.cancelTrade id).1 (reviseLast TradeRecord.cancel tape id) := by
  rw [SymbolLedger.cancelTrade]
  rcases h.liveIndex?_cases id with ⟨hnone, hdead⟩ | ⟨index, trade, hsome, hindex, -, -⟩
  · rw [hnone, reviseLast_cancel_of_dead hdead]
    exact h
  · rw [hsome]
    exact (h.markCancelled hindex).recompute

theorem cancelTrade_snd (h : Kept ledger tape) (id : UInt64) :
    (ledger.cancelTrade id).2 = (last? tape id).any TradeRecord.live := by
  rw [SymbolLedger.cancelTrade]
  rcases h.liveIndex?_cases id with ⟨hnone, hdead⟩ | ⟨index, trade, hsome, -, hlast, hlive⟩
  · rw [hnone]
    cases hlast : last? tape id with
    | none => rfl
    | some trade => exact (hdead trade hlast).symm
  · rw [hsome, hlast]
    exact hlive.symm

theorem replaceTrade (h : Kept ledger tape) (oldId newId : UInt64) (price : P)
    (volume : UInt64) :
    Kept (ledger.replaceTrade oldId newId price volume).1
      (reviseLast TradeRecord.cancel tape oldId ++ [(newId, ⟨price, volume, false⟩)]) := by
  rw [SymbolLedger.replaceTrade]
  rcases h.liveIndex?_cases oldId with ⟨hnone, hdead⟩ | ⟨index, trade, hsome, hindex, -, -⟩
  · rw [hnone, reviseLast_cancel_of_dead hdead]
    exact (h.append newId price volume).recompute
  · rw [hsome]
    exact ((h.markCancelled hindex).append newId price volume).recompute

/-- **The step lemma.** An operation takes a ledger and its tape to a ledger and its
tape. -/
theorem apply (h : Kept ledger tape) (op : LedgerOp P) :
    Kept (ledger.apply op).1 (tape.step op) := by
  cases op with
  | recordTrade id price volume => exact h.append id price volume
  | cancelTrade id => exact h.cancelTrade id
  | adjustVolume id newVolume => exact h.adjustVolume id newVolume
  | replaceTrade oldId newId price volume => exact h.replaceTrade oldId newId price volume

end Kept

/-! ## Records that no ID leads to -/

/-- The operation does not record under an ID whose last record is live, unless it
cancels that record. -/
def SparesLive (ledger : SymbolLedger P) : LedgerOp P → Prop
  | .recordTrade id _ _ => ledger.liveIndex? id = none
  | .replaceTrade oldId newId _ _ => newId = oldId ∨ ledger.liveIndex? newId = none
  | _ => True

variable {ledger : SymbolLedger P} {tape : LedgerTape P}

theorem Kept.liveIndex?_eq_none_iff (h : Kept ledger tape) (id : UInt64) :
    ledger.liveIndex? id = none ↔ ∀ trade, last? tape id = some trade → trade.live = false := by
  rcases h.liveIndex?_cases id with ⟨hnone, hdead⟩ | ⟨index, trade, hsome, -, hlast, hlive⟩
  · exact iff_of_true hnone hdead
  · refine iff_of_false (by simp [hsome]) fun hdead => ?_
    rw [hdead trade hlast] at hlive
    cases hlive

/-- **The step lemma.** From a tape without hidden live records, an operation leads
to one exactly when it spares the live records. -/
theorem Kept.visible_step_iff (h : Kept ledger tape)
    (hvisible : Visible TradeRecord.live tape) (op : LedgerOp P) :
    Visible TradeRecord.live (tape.step op) ↔ ledger.SparesLive op := by
  have hcancel : ∀ id, Visible TradeRecord.live (reviseLast TradeRecord.cancel tape id) :=
    hvisible.reviseLast fun trade hlive => by cases hlive
  cases op with
  | recordTrade id price volume =>
      exact (visible_concat_iff hvisible id _).trans (h.liveIndex?_eq_none_iff id).symm
  | cancelTrade id => exact iff_of_true (hcancel id) trivial
  | adjustVolume id newVolume =>
      refine iff_of_true ?_ trivial
      exact hvisible.reviseLast (f := fun trade => { trade with volume := newVolume })
        (fun trade hlive => hlive) id
  | replaceTrade oldId newId price volume =>
      refine (visible_concat_iff (hcancel oldId) newId _).trans ?_
      rw [SparesLive, h.liveIndex?_eq_none_iff]
      simp only [last?_reviseLast]
      by_cases hid : newId = oldId
      · -- the record it would hide is the one it cancels
        refine iff_of_true (fun trade htrade => ?_) (.inl hid)
        rw [if_pos hid, Option.map_eq_some_iff] at htrade
        obtain ⟨trade', -, rfl⟩ := htrade
        rfl
      · simp only [hid, if_false, false_or]

end SymbolLedger

/-! ## Runs -/

namespace TradeLedger

variable [LinearOrder P]

def tapeOf (calls : List (LedgerCall P)) (symbol : Str) : LedgerTape P :=
  LedgerTape.ofOps ((own symbol calls).map LedgerCall.op)

theorem ops_append_singleton (calls : List (LedgerCall P)) (c : LedgerCall P)
    (symbol : Str) :
    (own symbol (calls ++ [c])).map LedgerCall.op
      = if symbol = c.symbol then (own symbol calls).map LedgerCall.op ++ [c.op]
        else (own symbol calls).map LedgerCall.op := by
  have hkey : machine.key c = c.symbol := rfl
  rw [own, Shard.Machine.own_append_singleton, hkey]
  by_cases hs : symbol = c.symbol
  · rw [if_pos hs, if_pos hs.symm, List.map_append]
    rfl
  · rw [if_neg hs, if_neg (Ne.symm hs)]

theorem tapeOf_append_singleton (calls : List (LedgerCall P)) (c : LedgerCall P)
    (symbol : Str) :
    tapeOf (calls ++ [c]) symbol
      = if symbol = c.symbol then (tapeOf calls symbol).step c.op else tapeOf calls symbol := by
  rw [tapeOf, ops_append_singleton]
  split
  · rw [LedgerTape.ofOps, List.foldl_append]
    rfl
  · rfl

theorem kept_run (calls : List (LedgerCall P)) (symbol : Str) :
    ((run calls).getOrCreate symbol).Kept (tapeOf calls symbol) := by
  induction calls using List.reverseRecOn with
  | nil =>
      rw [run, List.foldl_nil, getOrCreate_empty]
      exact SymbolLedger.kept_empty
  | append_singleton calls c ih =>
      rw [run, List.foldl_append, ← run, tapeOf_append_singleton]
      show ((run calls).call c).1.getOrCreate symbol |>.Kept _
      rw [getOrCreate_call]
      split
      · exact ih.apply c.op
      · exact ih

/-- The call spares the live records of its symbol. -/
def SparesLive (tape : TradeLedger P) (c : LedgerCall P) : Prop :=
  (tape.getOrCreate c.symbol).SparesLive c.op

/-- The tape of every symbol hides no live record. -/
def Visible (calls : List (LedgerCall P)) : Prop :=
  ∀ symbol, KeyedLog.Visible TradeRecord.live (tapeOf calls symbol)

theorem Visible.call_iff {calls : List (LedgerCall P)} (h : Visible calls)
    (c : LedgerCall P) : Visible (calls ++ [c]) ↔ (run calls).SparesLive c := by
  have hstep := (kept_run calls c.symbol).visible_step_iff (h c.symbol) c.op
  constructor
  · intro happ
    have hc := happ c.symbol
    rw [tapeOf_append_singleton, if_pos rfl] at hc
    exact hstep.mp hc
  · intro hspare symbol
    rw [tapeOf_append_singleton]
    split
    · rename_i hs
      subst hs
      exact hstep.mpr hspare
    · exact h symbol

end TradeLedger

end Mde
