import Mde.LedgerTape
import Mde.TradeStreams

/-!
# A trade ledger and the streams of its IDs

The same for `TradeLedger`. A `ReplaceTrade` touches two IDs, and what it
makes of the records under one of them it reads from these alone. So the
live trades of a symbol, up to their order, and the refusals depend on
the calls that name each ID, not on how these interleave.

The prices of the statistics are always those of the live trades
(`pricesAgree_run`); the volume drifts away from them once an
`AdjustVolume` changes a cancelled record. Whether one does is again told
by the records under its ID.
-/

open Std KeyedLog

namespace Mde

variable {P : Type*}

namespace LedgerTape

/-! ## The records under one ID -/

def touched : LedgerOp P → List UInt64
  | .recordTrade id _ _ => [id]
  | .cancelTrade id => [id]
  | .adjustVolume id _ => [id]
  | .replaceTrade oldId newId _ _ => [oldId, newId]

def restrict (key : UInt64) (tape : LedgerTape P) : LedgerTape P :=
  tape.filter fun e => e.1 == key

/-- What an operation makes of the records under an ID. -/
def stepAt (key : UInt64) (tape : LedgerTape P) : LedgerOp P → LedgerTape P
  | .recordTrade id price volume =>
    if id = key then tape ++ [(key, ⟨price, volume, false⟩)] else tape
  | .cancelTrade id => if id = key then reviseLast TradeRecord.cancel tape key else tape
  | .adjustVolume id newVolume =>
    if id = key then reviseLast (fun trade => { trade with volume := newVolume }) tape key
    else tape
  | .replaceTrade oldId newId price volume =>
    (if oldId = key then reviseLast TradeRecord.cancel tape key else tape)
      ++ if newId = key then [(key, ⟨price, volume, false⟩)] else []

theorem restrict_append (key id : UInt64) (tape : LedgerTape P) (trade : TradeRecord P) :
    restrict key (tape ++ [(id, trade)])
      = restrict key tape ++ if id = key then [(key, trade)] else [] := by
  by_cases h : id = key
  · simp [restrict, h]
  · simp [restrict, h]

theorem restrict_reviseLast (key id : UInt64) (f : TradeRecord P → TradeRecord P)
    (tape : LedgerTape P) :
    restrict key (reviseLast f tape id)
      = if id = key then reviseLast f (restrict key tape) key else restrict key tape := by
  have hfilter := filter_reviseLast (· == key) f tape id
  by_cases h : id = key
  · subst h
    simpa [restrict] using hfilter
  · simpa [restrict, h] using hfilter

theorem restrict_step (key : UInt64) (tape : LedgerTape P) (op : LedgerOp P) :
    (tape.step op).restrict key = stepAt key (tape.restrict key) op := by
  cases op with
  | recordTrade id price volume =>
      rw [step, restrict_append, stepAt]
      split <;> simp
  | cancelTrade id => exact restrict_reviseLast key id _ tape
  | adjustVolume id newVolume =>
      exact restrict_reviseLast key id (fun trade => { trade with volume := newVolume }) tape
  | replaceTrade oldId newId price volume =>
      rw [step, restrict_append, restrict_reviseLast, stepAt]

def cells (P : Type*) : Streams UInt64 (LedgerTape P) (LedgerOp P) where
  touched := touched
  step := stepAt
  frame key tape op h := by
    cases op with
    | recordTrade id price volume => exact if_neg fun heq => h (by simp [touched, heq])
    | cancelTrade id => exact if_neg fun heq => h (by simp [touched, heq])
    | adjustVolume id newVolume => exact if_neg fun heq => h (by simp [touched, heq])
    | replaceTrade oldId newId price volume =>
        have hold : oldId ≠ key := fun heq => h (by simp [touched, heq])
        have hnew : newId ≠ key := fun heq => h (by simp [touched, heq])
        rw [stepAt, if_neg hold, if_neg hnew, List.append_nil]

abbrev stream (key : UInt64) (ops : List (LedgerOp P)) : List (LedgerOp P) :=
  (cells P).stream key ops

theorem restrict_ofOps (key : UInt64) (ops : List (LedgerOp P)) :
    (ofOps ops).restrict key = (stream key ops).foldl (stepAt key) [] := by
  have hcell : (stream key ops).foldl (stepAt key) [] = ops.foldl (stepAt key) [] :=
    (cells P).cell_stream key [] ops
  rw [hcell, ofOps]
  exact (List.foldl_hom (restrict key) fun tape op => (restrict_step key tape op).symm).symm

/-- Runs with the same streams log the same records. -/
theorem ofOps_perm {ops ops' : List (LedgerOp P)} (h : ∀ key, stream key ops = stream key ops') :
    (ofOps ops).Perm (ofOps ops') := by
  refine perm_of_filter_eq fun key => ?_
  show restrict key _ = restrict key _
  rw [restrict_ofOps, restrict_ofOps, h]

/-! ## What is told by one ID -/

def target : LedgerOp P → Option UInt64
  | .recordTrade _ _ _ => none
  | .cancelTrade id => some id
  | .adjustVolume id _ => some id
  | .replaceTrade oldId _ _ _ => some oldId

/-- An adjustment needs a record under its ID, a cancel or a replacement a live one. -/
def refuses (tape : LedgerTape P) : LedgerOp P → Bool
  | .recordTrade _ _ _ => false
  | .cancelTrade id => (last? tape id).all (·.cancelled)
  | .adjustVolume id _ => (last? tape id).isNone
  | .replaceTrade oldId _ _ _ => (last? tape oldId).all (·.cancelled)

def refusals (ops : List (LedgerOp P)) : Nat := Runs.countAlong step refuses [] ops

/-- An adjustment changes the volume of a cancelled record: what the statistics count and
what is live drift apart. -/
def drifts (tape : LedgerTape P) : LedgerOp P → Bool
  | .adjustVolume id newVolume =>
    (last? tape id).any fun trade => trade.cancelled && newVolume != trade.volume
  | _ => false

def driftCount (ops : List (LedgerOp P)) : Nat := Runs.countAlong step drifts [] ops

theorem last?_restrict (tape : LedgerTape P) (id : UInt64) :
    last? (restrict id tape) id = last? tape id :=
  last?_filter (· == id) tape (beq_self_eq_true id)

/-- Whether an operation is refused is told by the records under the ID it looks up. -/
theorem refuses_eq (tape : LedgerTape P) (op : LedgerOp P) :
    tape.refuses op = (target op).any fun key => (tape.restrict key).refuses op := by
  cases op with
  | recordTrade id price volume => rfl
  | _ => simp only [refuses, target, Option.any_some, last?_restrict]

theorem drifts_eq (tape : LedgerTape P) (op : LedgerOp P) :
    tape.drifts op = (target op).any fun key => (tape.restrict key).drifts op := by
  cases op with
  | adjustVolume id newVolume => simp only [drifts, target, Option.any_some, last?_restrict]
  | _ => rfl

theorem target_touched (op : LedgerOp P) (key : UInt64) (h : target op = some key) :
    key ∈ touched op := by
  cases op with
  | recordTrade id price volume => cases h
  | cancelTrade id => obtain rfl := Option.some.inj h; simp [touched]
  | adjustVolume id newVolume => obtain rfl := Option.some.inj h; simp [touched]
  | replaceTrade oldId newId price volume => obtain rfl := Option.some.inj h; simp [touched]

/-- What an operation does that is told by the records under the ID it looks up is done
equally often in runs with the same streams. -/
theorem countAlong_eq_of_stream_eq {does : LedgerTape P → LedgerOp P → Bool}
    (hdoes : ∀ tape op, does tape op = (target op).any fun key => does (tape.restrict key) op)
    {ops ops' : List (LedgerOp P)} (h : ∀ key, stream key ops = stream key ops') :
    Runs.countAlong step does [] ops = Runs.countAlong step does [] ops' :=
  (cells P).countAlong_eq_of_stream_eq target does
    (fun (tape : LedgerTape P) key => tape.restrict key)
    (fun tape op => funext fun key => restrict_step key tape op) hdoes target_touched [] h

end LedgerTape

variable [LinearOrder P]

namespace SymbolLedger.Kept

variable {ledger : SymbolLedger P} {tape : LedgerTape P}

theorem apply_snd (h : Kept ledger tape) (op : LedgerOp P) :
    (ledger.apply op).2 = !tape.refuses op := by
  have hdead : ∀ id, (ledger.liveIndex? id).isSome = !(last? tape id).all (·.cancelled) := by
    intro id
    rcases h.liveIndex?_cases id with ⟨hnone, hdead⟩ | ⟨index, trade, hsome, -, hlast, hlive⟩
    · rw [hnone]
      cases hlast : last? tape id with
      | none => rfl
      | some trade => simpa [TradeRecord.live] using hdead trade hlast
    · simpa [hsome, hlast, TradeRecord.live] using hlive
  cases op with
  | recordTrade id price volume => rfl
  | cancelTrade id =>
      rw [LedgerTape.refuses, ← hdead]
      show (ledger.cancelTrade id).2 = _
      unfold SymbolLedger.cancelTrade
      cases ledger.liveIndex? id <;> rfl
  | adjustVolume id newVolume =>
      show (ledger.adjustVolume id newVolume).2 = !(last? tape id).isNone
      rw [SymbolLedger.adjustVolume, last?, h.ids]
      cases hi : lastIdx? tape id with
      | none => rfl
      | some index =>
          obtain ⟨trade, hlog, htape⟩ := h.getElem?_log ((h.ids id).trans hi)
          simp [hlog, htape]
  | replaceTrade oldId newId price volume =>
      rw [LedgerTape.refuses, ← hdead]
      show (ledger.replaceTrade oldId newId price volume).2 = _
      unfold SymbolLedger.replaceTrade
      cases ledger.liveIndex? oldId <;> rfl

omit [LinearOrder P] in
theorem sparesCancelled_iff (h : Kept ledger tape) (op : LedgerOp P) :
    ledger.SparesCancelled op ↔ tape.drifts op = false := by
  cases op with
  | adjustVolume id newVolume =>
      rw [SparesCancelled, LedgerTape.drifts, record?, last?, h.ids]
      cases hi : lastIdx? tape id with
      | none => simp
      | some index =>
          obtain ⟨trade, hlog, htape⟩ := h.getElem?_log ((h.ids id).trans hi)
          simp [hlog, htape]
  | _ => exact iff_of_true trivial rfl

end SymbolLedger.Kept

namespace TradeLedger

theorem alone_refusals (calls : List (LedgerCall P)) :
    ((machine.alone calls).1.Kept (LedgerTape.ofOps (calls.map LedgerCall.op)))
      ∧ (machine.alone calls).2 = LedgerTape.refusals (calls.map LedgerCall.op) := by
  induction calls using List.reverseRecOn with
  | nil => exact ⟨SymbolLedger.kept_empty, rfl⟩
  | append_singleton calls c ih =>
      obtain ⟨hkept, hfail⟩ := ih
      rw [Shard.Machine.alone_append_singleton, List.map_append, List.map_singleton,
        LedgerTape.ofOps, List.foldl_append, ← LedgerTape.ofOps, LedgerTape.refusals,
        Runs.countAlong_append_singleton, ← LedgerTape.refusals, ← hfail]
      refine ⟨hkept.apply c.op, congrArg (_ + ·) ?_⟩
      show (if ((machine.alone calls).1.apply c.op).2 then 0 else 1) = _
      rw [hkept.apply_snd, ← LedgerTape.ofOps]
      cases (LedgerTape.ofOps (calls.map LedgerCall.op)).refuses c.op <;> rfl

theorem along_sparesCancelled_iff (calls : List (LedgerCall P)) :
    Runs.Along (fun tape c => (tape.call c).1) SparesCancelled {} calls
      ↔ ∀ symbol, LedgerTape.driftCount ((own symbol calls).map LedgerCall.op) = 0 := by
  induction calls using List.reverseRecOn with
  | nil => exact iff_of_true trivial fun _ => rfl
  | append_singleton calls c ih =>
      have hlast : (run calls).SparesCancelled c
          ↔ (tapeOf calls c.symbol).drifts c.op = false :=
        (kept_run calls c.symbol).sparesCancelled_iff c.op
      have hown : ∀ symbol, LedgerTape.driftCount ((own symbol (calls ++ [c])).map LedgerCall.op)
          = LedgerTape.driftCount ((own symbol calls).map LedgerCall.op)
            + if c.symbol = symbol then ((tapeOf calls symbol).drifts c.op).toNat else 0 := by
        intro symbol
        have hkey : machine.key c = c.symbol := rfl
        rw [own, Shard.Machine.own_append_singleton, hkey]
        split
        · rw [List.map_append, LedgerTape.driftCount]
          exact Runs.countAlong_append_singleton
        · rfl
      rw [Runs.along_append_singleton, ih, ← run, hlast]
      simp only [hown]
      constructor
      · rintro ⟨hcalls, hc⟩ symbol
        rw [hcalls symbol]
        split
        · rename_i hs
          rw [← hs, hc]
          rfl
        · rfl
      · intro hall
        refine ⟨fun symbol => (Nat.add_eq_zero_iff.mp (hall symbol)).1, ?_⟩
        have hc := (Nat.add_eq_zero_iff.mp (hall c.symbol)).2
        rw [if_pos rfl] at hc
        exact Bool.toNat_eq_zero.mp hc

/-- **Only the streams of the IDs matter to a ledger.** Two runs in which every ID of a
symbol is named by the same calls in the same order, however these are interleaved with
other calls and whatever IDs are repeated, leave the same live trades up to their order,
show the same high and low of every symbol and refuse the same number of calls. When one
of them never adjusts the volume of a cancelled trade, neither does the other, and every
symbol has the same total volume. Again no trade is at NaN. -/
theorem call_interleaving_irrelevant {calls calls' : List (LedgerCall P)}
    (h : ∀ symbol id, LedgerTape.stream id ((own symbol calls).map LedgerCall.op)
      = LedgerTape.stream id ((own symbol calls').map LedgerCall.op)) :
    (∀ symbol, (liveTrades ((run calls).getOrCreate symbol).log).Perm
        (liveTrades ((run calls').getOrCreate symbol).log))
      ∧ (∀ symbol, ((run calls).getDailyStats symbol).high
          = ((run calls').getDailyStats symbol).high
        ∧ ((run calls).getDailyStats symbol).low = ((run calls').getDailyStats symbol).low)
      ∧ (run calls).getFailureCount = (run calls').getFailureCount
      ∧ (Runs.Along (fun tape c => (tape.call c).1) SparesCancelled {} calls →
        Runs.Along (fun tape c => (tape.call c).1) SparesCancelled {} calls'
          ∧ ∀ symbol, SameRange ((run calls).getDailyStats symbol)
            ((run calls').getDailyStats symbol)) := by
  have hlive : ∀ symbol, (liveTrades ((run calls).getOrCreate symbol).log).Perm
      (liveTrades ((run calls').getOrCreate symbol).log) := by
    intro symbol
    rw [(kept_run calls symbol).log, (kept_run calls' symbol).log]
    exact ((LedgerTape.ofOps_perm (h symbol)).map Prod.snd).filter _
  refine ⟨hlive, fun symbol => ?_, ?_, fun hspare => ?_⟩
  · have hprices : ∀ cs : List (LedgerCall P), ((run cs).getDailyStats symbol).prices
        = (DailyStats.ofTrades (liveTrades ((run cs).getOrCreate symbol).log)).prices := by
      intro cs
      rw [getDailyStats_eq, pricesAgree_run cs symbol, DailyStats.recompute_eq]
    have hrange := sameRange_ofTrades (hlive symbol)
    exact ⟨(congrArg DailyStats.high (hprices calls)).trans (hrange.high.trans
        (congrArg DailyStats.high (hprices calls')).symm),
      (congrArg DailyStats.low (hprices calls)).trans (hrange.low.trans
        (congrArg DailyStats.low (hprices calls')).symm)⟩
  · have hshare : ∀ symbol, (machine.alone (own symbol calls)).2
        = (machine.alone (own symbol calls')).2 := by
      intro symbol
      rw [(alone_refusals _).2, (alone_refusals _).2]
      exact LedgerTape.countAlong_eq_of_stream_eq LedgerTape.refuses_eq (h symbol)
    rw [run_eq_shards, run_eq_shards]
    exact (machine.run_part_eq (fun _ : SymbolLedger P => ()) (AddMonoidHom.id Nat)
      fun symbol => ⟨rfl, hshare symbol⟩).2
  · have hspare' : Runs.Along (fun tape c => (tape.call c).1) SparesCancelled {} calls' := by
      rw [along_sparesCancelled_iff] at hspare ⊢
      intro symbol
      rw [← hspare symbol]
      exact (LedgerTape.countAlong_eq_of_stream_eq LedgerTape.drifts_eq (h symbol)).symm
    refine ⟨hspare', fun symbol => ?_⟩
    rw [agrees_run hspare symbol, agrees_run hspare' symbol]
    exact sameRange_ofTrades (hlive symbol)

/-- A trade that is replaced, another one that is adjusted, and a cancel of an unknown ID,
in two orders. -/
theorem call_interleaving_irrelevant_sample :
    let first : LedgerCall Nat := ⟨[], .recordTrade 1 30 100⟩
    let second : LedgerCall Nat := ⟨[], .recordTrade 2 20 50⟩
    let replace : LedgerCall Nat := ⟨[], .replaceTrade 1 3 25 70⟩
    let adjust : LedgerCall Nat := ⟨[], .adjustVolume 2 60⟩
    let cancel : LedgerCall Nat := ⟨[], .cancelTrade 9⟩
    SameRange ((run [first, second, replace, adjust, cancel]).getDailyStats [])
        ((run [cancel, second, first, adjust, replace]).getDailyStats [])
      ∧ (run [cancel, second, first, adjust, replace]).getFailureCount = 1 := by
  intro first second replace adjust cancel
  have hstream : ∀ symbol id,
      LedgerTape.stream id
          ((own symbol [first, second, replace, adjust, cancel]).map LedgerCall.op)
        = LedgerTape.stream id
          ((own symbol [cancel, second, first, adjust, replace]).map LedgerCall.op) := by
    intro symbol id
    by_cases hs : [] = symbol
    · subst hs
      by_cases h2 : id = 2
      · subst h2; decide
      · by_cases h9 : id = 9
        · subst h9; decide
        · simp [LedgerTape.stream, Streams.stream, LedgerTape.cells, LedgerTape.touched, own,
            Shard.Machine.own, machine, List.filter_cons, first, second, replace, adjust, cancel,
            h2, h9]
    · simp [own, Shard.Machine.own, machine, first, second, replace, adjust, cancel, hs]
  obtain ⟨-, -, hfail, hrange⟩ := call_interleaving_irrelevant hstream
  refine ⟨(hrange ⟨trivial, trivial, trivial, ?_, trivial, trivial⟩).2 [],
    hfail.symm.trans (by decide)⟩
  intro trade hrecord hcancelled
  obtain rfl : ⟨20, 50, false⟩ = trade := Option.some.inj hrecord
  cases hcancelled

end TradeLedger

end Mde
