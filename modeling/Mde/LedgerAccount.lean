import Mde.LedgerTape

/-!
# What each trade has in the total volume

The total volume of a symbol is kept by three different rules: recording
adds the new volume, `AdjustVolume` adds a difference, and cancelling and
replacing rebuild it from the log. `LedgerAccount` is the tape with each
record's share of the total under these rules; the shares add up to the
total after any calls (`accounted_run`), so a record has a say in the
statistics through its prices, while it is live, and through its share.

`liveReachable_iff` says which runs keep every live record the target of
its ID and leave a record that a cancel withdrew without a share, then
and in every later state. Two kinds of calls spoil it: `RecordTrade` and
`ReplaceTrade` write the ID map without looking, so a repeated ID hides a
live record from every later cancel; and `AdjustVolume` does not look at
the cancelled flag, so it gives a cancelled record a share again.
-/

open Std KeyedLog

namespace Mde

variable {P : Type*}

/-- The tape of a symbol with what each record has in the total volume. -/
abbrev LedgerAccount (P : Type*) := List (UInt64 × TradeRecord P × UInt64)

namespace LedgerAccount

def tape (account : LedgerAccount P) : LedgerTape P := account.map fun e => (e.1, e.2.1)

def shares (account : LedgerAccount P) : List UInt64 := account.map fun e => e.2.2

def rebuiltShare (trade : TradeRecord P) : UInt64 := if trade.cancelled then 0 else trade.volume

def rebuild (account : LedgerAccount P) : LedgerAccount P :=
  account.map fun e => (e.1, e.2.1, rebuiltShare e.2.1)

/-- The flag is set, the share is left to the rebuild. -/
def cancel (account : LedgerAccount P) (id : UInt64) : LedgerAccount P :=
  reviseLast (fun e => (e.1.cancel, e.2)) account id

def step (account : LedgerAccount P) : LedgerOp P → LedgerAccount P
  | .recordTrade id price volume => account ++ [(id, ⟨price, volume, false⟩, volume)]
  | .cancelTrade id =>
    if (last? account id).any fun e => e.1.live then (account.cancel id).rebuild else account
  | .adjustVolume id newVolume =>
    reviseLast (fun e => ({ e.1 with volume := newVolume }, e.2 + (newVolume - e.1.volume)))
      account id
  | .replaceTrade oldId newId price volume =>
    rebuild (account.cancel oldId ++ [(newId, ⟨price, volume, false⟩, volume)])

def ofOps (ops : List (LedgerOp P)) : LedgerAccount P := ops.foldl step []

theorem tape_rebuild (account : LedgerAccount P) : account.rebuild.tape = account.tape := by
  simp [tape, rebuild, Function.comp_def]

theorem tape_cancel (account : LedgerAccount P) (id : UInt64) :
    (account.cancel id).tape = reviseLast TradeRecord.cancel account.tape id :=
  map_reviseLast Prod.fst (fun _ => rfl) account id

theorem last?_tape (account : LedgerAccount P) (id : UInt64) :
    last? account.tape id = (last? account id).map Prod.fst :=
  last?_map Prod.fst account id

theorem tape_step (account : LedgerAccount P) (op : LedgerOp P) :
    (account.step op).tape = account.tape.step op := by
  cases op with
  | recordTrade id price volume => exact List.map_append
  | cancelTrade id =>
      rw [step, LedgerTape.step]
      split
      · rw [tape_rebuild, tape_cancel]
      · rename_i hdead
        refine (SymbolLedger.Kept.reviseLast_cancel_of_dead fun trade hlast => ?_).symm
        rw [last?_tape, Option.map_eq_some_iff] at hlast
        obtain ⟨e, he, rfl⟩ := hlast
        simpa [he] using hdead
  | adjustVolume id newVolume =>
      rw [step, LedgerTape.step, tape]
      exact map_reviseLast Prod.fst (fun _ => rfl) account id
  | replaceTrade oldId newId price volume =>
      rw [step, tape_rebuild, tape, List.map_append, ← tape, tape_cancel]
      rfl

theorem getElem?_tape {account : LedgerAccount P} {index : Nat} {id : UInt64}
    {trade : TradeRecord P} (h : account.tape[index]? = some (id, trade)) :
    ∃ share, account[index]? = some (id, trade, share) := by
  rw [tape, List.getElem?_map, Option.map_eq_some_iff] at h
  obtain ⟨⟨id', trade', share⟩, he, heq⟩ := h
  obtain ⟨rfl, rfl⟩ := Prod.mk.inj heq
  exact ⟨share, he⟩

/-! ## A cancelled record without a share -/

/-- The record at the index is cancelled and has nothing in the total volume. -/
def Gone (account : LedgerAccount P) (index : Nat) : Prop :=
  ∃ id trade, account[index]? = some (id, trade, 0) ∧ trade.cancelled = true

/-- Whatever its share was, after a rebuild a cancelled record has none. -/
theorem gone_rebuild {account : LedgerAccount P} {index : Nat} {id : UInt64}
    {trade : TradeRecord P} {share : UInt64} (h : account[index]? = some (id, trade, share))
    (hcancelled : trade.cancelled = true) : account.rebuild.Gone index := by
  refine ⟨id, trade, ?_, hcancelled⟩
  rw [rebuild, List.getElem?_map, h]
  simp [rebuiltShare, hcancelled]

theorem Gone.concat {account : LedgerAccount P} {index : Nat} (h : account.Gone index)
    (e : UInt64 × TradeRecord P × UInt64) : Gone (account ++ [e]) index := by
  obtain ⟨id, trade, he, hcancelled⟩ := h
  have hlt : index < account.length := (List.getElem?_eq_some_iff.mp he).1
  exact ⟨id, trade, (List.getElem?_append_left hlt).trans he, hcancelled⟩

theorem Gone.rebuild {account : LedgerAccount P} {index : Nat} (h : account.Gone index) :
    account.rebuild.Gone index := by
  obtain ⟨id, trade, he, hcancelled⟩ := h
  exact gone_rebuild he hcancelled

theorem Gone.cancel {account : LedgerAccount P} {index : Nat} (h : account.Gone index)
    (id : UInt64) : (account.cancel id).Gone index := by
  obtain ⟨id', trade, he, hcancelled⟩ := h
  rw [LedgerAccount.cancel, Gone, getElem?_reviseLast_eq, he]
  split
  · exact ⟨id', trade.cancel, rfl, rfl⟩
  · exact ⟨id', trade, rfl, hcancelled⟩

/-- **The step lemma.** A cancelled record without a share gets one only from an
`AdjustVolume` that finds it and changes its volume. -/
theorem Gone.step_iff {account : LedgerAccount P} {index : Nat} (h : account.Gone index)
    (op : LedgerOp P) :
    (account.step op).Gone index ↔ ∀ id newVolume trade, op = .adjustVolume id newVolume →
      lastIdx? account.tape id = some index → account.tape[index]? = some (id, trade) →
        newVolume = trade.volume := by
  cases op with
  | recordTrade id price volume =>
      refine iff_of_true (h.concat _) ?_
      rintro _ _ _ ⟨⟩
  | cancelTrade id =>
      refine iff_of_true ?_ (by rintro _ _ _ ⟨⟩)
      rw [LedgerAccount.step]
      split
      · exact (h.cancel id).rebuild
      · exact h
  | replaceTrade oldId newId price volume =>
      refine iff_of_true ((h.cancel oldId).concat _).rebuild ?_
      rintro _ _ _ ⟨⟩
  | adjustVolume id newVolume =>
      obtain ⟨id', trade, he, hcancelled⟩ := h
      have htape : account.tape[index]? = some (id', trade) := by
        rw [tape, List.getElem?_map, he]
        rfl
      have hlast : lastIdx? account.tape id = lastIdx? account id :=
        lastIdx?_map Prod.fst account id
      rw [LedgerAccount.step, Gone, getElem?_reviseLast_eq, he]
      by_cases hindex : lastIdx? account id = some index
      · obtain ⟨e, he'⟩ := getElem?_of_lastIdx? hindex
        obtain rfl : id' = id := congrArg Prod.fst (Option.some.inj (he.symm.trans he'))
        rw [if_pos hindex]
        constructor
        · rintro ⟨id'', trade'', heq, -⟩ _ _ trade' ⟨⟩ - htrade'
          rw [htape] at htrade'
          obtain rfl : trade = trade' := congrArg Prod.snd (Option.some.inj htrade')
          have hshare : 0 + (newVolume - trade.volume) = 0 :=
            congrArg (fun e => e.2.2) (Option.some.inj heq)
          rw [zero_add] at hshare
          exact sub_eq_zero.mp hshare
        · intro hsame
          obtain rfl := hsame id' newVolume trade rfl (hlast.trans hindex) htape
          exact ⟨id', trade, by simp, hcancelled⟩
      · rw [if_neg hindex]
        refine iff_of_true ⟨id', trade, rfl, hcancelled⟩ ?_
        rintro _ _ trade' ⟨⟩ hindex' -
        exact absurd (hlast.symm.trans hindex') hindex

end LedgerAccount

/-! ## One symbol's ledger -/

namespace SymbolLedger

variable {ledger : SymbolLedger P} {account : LedgerAccount P}

/-- A ledger has its account: it keeps the tape, and its total volume is the sum of the
shares. -/
structure Accounted (ledger : SymbolLedger P) (account : LedgerAccount P) : Prop where
  kept : ledger.Kept account.tape
  total : ledger.stats.totalVolume = account.shares.sum

theorem accounted_empty : Accounted ({} : SymbolLedger P) [] := ⟨kept_empty, rfl⟩

variable [LinearOrder P]

theorem totalVolume_recompute (log : List (TradeRecord P)) :
    (DailyStats.recompute log).totalVolume = (log.map LedgerAccount.rebuiltShare).sum := by
  rw [DailyStats.recompute_eq]
  show ((liveTrades log).map TradeRecord.volume).sum = _
  induction log with
  | nil => rfl
  | cons trade log ih =>
      rw [List.map_cons, List.sum_cons, ← ih, liveTrades, List.filter_cons,
        LedgerAccount.rebuiltShare]
      cases trade.cancelled with
      | true => simp [liveTrades]
      | false => simp [liveTrades]

/-- A rebuild counts what the rebuilt account says. -/
theorem Kept.accounted_recompute (h : ledger.Kept account.tape) :
    ledger.recompute.Accounted account.rebuild where
  kept := by
    rw [LedgerAccount.tape_rebuild]
    exact h.recompute
  total := by
    show (DailyStats.recompute ledger.log).totalVolume = _
    rw [totalVolume_recompute, h.log]
    simp [LedgerAccount.tape, LedgerAccount.shares, LedgerAccount.rebuild, Function.comp_def]

/-- **The step lemma.** -/
theorem Accounted.apply (h : ledger.Accounted account) (op : LedgerOp P) :
    (ledger.apply op).1.Accounted (account.step op) := by
  have hkept := h.kept.apply op
  rw [← LedgerAccount.tape_step] at hkept
  refine ⟨hkept, ?_⟩
  cases op with
  | recordTrade id price volume =>
      show ledger.stats.totalVolume + volume = (List.map _ (account ++ [_])).sum
      rw [h.total, List.map_append, List.sum_append]
      simp [LedgerAccount.shares]
  | cancelTrade id =>
      show (ledger.cancelTrade id).1.stats.totalVolume = _
      rw [SymbolLedger.cancelTrade, LedgerAccount.step]
      rcases h.kept.liveIndex?_cases id with
        ⟨hnone, hdead⟩ | ⟨index, trade, hsome, hindex, hlast, hlive⟩
      · rw [hnone, if_neg]
        · exact h.total
        · intro hany
          obtain ⟨e, he, hlive⟩ := Option.any_eq_true _ _ |>.mp hany
          rw [hdead e.1 (by rw [LedgerAccount.last?_tape, he]; rfl)] at hlive
          cases hlive
      · rw [hsome, if_pos]
        · have hmarked := h.kept.markCancelled hindex
          rw [← LedgerAccount.tape_cancel] at hmarked
          exact hmarked.accounted_recompute.total
        · rw [LedgerAccount.last?_tape, Option.map_eq_some_iff] at hlast
          obtain ⟨e, he, rfl⟩ := hlast
          simpa [he] using hlive
  | adjustVolume id newVolume =>
      show (ledger.adjustVolume id newVolume).1.stats.totalVolume = _
      rw [LedgerAccount.step, LedgerAccount.shares,
        sum_reviseLast (fun e : TradeRecord P × UInt64 => e.2), ← LedgerAccount.shares, ← h.total,
        SymbolLedger.adjustVolume, h.kept.ids]
      have hlast := LedgerAccount.last?_tape account id
      rw [last?] at hlast
      cases hindex : lastIdx? account.tape id with
      | none =>
          rw [hindex, eq_comm, Option.bind_none, Option.map_eq_none_iff] at hlast
          simp [hlast]
      | some index =>
          obtain ⟨trade, hlog, htape⟩ := h.kept.getElem?_log ((h.kept.ids id).trans hindex)
          rw [hindex, Option.bind_some, htape, eq_comm, Option.map_some,
            Option.map_eq_some_iff] at hlast
          obtain ⟨⟨trade', share⟩, hlast, rfl⟩ := hlast
          simp only [hlog, hlast, Option.map_some, Option.getD_some, DailyStats.adjustTotal_eq,
            add_sub_cancel_left]
  | replaceTrade oldId newId price volume =>
      show (DailyStats.recompute _).totalVolume = _
      have hreplaced : (ledger.replaceTrade oldId newId price volume).1.Kept
          (LedgerAccount.tape
            (account.cancel oldId ++ [(newId, ⟨price, volume, false⟩, volume)])) := by
        rw [LedgerAccount.tape, List.map_append, ← LedgerAccount.tape, LedgerAccount.tape_cancel]
        exact h.kept.replaceTrade oldId newId price volume
      exact hreplaced.accounted_recompute.total

end SymbolLedger

/-! ## Runs -/

namespace TradeLedger

variable [LinearOrder P]

def accountOf (calls : List (LedgerCall P)) (symbol : Str) : LedgerAccount P :=
  LedgerAccount.ofOps ((own symbol calls).map LedgerCall.op)

theorem accountOf_append_singleton (calls : List (LedgerCall P)) (c : LedgerCall P)
    (symbol : Str) :
    accountOf (calls ++ [c]) symbol
      = if symbol = c.symbol then (accountOf calls symbol).step c.op
        else accountOf calls symbol := by
  rw [accountOf, ops_append_singleton]
  split
  · rw [LedgerAccount.ofOps, List.foldl_append]
    rfl
  · rfl

/-- After any calls, every symbol's total volume is the sum of the shares. -/
theorem accounted_run (calls : List (LedgerCall P)) (symbol : Str) :
    ((run calls).getOrCreate symbol).Accounted (accountOf calls symbol) := by
  induction calls using List.reverseRecOn with
  | nil =>
      rw [run, List.foldl_nil, getOrCreate_empty]
      exact SymbolLedger.accounted_empty
  | append_singleton calls c ih =>
      rw [run, List.foldl_append, ← run, accountOf_append_singleton]
      show ((run calls).call c).1.getOrCreate symbol |>.Accounted _
      rw [getOrCreate_call]
      split
      · exact ih.apply c.op
      · exact ih

theorem tape_accountOf (calls : List (LedgerCall P)) (symbol : Str) :
    (accountOf calls symbol).tape = tapeOf calls symbol :=
  (List.foldl_hom LedgerAccount.tape fun account op =>
    (LedgerAccount.tape_step account op).symm).symm

/-- A cancel of the record's ID returned `true` when the record was on the log. -/
def Withdrawn (calls : List (LedgerCall P)) (symbol : Str) (index : Nat) : Prop :=
  ∃ before later id trade, calls = before ++ ⟨symbol, .cancelTrade id⟩ :: later
    ∧ ((run before).cancelTrade symbol id).2 = true
    ∧ (tapeOf before symbol)[index]? = some (id, trade)

/-- What the calls left: every live record of the symbol is the target of its ID, so
an ID has one at most; after a cancel that succeeds the statistics are those of the
records under the other IDs; and a record that some cancel withdrew is cancelled and
has no share of the total volume any more. -/
structure LiveReachable (calls : List (LedgerCall P)) (symbol : Str) : Prop where
  target : ∀ (index : Nat) (id : UInt64) (trade : TradeRecord P),
    (tapeOf calls symbol)[index]? = some (id, trade) → trade.cancelled = false →
      ((run calls).getOrCreate symbol).byId[id]? = some index
  unique : ∀ (index index' : Nat) (id : UInt64) (trade trade' : TradeRecord P),
    (tapeOf calls symbol)[index]? = some (id, trade) → trade.cancelled = false →
      (tapeOf calls symbol)[index']? = some (id, trade') → trade'.cancelled = false →
        index = index'
  cancel : ∀ id, ((run calls).cancelTrade symbol id).2 = true →
    ((run calls).cancelTrade symbol id).1.getDailyStats symbol
      = DailyStats.recompute (((tapeOf calls symbol).filter fun e => e.1 ≠ id).map Prod.snd)
  withdrawn : ∀ index, Withdrawn calls symbol index → (accountOf calls symbol).Gone index

/-- The call does not change the volume of a withdrawn record. -/
def SparesWithdrawn (calls : List (LedgerCall P)) (c : LedgerCall P) : Prop :=
  ∀ id newVolume index trade, c.op = .adjustVolume id newVolume →
    ((run calls).getOrCreate c.symbol).byId[id]? = some index →
      ((run calls).getOrCreate c.symbol).log[index]? = some trade →
        Withdrawn calls c.symbol index → newVolume = trade.volume

/-! ### The state right after a cancel -/

/-- The statistics of a log whose records under an ID are all cancelled are those of
the other records. -/
theorem recompute_filter {tape : LedgerTape P} {id : UInt64}
    (h : ∀ trade, (id, trade) ∈ tape → trade.live = false) :
    DailyStats.recompute ((tape.filter fun e => e.1 ≠ id).map Prod.snd)
      = DailyStats.recompute (tape.map Prod.snd) := by
  rw [DailyStats.recompute_eq, DailyStats.recompute_eq, liveTrades, liveTrades,
    List.filter_map, List.filter_map, List.filter_filter]
  refine congrArg (fun tape : LedgerTape P => DailyStats.ofTrades (tape.map Prod.snd)) ?_
  refine List.filter_congr ?_
  rintro ⟨id', trade⟩ hmem
  by_cases hid : id' = id
  · subst hid
    have hlive := h trade hmem
    rw [TradeRecord.live] at hlive
    simp [hlive]
  · simp [hid]

omit [LinearOrder P] in
/-- After a cancel, the records under its ID are all cancelled: the last one was, and the
earlier ones are not live. -/
theorem not_live_of_cancel {tape : LedgerTape P} (h : KeyedLog.Visible TradeRecord.live tape)
    {id : UInt64} {trade : TradeRecord P} {index : Nat}
    (hindex : (reviseLast TradeRecord.cancel tape id)[index]? = some (id, trade)) :
    trade.live = false := by
  refine (h.reviseLast (f := TradeRecord.cancel) (fun _ hlive => by cases hlive) id).not_live
    ?_ hindex
  intro trade' hlast
  rw [last?_reviseLast, if_pos rfl, Option.map_eq_some_iff] at hlast
  obtain ⟨old, -, rfl⟩ := hlast
  rfl

theorem getDailyStats_cancelTrade {calls : List (LedgerCall P)} {symbol : Str}
    (h : KeyedLog.Visible TradeRecord.live (tapeOf calls symbol)) {id : UInt64}
    (hcancel : ((run calls).cancelTrade symbol id).2 = true) :
    ((run calls).cancelTrade symbol id).1.getDailyStats symbol
      = DailyStats.recompute
        (((tapeOf calls symbol).filter fun e => e.1 ≠ id).map Prod.snd) := by
  have hkept := (kept_run calls symbol).cancelTrade id
  have hfound : ((run calls).cancelTrade symbol id).1.getOrCreate symbol
      = (((run calls).getOrCreate symbol).cancelTrade id).1 := by
    rw [cancelTrade, getOrCreate_call, if_pos rfl]
    rfl
  have hstats : (((run calls).getOrCreate symbol).cancelTrade id).1.stats
      = DailyStats.recompute (((run calls).getOrCreate symbol).cancelTrade id).1.log := by
    have hcancel' : (((run calls).getOrCreate symbol).cancelTrade id).2 = true := hcancel
    rw [SymbolLedger.cancelTrade] at hcancel' ⊢
    split
    · rename_i hnone
      rw [hnone] at hcancel'
      cases hcancel'
    · rfl
  have hdead : ∀ trade, (id, trade) ∈ reviseLast TradeRecord.cancel (tapeOf calls symbol) id →
      trade.live = false := by
    intro trade hmem
    obtain ⟨index, hindex⟩ := List.mem_iff_getElem?.mp hmem
    exact not_live_of_cancel h hindex
  have hothers : (reviseLast TradeRecord.cancel (tapeOf calls symbol) id).filter
        (fun e => decide (e.1 ≠ id))
      = (tapeOf calls symbol).filter fun e => decide (e.1 ≠ id) := by
    rw [filter_reviseLast (fun id' => decide (id' ≠ id)), if_neg (by simp)]
  rw [getDailyStats_eq, hfound, hstats, hkept.log, ← recompute_filter hdead, hothers]

/-! ### All later states -/

theorem withdrawn_append_singleton (calls : List (LedgerCall P)) (c : LedgerCall P)
    (symbol : Str) (index : Nat) :
    Withdrawn (calls ++ [c]) symbol index ↔ Withdrawn calls symbol index
      ∨ ∃ id trade, c = ⟨symbol, .cancelTrade id⟩ ∧ ((run calls).cancelTrade symbol id).2 = true
        ∧ (tapeOf calls symbol)[index]? = some (id, trade) := by
  constructor
  · rintro ⟨before, later, id, trade, heq, hcancel, htape⟩
    rcases List.eq_nil_or_concat' later with rfl | ⟨later, last, rfl⟩
    · obtain ⟨rfl, hc⟩ := List.append_inj' heq rfl
      exact .inr ⟨id, trade, List.head_eq_of_cons_eq hc, hcancel, htape⟩
    · rw [← List.cons_append, ← List.append_assoc] at heq
      obtain ⟨rfl, -⟩ := List.append_inj' heq rfl
      exact .inl ⟨before, later, id, trade, rfl, hcancel, htape⟩
  · rintro (⟨before, later, id, trade, rfl, hcancel, htape⟩ | ⟨id, trade, rfl, hcancel, htape⟩)
    · exact ⟨before, later ++ [c], id, trade, by simp, hcancel, htape⟩
    · exact ⟨calls, [], id, trade, rfl, hcancel, htape⟩

/-- A cancel that succeeds takes the share of every record under its ID. -/
theorem gone_of_cancel {calls : List (LedgerCall P)} {symbol : Str}
    (h : KeyedLog.Visible TradeRecord.live (tapeOf calls symbol)) {id : UInt64}
    (hcancel : ((run calls).cancelTrade symbol id).2 = true) {index : Nat}
    {trade : TradeRecord P} (hindex : (tapeOf calls symbol)[index]? = some (id, trade)) :
    ((accountOf calls symbol).step (.cancelTrade id)).Gone index := by
  have hlive : ((last? (accountOf calls symbol) id).any fun e => e.1.live) = true := by
    have hany := ((kept_run calls symbol).cancelTrade_snd id).symm.trans hcancel
    rw [← tape_accountOf, LedgerAccount.last?_tape, Option.any_map] at hany
    exact hany
  obtain ⟨trade', htrade'⟩ : ∃ trade',
      ((accountOf calls symbol).cancel id).tape[index]? = some (id, trade') := by
    rw [LedgerAccount.tape_cancel, tape_accountOf, getElem?_reviseLast_eq, hindex]
    split
    · exact ⟨trade.cancel, rfl⟩
    · exact ⟨trade, rfl⟩
  obtain ⟨share, hshare⟩ := LedgerAccount.getElem?_tape htrade'
  rw [LedgerAccount.step, if_pos hlive]
  refine LedgerAccount.gone_rebuild hshare ?_
  rw [LedgerAccount.tape_cancel, tape_accountOf] at htrade'
  have hdead := not_live_of_cancel h htrade'
  rwa [TradeRecord.live, Bool.not_eq_false'] at hdead

/-- **The step lemma.** From a state in which no live record is hidden and no withdrawn
record has a share, a call leads to one without such shares exactly when it changes the
volume of no withdrawn record. -/
theorem withdrawn_gone_iff {calls : List (LedgerCall P)} (hvisible : Visible calls)
    (hgone : ∀ symbol index, Withdrawn calls symbol index →
      (accountOf calls symbol).Gone index) (c : LedgerCall P) :
    (∀ symbol index, Withdrawn (calls ++ [c]) symbol index →
        (accountOf (calls ++ [c]) symbol).Gone index) ↔ SparesWithdrawn calls c := by
  have hkept := kept_run calls c.symbol
  constructor
  · intro h id newVolume index trade hop hindex htrade hwithdrawn
    have hnext := h c.symbol index
      ((withdrawn_append_singleton calls c c.symbol index).mpr (.inl hwithdrawn))
    rw [accountOf_append_singleton, if_pos rfl,
      (hgone c.symbol index hwithdrawn).step_iff] at hnext
    obtain ⟨trade', hlog, htape⟩ := hkept.getElem?_log hindex
    obtain rfl : trade = trade' := Option.some.inj (htrade.symm.trans hlog)
    rw [tape_accountOf] at hnext
    exact hnext id newVolume trade hop ((hkept.ids id).symm.trans hindex) htape
  · intro h symbol index hwithdrawn
    rw [accountOf_append_singleton]
    rcases (withdrawn_append_singleton calls c symbol index).mp hwithdrawn with
      hold | ⟨id, trade, rfl, hcancel, htape⟩
    · split
      · rename_i hs
        subst hs
        refine ((hgone c.symbol index hold).step_iff c.op).mpr ?_
        intro id newVolume trade hop hindex htrade
        rw [tape_accountOf] at hindex htrade
        have hlog : ((run calls).getOrCreate c.symbol).log[index]? = some trade := by
          rw [hkept.log, List.getElem?_map, htrade]
          rfl
        exact h id newVolume index trade hop ((hkept.ids id).trans hindex) hlog hold
      · exact hgone symbol index hold
    · rw [if_pos rfl]
      exact gone_of_cancel (hvisible symbol) hcancel htape

theorem liveReachable_iff_visible {calls : List (LedgerCall P)} :
    (∀ symbol, LiveReachable calls symbol) ↔ Visible calls
      ∧ ∀ symbol index, Withdrawn calls symbol index → (accountOf calls symbol).Gone index := by
  constructor
  · refine fun h => ⟨fun symbol index id trade htrade hlive => ?_,
      fun symbol => (h symbol).withdrawn⟩
    rw [TradeRecord.live, Bool.not_eq_true'] at hlive
    rw [← (kept_run calls symbol).ids]
    exact (h symbol).target index id trade htrade hlive
  · rintro ⟨h, hgone⟩ symbol
    have htarget : ∀ index id trade, (tapeOf calls symbol)[index]? = some (id, trade) →
        trade.cancelled = false → lastIdx? (tapeOf calls symbol) id = some index :=
      fun index id trade htrade hlive =>
        h symbol index id trade htrade (by rw [TradeRecord.live, hlive, Bool.not_false])
    refine ⟨fun index id trade htrade hlive => ?_,
      fun index index' id trade trade' htrade hlive htrade' hlive' => ?_,
      fun id => getDailyStats_cancelTrade (h symbol), hgone symbol⟩
    · rw [(kept_run calls symbol).ids]
      exact htarget index id trade htrade hlive
    · exact Option.some.inj
        ((htarget index id trade htrade hlive).symm.trans (htarget index' id trade' htrade' hlive'))

/-- **When every live trade stays reachable by its ID.** The log of a symbol is that of
its tape, the prices of its statistics are those of its live records and the total volume
is the sum of the shares. In every state of a run the live records are the targets of
their IDs, and what a cancel withdrew has no share any more, exactly when no call of the
run records under an ID whose last record is live (except for a `ReplaceTrade` under its
own old ID), and none changes the volume of a record that a cancel withdrew. -/
theorem liveReachable_iff (calls : List (LedgerCall P)) :
    (∀ symbol, ((run calls).getOrCreate symbol).log = (tapeOf calls symbol).map Prod.snd
        ∧ (accountOf calls symbol).tape = tapeOf calls symbol
        ∧ ((run calls).getDailyStats symbol).prices
          = (DailyStats.recompute ((run calls).getOrCreate symbol).log).prices
        ∧ ((run calls).getDailyStats symbol).totalVolume = (accountOf calls symbol).shares.sum)
      ∧ ((∀ before, before <+: calls → ∀ symbol, LiveReachable before symbol)
        ↔ ∀ before c after, calls = before ++ c :: after →
          (run before).SparesLive c ∧ SparesWithdrawn before c) := by
  constructor
  · intro symbol
    rw [getDailyStats_eq]
    exact ⟨(kept_run calls symbol).log, tape_accountOf calls symbol,
      pricesAgree_run calls symbol, (accounted_run calls symbol).total⟩
  · refine Runs.forall_prefix_iff_forall_append (fun before c h => ?_) ?_
    · obtain ⟨hvisible, hgone⟩ := liveReachable_iff_visible.mp h
      rw [liveReachable_iff_visible, hvisible.call_iff c, withdrawn_gone_iff hvisible hgone c]
    · refine liveReachable_iff_visible.mpr ⟨fun _ => visible_nil, ?_⟩
      rintro symbol index ⟨before, later, id, trade, heq, -⟩
      cases before <;> cases heq

def recordedTwice : List (LedgerCall Nat) :=
  [⟨[], .recordTrade 1 10 100⟩, ⟨[], .recordTrade 1 11 50⟩]

/-- The cancel succeeds, and the volume of the hidden record stays. In the other run the
cancel takes the record's share, and an `AdjustVolume` gives it a new one. -/
theorem recordedTwice_hides :
    ((run recordedTwice).cancelTrade [] 1).2 = true
      ∧ (((run recordedTwice).cancelTrade [] 1).1.getDailyStats []).totalVolume = 100
      ∧ tapeOf recordedTwice [] = [(1, ⟨10, 100, false⟩), (1, ⟨11, 50, false⟩)]
      ∧ ¬ LiveReachable recordedTwice []
      ∧ accountOf adjustCancelled [] = [(1, ⟨10, 150, true⟩, 50)]
      ∧ ((run adjustCancelled).getDailyStats []).totalVolume = 50
      ∧ ¬ LiveReachable adjustCancelled [] := by
  have htape : tapeOf recordedTwice [] = [(1, ⟨10, 100, false⟩), (1, ⟨11, 50, false⟩)] := by
    decide
  have haccount : accountOf adjustCancelled [] = [(1, ⟨10, 150, true⟩, 50)] := by decide
  refine ⟨by decide, by decide, htape, fun h => ?_, haccount, by decide, fun h => ?_⟩
  · exact absurd (h.unique 0 1 1 _ _ (by rw [htape]; rfl) rfl (by rw [htape]; rfl) rfl)
      (by decide)
  · obtain ⟨id, trade, hgone, -⟩ := h.withdrawn 0
      ⟨[⟨[], .recordTrade 1 10 100⟩], [⟨[], .adjustVolume 1 150⟩], 1, ⟨10, 100, false⟩, rfl,
        by decide, by decide⟩
    rw [haccount] at hgone
    have hshare : (50 : UInt64) = 0 := congrArg (fun e => e.2.2) (Option.some.inj hgone)
    exact absurd hshare (by decide)

end TradeLedger

end Mde
