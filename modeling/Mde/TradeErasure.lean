import Mde.BookIndependence
import Mde.LedgerAgreement

/-!
# A cancelled trade leaves no trace

Trade messages under different keys do not meet: the part of a tape
under some keys is the tape of the messages that carry those keys
(`filter_ofMessages`), and the refusals a tape counts split in the same
way (`refusals_split`). The records under one trade ID can therefore be
taken out of a run with the messages that carry the ID, at any distance
from one another; when all of them are cancelled, the statistics do not
miss them (`liveTrades_eq_of_cancelled`).

`cancelled_trade_leaves_no_trace` is the case of one trade and its
cancel.
-/

open Std KeyedLog

namespace Mde

open Messages

variable {P : Type*}

/-! ## The key a message carries -/

def tradeKey : Payload P → Option TradeKey
  | .orderExecution msg => some (.trade msg.tradeId)
  | .nonDisplayedTrade msg => some (.trade msg.tradeId)
  | .crossTrade msg => some (.cross msg.crossId)
  | .tradeCancel msg => some (.trade msg.tradeId)
  | .crossCorrection msg => some (.cross msg.crossId)
  | _ => none

theorem tradeKey_eq_trade_iff {msg : Payload P} {id : UInt64} :
    tradeKey msg = some (.trade id) ↔ tradeIdOf msg = some id := by
  cases msg <;> simp [tradeKey, tradeIdOf]

def under (p : TradeKey → Bool) (msgs : List (Payload P)) : List (Payload P) :=
  msgs.filter fun msg => (tradeKey msg).any p

theorem under_append (p : TradeKey → Bool) (msgs msgs' : List (Payload P)) :
    under p (msgs ++ msgs') = under p msgs ++ under p msgs' :=
  List.filter_append ..

theorem under_append_singleton (p : TradeKey → Bool) (msgs : List (Payload P))
    (msg : Payload P) :
    under p (msgs ++ [msg])
      = if (tradeKey msg).any p then under p msgs ++ [msg] else under p msgs := by
  cases h : (tradeKey msg).any p <;> simp [under, h]

namespace Tape

variable (p : TradeKey → Bool)

theorem ofMessages_append_singleton (msgs : List (Payload P)) (msg : Payload P) :
    ofMessages (msgs ++ [msg]) = (ofMessages msgs).step msg := by
  simp [ofMessages]

def restrict (tape : Tape P) : Tape P := tape.filter fun e => p e.1

theorem restrict_step (tape : Tape P) (msg : Payload P) :
    (tape.step msg).restrict p
      = if (tradeKey msg).any p then (tape.restrict p).step msg else tape.restrict p := by
  have happend : ∀ (key : TradeKey) (trade : TradeRecord P),
      restrict p (tape ++ [(key, trade)])
        = if p key then tape.restrict p ++ [(key, trade)] else tape.restrict p := by
    intro key trade
    cases hp : p key <;> simp [restrict, hp]
  cases msg with
  | orderExecution msg => exact happend _ _
  | nonDisplayedTrade msg => exact happend _ _
  | crossTrade msg => exact happend _ _
  | tradeCancel msg =>
      exact filter_reviseLast p (fun trade => { trade with cancelled := true }) tape
        (.trade msg.tradeId)
  | crossCorrection msg =>
      exact filter_reviseLast p (fun trade => { trade with volume := msg.volume }) tape
        (.cross msg.crossId)
  | _ => rfl

/-- The part of a tape under some keys is the tape of the messages that carry
them. -/
theorem restrict_ofMessages (msgs : List (Payload P)) :
    (ofMessages msgs).restrict p = ofMessages (under p msgs) := by
  induction msgs using List.reverseRecOn with
  | nil => rfl
  | append_singleton msgs msg ih =>
      rw [ofMessages_append_singleton, restrict_step, ih, under_append_singleton]
      split
      · rw [ofMessages_append_singleton]
      · rfl

/-! ## Refusals -/

/-- A cancel of a trade that is unknown or cancelled, a correction of a cross that
is unknown. -/
def refuses (tape : Tape P) : Payload P → Bool
  | .tradeCancel msg => (last? tape (.trade msg.tradeId)).all (·.cancelled)
  | .crossCorrection msg => (last? tape (.cross msg.crossId)).isNone
  | _ => false

def refusals (msgs : List (Payload P)) : Nat := Runs.countAlong step refuses [] msgs

theorem refuses_restrict (tape : Tape P) (msg : Payload P) (h : (tradeKey msg).any p = true) :
    (tape.restrict p).refuses msg = tape.refuses msg := by
  cases msg with
  | tradeCancel msg =>
      simp only [refuses, restrict]
      rw [last?_filter p tape h]
  | crossCorrection msg =>
      simp only [refuses, restrict]
      rw [last?_filter p tape h]
  | _ => rfl

/-- Refusals under some keys and under the others are counted apart. -/
theorem refusals_split (msgs : List (Payload P)) :
    refusals msgs = refusals (under p msgs) + refusals (under (fun key => !p key) msgs) := by
  induction msgs using List.reverseRecOn with
  | nil => rfl
  | append_singleton msgs msg ih =>
      have hunder : ∀ q : TradeKey → Bool, refusals (under q (msgs ++ [msg]))
          = refusals (under q msgs)
            + if (tradeKey msg).any q then ((ofMessages msgs).refuses msg).toNat else 0 := by
        intro q
        rw [under_append_singleton]
        split
        · rename_i hq
          rw [refusals, Runs.countAlong_append_singleton, ← ofMessages, ← restrict_ofMessages,
            refuses_restrict q _ msg hq]
          rfl
        · rfl
      rw [hunder, hunder, refusals, Runs.countAlong_append_singleton, ← refusals, ih,
        ← ofMessages]
      cases hkey : tradeKey msg with
      | none =>
          have hfree : (ofMessages msgs).refuses msg = false := by
            cases msg <;> first | rfl | cases hkey
          simp [hfree]
      | some key =>
          cases hp : p key <;> simp [hp] <;> omega

end Tape

/-! ## A key whose trades are all cancelled -/

theorem liveTrades_restrict {tape : Tape P} {key : TradeKey}
    (h : ∀ trade, (key, trade) ∈ tape → trade.cancelled = true) :
    liveTrades ((tape.restrict (· != key)).map Prod.snd) = liveTrades (tape.map Prod.snd) := by
  induction tape with
  | nil => rfl
  | cons e tape ih =>
      have ih := ih fun trade hmem => h trade (List.mem_cons_of_mem _ hmem)
      have hcons : Tape.restrict (· != key) (e :: tape)
          = if e.1 != key then e :: Tape.restrict (· != key) tape
            else Tape.restrict (· != key) tape :=
        List.filter_cons
      rw [hcons]
      by_cases he : e.1 = key
      · have hc : e.2.cancelled = true := h e.2 (by rw [← he]; exact List.mem_cons_self ..)
        rw [if_neg (by simp [he]), ih, liveTrades, liveTrades, List.map_cons,
          List.filter_cons_of_neg (by simp [hc])]
      · rw [if_pos (by simp [he])]
        simp only [liveTrades, List.map_cons, List.filter_cons] at ih ⊢
        rw [ih]

/-- Every trade the messages log under a key is cancelled in the end, and no
message under it is refused. -/
structure Spent (key : TradeKey) (msgs : List (Payload P)) : Prop where
  cancelled : ∀ trade, (key, trade) ∈ Tape.ofMessages (under (· == key) msgs) →
    trade.cancelled = true
  refusals : Tape.refusals (under (· == key) msgs) = 0

theorem spent_of_unused {key : TradeKey} {msgs : List (Payload P)}
    (h : under (· == key) msgs = []) : Spent key msgs where
  cancelled := by
    rw [h]
    intro trade hmem
    cases hmem
  refusals := by rw [h]; rfl

/-- A trade and its cancel spend their key. -/
theorem spent_of_trade_cancel {trade : NonDisplayedTrade P} {cancel : TradeCancel}
    (hid : cancel.tradeId = trade.tradeId) {msgs : List (Payload P)}
    (h : under (· == .trade trade.tradeId) msgs = [.nonDisplayedTrade trade, .tradeCancel cancel]) :
    Spent (.trade trade.tradeId) msgs where
  cancelled := by
    rw [h]
    intro record hmem
    simp [Tape.ofMessages, Tape.step, reviseLast, lastIdx?, hid] at hmem
    rw [hmem]
  refusals := by
    rw [h]
    simp [Tape.refusals, Runs.countAlong, Tape.refuses, Tape.step, last?, lastIdx?, hid]

variable [LinearOrder P]

/-! ## The book and its refusals -/

namespace Taped

variable {book : SymbolBook P} {tape : Tape P}

theorem getElem?_last (h : Taped book tape) (key : TradeKey) :
    (lastIdx? tape key).bind (book.tradeLog[·]?) = last? tape key := by
  rw [last?, h.log]
  simp only [List.getElem?_map]

theorem tradeLedger_eq (h : Taped book tape) (msg : Payload P) :
    (book.apply msg).2.tradeLedger = (tape.refuses msg).toNat := by
  cases msg with
  | tradeCancel msg =>
      have hlast := h.getElem?_last (.trade msg.tradeId)
      simp only [SymbolBook.apply, SymbolBook.applyTradeCancel, Tape.refuses, ← hlast,
        h.trades]
      cases hi : lastIdx? tape (.trade msg.tradeId) with
      | none => rfl
      | some index =>
          obtain ⟨trade, hlog, -⟩ := h.getElem?_log hi
          simp only [Option.bind_some, hlog, Option.any_some, Option.all_some]
          cases trade.cancelled <;> rfl
  | crossCorrection msg =>
      have hlast := h.getElem?_last (.cross msg.crossId)
      simp only [SymbolBook.apply, SymbolBook.applyCrossCorrection, Tape.refuses, ← hlast,
        h.crosses]
      cases hi : lastIdx? tape (.cross msg.crossId) with
      | none => rfl
      | some index =>
          obtain ⟨trade, hlog, -⟩ := h.getElem?_log hi
          simp only [Option.bind_some, hlog]
          rfl
  | orderExecution msg => exact (book.applyOrderExecution_trades msg).2
  | nonDisplayedTrade msg => rfl
  | crossTrade msg => rfl
  | _ => exact (book.apply_trades_frame rfl).2

theorem alone_tradeLedger (msgs : List (Payload P)) :
    (OrderBook.alone msgs).2.tradeLedger = Tape.refusals msgs := by
  induction msgs using List.reverseRecOn with
  | nil => rfl
  | append_singleton msgs msg ih =>
      rw [OrderBook.alone, Shard.Machine.alone_append_singleton, Tape.refusals,
        Runs.countAlong_append_singleton, ← Tape.refusals, ← ih]
      exact congrArg (_ + ·) ((Taped.alone msgs).tradeLedger_eq msg)

end Taped

/-! ## Taking the messages under one key out of a run -/

/-- Messages that differ under a spent key only leave the same statistics and the
same trade failures. -/
theorem alone_eq_of_spent {key : TradeKey} {msgs msgs' : List (Payload P)}
    (hother : under (· != key) msgs = under (· != key) msgs')
    (h : Spent key msgs) (h' : Spent key msgs') :
    (OrderBook.alone msgs).1.stats = (OrderBook.alone msgs').1.stats
      ∧ (OrderBook.alone msgs).2.tradeLedger = (OrderBook.alone msgs').2.tradeLedger := by
  have hstats : ∀ {ms : List (Payload P)}, Spent key ms → (OrderBook.alone ms).1.stats
      = DailyStats.ofTrades
        (liveTrades ((Tape.ofMessages (under (· != key) ms)).map Prod.snd)) := by
    intro ms hspent
    have htaped := Taped.alone ms
    rw [htaped.stats, DailyStats.recompute_eq, htaped.log, ← Tape.restrict_ofMessages,
      liveTrades_restrict]
    intro trade hmem
    refine hspent.cancelled trade ?_
    rw [← Tape.restrict_ofMessages]
    exact List.mem_filter.mpr ⟨hmem, by simp⟩
  have hrefusals : ∀ {ms : List (Payload P)}, Spent key ms →
      (OrderBook.alone ms).2.tradeLedger = Tape.refusals (under (· != key) ms) := by
    intro ms hspent
    rw [Taped.alone_tradeLedger, Tape.refusals_split (· == key), hspent.refusals, Nat.zero_add]
    rfl
  rw [hstats h, hstats h', hrefusals h, hrefusals h', hother]
  exact ⟨rfl, rfl⟩

theorem under_own_eq_nil {symbol : Str} {id : UInt64} {msgs : List (Payload P)}
    (h : ∀ msg ∈ msgs, msg.symbol = symbol → tradeIdOf msg ≠ some id) :
    under (· == .trade id) (OrderBook.own symbol msgs) = [] := by
  refine List.filter_eq_nil_iff.mpr ?_
  intro msg hmem hkey
  obtain ⟨hm, hs⟩ := List.mem_filter.mp hmem
  obtain ⟨key, hk, hid⟩ := (Option.any_eq_true ..).mp hkey
  rw [eq_of_beq hid] at hk
  exact h msg hm (of_decide_eq_true hs) (tradeKey_eq_trade_iff.mp hk)

/-- One symbol at a time: the two messages go for their own symbol, and are not among
those of another. -/
theorem alone_eq_without_trade {before between after : List (Payload P)}
    {trade : NonDisplayedTrade P} {cancel : TradeCancel}
    (hsymbol : cancel.symbol = trade.symbol) (hid : cancel.tradeId = trade.tradeId)
    (hother : ∀ msg ∈ before ++ between ++ after, msg.symbol = trade.symbol →
      tradeIdOf msg ≠ some trade.tradeId) (symbol : Str) :
    let full := OrderBook.alone (OrderBook.own symbol
      (before ++ [.nonDisplayedTrade trade] ++ between ++ [.tradeCancel cancel] ++ after))
    let left := OrderBook.alone (OrderBook.own symbol (before ++ between ++ after))
    full.1.stats = left.1.stats ∧ full.2.tradeLedger = left.2.tradeLedger := by
  let msgs : List (Payload P) :=
    before ++ [.nonDisplayedTrade trade] ++ between ++ [.tradeCancel cancel] ++ after
  show (OrderBook.alone (OrderBook.own symbol msgs)).1.stats = _
    ∧ (OrderBook.alone (OrderBook.own symbol msgs)).2.tradeLedger = _
  have hunused : ∀ part : List (Payload P), part ⊆ before ++ between ++ after →
      under (· == .trade trade.tradeId) (OrderBook.own trade.symbol part) = [] :=
    fun part hpart => under_own_eq_nil fun msg hm => hother msg (hpart hm)
  by_cases hs : symbol = trade.symbol
  · subst hs
    have hsplit : OrderBook.own trade.symbol msgs
        = OrderBook.own trade.symbol before ++ [.nonDisplayedTrade trade]
          ++ OrderBook.own trade.symbol between ++ [.tradeCancel cancel]
          ++ OrderBook.own trade.symbol after := by
      simp [msgs, OrderBook.own, Shard.Machine.own, OrderBook.machine, Payload.symbol, hsymbol]
    refine alone_eq_of_spent ?_ (spent_of_trade_cancel hid ?_)
      (spent_of_unused (hunused _ (List.Subset.refl _)))
    · rw [hsplit]
      simp [OrderBook.own, Shard.Machine.own, under, tradeKey, hid]
    · rw [hsplit]
      simp only [under_append, hunused before (by simp), hunused between (by simp),
        hunused after (by simp)]
      simp [under, tradeKey, hid]
  · have hne : trade.symbol ≠ symbol := fun h => hs h.symm
    have hsame : OrderBook.own symbol msgs
        = OrderBook.own symbol (before ++ between ++ after) := by
      simp [msgs, OrderBook.own, Shard.Machine.own, OrderBook.machine, Payload.symbol, hsymbol,
        hne]
    rw [hsame]
    exact ⟨rfl, rfl⟩

/-- **A cancelled trade leaves no trace.** A trade and its cancel, at any distance,
with no other message of the symbol under their trade ID, can be left out of a
run. -/
theorem cancelled_trade_leaves_no_trace {before between after : List (Payload P)}
    {trade : NonDisplayedTrade P} {cancel : TradeCancel}
    (hsymbol : cancel.symbol = trade.symbol) (hid : cancel.tradeId = trade.tradeId)
    (hother : ∀ msg ∈ before ++ between ++ after, msg.symbol = trade.symbol →
      tradeIdOf msg ≠ some trade.tradeId) :
    let full := OrderBook.run
      (before ++ [.nonDisplayedTrade trade] ++ between ++ [.tradeCancel cancel] ++ after)
    let left := OrderBook.run (before ++ between ++ after)
    (∀ symbol, full.getDailyStats symbol = left.getDailyStats symbol)
      ∧ (∀ symbol, full.getTopOfBook symbol = left.getTopOfBook symbol)
      ∧ full.getLiveOrderCount = left.getLiveOrderCount
      ∧ full.getBookBuildFailures = left.getBookBuildFailures
      ∧ full.getTradeLedgerFailures = left.getTradeLedgerFailures := by
  intro full left
  obtain ⟨hstats, hfail⟩ :
      (∀ symbol, (full.getOrCreateBook symbol).stats = (left.getOrCreateBook symbol).stats)
        ∧ full.getTradeLedgerFailures = left.getTradeLedgerFailures := by
    simp only [full, left, OrderBook.run_eq_shards]
    exact OrderBook.machine.run_part_eq SymbolBook.stats Failures.tradeLedgerHom
      (alone_eq_without_trade hsymbol hid hother)
  obtain ⟨-, htop, hcount, hbuild⟩ : SameDisplayed full left :=
    sameDisplayed_of_filter_eq (by simp [isOrderMessage])
  refine ⟨fun symbol => ?_, htop, hcount, hbuild, hfail⟩
  rw [OrderBook.getDailyStats_eq, OrderBook.getDailyStats_eq]
  exact hstats symbol

/-- The cancelled trade set the high; another trade and a cancel stand between and
after. -/
theorem cancelled_trade_leaves_no_trace_high :
    let low : Payload Nat := .nonDisplayedTrade ⟨0, [], 0, 1, 10, 100, true⟩
    let high : NonDisplayedTrade Nat := ⟨0, [], 0, 2, 15, 50, true⟩
    let cross : Payload Nat := .crossTrade ⟨0, [], 0, 2, 12, 200, 'O'.toUInt8⟩
    let again : Payload Nat := .tradeCancel ⟨0, [], 0, 1⟩
    (OrderBook.run [low, .nonDisplayedTrade high, cross, .tradeCancel ⟨0, [], 0, 2⟩, again,
        again]).getDailyStats [] = (OrderBook.run [low, cross, again, again]).getDailyStats []
      ∧ (OrderBook.run [low, cross, again, again]).getTradeLedgerFailures = 1 := by
  intro low high cross again
  obtain ⟨hstats, -⟩ := @cancelled_trade_leaves_no_trace Nat _ [low] [cross] [again, again] high
    ⟨0, [], 0, 2⟩ rfl rfl (by simp [low, high, cross, again, tradeIdOf])
  exact ⟨hstats [], by decide⟩

end Mde
