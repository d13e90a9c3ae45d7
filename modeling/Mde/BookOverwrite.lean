import Mde.BookView

/-!
# Writing over a live order

`ApplyAddOrder`, `ApplyAddOrderRefresh` and the second half of
`ApplyReplaceOrder` store their order without looking at what the ID
holds. The volume of an order written over stays on its level and the
build-failure counter does not move. Two consequences:

- `signal_iff`: a zero failure counter means that the levels agree with
  the live orders exactly on the runs that write over no live order (or
  that fail elsewhere and raise the counter anyway);
- `refresh_unchanged_iff`: a refresh of orders that are already live
  leaves the displayed book alone only when the refreshed orders have no
  volume.
-/

open Std OrderDual TreeSum FloatOrder

namespace Mde

open Messages

variable {P : Type*} [LinearOrder P]

/-! ## The failure counter as a signal -/

/-- On a sound book the levels of every symbol agree with its live orders exactly
when there is no excess. -/
theorem OrderBook.Sound.agrees_iff {ob : OrderBook P} {excess : Str → SymbolBook.Excess P}
    (h : ob.Sound excess) :
    (∀ symbol, (ob.getOrCreateBook symbol).Agrees) ↔ excess = 0 := by
  constructor
  · intro hagree
    funext symbol bid price
    have hacc := (h symbol).accounted bid price
    have heq := hagree symbol bid price
    rw [Pi.zero_apply, Pi.zero_apply, Pi.zero_apply]
    omega
  · rintro rfl symbol
    exact (h symbol).accounted

/-- The levels agree with the live orders after every run that writes over no live
order. -/
theorem run_agrees {msgs : List (Payload P)} (hpos : ∀ msg ∈ msgs, positive msg = true)
    (hfit : Runs.Along OrderBook.onMessage OrderBook.Fits {} msgs)
    (hfresh : Runs.Along RefBook.step (fun ref msg => ref.overwrites msg = false) ∅ msgs)
    (symbol : Str) : ((OrderBook.run msgs).getOrCreateBook symbol).Agrees := by
  obtain ⟨excess, hsound, hzero, -⟩ := OrderBook.run_sound hpos hfit
  exact hsound.agrees_iff.mpr (hzero.mpr hfresh) symbol

/-- On messages of positive volume that wrap no level, a zero counter implies agreement
of all levels exactly when no message wrote over a live order or some message missed. -/
theorem run_agrees_iff {msgs : List (Payload P)} (hpos : ∀ msg ∈ msgs, positive msg = true)
    (hfit : Runs.Along OrderBook.onMessage OrderBook.Fits {} msgs) :
    ((OrderBook.run msgs).getBookBuildFailures = 0 →
        ∀ symbol, ((OrderBook.run msgs).getOrCreateBook symbol).Agrees)
      ↔ Runs.Along RefBook.step (fun ref msg => ref.overwrites msg = false) ∅ msgs
        ∨ ¬Runs.Along RefBook.step (fun ref msg => ref.misses msg = false) ∅ msgs := by
  obtain ⟨excess, hsound, hzero, hfail⟩ := OrderBook.run_sound hpos hfit
  rw [hfail, hsound.agrees_iff, hzero, RefBook.missCount, Runs.countAlong_eq_zero_iff]
  exact imp_iff_or_not

/-- Every entry of the level maps holds what the live orders there add up to, and where
there is no entry they add up to nothing. -/
structure KeyedBook.Agrees (book : KeyedBook P) : Prop where
  entry : ∀ bid price resting, (price, resting) ∈ book.levels bid →
    resting.toNat = volumeIn book.orders bid price
  absent : ∀ bid price, (∀ resting, (price, resting) ∉ book.levels bid) →
    volumeIn book.orders bid price = 0

theorem SymbolBook.agrees_view {book : SymbolBook P} : book.view.Agrees ↔ book.Agrees := by
  constructor
  · intro h bid price
    show book.levelVolume bid price = volumeIn book.orders bid price
    rw [SymbolBook.levelVolume]
    cases hl : book.level bid price with
    | none =>
        refine (h.absent bid price fun resting hmem => ?_).symm
        rw [mem_levels_view, hl] at hmem
        cases hmem
    | some resting => exact h.entry bid price resting (mem_levels_view.mpr hl)
  · intro h
    refine ⟨fun bid price resting hmem => ?_, fun bid price habsent => ?_⟩
    · have hvolume : book.levelVolume bid price = volumeIn book.view.orders bid price :=
        h bid price
      rw [← hvolume, SymbolBook.levelVolume, mem_levels_view.mp hmem, Option.elim_some]
    · have hvolume : book.levelVolume bid price = volumeIn book.view.orders bid price :=
        h bid price
      have hnone : book.level bid price = none :=
        Option.eq_none_iff_forall_not_mem.mpr fun resting hl =>
          habsent resting (mem_levels_view.mpr hl)
      rw [← hvolume, SymbolBook.levelVolume, hnone, Option.elim_none]

/-- **When the failure counter is a signal.** On messages of positive volume that display
no NaN and wrap no level, a zero counter implies agreement of all levels exactly when no
message wrote over a live order or some message missed. -/
theorem signal_iff {R : Type*} [LinearOrder R] {msgs : List (Payload (Value R))}
    (hnan : NoNan msgs) (hpos : ∀ msg ∈ msgs, positive msg = true)
    (hfit : AlongKeyed Value.lt (KeyedBook.Fits Value.lt) msgs) :
    (KeyedBook.failures Value.lt msgs = 0 →
        ∀ symbol, (KeyedBook.run Value.lt msgs symbol).Agrees)
      ↔ Runs.Along RefBook.step (fun ref msg => ref.overwrites msg = false) ∅ msgs
        ∨ ¬Runs.Along RefBook.step (fun ref msg => ref.misses msg = false) ∅ msgs := by
  rw [along_fits_iff Value.lt_eq_decide_of_ne_nan hnan] at hfit
  rw [← run_agrees_iff hpos hfit, failures_eq Value.lt_eq_decide_of_ne_nan hnan]
  simp only [run_eq_view Value.lt_eq_decide_of_ne_nan hnan, SymbolBook.agrees_view]

/-- An Add, and a second Add of the same ID at another price. -/
def addTwice : List (Payload (Value Nat)) :=
  [.addOrder ⟨0, [], 0, 1, .finite 10, 500, 'B'.toUInt8, []⟩,
    .addOrder ⟨0, [], 0, 1, .finite 11, 300, 'B'.toUInt8, []⟩]

theorem signal_iff_addTwice :
    ¬(KeyedBook.failures Value.lt addTwice = 0 →
        ∀ symbol, (KeyedBook.run Value.lt addTwice symbol).Agrees) :=
  fun h => absurd ((signal_iff (by decide) (by decide) (by decide)).mp h) (by decide)

/-- The counter is zero, and the first price holds volume of no live order. -/
theorem addTwice_silent :
    NoNan addTwice
      ∧ (∀ msg ∈ addTwice, positive msg = true)
      ∧ AlongKeyed Value.lt (KeyedBook.Fits Value.lt) addTwice
      ∧ KeyedBook.failures Value.lt addTwice = 0
      ∧ (KeyedBook.run Value.lt addTwice []).bidLevels = [(.finite 11, 300), (.finite 10, 500)]
      ∧ volumeIn (KeyedBook.run Value.lt addTwice []).orders true (.finite 10) = 0 := by
  decide

/-! ## Refreshing live orders -/

/-- A refresh that carries a live order's current price, volume and side. -/
def OrderBook.IsRefresh (ob : OrderBook P) (msg : AddOrderRefresh P) : Prop :=
  (ob.getOrCreateBook msg.symbol).orders[msg.orderId]?
    = some ⟨msg.price, msg.volume, msg.side⟩

def OrderBook.refresh (ob : OrderBook P) (msgs : List (AddOrderRefresh P)) : OrderBook P :=
  msgs.foldl (fun ob msg => ob.onMessage (.addOrderRefresh msg)) ob

def refreshed (msg : AddOrderRefresh P) : LiveOrder P := ⟨msg.price, msg.volume, msg.side⟩

/-- The volume the refreshes of a symbol carry to a side and price. -/
def refreshedVolume (msgs : List (AddOrderRefresh P)) (symbol : Str) (bid : Bool)
    (price : P) : Nat :=
  ((msgs.filter fun msg => msg.symbol = symbol).map fun msg =>
    (refreshed msg).volumeAt bid price).sum

namespace OrderBook

section Refresh

variable {ob : OrderBook P}

/-- One refresh of a live order: its level takes the volume once more, and
nothing else changes. -/
theorem IsRefresh.onMessage {msg : AddOrderRefresh P} (h : ob.IsRefresh msg)
    (symbol : Str) :
    (ob.onMessage (.addOrderRefresh msg)).getOrCreateBook symbol
      = if symbol = msg.symbol then
          (ob.getOrCreateBook symbol).addLevel msg.side msg.price msg.volume
        else ob.getOrCreateBook symbol := by
  rw [getOrCreateBook_onMessage, show (Payload.addOrderRefresh msg).symbol = msg.symbol
    from rfl]
  by_cases hs : symbol = msg.symbol
  · subst hs
    rw [if_pos rfl, if_pos rfl]
    show (ob.getOrCreateBook msg.symbol).putOrder msg.orderId (refreshed msg) = _
    rw [SymbolBook.putOrder, refreshed, insert_self h]
  · rw [if_neg hs, if_neg hs]

theorem IsRefresh.orders {msg : AddOrderRefresh P} (h : ob.IsRefresh msg) (symbol : Str) :
    ((ob.onMessage (.addOrderRefresh msg)).getOrCreateBook symbol).orders
      = (ob.getOrCreateBook symbol).orders := by
  rw [h.onMessage]
  split
  · exact SymbolBook.addLevel_orders ..
  · rfl

theorem IsRefresh.of_onMessage {msg : AddOrderRefresh P} (h : ob.IsRefresh msg)
    {msg' : AddOrderRefresh P} (h' : ob.IsRefresh msg') :
    (ob.onMessage (.addOrderRefresh msg)).IsRefresh msg' := by
  rw [IsRefresh, h.orders]
  exact h'

theorem IsRefresh.levelVolume {msg : AddOrderRefresh P} (h : ob.IsRefresh msg)
    (symbol : Str) (bid : Bool) (price : P) :
    ((ob.onMessage (.addOrderRefresh msg)).getOrCreateBook symbol).levelVolume bid price
      = ((ob.getOrCreateBook symbol).levelVolume bid price
          + if msg.symbol = symbol then (refreshed msg).volumeAt bid price else 0)
        % 2 ^ 64 := by
  rw [h.onMessage]
  by_cases hs : symbol = msg.symbol
  · subst hs
    rw [if_pos rfl, if_pos rfl]
    exact SymbolBook.levelVolume_addLevel_mod _ (refreshed msg) bid price
  · rw [if_neg hs, if_neg fun hc => hs hc.symm, Nat.add_zero,
      Nat.mod_eq_of_lt (SymbolBook.levelVolume_lt ..)]

theorem IsRefresh.level {msg : AddOrderRefresh P} (h : ob.IsRefresh msg) (symbol : Str)
    (bid : Bool) (price : P) :
    ((ob.onMessage (.addOrderRefresh msg)).getOrCreateBook symbol).level bid price
      = if symbol = msg.symbol ∧ bid = isBid msg.side ∧ price = msg.price then
          some (((ob.getOrCreateBook symbol).level bid price).getD 0 + msg.volume)
        else (ob.getOrCreateBook symbol).level bid price := by
  rw [h.onMessage]
  by_cases hs : symbol = msg.symbol
  · subst hs
    rw [if_pos rfl, SymbolBook.level_addLevel]
    simp only [true_and]
  · rw [if_neg hs, if_neg fun hat => hs hat.1]

end Refresh

/-! ### A run of refreshes -/

section RefreshRun

variable {ob : OrderBook P} {msgs : List (AddOrderRefresh P)}

/-- Each level takes the refreshed volume once more. -/
theorem refresh_levelVolume (h : ∀ msg ∈ msgs, ob.IsRefresh msg) (symbol : Str)
    (bid : Bool) (price : P) :
    ((ob.refresh msgs).getOrCreateBook symbol).levelVolume bid price
      = ((ob.getOrCreateBook symbol).levelVolume bid price
          + refreshedVolume msgs symbol bid price) % 2 ^ 64 := by
  induction msgs generalizing ob with
  | nil =>
      exact (Nat.mod_eq_of_lt (SymbolBook.levelVolume_lt ..)).symm
  | cons msg msgs ih =>
      have hmsg := h msg (List.mem_cons_self ..)
      rw [refresh, List.foldl_cons, ← refresh,
        ih fun m hm => hmsg.of_onMessage (h m (List.mem_cons_of_mem _ hm)),
        hmsg.levelVolume, refreshedVolume, refreshedVolume, List.filter_cons]
      by_cases hs : msg.symbol = symbol
      · simp only [hs, decide_true, if_true, List.map_cons, List.sum_cons]
        omega
      · simp only [hs, decide_false, if_false, Bool.false_eq_true]
        omega

theorem refresh_isSome_level (h : ∀ msg ∈ msgs, ob.IsRefresh msg) {symbol : Str}
    {bid : Bool} {price : P}
    (hsome : ((ob.getOrCreateBook symbol).level bid price).isSome
      ∨ ∃ msg ∈ msgs, msg.symbol = symbol ∧ isBid msg.side = bid ∧ msg.price = price) :
    (((ob.refresh msgs).getOrCreateBook symbol).level bid price).isSome := by
  induction msgs generalizing ob with
  | nil =>
      rcases hsome with hsome | ⟨msg, hm, -⟩
      · exact hsome
      · cases hm
  | cons msg msgs ih =>
      have hmsg := h msg (List.mem_cons_self ..)
      rw [refresh, List.foldl_cons]
      refine ih (fun m hm => hmsg.of_onMessage (h m (List.mem_cons_of_mem _ hm))) ?_
      rw [hmsg.level]
      split
      · exact .inl rfl
      · rename_i hat
        rcases hsome with hsome | ⟨m, hm, hmat⟩
        · exact .inl hsome
        · rcases List.mem_cons.mp hm with rfl | hm
          · exact absurd ⟨hmat.1.symm, hmat.2.1.symm, hmat.2.2.symm⟩ hat
          · exact .inr ⟨m, hm, hmat⟩

/-- Refreshes of no volume onto stored levels change no level. -/
theorem refresh_level_of_zero (h : ∀ msg ∈ msgs, ob.IsRefresh msg)
    (hzero : ∀ msg ∈ msgs, msg.volume = 0
      ∧ ((ob.getOrCreateBook msg.symbol).level (isBid msg.side) msg.price).isSome)
    (symbol : Str) (bid : Bool) (price : P) :
    ((ob.refresh msgs).getOrCreateBook symbol).level bid price
      = (ob.getOrCreateBook symbol).level bid price := by
  induction msgs generalizing ob with
  | nil => rfl
  | cons msg msgs ih =>
      have hmsg := h msg (List.mem_cons_self ..)
      obtain ⟨hvolume, hsome⟩ := hzero msg (List.mem_cons_self ..)
      have hlevel : ∀ symbol bid price,
          ((ob.onMessage (.addOrderRefresh msg)).getOrCreateBook symbol).level bid price
            = (ob.getOrCreateBook symbol).level bid price := by
        intro symbol bid price
        rw [hmsg.level]
        split
        · rename_i hat
          obtain ⟨rfl, rfl, rfl⟩ := hat
          obtain ⟨resting, hl⟩ := Option.isSome_iff_exists.mp hsome
          rw [hl, hvolume, Option.getD_some, UInt64.add_zero]
        · rfl
      rw [refresh, List.foldl_cons, ← refresh,
        ih (fun m hm => hmsg.of_onMessage (h m (List.mem_cons_of_mem _ hm)))
          fun m hm => by
            rw [hlevel]
            exact hzero m (List.mem_cons_of_mem _ hm)]
      exact hlevel symbol bid price

theorem refresh_counts (h : ∀ msg ∈ msgs, ob.IsRefresh msg) :
    (ob.refresh msgs).getLiveOrderCount = ob.getLiveOrderCount
      ∧ (ob.refresh msgs).getBookBuildFailures = ob.getBookBuildFailures := by
  induction msgs generalizing ob with
  | nil => exact ⟨rfl, rfl⟩
  | cons msg msgs ih =>
      have hmsg := h msg (List.mem_cons_self ..)
      obtain ⟨hcount, hfail⟩ :=
        ih fun m hm => hmsg.of_onMessage (h m (List.mem_cons_of_mem _ hm))
      rw [refresh, List.foldl_cons, ← refresh, hcount, hfail]
      refine ⟨?_, rfl⟩
      have hlive := getLiveOrderCount_onMessage ob (.addOrderRefresh msg)
      rw [hmsg.orders] at hlive
      omega

/-- Refreshes of different live orders carry no more than rests at a price. -/
theorem refreshedVolume_le (h : ∀ msg ∈ msgs, ob.IsRefresh msg)
    (hnodup : (msgs.map fun msg => (msg.symbol, msg.orderId)).Nodup) (symbol : Str)
    (bid : Bool) (price : P) :
    refreshedVolume msgs symbol bid price
      ≤ (ob.getOrCreateBook symbol).restingVolume bid price := by
  have hown : ∀ msg ∈ msgs.filter fun msg => msg.symbol = symbol,
      msg ∈ msgs ∧ msg.symbol = symbol := fun msg hm => by
    simpa using hm
  let entries := (msgs.filter fun msg => msg.symbol = symbol).map fun msg =>
    (msg.orderId, refreshed msg)
  have hids : (entries.map Prod.fst).Nodup := by
    rw [List.map_map, List.Nodup, List.pairwise_map]
    refine ((List.pairwise_map.mp hnodup).filter _).imp_of_mem fun {m m'} hm hm' hne heq => ?_
    refine hne ?_
    rw [(hown m hm).2, (hown m' hm').2]
    exact congrArg _ heq
  have hsum := sum_le_sumOver (fun _ order => order.volumeAt bid price)
    (ob.getOrCreateBook symbol).orders entries hids fun e he => by
      obtain ⟨msg, hm, rfl⟩ := List.mem_map.mp he
      obtain ⟨hmem, rfl⟩ := hown msg hm
      exact h msg hmem
  rwa [List.map_map] at hsum

end RefreshRun

end OrderBook

/-- **When a refresh is idempotent.** Take a book whose levels agree with its live
orders and refresh some of the live orders, each once, in any order. The
displayed book is unchanged exactly when every refreshed order has no volume and
rests at a stored price. -/
theorem refresh_unchanged_iff {ob : OrderBook P}
    (hagree : ∀ symbol, (ob.getOrCreateBook symbol).Agrees)
    {msgs : List (AddOrderRefresh P)} (hlive : ∀ msg ∈ msgs, ob.IsRefresh msg)
    (hnodup : (msgs.map fun msg => (msg.symbol, msg.orderId)).Nodup) :
    SameDisplayed (ob.refresh msgs) ob
      ↔ ∀ msg ∈ msgs, msg.volume = 0
          ∧ ((ob.getOrCreateBook msg.symbol).level (isBid msg.side) msg.price).isSome := by
  constructor
  · intro hsame msg hm
    let bid := isBid msg.side
    have hlevel := hsame.level msg.symbol bid msg.price
    refine ⟨?_, ?_⟩
    · have hvol := OrderBook.refresh_levelVolume hlive msg.symbol bid msg.price
      have hle := OrderBook.refreshedVolume_le hlive hnodup msg.symbol bid msg.price
      have hlt := (ob.getOrCreateBook msg.symbol).levelVolume_lt bid msg.price
      rw [SymbolBook.levelVolume, hlevel, ← SymbolBook.levelVolume] at hvol
      rw [← hagree msg.symbol bid msg.price] at hle
      have hzero : refreshedVolume msgs msg.symbol bid msg.price = 0 := by omega
      have hmem : (refreshed msg).volumeAt bid msg.price
          ≤ refreshedVolume msgs msg.symbol bid msg.price :=
        List.single_le_sum (fun _ _ => Nat.zero_le _) _
          (List.mem_map.mpr ⟨msg, by simpa using hm, rfl⟩)
      have hself : (refreshed msg).volumeAt bid msg.price = msg.volume.toNat :=
        (refreshed msg).volumeAt_self
      exact UInt64.toNat_inj.mp (by rw [UInt64.toNat_zero]; omega)
    · rw [← hlevel]
      exact OrderBook.refresh_isSome_level hlive (.inr ⟨msg, hm, rfl, rfl, rfl⟩)
  · intro hzero
    have hlevel := OrderBook.refresh_level_of_zero hlive hzero
    obtain ⟨hcount, hfail⟩ := OrderBook.refresh_counts hlive
    refine ⟨hlevel, ?_, hcount, hfail⟩
    intro symbol
    rw [OrderBook.getTopOfBook_eq, OrderBook.getTopOfBook_eq]
    exact SymbolBook.topOfBook_congr (hlevel symbol)

def oneBid : List (Payload Nat) :=
  [.addOrder ⟨0, [], 0, 1, 10, 500, 'B'.toUInt8, []⟩]

def refreshBid : AddOrderRefresh Nat := ⟨0, [], 0, 1, 10, 500, 'B'.toUInt8, []⟩

theorem oneBid_agrees (symbol : Str) :
    ((OrderBook.run oneBid).getOrCreateBook symbol).Agrees :=
  run_agrees (by decide) (by decide) (by decide) symbol

theorem oneBid_isRefresh :
    ∀ msg ∈ [refreshBid], (OrderBook.run oneBid).IsRefresh msg := by
  intro msg hm
  rw [List.mem_singleton.mp hm, OrderBook.IsRefresh]
  decide

theorem refresh_unchanged_iff_oneBid :
    ¬SameDisplayed ((OrderBook.run oneBid).refresh [refreshBid]) (OrderBook.run oneBid) :=
  fun h => absurd
    ((refresh_unchanged_iff oneBid_agrees oneBid_isRefresh (by decide)).mp h
      refreshBid (List.mem_cons_self ..)).1 (by decide)

/-- The refresh doubles the level of the order that is already there. -/
theorem oneBid_refresh_doubles :
    (∀ symbol, ((OrderBook.run oneBid).getOrCreateBook symbol).Agrees)
      ∧ (∀ msg ∈ [refreshBid], (OrderBook.run oneBid).IsRefresh msg)
      ∧ ((OrderBook.run oneBid).getOrCreateBook []).level true 10 = some 500
      ∧ (((OrderBook.run oneBid).refresh [refreshBid]).getOrCreateBook []).level true 10
        = some 1000 :=
  ⟨oneBid_agrees, oneBid_isRefresh, by decide, by decide⟩

end Mde
