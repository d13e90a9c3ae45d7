import Mde.BookView

/-!
# Orders of no volume

`RemoveLevel` erases a level that reaches zero, `AddLevel` creates one
whatever volume it is given. An order of volume zero therefore opens an
empty level when nothing else rests at its price, and has no level to be
taken off once the last order beside it has gone.

* `SymbolBook.Accounted.apply_clean_iff` — the step lemma: from levels
  that are accounted for and not empty, a message leaves no empty level
  and finds the level of the live order it names exactly when the orders
  of no volume it deals with are backed by others.
* `OrderBook.along_backed_iff` — the same of whole runs, and
  `KeyedBook.noEmptyLevels_iff_backed` of the source's own level maps.
* `KeyedBook.zeroVolume_surfaces` — what becomes of orders that are not
  backed: an empty level at the top of the book, and a Delete of a live
  order that counts as a failure.
-/

open Std FloatOrder

namespace Mde

open Messages

variable {P : Type*} [LinearOrder P]

/-- The orders of no volume that a message puts or names have company: the other live
orders at their side and price add up to something. -/
def Backed (orders : ExtTreeMap UInt64 (LiveOrder P)) (msg : Payload P) : Prop :=
  (∀ put ∈ putHalf orders msg, put.2.volume = 0 →
    0 < volumeIn (takenOrders orders msg) (isBid put.2.side) put.2.price)
  ∧ ∀ id ∈ targetOrder msg, ∀ order ∈ orders[id]?, order.volume = 0 →
    0 < volumeIn orders (isBid order.side) order.price

-- by name: `∀ id` would be decided over all order IDs
instance (orders : ExtTreeMap UInt64 (LiveOrder P)) (msg : Payload P) :
    Decidable (Backed orders msg) :=
  have := fun id : UInt64 => @Option.decidableForallMem _ (fun order : LiveOrder P =>
    order.volume = 0 → 0 < volumeIn orders (isBid order.side) order.price) _ orders[id]?
  @instDecidableAnd _ _ (Option.decidableForallMem _) (Option.decidableForallMem _)

namespace SymbolBook

/-! ## One message -/

/-- Putting an order opens an empty level exactly when it brings no volume to a price
that has none. -/
theorem NoEmptyLevel.putOrder_iff {book : SymbolBook P} (h : book.NoEmptyLevel)
    (id : UInt64) {order : LiveOrder P}
    (hfit : book.levelVolume (isBid order.side) order.price + order.volume.toNat < 2 ^ 64) :
    (book.putOrder id order).NoEmptyLevel
      ↔ (order.volume = 0 → 0 < book.levelVolume (isBid order.side) order.price) := by
  by_cases hz : order.volume = 0
  · have hlevel : ∀ bid q, (book.putOrder id order).level bid q
        = if bid = isBid order.side ∧ q = order.price then some ((book.level bid q).getD 0)
          else book.level bid q := by
      intro bid q
      rw [level_putOrder, hz, add_zero]
    rw [← h.isSome_level_iff]
    constructor
    · rintro hput -
      by_contra habsent
      refine hput (isBid order.side) order.price ?_
      rw [hlevel, if_pos ⟨rfl, rfl⟩, Option.not_isSome_iff_eq_none.mp habsent]
      rfl
    · intro hstored bid q hempty
      rw [hlevel] at hempty
      split at hempty
      · rename_i hat
        obtain ⟨rfl, rfl⟩ := hat
        obtain ⟨resting, hl⟩ := Option.isSome_iff_exists.mp (hstored hz)
        rw [hl] at hempty
        exact h _ _ (hl.trans hempty)
      · exact h bid q hempty
  · have hpos : 0 < order.volume := UInt64.pos_iff_ne_zero.mpr hz
    exact iff_of_true (h.putOrder id hpos hfit) fun hz' => absurd hz' hz

/-- `RemoveLevel` finds what a message asks for exactly when the orders at that price
have some volume. -/
theorem Accounted.removal_ok_iff {book : SymbolBook P} (h : book.Accounted 0)
    (hne : book.NoEmptyLevel) {id : UInt64} {order taken : LiveOrder P}
    (ho : book.orders[id]? = some order) (hside : taken.side = order.side)
    (hprice : taken.price = order.price) (hle : taken.volume.toNat ≤ order.volume.toNat) :
    (book.removeLevel taken.side taken.price taken.volume).2 = true
      ↔ 0 < volumeIn book.orders (isBid order.side) order.price := by
  have hacc : book.levelVolume (isBid order.side) order.price
      = volumeIn book.orders (isBid order.side) order.price := h _ _
  have hlevel := h.le_levelVolume ho
  rw [snd_removeLevel, hside, hprice, ← hacc, ← hne.isSome_level_iff]
  rw [levelVolume] at hlevel
  cases hl : book.level (isBid order.side) order.price with
  | none => simp
  | some resting =>
      refine iff_of_true ?_ rfl
      rw [hl, Option.elim_some] at hlevel
      rw [Option.any_some, Bool.not_eq_true', decide_eq_false_iff_not, UInt64.lt_iff_toNat_lt]
      omega

/-- A message that names a live order raises the counter exactly when its level is
missing. -/
theorem Accounted.bookBuild_of_live_iff {book : SymbolBook P} (h : book.Accounted 0)
    (hne : book.NoEmptyLevel) {msg : Payload P} {id : UInt64} (ht : targetOrder msg = some id)
    {order : LiveOrder P} (ho : book.orders[id]? = some order) :
    (book.apply msg).2.bookBuild = 0
      ↔ (order.volume = 0 → 0 < volumeIn book.orders (isBid order.side) order.price) := by
  obtain ⟨taken, htaken, hside, hprice, hle⟩ := removal_of_target ht ho
  have hmisses : misses book.orders.contains msg = false := by
    rw [misses, ht, Option.any_some, ExtTreeMap.contains_eq_isSome_getElem?, ho]
    rfl
  rw [apply_bookBuild, hmisses, htaken, Bool.toNat_false, Nat.zero_add]
  simp only [ite_eq_left_iff, Nat.one_ne_zero, imp_false, not_not]
  rw [h.removal_ok_iff hne ho hside hprice hle]
  refine ⟨fun hpos _ => hpos, fun hback => ?_⟩
  by_cases hz : order.volume = 0
  · exact hback hz
  · have hlevel := h.le_levelVolume ho
    rw [show book.levelVolume (isBid order.side) order.price
      = volumeIn book.orders (isBid order.side) order.price from h _ _] at hlevel
    have hpos := UInt64.lt_iff_toNat_lt.mp (UInt64.pos_iff_ne_zero.mpr hz)
    simp only [UInt64.toNat_zero] at hpos
    omega

/-- **The step lemma.** From levels that are accounted for and not empty, a message
leaves no empty level, and counts no failure for a live order, exactly when it is
backed. -/
theorem Accounted.apply_clean_iff {book : SymbolBook P} (h : book.Accounted 0)
    (hne : book.NoEmptyLevel) {msg : Payload P} (hfit : book.fits msg = true) :
    ((book.apply msg).1.NoEmptyLevel
        ∧ ((targetOrder msg).any book.orders.contains = true →
          (book.apply msg).2.bookBuild = 0))
      ↔ Backed book.orders msg := by
  refine and_congr ?_ ?_
  · have htake := hne.takeHalf msg
    have hdisplay : (book.apply msg).1.NoEmptyLevel
        ↔ ((book.takeHalf msg).1.putBack (putHalf book.orders msg)).NoEmptyLevel :=
      ⟨NoEmptyLevel.congr (apply_halves book msg).1.symm,
        NoEmptyLevel.congr (apply_halves book msg).1⟩
    rw [hdisplay]
    cases hput : putHalf book.orders msg with
    | none => exact iff_of_true htake fun put hmem => by cases hmem
    | some put =>
        have hvolume : (book.takeHalf msg).1.levelVolume (isBid put.2.side) put.2.price
            = volumeIn (takenOrders book.orders msg) (isBid put.2.side) put.2.price := by
          rw [← takeHalf_orders]
          exact h.takeHalf msg _ _
        simp only [Option.mem_def, Option.some.injEq, forall_eq']
        rw [← hvolume]
        exact htake.putOrder_iff put.1 (fits_put hfit hput)
  · cases ht : targetOrder msg with
    | none => simp
    | some id =>
        simp only [Option.any_some, Option.mem_def, Option.some.injEq, forall_eq',
          ExtTreeMap.contains_eq_isSome_getElem?]
        cases ho : book.orders[id]? with
        | none => simp
        | some order =>
            simp only [Option.isSome_some, forall_const, Option.some.injEq, forall_eq']
            exact h.bookBuild_of_live_iff hne ht ho

end SymbolBook

/-! ## Whole runs -/

namespace OrderBook

/-- No entry of a level map is zero, and the best bid and ask have volume: no price
that has volume is better. -/
structure NoEmptyLevels (ob : OrderBook P) : Prop where
  level : ∀ symbol bid price, (ob.getOrCreateBook symbol).level bid price ≠ some 0
  bestBid : ∀ symbol top, (ob.getTopOfBook symbol).bestBid = some top →
    0 < top.aggregateVolume ∧ ∀ price resting,
      (ob.getOrCreateBook symbol).level true price = some resting → 0 < resting →
        price ≤ top.price
  bestAsk : ∀ symbol top, (ob.getTopOfBook symbol).bestAsk = some top →
    0 < top.aggregateVolume ∧ ∀ price resting,
      (ob.getOrCreateBook symbol).level false price = some resting → 0 < resting →
        top.price ≤ price

theorem noEmptyLevels_iff {ob : OrderBook P} :
    ob.NoEmptyLevels ↔ ∀ symbol, (ob.getOrCreateBook symbol).NoEmptyLevel := by
  refine ⟨fun h symbol => h.level symbol, fun h => ?_⟩
  have hbest : ∀ symbol bid top, (ob.getOrCreateBook symbol).best bid = some top →
      0 < top.aggregateVolume ∧ ∀ price resting,
        (ob.getOrCreateBook symbol).level bid price = some resting → 0 < resting →
          if bid then price ≤ top.price else top.price ≤ price := by
    intro symbol bid top htop
    obtain ⟨hl, hle⟩ := SymbolBook.best_eq_some htop
    refine ⟨UInt64.pos_iff_ne_zero.mpr fun hz => h symbol bid top.price (by rw [hl, hz]), ?_⟩
    intro price resting hprice _
    exact hle price (by rw [hprice]; rfl)
  refine ⟨h, fun symbol top htop => ?_, fun symbol top htop => ?_⟩
  · rw [getTopOfBook_eq] at htop
    exact hbest symbol true top htop
  · rw [getTopOfBook_eq] at htop
    exact hbest symbol false top htop

def Fresh (ob : OrderBook P) (msg : Payload P) : Prop :=
  overwrites (ob.getOrCreateBook msg.symbol).orders.contains msg = false

def Backed (ob : OrderBook P) (msg : Payload P) : Prop :=
  Mde.Backed (ob.getOrCreateBook msg.symbol).orders msg

/-- A Modify, Delete, Execution or Replace of a live order counts no failure. -/
def LiveTargetFound (ob : OrderBook P) (msg : Payload P) : Prop :=
  (targetOrder msg).any (ob.getOrCreateBook msg.symbol).orders.contains = true →
    (ob.onMessage msg).getBookBuildFailures = ob.getBookBuildFailures

/-- Every symbol's levels are accounted for and none is empty. -/
def Clean (ob : OrderBook P) : Prop :=
  ∀ symbol, (ob.getOrCreateBook symbol).Accounted 0 ∧ (ob.getOrCreateBook symbol).NoEmptyLevel

theorem clean_empty : ({} : OrderBook P).Clean := by
  intro symbol
  have hsound := sound_empty (P := P) symbol
  exact ⟨hsound.accounted, hsound.noEmptyLevel⟩

theorem Clean.onMessage_iff {ob : OrderBook P} (h : ob.Clean) {msg : Payload P}
    (hfit : ob.Fits msg) :
    ((ob.onMessage msg).NoEmptyLevels ∧ ob.LiveTargetFound msg) ↔ ob.Backed msg := by
  obtain ⟨hacc, hne⟩ := h msg.symbol
  have hlevels : (ob.onMessage msg).NoEmptyLevels
      ↔ ((ob.getOrCreateBook msg.symbol).apply msg).1.NoEmptyLevel := by
    rw [noEmptyLevels_iff]
    constructor
    · intro hall
      rw [← getOrCreateBook_onMessage_self]
      exact hall msg.symbol
    · intro hown symbol
      rw [getOrCreateBook_onMessage]
      split
      · rename_i hs
        subst hs
        exact hown
      · exact (h symbol).2
  have hfound : ob.LiveTargetFound msg
      ↔ ((targetOrder msg).any (ob.getOrCreateBook msg.symbol).orders.contains = true →
        ((ob.getOrCreateBook msg.symbol).apply msg).2.bookBuild = 0) := by
    refine imp_congr_right fun _ => ?_
    exact Nat.add_eq_left
  rw [hlevels, hfound]
  exact hacc.apply_clean_iff hne hfit

/-- A fresh message keeps the accounts, so a book without empty levels stays clean. -/
theorem Clean.onMessage {ob : OrderBook P} (h : ob.Clean) {msg : Payload P}
    (hfresh : ob.Fresh msg) (hfit : ob.Fits msg) (hne : (ob.onMessage msg).NoEmptyLevels) :
    (ob.onMessage msg).Clean := by
  intro symbol
  refine ⟨?_, noEmptyLevels_iff.mp hne symbol⟩
  rw [getOrCreateBook_onMessage]
  split
  · rename_i hs
    subst hs
    have happly := (h msg.symbol).1.apply hfit
    rw [overwrittenVolume_eq_zero hfresh, add_zero] at happly
    exact happly
  · exact (h symbol).1

/-- On messages that introduce fresh IDs and wrap no level, whatever their volumes: no
level is empty in any state reached, and no message that names a live order counts a
failure, exactly when every message is backed. -/
theorem along_backed_iff {msgs : List (Payload P)}
    (hfresh : Runs.Along onMessage Fresh {} msgs)
    (hfit : Runs.Along onMessage Fits {} msgs) :
    ((∀ before, before <+: msgs → (run before).NoEmptyLevels)
        ∧ ∀ before msg after, msgs = before ++ msg :: after →
          (run before).LiveTargetFound msg)
      ↔ Runs.Along onMessage Backed {} msgs := by
  have hlevels : (∀ before, before <+: msgs → (run before).NoEmptyLevels)
      ↔ Runs.Along onMessage (fun ob msg => (ob.onMessage msg).NoEmptyLevels) {} msgs :=
    Runs.forall_prefix_iff_along (fun _ _ _ => Iff.rfl)
      (noEmptyLevels_iff.mpr fun symbol => (clean_empty symbol).2)
  have hfound : (∀ before msg after, msgs = before ++ msg :: after →
        (run before).LiveTargetFound msg)
      ↔ Runs.Along onMessage LiveTargetFound {} msgs := Runs.along_iff_forall_append.symm
  rw [hlevels, hfound, ← Runs.along_and]
  refine Runs.along_iff_of_step ?_ ?_ clean_empty (Runs.along_and.mpr ⟨hfresh, hfit⟩)
  · intro ob msg hclean hadm
    exact hclean.onMessage_iff hadm.2
  · intro ob msg hclean hadm hok
    exact hclean.onMessage hadm.1 hadm.2 hok.1

end OrderBook

/-! ## The source's level maps -/

namespace KeyedBook

/-- No entry of a level map is zero, and the best bid and ask have volume: no price that
has volume is better. -/
structure NoEmptyLevels (lt : P → P → Bool) (books : Str → KeyedBook P) : Prop where
  level : ∀ symbol bid, ∀ e ∈ (books symbol).levels bid, e.2 ≠ 0
  bestBid : ∀ symbol top, (books symbol).topOfBook.bestBid = some top →
    0 < top.aggregateVolume ∧ ∀ e ∈ (books symbol).bidLevels, 0 < e.2 → lt top.price e.1 = false
  bestAsk : ∀ symbol top, (books symbol).topOfBook.bestAsk = some top →
    0 < top.aggregateVolume ∧ ∀ e ∈ (books symbol).askLevels, 0 < e.2 → lt e.1 top.price = false

/-- A Modify, Delete, Execution or Replace of a live order counts no failure. -/
def LiveTargetFound (lt : P → P → Bool) (before : List (Payload P)) (msg : Payload P) : Prop :=
  (targetOrder msg).any (run lt before msg.symbol).orders.contains = true →
    failures lt (before ++ [msg]) = failures lt before

theorem noEmptyLevels_run_iff {lt : P → P → Bool} {s : Set P}
    (hlt : ∀ x ∈ s, ∀ y ∈ s, lt x y = decide (x < y)) {msgs : List (Payload P)}
    (hmsgs : ∀ msg ∈ msgs, ∀ price ∈ displayedPrice? msg, price ∈ s) :
    NoEmptyLevels lt (run lt msgs) ↔ (OrderBook.run msgs).NoEmptyLevels := by
  have hview := run_eq_view hlt hmsgs
  have hkeys := fun symbol =>
    (run_simulates (ComparatorMap.separating_of_eq_decide hlt) hmsgs symbol).keys
  constructor
  · refine fun h => OrderBook.noEmptyLevels_iff.mpr fun symbol bid price hempty => ?_
    refine h.level symbol bid (price, 0) ?_ rfl
    rw [hview]
    exact SymbolBook.mem_levels_view.mpr hempty
  · intro h
    have hbest : ∀ symbol bid top,
        ((OrderBook.run msgs).getOrCreateBook symbol).best bid = some top → top.price ∈ s :=
      fun symbol bid top htop => hkeys symbol bid _ _ (SymbolBook.best_eq_some htop).1
    refine ⟨fun symbol bid e he => ?_, fun symbol top htop => ?_, fun symbol top htop => ?_⟩
    · rw [hview] at he
      have hl := SymbolBook.mem_levels_view.mp he
      exact fun hzero => h.level symbol bid e.1 (by rw [hl, hzero])
    · rw [hview, SymbolBook.topOfBook_view] at htop
      obtain ⟨hpos, hle⟩ := h.bestBid symbol top (by rw [OrderBook.getTopOfBook_eq, htop])
      refine ⟨hpos, fun e he hvolume => ?_⟩
      rw [hview] at he
      have hl : SymbolBook.level _ true e.1 = some e.2 := SymbolBook.mem_levels_view.mp he
      rw [hlt _ (hbest symbol true top htop) _ (hkeys symbol true _ _ hl)]
      exact decide_eq_false (hle e.1 e.2 hl hvolume).not_gt
    · rw [hview, SymbolBook.topOfBook_view] at htop
      obtain ⟨hpos, hle⟩ := h.bestAsk symbol top (by rw [OrderBook.getTopOfBook_eq, htop])
      refine ⟨hpos, fun e he hvolume => ?_⟩
      rw [hview] at he
      have hl : SymbolBook.level _ false e.1 = some e.2 := SymbolBook.mem_levels_view.mp he
      rw [hlt _ (hkeys symbol false _ _ hl) _ (hbest symbol false top htop)]
      exact decide_eq_false (hle e.1 e.2 hl hvolume).not_gt

/-- **When no empty level survives.** On messages that display no NaN, introduce fresh IDs
and wrap no level, whatever their volumes: no level is empty in any state reached, and no
message that names a live order counts a failure, exactly when every message is backed. -/
theorem noEmptyLevels_iff_backed {R : Type*} [LinearOrder R] {msgs : List (Payload (Value R))}
    (hnan : NoNan msgs)
    (hfresh : AlongKeyed Value.lt (fun book msg => overwrites book.orders.contains msg = false)
      msgs)
    (hfit : AlongKeyed Value.lt (Fits Value.lt) msgs) :
    ((∀ before, before <+: msgs → NoEmptyLevels Value.lt (run Value.lt before))
        ∧ ∀ before msg after, msgs = before ++ msg :: after →
          LiveTargetFound Value.lt before msg)
      ↔ AlongKeyed Value.lt (fun book msg => Backed book.orders msg) msgs := by
  have hlt := Value.lt_eq_decide_of_ne_nan (R := R)
  have hsub : ∀ before, before <+: msgs → NoNan before :=
    fun before hb msg hm => hnan msg (hb.subset hm)
  rw [along_fits_iff hlt hnan] at hfit
  rw [alongKeyed_iff hlt hnan] at hfresh ⊢
  refine Iff.trans (and_congr ?_ ?_) (OrderBook.along_backed_iff hfresh hfit)
  · exact forall₂_congr fun before hb => noEmptyLevels_run_iff hlt (hsub before hb)
  · refine forall₃_congr fun before msg after => forall_congr' fun hsplit => ?_
    have hbefore : NoNan before := hsub before (hsplit ▸ List.prefix_append ..)
    have hnext : NoNan (before ++ [msg]) :=
      hsub _ ⟨after, by rw [hsplit, List.append_assoc, List.singleton_append]⟩
    rw [LiveTargetFound, OrderBook.LiveTargetFound, run_eq_view hlt hbefore,
      failures_eq hlt hbefore, failures_eq hlt hnext, OrderBook.run_append_singleton]
    rfl

/-- Two bids at one price, the second of no volume; it is taken off again before the
first one is. -/
theorem noEmptyLevels_iff_backed_shared :
    let msgs : List (Payload (Value Nat)) :=
      [.addOrder ⟨0, [], 0, 1, .finite 10, 500, 'B'.toUInt8, []⟩,
        .addOrder ⟨0, [], 0, 2, .finite 10, 0, 'B'.toUInt8, []⟩,
        .deleteOrder ⟨0, [], 0, 2⟩, .deleteOrder ⟨0, [], 0, 1⟩]
    ∀ before, before <+: msgs → NoEmptyLevels Value.lt (run Value.lt before) := by
  intro msgs
  have hnan : NoNan msgs := by decide
  exact ((noEmptyLevels_iff_backed hnan (by decide) (by decide)).mpr (by decide)).1

/-- A bid of volume, and one of none at a better price. -/
def zeroVolumeBid : List (Payload (Value Nat)) :=
  [.addOrder ⟨0, [], 0, 1, .finite 10, 500, 'B'.toUInt8, []⟩,
    .addOrder ⟨0, [], 0, 2, .finite 11, 0, 'B'.toUInt8, []⟩]

/-- Two bids at one price, one of no volume; both are deleted, the one of volume first. -/
def zeroVolumeLeft : List (Payload (Value Nat)) :=
  [.addOrder ⟨0, [], 0, 1, .finite 10, 500, 'B'.toUInt8, []⟩,
    .addOrder ⟨0, [], 0, 2, .finite 10, 0, 'B'.toUInt8, []⟩,
    .deleteOrder ⟨0, [], 0, 1⟩]

/-- The best bid of the first is an empty level in front of one that has volume; in the
second the Delete of the live order that is left counts as a build failure. -/
theorem zeroVolume_surfaces :
    (AlongKeyed Value.lt (fun book msg => overwrites book.orders.contains msg = false)
        zeroVolumeBid
        ∧ AlongKeyed Value.lt (Fits Value.lt) zeroVolumeBid
        ∧ (run Value.lt zeroVolumeBid []).topOfBook.bestBid = some ⟨.finite 11, 0⟩
        ∧ ¬ NoEmptyLevels Value.lt (run Value.lt zeroVolumeBid))
      ∧ AlongKeyed Value.lt (fun book msg => overwrites book.orders.contains msg = false)
        (zeroVolumeLeft ++ [.deleteOrder ⟨0, [], 0, 2⟩])
      ∧ AlongKeyed Value.lt (Fits Value.lt) (zeroVolumeLeft ++ [.deleteOrder ⟨0, [], 0, 2⟩])
      ∧ ¬ LiveTargetFound Value.lt zeroVolumeLeft (.deleteOrder ⟨0, [], 0, 2⟩) := by
  refine ⟨⟨by decide, by decide, by decide, fun h => ?_⟩, by decide, by decide, fun h => ?_⟩
  · obtain ⟨hpos, -⟩ := h.bestBid [] ⟨.finite 11, 0⟩ (by decide)
    exact absurd hpos (by decide)
  · exact absurd (h (by decide)) (by decide)

end KeyedBook

end Mde
