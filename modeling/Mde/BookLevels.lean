import Mde.OrderBook

/-!
# Level accounting

What the level maps hold against what the live orders add up to, for
one symbol's book.

`levelVolume` is the volume stored at a side and price (zero when the
price is absent) and `restingVolume` the sum of the live orders there.
`Accounted book excess` says that the stored volume is the resting
volume plus `excess`, where `excess` is volume that no live order
accounts for. One lemma per primitive says how both sides move: taking
volume off a level, dropping an order, executing one, putting one. Only
putting an order over a live one adds excess.
-/

open Std OrderDual TreeSum

namespace Mde

open Messages

variable {P : Type*} [LinearOrder P]

def LiveOrder.volumeAt (order : LiveOrder P) (bid : Bool) (price : P) : Nat :=
  if isBid order.side = bid ∧ order.price = price then order.volume.toNat else 0

theorem LiveOrder.volumeAt_self (order : LiveOrder P) :
    order.volumeAt (isBid order.side) order.price = order.volume.toNat := by
  simp [volumeAt]

/-- The volume the orders of a table add up to at `(bid, price)`. -/
def volumeIn (orders : ExtTreeMap UInt64 (LiveOrder P)) (bid : Bool) (price : P) : Nat :=
  sumOver orders fun _ order => order.volumeAt bid price

def volumeUnder (orders : ExtTreeMap UInt64 (LiveOrder P)) (id : UInt64) (bid : Bool)
    (price : P) : Nat :=
  match orders[id]? with
  | none => 0
  | some order => order.volumeAt bid price

theorem volumeIn_erase {orders : ExtTreeMap UInt64 (LiveOrder P)} {id : UInt64}
    {order : LiveOrder P} (h : orders[id]? = some order) (bid : Bool) (price : P) :
    volumeIn orders bid price
      = order.volumeAt bid price + volumeIn (orders.erase id) bid price :=
  sumOver_eq_add_erase h _

/-- Writing an order over `id` replaces the volume of the order stored there. -/
theorem volumeIn_insert (orders : ExtTreeMap UInt64 (LiveOrder P)) (id : UInt64)
    (order : LiveOrder P) (bid : Bool) (price : P) :
    volumeIn (orders.insert id order) bid price + volumeUnder orders id bid price
      = order.volumeAt bid price + volumeIn orders bid price := by
  rw [volumeIn, sumOver_insert, volumeUnder]
  cases h : orders[id]? with
  | none => simp [volumeIn, erase_of_none h]
  | some old =>
      rw [volumeIn_erase h]
      simp only [volumeIn]
      omega

/-- The order table after `volume` of the live order `order` was executed. -/
def executedOrders (orders : ExtTreeMap UInt64 (LiveOrder P)) (id : UInt64)
    (order : LiveOrder P) (volume : UInt64) : ExtTreeMap UInt64 (LiveOrder P) :=
  if volume ≥ order.volume then orders.erase id
  else orders.insert id { order with volume := order.volume - volume }

/-- The part of an execution's volume that the level gives up. -/
def LiveOrder.executed (order : LiveOrder P) (volume : UInt64) : LiveOrder P :=
  { order with volume := if volume > order.volume then order.volume else volume }

omit [LinearOrder P] in
theorem executed_toNat_le (order : LiveOrder P) (volume : UInt64) :
    (order.executed volume).volume.toNat ≤ order.volume.toNat := by
  simp only [LiveOrder.executed]
  split
  · exact Nat.le_refl _
  · rename_i hgt
    exact UInt64.le_iff_toNat_le.mp (UInt64.not_lt.mp hgt)

omit [LinearOrder P] in
theorem executed_of_le {order : LiveOrder P} {volume : UInt64} (hle : order.volume ≤ volume) :
    order.executed volume = order := by
  rw [LiveOrder.executed]
  split
  · rfl
  · rename_i hgt
    rw [UInt64.le_antisymm (UInt64.not_lt.mp hgt) hle]

theorem volumeIn_executedOrders {orders : ExtTreeMap UInt64 (LiveOrder P)} {id : UInt64}
    {order : LiveOrder P} (h : orders[id]? = some order) (volume : UInt64) (bid : Bool)
    (price : P) :
    volumeIn (executedOrders orders id order volume) bid price
        + (order.executed volume).volumeAt bid price
      = volumeIn orders bid price := by
  by_cases hle : volume ≥ order.volume
  · rw [executedOrders, if_pos hle, executed_of_le hle, volumeIn_erase h bid price,
      Nat.add_comm]
  · have hlt : volume < order.volume := UInt64.not_le.mp hle
    have hins := volumeIn_insert orders id { order with volume := order.volume - volume }
      bid price
    have hsub : (order.volume - volume).toNat = order.volume.toNat - volume.toNat :=
      UInt64.toNat_sub_of_le _ _ (UInt64.le_of_lt hlt)
    have hltn := UInt64.lt_iff_toNat_lt.mp hlt
    rw [executedOrders, if_neg hle, LiveOrder.executed, if_neg (UInt64.lt_asymm hlt)]
    simp only [volumeUnder, h, LiveOrder.volumeAt, hsub] at hins ⊢
    by_cases hat : isBid order.side = bid ∧ order.price = price
    · simp only [if_pos hat] at hins ⊢
      omega
    · simp only [if_neg hat] at hins ⊢
      omega

/-! ## The level maps -/

namespace LevelMap

variable {K : Type*} [LinearOrder K]

theorem getElem?_add (levels : LevelMap K) (price q : K) (volume : UInt64) :
    (levels.add price volume)[q]?
      = if q = price then some ((levels[q]?).getD 0 + volume) else levels[q]? := by
  rw [add, TreeSum.getElem?_insert, ExtTreeMap.getD_eq_getD_getElem?]
  split
  · rename_i h; rw [h]
  · rfl

/-- What is left of a level that gives up `volume`: nothing changes when less
rests there, and a level that reaches zero is erased. -/
def shed (volume resting : UInt64) : Option UInt64 :=
  if resting < volume then some resting
  else if resting - volume = 0 then none else some (resting - volume)

theorem getElem?_remove (levels : LevelMap K) (price q : K) (volume : UInt64) :
    (levels.remove price volume).1[q]?
      = if q = price then (levels[q]?).bind (shed volume) else levels[q]? := by
  rw [remove]
  by_cases hq : q = price
  · subst hq
    rw [if_pos rfl]
    cases h : levels[q]? with
    | none => simp [h]
    | some resting =>
        simp only [shed, Option.bind_some]
        split
        · exact h
        · split
          · simp
          · simp
  · rw [if_neg hq]
    split
    · rfl
    · split
      · rfl
      · split
        · simp [TreeSum.getElem?_erase, hq]
        · simp [TreeSum.getElem?_insert, hq]

theorem snd_remove (levels : LevelMap K) (price : K) (volume : UInt64) :
    (levels.remove price volume).2 = (levels[price]?).any fun resting => !(resting < volume) := by
  rw [remove]
  cases levels[price]? with
  | none => rfl
  | some resting =>
      simp only [Option.any_some]
      split
      · rename_i h; simp [h]
      · rename_i h
        split <;> simp [h]

end LevelMap

/-! ## The displayed part of a book -/

@[ext] structure Display (P : Type*) [LinearOrder P] where
  orders : ExtTreeMap UInt64 (LiveOrder P)
  bidLevels : LevelMap Pᵒᵈ
  askLevels : LevelMap P

namespace SymbolBook

def display (book : SymbolBook P) : Display P :=
  ⟨book.orders, book.bidLevels, book.askLevels⟩

/-- The aggregate volume at a side and price; zero when the price is absent. -/
def levelVolume (book : SymbolBook P) (bid : Bool) (price : P) : Nat :=
  (book.level bid price).elim 0 UInt64.toNat

def restingVolume (book : SymbolBook P) (bid : Bool) (price : P) : Nat :=
  volumeIn book.orders bid price

def best (book : SymbolBook P) (bid : Bool) : Option (PriceLevel P) :=
  if bid then book.topOfBook.bestBid else book.topOfBook.bestAsk

/-- The top of a side is the stored level with the best price. -/
theorem best_eq_some {book : SymbolBook P} {bid : Bool} {top : PriceLevel P}
    (h : book.best bid = some top) :
    book.level bid top.price = some top.aggregateVolume
      ∧ ∀ price, (book.level bid price).isSome →
        if bid then price ≤ top.price else top.price ≤ price := by
  cases bid with
  | true =>
      simp only [best, topOfBook, if_true, Option.map_eq_some_iff] at h
      obtain ⟨⟨q, resting⟩, hhead, rfl⟩ := h
      obtain ⟨hq, hle⟩ := head?_toList_eq_some_iff_le.mp hhead
      refine ⟨by simpa [level] using hq, ?_⟩
      intro price hprice
      simp only [level, if_true] at hprice
      obtain ⟨v, hv⟩ := Option.isSome_iff_exists.mp hprice
      exact hle _ _ hv
  | false =>
      simp only [best, topOfBook, Bool.false_eq_true, if_false, Option.map_eq_some_iff] at h
      obtain ⟨⟨q, resting⟩, hhead, rfl⟩ := h
      obtain ⟨hq, hle⟩ := head?_toList_eq_some_iff_le.mp hhead
      refine ⟨by simpa [level] using hq, ?_⟩
      intro price hprice
      simp only [level, Bool.false_eq_true, if_false] at hprice
      obtain ⟨v, hv⟩ := Option.isSome_iff_exists.mp hprice
      exact hle _ _ hv

theorem best_eq_none_iff {book : SymbolBook P} {bid : Bool} :
    book.best bid = none ↔ ∀ price, book.level bid price = none := by
  cases bid with
  | true =>
      simp only [best, topOfBook, level, if_true, Option.map_eq_none_iff,
        head?_toList_eq_none_iff]
      exact ⟨fun h price => h (toDual price), fun h q => h (ofDual q)⟩
  | false =>
      simp only [best, topOfBook, level, Bool.false_eq_true, if_false,
        Option.map_eq_none_iff, head?_toList_eq_none_iff]

/-- The level maps hold the stored levels and nothing else. -/
theorem levels_ext {book book' : SymbolBook P}
    (h : ∀ bid price, book.level bid price = book'.level bid price) :
    book.bidLevels = book'.bidLevels ∧ book.askLevels = book'.askLevels :=
  ⟨ExtTreeMap.ext_getElem? fun q => by simpa [level] using h true (ofDual q),
    ExtTreeMap.ext_getElem? fun q => by simpa [level] using h false q⟩

theorem topOfBook_congr {book book' : SymbolBook P}
    (h : ∀ bid price, book.level bid price = book'.level bid price) :
    book.topOfBook = book'.topOfBook := by
  obtain ⟨hbid, hask⟩ := levels_ext h
  rw [topOfBook, topOfBook, hbid, hask]

/-! ### Frames of the level operations -/

section Frame

variable (book : SymbolBook P) (side : Byte) (price : P) (volume : UInt64)

theorem addLevel_frame : book.addLevel side price volume
    = { book with
        bidLevels := (book.addLevel side price volume).bidLevels
        askLevels := (book.addLevel side price volume).askLevels } := by
  unfold addLevel; split <;> rfl

theorem removeLevel_frame : (book.removeLevel side price volume).1
    = { book with
        bidLevels := (book.removeLevel side price volume).1.bidLevels
        askLevels := (book.removeLevel side price volume).1.askLevels } := by
  unfold removeLevel; split <;> rfl

@[simp] theorem addLevel_orders :
    (book.addLevel side price volume).orders = book.orders := by
  rw [addLevel_frame]

@[simp] theorem removeLevel_orders :
    (book.removeLevel side price volume).1.orders = book.orders := by
  rw [removeLevel_frame]

theorem level_addLevel (bid : Bool) (q : P) :
    (book.addLevel side price volume).level bid q
      = if bid = isBid side ∧ q = price then some ((book.level bid q).getD 0 + volume)
        else book.level bid q := by
  unfold addLevel level
  cases isBid side <;> cases bid <;>
    simp [LevelMap.getElem?_add]

theorem level_removeLevel (bid : Bool) (q : P) :
    (book.removeLevel side price volume).1.level bid q
      = if bid = isBid side ∧ q = price then (book.level bid q).bind (LevelMap.shed volume)
        else book.level bid q := by
  unfold removeLevel level
  cases isBid side <;> cases bid <;>
    simp [LevelMap.getElem?_remove]

/-- `RemoveLevel` returns `true` exactly when the price is present and holds at
least the volume asked for. -/
theorem snd_removeLevel :
    (book.removeLevel side price volume).2
      = (book.level (isBid side) price).any fun resting => !(resting < volume) := by
  unfold removeLevel level
  cases isBid side <;> simp [LevelMap.snd_remove]

end Frame

/-! ### Volume of the level operations -/

theorem levelVolume_lt (book : SymbolBook P) (bid : Bool) (q : P) :
    book.levelVolume bid q < 2 ^ 64 := by
  rw [levelVolume]
  cases book.level bid q with
  | none => simp
  | some resting => exact resting.toNat_lt

/-- Adding volume to a level wraps at `2 ^ 64`. -/
theorem levelVolume_addLevel_mod (book : SymbolBook P) (order : LiveOrder P) (bid : Bool)
    (q : P) :
    (book.addLevel order.side order.price order.volume).levelVolume bid q
      = (book.levelVolume bid q + order.volumeAt bid q) % 2 ^ 64 := by
  by_cases h : bid = isBid order.side ∧ q = order.price
  · obtain ⟨rfl, rfl⟩ := h
    rw [levelVolume, level_addLevel, if_pos ⟨rfl, rfl⟩, order.volumeAt_self, levelVolume]
    cases book.level (isBid order.side) order.price with
    | none => simp [Nat.mod_eq_of_lt order.volume.toNat_lt]
    | some resting => simp only [Option.elim_some, Option.getD_some, UInt64.toNat_add]
  · rw [levelVolume, level_addLevel, if_neg h, LiveOrder.volumeAt,
      if_neg fun hc => h ⟨hc.1.symm, hc.2.symm⟩, Nat.add_zero,
      Nat.mod_eq_of_lt (levelVolume_lt book bid q)]
    rfl

theorem levelVolume_addLevel (book : SymbolBook P) (order : LiveOrder P)
    (hfit : book.levelVolume (isBid order.side) order.price + order.volume.toNat < 2 ^ 64)
    (bid : Bool) (q : P) :
    (book.addLevel order.side order.price order.volume).levelVolume bid q
      = book.levelVolume bid q + order.volumeAt bid q := by
  rw [levelVolume_addLevel_mod, Nat.mod_eq_of_lt]
  rw [LiveOrder.volumeAt]
  split
  · rename_i h
    rw [← h.1, ← h.2]
    exact hfit
  · exact levelVolume_lt book bid q

theorem levelVolume_removeLevel (book : SymbolBook P) (order : LiveOrder P)
    (hle : order.volume.toNat ≤ book.levelVolume (isBid order.side) order.price)
    (bid : Bool) (q : P) :
    (book.removeLevel order.side order.price order.volume).1.levelVolume bid q
        + order.volumeAt bid q
      = book.levelVolume bid q := by
  rw [levelVolume, level_removeLevel]
  by_cases h : bid = isBid order.side ∧ q = order.price
  · obtain ⟨rfl, rfl⟩ := h
    rw [if_pos ⟨rfl, rfl⟩, order.volumeAt_self, levelVolume] at *
    cases hl : book.level (isBid order.side) order.price with
    | none => simpa [hl] using hle
    | some resting =>
        simp only [hl, Option.elim_some, Option.bind_some, LevelMap.shed] at hle ⊢
        have hnlt : ¬resting < order.volume := by
          rw [UInt64.lt_iff_toNat_lt]; omega
        have hsub : (resting - order.volume).toNat = resting.toNat - order.volume.toNat :=
          UInt64.toNat_sub_of_le _ _ (UInt64.le_iff_toNat_le.mpr hle)
        rw [if_neg hnlt]
        split
        · rename_i hz
          rw [hz] at hsub
          simp only [UInt64.toNat_zero] at hsub
          simp only [Option.elim_none]
          omega
        · simp only [Option.elim_some]
          omega
  · rw [if_neg h, LiveOrder.volumeAt, if_neg fun hc => h ⟨hc.1.symm, hc.2.symm⟩]
    rfl

/-! ### The accounting invariant -/

/-- Volume that a level holds and no live order accounts for. -/
abbrev Excess (P : Type*) := Bool → P → Nat

/-- Every level holds its live orders' volume plus the excess. -/
def Accounted (book : SymbolBook P) (excess : Excess P) : Prop :=
  ∀ bid price, book.levelVolume bid price
    = book.restingVolume bid price + excess bid price

def Agrees (book : SymbolBook P) : Prop :=
  ∀ bid price, book.levelVolume bid price = book.restingVolume bid price

theorem agrees_iff_accounted_zero {book : SymbolBook P} :
    book.Agrees ↔ book.Accounted 0 := Iff.rfl

theorem accounted_empty : ({} : SymbolBook P).Accounted 0 := by
  intro bid price
  have hl : ({} : SymbolBook P).level bid price = none := by
    unfold level; cases bid <;> simp
  rw [levelVolume, hl, restingVolume, volumeIn]
  simp

theorem Accounted.le_levelVolume {book : SymbolBook P} {excess : Excess P}
    (h : book.Accounted excess) {id : UInt64} {order : LiveOrder P}
    (ho : book.orders[id]? = some order) :
    order.volume.toNat ≤ book.levelVolume (isBid order.side) order.price := by
  have hle := le_sumOver ho fun _ o => o.volumeAt (isBid order.side) order.price
  rw [order.volumeAt_self] at hle
  rw [h, restingVolume, volumeIn]
  omega

/-- Taking off a level the volume by which the orders there shrink. -/
theorem Accounted.removeLevel {book : SymbolBook P} {excess : Excess P}
    (h : book.Accounted excess) (taken : LiveOrder P)
    (hle : taken.volume.toNat ≤ book.levelVolume (isBid taken.side) taken.price)
    {orders : ExtTreeMap UInt64 (LiveOrder P)}
    (horders : ∀ bid price, volumeIn orders bid price + taken.volumeAt bid price
      = volumeIn book.orders bid price) :
    ({ (book.removeLevel taken.side taken.price taken.volume).1 with orders } :
      SymbolBook P).Accounted excess := by
  intro bid price
  have hl := levelVolume_removeLevel book taken hle bid price
  have ho := horders bid price
  have ha := h bid price
  change (book.removeLevel taken.side taken.price taken.volume).1.levelVolume bid price
    = volumeIn orders bid price + excess bid price
  rw [restingVolume] at ha
  omega

theorem dropOrder_of_live {book : SymbolBook P} {id : UInt64} {order : LiveOrder P}
    (h : book.orders[id]? = some order) :
    book.dropOrder id
      = ({ (book.removeLevel order.side order.price order.volume).1 with
            orders := book.orders.erase id },
          .ofRemoved (book.removeLevel order.side order.price order.volume).2) := by
  simp only [dropOrder, h, removeLevel_orders]

theorem Accounted.dropOrder {book : SymbolBook P} {excess : Excess P}
    (h : book.Accounted excess) (id : UInt64) :
    (book.dropOrder id).1.Accounted excess := by
  cases ho : book.orders[id]? with
  | none =>
      simp only [SymbolBook.dropOrder, ho]
      exact h
  | some order =>
      rw [dropOrder_of_live ho]
      refine h.removeLevel order (h.le_levelVolume ho) ?_
      intro bid price
      rw [volumeIn_erase ho]
      omega

@[simp] theorem dropOrder_orders (book : SymbolBook P) (id : UInt64) :
    (book.dropOrder id).1.orders = book.orders.erase id := by
  unfold dropOrder
  cases ho : book.orders[id]? with
  | none => exact (erase_of_none ho).symm
  | some order => simp

@[simp] theorem putOrder_orders (book : SymbolBook P) (id : UInt64) (order : LiveOrder P) :
    (book.putOrder id order).orders = book.orders.insert id order := by
  simp [putOrder]

theorem level_putOrder (book : SymbolBook P) (id : UInt64) (order : LiveOrder P) (bid : Bool)
    (price : P) :
    (book.putOrder id order).level bid price
      = if bid = isBid order.side ∧ price = order.price
        then some ((book.level bid price).getD 0 + order.volume)
        else book.level bid price :=
  level_addLevel { book with orders := book.orders.insert id order } ..

theorem levelVolume_putOrder (book : SymbolBook P) (id : UInt64) {order : LiveOrder P}
    (hfit : book.levelVolume (isBid order.side) order.price + order.volume.toNat < 2 ^ 64)
    (bid : Bool) (price : P) :
    (book.putOrder id order).levelVolume bid price
      = book.levelVolume bid price + order.volumeAt bid price :=
  levelVolume_addLevel { book with orders := book.orders.insert id order } order hfit ..

/-- Putting an order under `id` turns the volume of the order stored there, if
any, into excess. -/
theorem Accounted.putOrder {book : SymbolBook P} {excess : Excess P}
    (h : book.Accounted excess) (id : UInt64) {order : LiveOrder P}
    (hfit : book.levelVolume (isBid order.side) order.price + order.volume.toNat < 2 ^ 64) :
    (book.putOrder id order).Accounted (excess + volumeUnder book.orders id) := by
  intro bid price
  have hi := volumeIn_insert book.orders id order bid price
  have ha := h bid price
  rw [levelVolume_putOrder book id hfit, restingVolume, putOrder_orders, Pi.add_apply,
    Pi.add_apply]
  rw [restingVolume] at ha
  omega

/-- Putting an order does not wrap its level when the total afterwards fits. -/
theorem Accounted.put_fits {book : SymbolBook P} {excess : Excess P}
    (h : book.Accounted excess) (id : UInt64) {order : LiveOrder P}
    (hfit : ∀ bid price, volumeIn (book.orders.insert id order) bid price
      + (excess + volumeUnder book.orders id) bid price < 2 ^ 64) :
    book.levelVolume (isBid order.side) order.price + order.volume.toNat < 2 ^ 64 := by
  have hf := hfit (isBid order.side) order.price
  have hi := volumeIn_insert book.orders id order (isBid order.side) order.price
  have ha := h (isBid order.side) order.price
  rw [order.volumeAt_self] at hi
  rw [restingVolume] at ha
  simp only [Pi.add_apply] at hf
  omega

theorem executeOrder_of_live {book : SymbolBook P} {id : UInt64} {order : LiveOrder P}
    (h : book.orders[id]? = some order) (volume : UInt64) :
    book.executeOrder id volume
      = ({ (book.removeLevel order.side order.price (order.executed volume).volume).1 with
            orders := executedOrders book.orders id order volume },
          .ofRemoved (book.removeLevel order.side order.price
            (order.executed volume).volume).2) := by
  simp only [executeOrder, h, executedOrders, removeLevel_orders, LiveOrder.executed]
  split <;> rfl

theorem Accounted.executeOrder {book : SymbolBook P} {excess : Excess P}
    (h : book.Accounted excess) (id volume : UInt64) :
    (book.executeOrder id volume).1.Accounted excess := by
  cases ho : book.orders[id]? with
  | none =>
      simp only [SymbolBook.executeOrder, ho]
      exact h
  | some order =>
      rw [executeOrder_of_live ho]
      exact h.removeLevel (order.executed volume)
        (Nat.le_trans (executed_toNat_le order volume) (h.le_levelVolume ho))
        (volumeIn_executedOrders ho volume)

/-- The accounts depend on the displayed part only. -/
theorem Accounted.congr {book book' : SymbolBook P} (hd : book'.display = book.display)
    {excess : Excess P} (h : book.Accounted excess) : book'.Accounted excess := by
  obtain ⟨ho, hb, ha⟩ := Display.mk.injEq .. |>.mp hd
  intro bid price
  simpa only [levelVolume, level, restingVolume, ho, hb, ha] using h bid price

end SymbolBook

/-! ## All symbols -/

/-- Two order books show the same: every level, the top of every book, and the two
counts. -/
structure SameDisplayed (ob ob' : OrderBook P) : Prop where
  level : ∀ symbol bid price,
    (ob.getOrCreateBook symbol).level bid price
      = (ob'.getOrCreateBook symbol).level bid price
  topOfBook : ∀ symbol, ob.getTopOfBook symbol = ob'.getTopOfBook symbol
  liveOrderCount : ob.getLiveOrderCount = ob'.getLiveOrderCount
  bookBuildFailures : ob.getBookBuildFailures = ob'.getBookBuildFailures

end Mde
