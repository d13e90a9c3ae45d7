import Mde.BookLevels

/-!
# What a message does to the displayed book

Handling an order message is two halves: it takes an order off the book
(`takeHalf`: drop, execute, or nothing) and then puts one (`putHalf`).
`apply_halves` says so of all fourteen handlers, and the invariants of
the displayed book are proved per half:

- the accounts (`Accounted.apply`), where the only message that adds
  excess is one that writes over a live order;
- no empty level (`NoEmptyLevel.apply`), needed for the presence of a
  price in its map and for what `RemoveLevel` returns.

`apply_bookBuild` splits the build-failure counter into its two causes,
an ID that is not live and a `RemoveLevel` that returns `false`.
-/

open Std OrderDual TreeSum

namespace Mde

open Messages

variable {P : Type*}

/-! ## The two halves -/

/-- The messages that drive the displayed book. -/
def isOrderMessage : Payload P → Bool
  | .addOrder _ => true
  | .modifyOrder _ => true
  | .deleteOrder _ => true
  | .orderExecution _ => true
  | .replaceOrder _ => true
  | .addOrderRefresh _ => true
  | _ => false

/-- The order a message puts, and the ID it puts it under. A Modify keeps the
side of the order it finds. -/
def putHalf (orders : ExtTreeMap UInt64 (LiveOrder P)) :
    Payload P → Option (UInt64 × LiveOrder P)
  | .addOrder msg => some (msg.orderId, ⟨msg.price, msg.volume, msg.side⟩)
  | .addOrderRefresh msg => some (msg.orderId, ⟨msg.price, msg.volume, msg.side⟩)
  | .replaceOrder msg => some (msg.newOrderId, ⟨msg.price, msg.volume, msg.side⟩)
  | .modifyOrder msg =>
    match orders[msg.orderId]? with
    | none => none
    | some order => some (msg.orderId, ⟨msg.price, msg.volume, order.side⟩)
  | _ => none

def takenOrders (orders : ExtTreeMap UInt64 (LiveOrder P)) :
    Payload P → ExtTreeMap UInt64 (LiveOrder P)
  | .modifyOrder msg => orders.erase msg.orderId
  | .deleteOrder msg => orders.erase msg.orderId
  | .replaceOrder msg => orders.erase msg.orderId
  | .orderExecution msg =>
    match orders[msg.orderId]? with
    | none => orders
    | some order => executedOrders orders msg.orderId order msg.volume
  | _ => orders

def nextOrders (orders : ExtTreeMap UInt64 (LiveOrder P)) (msg : Payload P) :
    ExtTreeMap UInt64 (LiveOrder P) :=
  match putHalf orders msg with
  | none => takenOrders orders msg
  | some put => (takenOrders orders msg).insert put.1 put.2

/-! ## Conditions on a message and the order table before it -/

/-- The order ID a Modify, Delete, Execution or Replace looks up. -/
def targetOrder : Payload P → Option UInt64
  | .modifyOrder msg => some msg.orderId
  | .deleteOrder msg => some msg.orderId
  | .orderExecution msg => some msg.orderId
  | .replaceOrder msg => some msg.orderId
  | _ => none

/-- A Modify, Delete, Execution or Replace of an order that is not live. -/
def misses (live : UInt64 → Bool) (msg : Payload P) : Bool :=
  (targetOrder msg).any fun id => !live id

/-- An Add, a Refresh or the new ID of a Replace names a live order. A Replace
may reuse the ID it replaces. -/
def overwrites (live : UInt64 → Bool) : Payload P → Bool
  | .addOrder msg => live msg.orderId
  | .addOrderRefresh msg => live msg.orderId
  | .replaceOrder msg => msg.newOrderId != msg.orderId && live msg.newOrderId
  | _ => false

/-- The volumes of Add, Refresh, Modify and Replace are positive. -/
def positive : Payload P → Bool
  | .addOrder msg => 0 < msg.volume
  | .addOrderRefresh msg => 0 < msg.volume
  | .modifyOrder msg => 0 < msg.volume
  | .replaceOrder msg => 0 < msg.volume
  | _ => true

/-- The call of `RemoveLevel` that handling a message makes, as an order with
the volume asked for. -/
def removal (orders : ExtTreeMap UInt64 (LiveOrder P)) : Payload P → Option (LiveOrder P)
  | .modifyOrder msg => orders[msg.orderId]?
  | .deleteOrder msg => orders[msg.orderId]?
  | .replaceOrder msg => orders[msg.orderId]?
  | .orderExecution msg =>
    match orders[msg.orderId]? with
    | none => none
    | some order => some (order.executed msg.volume)
  | _ => none

def OrdersPositive (orders : ExtTreeMap UInt64 (LiveOrder P)) : Prop :=
  ∀ (id : UInt64) (order : LiveOrder P), orders[id]? = some order → 0 < order.volume

theorem positive_putHalf {orders : ExtTreeMap UInt64 (LiveOrder P)} {msg : Payload P}
    (h : positive msg = true) {put : UInt64 × LiveOrder P}
    (hput : putHalf orders msg = some put) : 0 < put.2.volume := by
  cases msg with
  | addOrder msg =>
      obtain rfl := Option.some.inj hput
      simpa [positive] using h
  | addOrderRefresh msg =>
      obtain rfl := Option.some.inj hput
      simpa [positive] using h
  | replaceOrder msg =>
      obtain rfl := Option.some.inj hput
      simpa [positive] using h
  | modifyOrder msg =>
      simp only [putHalf] at hput
      split at hput
      · cases hput
      · obtain rfl := Option.some.inj hput
        simpa [positive] using h
  | _ => cases hput

theorem OrdersPositive.takenOrders {orders : ExtTreeMap UInt64 (LiveOrder P)}
    (h : OrdersPositive orders) (msg : Payload P) :
    OrdersPositive (takenOrders orders msg) := by
  have herase : ∀ id, OrdersPositive (orders.erase id) := by
    intro id id' order ho
    rw [TreeSum.getElem?_erase] at ho
    split at ho
    · cases ho
    · exact h _ _ ho
  cases msg with
  | modifyOrder msg => exact herase _
  | deleteOrder msg => exact herase _
  | replaceOrder msg => exact herase _
  | orderExecution msg =>
      simp only [Mde.takenOrders]
      split
      · exact h
      · unfold executedOrders
        split
        · exact herase _
        · rename_i order _ hlt
          intro id' order' ho
          rw [TreeSum.getElem?_insert] at ho
          split at ho
          · obtain rfl := Option.some.inj ho
            have hlt' : msg.volume < order.volume := UInt64.not_le.mp hlt
            have hsub := UInt64.toNat_sub_of_le _ _ (UInt64.le_of_lt hlt')
            rw [UInt64.lt_iff_toNat_lt] at hlt' ⊢
            simp only [UInt64.toNat_zero]
            omega
          · exact h _ _ ho
  | _ => exact h

theorem OrdersPositive.nextOrders {orders : ExtTreeMap UInt64 (LiveOrder P)}
    (h : OrdersPositive orders) {msg : Payload P} (hpos : positive msg = true) :
    OrdersPositive (nextOrders orders msg) := by
  unfold Mde.nextOrders
  cases hput : putHalf orders msg with
  | none => exact h.takenOrders msg
  | some put =>
      show OrdersPositive ((Mde.takenOrders orders msg).insert put.1 put.2)
      intro id order ho
      rw [TreeSum.getElem?_insert] at ho
      split at ho
      · obtain rfl := Option.some.inj ho
        exact positive_putHalf hpos hput
      · exact h.takenOrders msg _ _ ho

variable [LinearOrder P]

omit [LinearOrder P] in
/-- A removal asks for no more than some live order's volume, on that order's
level. -/
theorem removal_le {orders : ExtTreeMap UInt64 (LiveOrder P)} {msg : Payload P}
    {taken : LiveOrder P} (h : removal orders msg = some taken) :
    ∃ (id : UInt64) (order : LiveOrder P), orders[id]? = some order
      ∧ taken.side = order.side ∧ taken.price = order.price
      ∧ taken.volume.toNat ≤ order.volume.toNat := by
  cases msg with
  | modifyOrder msg => exact ⟨_, _, h, rfl, rfl, Nat.le_refl _⟩
  | deleteOrder msg => exact ⟨_, _, h, rfl, rfl, Nat.le_refl _⟩
  | replaceOrder msg => exact ⟨_, _, h, rfl, rfl, Nat.le_refl _⟩
  | orderExecution msg =>
      simp only [removal] at h
      split at h
      · cases h
      · rename_i order ho
        obtain rfl := Option.some.inj h
        exact ⟨_, _, ho, rfl, rfl, executed_toNat_le order msg.volume⟩
  | _ => cases h

omit [LinearOrder P] in
/-- A message that targets a live order makes a removal on that order's level, for no
more than its volume. -/
theorem removal_of_target {orders : ExtTreeMap UInt64 (LiveOrder P)} {msg : Payload P}
    {id : UInt64} (ht : targetOrder msg = some id) {order : LiveOrder P}
    (ho : orders[id]? = some order) :
    ∃ taken : LiveOrder P, removal orders msg = some taken
      ∧ taken.side = order.side ∧ taken.price = order.price
      ∧ taken.volume.toNat ≤ order.volume.toNat := by
  cases msg with
  | modifyOrder msg =>
      obtain rfl := Option.some.inj ht
      exact ⟨order, ho, rfl, rfl, Nat.le_refl _⟩
  | deleteOrder msg =>
      obtain rfl := Option.some.inj ht
      exact ⟨order, ho, rfl, rfl, Nat.le_refl _⟩
  | replaceOrder msg =>
      obtain rfl := Option.some.inj ht
      exact ⟨order, ho, rfl, rfl, Nat.le_refl _⟩
  | orderExecution msg =>
      obtain rfl := Option.some.inj ht
      refine ⟨order.executed msg.volume, ?_, rfl, rfl, executed_toNat_le order msg.volume⟩
      simp only [removal, ho]
  | _ => cases ht

omit [LinearOrder P] in
theorem misses_eq_false_of_removal {orders : ExtTreeMap UInt64 (LiveOrder P)} {msg : Payload P}
    {taken : LiveOrder P} (h : removal orders msg = some taken) :
    misses orders.contains msg = false := by
  have hlive : ∀ {id : UInt64} {order : LiveOrder P}, orders[id]? = some order →
      (!orders.contains id) = false := fun ho => by
    rw [ExtTreeMap.contains_eq_isSome_getElem?, ho]
    rfl
  cases msg with
  | modifyOrder msg => exact hlive h
  | deleteOrder msg => exact hlive h
  | replaceOrder msg => exact hlive h
  | orderExecution msg =>
      simp only [removal] at h
      split at h
      · cases h
      · rename_i order ho
        exact hlive ho
  | _ => cases h

def overwrittenVolume (orders : ExtTreeMap UInt64 (LiveOrder P)) (msg : Payload P) :
    SymbolBook.Excess P :=
  match putHalf orders msg with
  | none => 0
  | some put => volumeUnder (takenOrders orders msg) put.1

theorem overwrittenVolume_eq_zero {orders : ExtTreeMap UInt64 (LiveOrder P)}
    {msg : Payload P} (h : overwrites orders.contains msg = false) :
    overwrittenVolume orders msg = 0 := by
  have hnone : ∀ {m : ExtTreeMap UInt64 (LiveOrder P)} {id : UInt64},
      m.contains id = false → volumeUnder m id = 0 := fun {m id} hm => by
    funext bid price
    have hid : m[id]? = none := ExtTreeMap.getElem?_eq_none_of_contains_eq_false hm
    rw [volumeUnder, hid]
    rfl
  cases msg with
  | addOrder msg => exact hnone h
  | addOrderRefresh msg => exact hnone h
  | replaceOrder msg =>
      refine hnone ?_
      simp only [overwrites, Bool.and_eq_false_iff, bne_eq_false_iff_eq] at h
      rcases h with h | h
      · simp [takenOrders, h]
      · simp [takenOrders, h]
  | modifyOrder msg =>
      simp only [overwrittenVolume, putHalf]
      cases orders[msg.orderId]? with
      | none => rfl
      | some order => exact hnone (by simp [takenOrders])
  | _ => rfl

/-- Writing over a live order of positive volume leaves its volume behind. -/
theorem overwrittenVolume_ne_zero {orders : ExtTreeMap UInt64 (LiveOrder P)}
    (hpos : OrdersPositive orders) {msg : Payload P}
    (h : overwrites orders.contains msg = true) : overwrittenVolume orders msg ≠ 0 := by
  have hsome : ∀ {id : UInt64}, orders.contains id = true → volumeUnder orders id ≠ 0 := by
    intro id hid hz
    rw [ExtTreeMap.contains_eq_isSome_getElem?] at hid
    obtain ⟨order, ho⟩ := Option.isSome_iff_exists.mp hid
    have hv := congrFun (congrFun hz (isBid order.side)) order.price
    simp only [volumeUnder, ho, order.volumeAt_self, Pi.zero_apply] at hv
    have := UInt64.lt_iff_toNat_lt.mp (hpos _ _ ho)
    simp only [UInt64.toNat_zero] at this
    omega
  cases msg with
  | addOrder msg => exact hsome h
  | addOrderRefresh msg => exact hsome h
  | replaceOrder msg =>
      simp only [overwrites, Bool.and_eq_true, bne_iff_ne, ne_eq] at h
      have hunder : volumeUnder (orders.erase msg.orderId) msg.newOrderId
          = volumeUnder orders msg.newOrderId := by
        funext bid price
        rw [volumeUnder, volumeUnder, TreeSum.getElem?_erase, if_neg h.1]
      show volumeUnder (orders.erase msg.orderId) msg.newOrderId ≠ 0
      rw [hunder]
      exact hsome h.2
  | _ => cases h

namespace SymbolBook

def takeHalf (book : SymbolBook P) : Payload P → SymbolBook P × Failures
  | .modifyOrder msg => book.dropOrder msg.orderId
  | .deleteOrder msg => book.dropOrder msg.orderId
  | .replaceOrder msg => book.dropOrder msg.orderId
  | .orderExecution msg => book.executeOrder msg.orderId msg.volume
  | _ => (book, 0)

def putBack (book : SymbolBook P) : Option (UInt64 × LiveOrder P) → SymbolBook P
  | none => book
  | some put => book.putOrder put.1 put.2

/-! ### The operations see the displayed part only -/

theorem removeLevel_congr {book book' : SymbolBook P} (h : book.display = book'.display)
    (side : Byte) (price : P) (volume : UInt64) :
    (book.removeLevel side price volume).1.display
        = (book'.removeLevel side price volume).1.display
      ∧ (book.removeLevel side price volume).2
        = (book'.removeLevel side price volume).2 := by
  obtain ⟨ho, hb, ha⟩ := Display.mk.injEq .. |>.mp h
  unfold removeLevel display
  split <;> simp [ho, hb, ha]

theorem putOrder_congr {book book' : SymbolBook P} (h : book.display = book'.display)
    (id : UInt64) (order : LiveOrder P) :
    (book.putOrder id order).display = (book'.putOrder id order).display := by
  obtain ⟨ho, hb, ha⟩ := Display.mk.injEq .. |>.mp h
  unfold putOrder addLevel display
  split <;> simp [ho, hb, ha]

theorem dropOrder_congr {book book' : SymbolBook P} (h : book.display = book'.display)
    (id : UInt64) :
    (book.dropOrder id).1.display = (book'.dropOrder id).1.display
      ∧ (book.dropOrder id).2 = (book'.dropOrder id).2 := by
  have ho : book.orders = book'.orders := congrArg Display.orders h
  unfold dropOrder
  rw [ho]
  cases book'.orders[id]? with
  | none => exact ⟨h, rfl⟩
  | some order =>
      obtain ⟨hd, hok⟩ := removeLevel_congr h order.side order.price order.volume
      obtain ⟨-, hb, ha⟩ := Display.mk.injEq .. |>.mp hd
      simp [display, hb, ha, ho, hok]

theorem executeOrder_congr {book book' : SymbolBook P} (h : book.display = book'.display)
    (id volume : UInt64) :
    (book.executeOrder id volume).1.display = (book'.executeOrder id volume).1.display
      ∧ (book.executeOrder id volume).2 = (book'.executeOrder id volume).2 := by
  have ho : book.orders = book'.orders := congrArg Display.orders h
  cases hid : book'.orders[id]? with
  | none =>
      simp only [executeOrder, ho, hid]
      exact ⟨h, trivial⟩
  | some order =>
      rw [executeOrder_of_live (ho ▸ hid), executeOrder_of_live hid]
      obtain ⟨hd, hok⟩ := removeLevel_congr h order.side order.price
        (order.executed volume).volume
      obtain ⟨-, hb, ha⟩ := Display.mk.injEq .. |>.mp hd
      simp [display, hb, ha, ho, hok]

/-- **The inversion lemma.** On the displayed part, handling a message is its two
halves; the second never fails. -/
theorem apply_halves (book : SymbolBook P) (msg : Payload P) :
    (book.apply msg).1.display
        = ((book.takeHalf msg).1.putBack (putHalf book.orders msg)).display
      ∧ (book.apply msg).2.bookBuild = (book.takeHalf msg).2.bookBuild := by
  cases msg with
  | modifyOrder msg =>
      simp only [apply, takeHalf, putHalf, applyModifyOrder, dropOrder]
      cases h : book.orders[msg.orderId]? with
      | none => exact ⟨rfl, rfl⟩
      | some order =>
          refine ⟨?_, rfl⟩
          simp only [putBack, putOrder, removeLevel_orders, insert_erase]
  | orderExecution msg =>
      have hlog : (book.logTrade msg.tradeId msg.price msg.volume).display = book.display :=
        rfl
      obtain ⟨hd, hf⟩ := executeOrder_congr hlog msg.orderId msg.volume
      exact ⟨hd, congrArg Failures.bookBuild hf⟩
  | securityStatus msg =>
      simp only [apply, applySecurityStatus]
      split
      · exact ⟨rfl, rfl⟩
      · split <;> exact ⟨rfl, rfl⟩
  | tradeCancel msg =>
      simp only [apply, applyTradeCancel]
      split
      · exact ⟨rfl, rfl⟩
      · split <;> exact ⟨rfl, rfl⟩
  | crossCorrection msg =>
      simp only [apply, applyCrossCorrection]
      split
      · exact ⟨rfl, rfl⟩
      · split <;> exact ⟨rfl, rfl⟩
  | _ => exact ⟨rfl, rfl⟩

theorem takeHalf_orders (book : SymbolBook P) (msg : Payload P) :
    (book.takeHalf msg).1.orders = takenOrders book.orders msg := by
  cases msg with
  | modifyOrder msg => exact dropOrder_orders ..
  | deleteOrder msg => exact dropOrder_orders ..
  | replaceOrder msg => exact dropOrder_orders ..
  | orderExecution msg =>
      simp only [takeHalf, takenOrders]
      cases h : book.orders[msg.orderId]? with
      | none => simp [executeOrder, h]
      | some order => rw [executeOrder_of_live h]
  | _ => rfl

/-- The first half is the call of `RemoveLevel` and what it does to the order table. -/
theorem takeHalf_eq (book : SymbolBook P) (msg : Payload P) :
    (book.takeHalf msg).1
      = match removal book.orders msg with
        | none => book
        | some taken =>
          { (book.removeLevel taken.side taken.price taken.volume).1 with
            orders := takenOrders book.orders msg } := by
  have hdrop : ∀ id : UInt64, (book.dropOrder id).1
      = match book.orders[id]? with
        | none => book
        | some taken =>
          { (book.removeLevel taken.side taken.price taken.volume).1 with
            orders := book.orders.erase id } := by
    intro id
    cases ho : book.orders[id]? with
    | none => simp only [dropOrder, ho]
    | some order => rw [dropOrder_of_live ho]
  cases msg with
  | modifyOrder msg => exact hdrop _
  | deleteOrder msg => exact hdrop _
  | replaceOrder msg => exact hdrop _
  | orderExecution msg =>
      simp only [takeHalf, removal, takenOrders]
      cases ho : book.orders[msg.orderId]? with
      | none => simp only [executeOrder, ho]
      | some order => rw [executeOrder_of_live ho]; rfl
  | _ => rfl

theorem apply_orders (book : SymbolBook P) (msg : Payload P) :
    (book.apply msg).1.orders = nextOrders book.orders msg := by
  rw [show (book.apply msg).1.orders = _ from
    congrArg Display.orders (apply_halves book msg).1, nextOrders, ← takeHalf_orders]
  cases putHalf book.orders msg with
  | none => rfl
  | some put => exact putOrder_orders ..

/-- Every other message leaves the displayed part and the build-failure counter
alone. -/
theorem apply_display_frame (book : SymbolBook P) {msg : Payload P}
    (h : isOrderMessage msg = false) :
    (book.apply msg).1.display = book.display ∧ (book.apply msg).2.bookBuild = 0 := by
  obtain ⟨hd, hf⟩ := apply_halves book msg
  rw [hd, hf]
  cases msg <;> first | exact ⟨rfl, rfl⟩ | cases h

/-- The displayed part after a message depends on the displayed part only. -/
theorem apply_display_congr {book book' : SymbolBook P}
    (h : book.display = book'.display) (msg : Payload P) :
    (book.apply msg).1.display = (book'.apply msg).1.display
      ∧ (book.apply msg).2.bookBuild = (book'.apply msg).2.bookBuild := by
  have htake : (book.takeHalf msg).1.display = (book'.takeHalf msg).1.display
      ∧ (book.takeHalf msg).2 = (book'.takeHalf msg).2 := by
    cases msg with
    | modifyOrder msg => exact dropOrder_congr h _
    | deleteOrder msg => exact dropOrder_congr h _
    | replaceOrder msg => exact dropOrder_congr h _
    | orderExecution msg => exact executeOrder_congr h _ _
    | _ => exact ⟨h, rfl⟩
  obtain ⟨hd, hf⟩ := apply_halves book msg
  obtain ⟨hd', hf'⟩ := apply_halves book' msg
  rw [hd, hd', hf, hf', htake.2, show book.orders = book'.orders from
    congrArg Display.orders h]
  refine ⟨?_, rfl⟩
  cases putHalf book'.orders msg with
  | none => exact htake.1
  | some put => exact putOrder_congr htake.1 _ _

/-! ### The accounts -/

theorem Accounted.takeHalf {book : SymbolBook P} {excess : Excess P}
    (h : book.Accounted excess) (msg : Payload P) :
    (book.takeHalf msg).1.Accounted excess := by
  cases msg with
  | modifyOrder msg => exact h.dropOrder _
  | deleteOrder msg => exact h.dropOrder _
  | replaceOrder msg => exact h.dropOrder _
  | orderExecution msg => exact h.executeOrder _ _
  | _ => exact h

/-- `AddLevel` does not wrap: the level a message puts volume on stays below
`2 ^ 64`. -/
def fits (book : SymbolBook P) (msg : Payload P) : Bool :=
  (putHalf book.orders msg).all fun put =>
    (book.takeHalf msg).1.levelVolume (isBid put.2.side) put.2.price + put.2.volume.toNat
      < 2 ^ 64

theorem fits_put {book : SymbolBook P} {msg : Payload P} (h : book.fits msg = true)
    {put : UInt64 × LiveOrder P} (hput : putHalf book.orders msg = some put) :
    (book.takeHalf msg).1.levelVolume (isBid put.2.side) put.2.price + put.2.volume.toNat
      < 2 ^ 64 := by
  rw [fits, hput] at h
  exact of_decide_eq_true h

/-- **The accounting step.** A message keeps the accounts, with the volume of
the order it writes over as new excess, as long as no level reaches `2 ^ 64`. -/
theorem Accounted.apply {book : SymbolBook P} {excess : Excess P}
    (h : book.Accounted excess) {msg : Payload P} (hfit : book.fits msg = true) :
    (book.apply msg).1.Accounted (excess + overwrittenVolume book.orders msg) := by
  refine Accounted.congr (apply_halves book msg).1 ?_
  have htake := h.takeHalf msg
  unfold overwrittenVolume
  cases hput : putHalf book.orders msg with
  | none => exact htake
  | some put =>
      simp only [← takeHalf_orders]
      exact htake.putOrder put.1 (fits_put hfit hput)

/-- When the levels agree with the live orders, a message fits as soon as the
live orders afterwards do. -/
theorem Agrees.fits {book : SymbolBook P} (h : book.Agrees) {msg : Payload P}
    (hfresh : overwrites book.orders.contains msg = false)
    (hfit : ∀ bid price, volumeIn (nextOrders book.orders msg) bid price < 2 ^ 64) :
    book.fits msg = true := by
  rw [SymbolBook.fits, Option.all_eq_true]
  intro put hput
  have hover := overwrittenVolume_eq_zero hfresh
  simp only [overwrittenVolume, nextOrders, hput, ← takeHalf_orders] at hover hfit
  have htake := (agrees_iff_accounted_zero.mp h).takeHalf msg
  refine decide_eq_true (htake.put_fits put.1 ?_)
  rw [hover]
  exact hfit

/-! ### No empty level -/

def NoEmptyLevel (book : SymbolBook P) : Prop :=
  ∀ bid price, book.level bid price ≠ some 0

theorem NoEmptyLevel.isSome_level_iff {book : SymbolBook P} (h : book.NoEmptyLevel)
    (bid : Bool) (price : P) :
    (book.level bid price).isSome ↔ 0 < book.levelVolume bid price := by
  rw [levelVolume]
  cases hl : book.level bid price with
  | none => simp
  | some resting =>
      refine iff_of_true rfl ?_
      show 0 < resting.toNat
      refine Nat.pos_of_ne_zero fun hz => h bid price ?_
      rw [hl, UInt64.toNat_inj.mp (hz.trans UInt64.toNat_zero.symm)]

theorem NoEmptyLevel.congr {book book' : SymbolBook P} (hd : book'.display = book.display)
    (h : book.NoEmptyLevel) : book'.NoEmptyLevel := by
  obtain ⟨-, hb, ha⟩ := Display.mk.injEq .. |>.mp hd
  intro bid price
  simpa only [level, hb, ha] using h bid price

theorem NoEmptyLevel.removeLevel {book : SymbolBook P} (h : book.NoEmptyLevel)
    (side : Byte) (price : P) (volume : UInt64) :
    (book.removeLevel side price volume).1.NoEmptyLevel := by
  intro bid q
  rw [level_removeLevel]
  split
  · cases hl : book.level bid q with
    | none => simp
    | some resting =>
        have hne : resting ≠ 0 := fun hz => h bid q (by rw [hl, hz])
        simp only [Option.bind_some, LevelMap.shed]
        split
        · simpa using hne
        · split
          · simp
          · simpa
  · exact h bid q

theorem NoEmptyLevel.takeHalf {book : SymbolBook P} (h : book.NoEmptyLevel)
    (msg : Payload P) : (book.takeHalf msg).1.NoEmptyLevel := by
  rw [takeHalf_eq]
  split
  · exact h
  · exact h.removeLevel _ _ _

theorem NoEmptyLevel.putOrder {book : SymbolBook P} (h : book.NoEmptyLevel) (id : UInt64)
    {order : LiveOrder P} (hpos : 0 < order.volume)
    (hfit : book.levelVolume (isBid order.side) order.price + order.volume.toNat < 2 ^ 64) :
    (book.putOrder id order).NoEmptyLevel := by
  intro bid q hz
  have hv := levelVolume_putOrder book id hfit bid q
  have hz' : (book.putOrder id order).levelVolume bid q = 0 := by simp [levelVolume, hz]
  rw [hz'] at hv
  rw [level_putOrder] at hz
  have hpos' := UInt64.lt_iff_toNat_lt.mp hpos
  split at hz
  · rename_i hat
    obtain ⟨rfl, rfl⟩ := hat
    rw [order.volumeAt_self] at hv
    simp only [UInt64.toNat_zero] at hpos'
    omega
  · exact h bid q hz

theorem NoEmptyLevel.apply {book : SymbolBook P} (h : book.NoEmptyLevel)
    {msg : Payload P} (hpos : positive msg = true) (hfit : book.fits msg = true) :
    (book.apply msg).1.NoEmptyLevel := by
  refine NoEmptyLevel.congr (apply_halves book msg).1 ?_
  have htake := h.takeHalf msg
  cases hput : putHalf book.orders msg with
  | none => exact htake
  | some put => exact htake.putOrder _ (positive_putHalf hpos hput) (fits_put hfit hput)

/-! ### Build failures -/

/-- The build-failure counter goes up for an ID that is not live, and for a
`RemoveLevel` that returns `false`. -/
theorem apply_bookBuild (book : SymbolBook P) (msg : Payload P) :
    (book.apply msg).2.bookBuild
      = (misses book.orders.contains msg).toNat
        + match removal book.orders msg with
          | none => 0
          | some taken =>
            if (book.removeLevel taken.side taken.price taken.volume).2 then 0 else 1 := by
  have hcontains : ∀ id, book.orders.contains id = (book.orders[id]?).isSome := fun id =>
    ExtTreeMap.contains_eq_isSome_getElem?
  have hdrop : ∀ id, (book.dropOrder id).2.bookBuild
      = (!book.orders.contains id).toNat
        + match book.orders[id]? with
          | none => 0
          | some order =>
            if (book.removeLevel order.side order.price order.volume).2 then 0 else 1 :=
    fun id => by
      rw [hcontains, dropOrder]
      cases book.orders[id]? with
      | none => rfl
      | some order => simp [Failures.ofRemoved]
  rw [(apply_halves book msg).2]
  cases msg with
  | modifyOrder msg => exact hdrop _
  | deleteOrder msg => exact hdrop _
  | replaceOrder msg => exact hdrop _
  | orderExecution msg =>
      simp only [takeHalf, misses, targetOrder, removal, Option.any_some, hcontains]
      cases ho : book.orders[msg.orderId]? with
      | none => simp [executeOrder, ho]
      | some order =>
          simp only [executeOrder_of_live ho, Failures.ofRemoved]
          simp [LiveOrder.executed]
  | _ => rfl

/-- When the levels hold the live orders' volume, the handlers ask no level for more
than it holds. -/
theorem Accounted.removal_le_levelVolume {book : SymbolBook P} {excess : Excess P}
    (h : book.Accounted excess) {msg : Payload P} {taken : LiveOrder P}
    (ht : removal book.orders msg = some taken) :
    taken.volume.toNat ≤ book.levelVolume (isBid taken.side) taken.price := by
  obtain ⟨id, order, ho, hside, hprice, hle⟩ := removal_le ht
  rw [hside, hprice]
  exact Nat.le_trans hle (h.le_levelVolume ho)

/-- When the levels hold the live orders' volume and every live order has some,
`RemoveLevel` returns `true` on the calls the handlers make. -/
theorem Accounted.removal_ok {book : SymbolBook P} {excess : Excess P}
    (h : book.Accounted excess) (hpos : OrdersPositive book.orders) {msg : Payload P}
    {taken : LiveOrder P} (ht : removal book.orders msg = some taken) :
    (book.removeLevel taken.side taken.price taken.volume).2 = true := by
  obtain ⟨id, order, ho, hside, hprice, hle⟩ := removal_le ht
  have hlevel := h.le_levelVolume ho
  have hvol := UInt64.lt_iff_toNat_lt.mp (hpos _ _ ho)
  rw [snd_removeLevel, hside, hprice]
  rw [levelVolume] at hlevel
  cases hl : book.level (isBid order.side) order.price with
  | none =>
      rw [hl] at hlevel
      simp only [Option.elim_none, UInt64.toNat_zero] at hlevel hvol
      omega
  | some resting =>
      simp only [hl, Option.elim_some] at hlevel
      simp only [Option.any_some, Bool.not_eq_true', decide_eq_false_iff_not,
        UInt64.lt_iff_toNat_lt]
      omega

/-- On such a book only an ID that is not live counts as a build failure. -/
theorem Accounted.bookBuild_eq {book : SymbolBook P} {excess : Excess P}
    (h : book.Accounted excess) (hpos : OrdersPositive book.orders) (msg : Payload P) :
    (book.apply msg).2.bookBuild = (misses book.orders.contains msg).toNat := by
  rw [apply_bookBuild]
  cases ht : removal book.orders msg with
  | none => rfl
  | some taken => simp only [h.removal_ok hpos ht, if_true, Nat.add_zero]

/-! ### The invariant of the displayed book -/

/-- What every reachable book satisfies, as long as volumes are positive and no
level wraps. -/
structure Sound (book : SymbolBook P) (excess : Excess P) : Prop where
  accounted : book.Accounted excess
  noEmptyLevel : book.NoEmptyLevel
  ordersPositive : OrdersPositive book.orders

theorem sound_empty : ({} : SymbolBook P).Sound 0 where
  accounted := accounted_empty
  noEmptyLevel := fun bid price => by unfold level; cases bid <;> simp
  ordersPositive := fun id order h => by simp at h

theorem Sound.apply {book : SymbolBook P} {excess : Excess P} (h : book.Sound excess)
    {msg : Payload P} (hpos : positive msg = true) (hfit : book.fits msg = true) :
    (book.apply msg).1.Sound (excess + overwrittenVolume book.orders msg) where
  accounted := h.accounted.apply hfit
  noEmptyLevel := h.noEmptyLevel.apply hpos hfit
  ordersPositive := by
    rw [apply_orders]
    exact h.ordersPositive.nextOrders hpos

theorem Sound.isSome_level_iff {book : SymbolBook P} (h : book.Sound 0) (bid : Bool)
    (price : P) :
    (book.level bid price).isSome ↔ ∃ (id : UInt64) (order : LiveOrder P),
      book.orders[id]? = some order ∧ isBid order.side = bid ∧ order.price = price := by
  have hacc : book.levelVolume bid price = volumeIn book.orders bid price :=
    h.accounted bid price
  rw [h.noEmptyLevel.isSome_level_iff, hacc, Nat.pos_iff_ne_zero, volumeIn, Ne,
    sumOver_eq_zero_iff]
  constructor
  · intro hne
    obtain ⟨id, order, ho, hv⟩ : ∃ (id : UInt64) (order : LiveOrder P),
        book.orders[id]? = some order ∧ order.volumeAt bid price ≠ 0 := by
      simpa using hne
    rw [LiveOrder.volumeAt] at hv
    obtain ⟨hside, hprice⟩ : isBid order.side = bid ∧ order.price = price := by
      by_contra hn
      exact hv (if_neg hn)
    exact ⟨id, order, ho, hside, hprice⟩
  · rintro ⟨id, order, ho, rfl, rfl⟩ hzero
    have hvol := UInt64.lt_iff_toNat_lt.mp (h.ordersPositive _ _ ho)
    rw [← order.volumeAt_self, hzero id order ho] at hvol
    exact Nat.lt_irrefl _ hvol

end SymbolBook

end Mde
