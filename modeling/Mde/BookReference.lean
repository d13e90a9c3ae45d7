import Mde.BookSteps
import Mde.Runs

/-!
# The displayed book against a reference

What the displayed book is for: a reference that keeps only the live
orders, in one map from symbol and order ID, and no levels at all.

- `RefBook.step` is the reference's own account of the six order
  messages, `RefBook.total` and `RefBook.IsBest` what it takes the
  levels and the top of the book to be.
- `run_orders` relates the two order tables: they agree after any
  messages, whatever IDs are reused.
- `run_refines` is the refinement: on admissible messages (fresh IDs,
  positive volumes, totals below `2 ^ 64`) the levels, the top of the
  book, the live-order count and the build-failure counter are those of
  the reference.
-/

open Std OrderDual TreeSum

namespace Mde

open Messages

variable {P : Type*}

/-! ## The reference -/

/-- Symbol first, then order ID. -/
instance : Ord (Str × UInt64) := lexOrd

abbrev RefBook (P : Type*) := ExtTreeMap (Str × UInt64) (LiveOrder P)

namespace RefBook

def live (ref : RefBook P) (symbol : Str) (id : UInt64) : Bool := ref.contains (symbol, id)

def step (ref : RefBook P) : Payload P → RefBook P
  | .addOrder msg =>
    ref.insert (msg.symbol, msg.orderId) ⟨msg.price, msg.volume, msg.side⟩
  | .addOrderRefresh msg =>
    ref.insert (msg.symbol, msg.orderId) ⟨msg.price, msg.volume, msg.side⟩
  | .modifyOrder msg =>
    match ref[(msg.symbol, msg.orderId)]? with
    | none => ref
    | some order =>
      ref.insert (msg.symbol, msg.orderId) ⟨msg.price, msg.volume, order.side⟩
  | .deleteOrder msg => ref.erase (msg.symbol, msg.orderId)
  | .orderExecution msg =>
    match ref[(msg.symbol, msg.orderId)]? with
    | none => ref
    | some order =>
      if msg.volume < order.volume then
        ref.insert (msg.symbol, msg.orderId)
          { order with volume := order.volume - msg.volume }
      else ref.erase (msg.symbol, msg.orderId)
  | .replaceOrder msg =>
    (ref.erase (msg.symbol, msg.orderId)).insert (msg.symbol, msg.newOrderId)
      ⟨msg.price, msg.volume, msg.side⟩
  | _ => ref

def run (msgs : List (Payload P)) : RefBook P := msgs.foldl step ∅

/-- A Modify, Delete, Execution or Replace whose order ID is not live for its
symbol. -/
def misses (ref : RefBook P) (msg : Payload P) : Bool :=
  Mde.misses (ref.live msg.symbol) msg

def missCount (msgs : List (Payload P)) : Nat := Runs.countAlong step misses ∅ msgs

/-- An Add, a Refresh or the new ID of a Replace names a live order of its
symbol. -/
def overwrites (ref : RefBook P) (msg : Payload P) : Bool :=
  Mde.overwrites (ref.live msg.symbol) msg

variable [LinearOrder P]

/-- The volume of a symbol's live orders at a side and price. -/
def total (ref : RefBook P) (symbol : Str) (bid : Bool) (price : P) : Nat :=
  sumOver ref fun key order => if key.1 = symbol then order.volumeAt bid price else 0

omit [LinearOrder P] in
def prices (ref : RefBook P) (symbol : Str) (bid : Bool) : Set P :=
  { price | ∃ (id : UInt64) (order : LiveOrder P), ref[(symbol, id)]? = some order
    ∧ isBid order.side = bid ∧ order.price = price }

/-- The best level of one side: the highest bid or the lowest ask of the live
orders with their total, nothing when none rests there. -/
def IsBest (ref : RefBook P) (symbol : Str) (bid : Bool) : Option (PriceLevel P) → Prop
  | none => ref.prices symbol bid = ∅
  | some best =>
    (if bid then IsGreatest (ref.prices symbol bid) best.price
      else IsLeast (ref.prices symbol bid) best.price)
    ∧ best.aggregateVolume.toNat = ref.total symbol bid best.price

/-- What the refinement asks of a message: it writes over no live order, its
volume is positive, and no total reaches `2 ^ 64`. -/
structure Admits (ref : RefBook P) (msg : Payload P) : Prop where
  fresh : ref.overwrites msg = false
  positive : positive msg = true
  fits : ∀ symbol bid price, (ref.step msg).total symbol bid price < 2 ^ 64

def Admissible (msgs : List (Payload P)) : Prop := Runs.Along step Admits ∅ msgs

end RefBook

/-! ## The order tables -/

def SameOrders [LinearOrder P] (ob : OrderBook P) (ref : RefBook P) : Prop :=
  ∀ (symbol : Str) (id : UInt64),
    ref[(symbol, id)]? = (ob.getOrCreateBook symbol).orders[id]?

/-- On the symbol a message names, the reference's step is the order half of the
handler. -/
theorem RefBook.getElem?_step_own {ref : RefBook P} {msg : Payload P}
    {orders : ExtTreeMap UInt64 (LiveOrder P)}
    (h : ∀ id : UInt64, ref[(msg.symbol, id)]? = orders[id]?) (id : UInt64) :
    (ref.step msg)[(msg.symbol, id)]? = (nextOrders orders msg)[id]? := by
  have hins : ∀ (r : RefBook P) (m : ExtTreeMap UInt64 (LiveOrder P)) (symbol : Str)
      (k : UInt64) (order : LiveOrder P), r[(symbol, id)]? = m[id]? →
      (r.insert (symbol, k) order)[(symbol, id)]? = (m.insert k order)[id]? := by
    intro r m symbol k order hr
    simp only [TreeSum.getElem?_insert, Prod.mk.injEq, true_and, hr]
  have hdel : ∀ (r : RefBook P) (m : ExtTreeMap UInt64 (LiveOrder P)) (symbol : Str)
      (k : UInt64), r[(symbol, id)]? = m[id]? →
      (r.erase (symbol, k))[(symbol, id)]? = (m.erase k)[id]? := by
    intro r m symbol k hr
    simp only [TreeSum.getElem?_erase, Prod.mk.injEq, true_and, hr]
  have hid := h id
  cases msg with
  | addOrder msg => exact hins _ _ _ _ _ hid
  | addOrderRefresh msg => exact hins _ _ _ _ _ hid
  | deleteOrder msg => exact hdel _ _ _ _ hid
  | replaceOrder msg => exact hins _ _ _ _ _ (hdel _ _ _ _ hid)
  | modifyOrder msg =>
      have hold : ref[(msg.symbol, msg.orderId)]? = orders[msg.orderId]? := h msg.orderId
      simp only [step, nextOrders, putHalf, takenOrders, hold]
      cases ho : orders[msg.orderId]? with
      | none =>
          rw [erase_of_none ho]
          exact hid
      | some order =>
          simp only [insert_erase]
          exact hins _ _ _ _ _ hid
  | orderExecution msg =>
      have hold : ref[(msg.symbol, msg.orderId)]? = orders[msg.orderId]? := h msg.orderId
      simp only [step, nextOrders, putHalf, takenOrders, hold]
      cases orders[msg.orderId]? with
      | none => exact hid
      | some order =>
          simp only [executedOrders]
          by_cases hlt : msg.volume < order.volume
          · rw [if_pos hlt, if_neg (UInt64.not_le.mpr hlt)]
            exact hins _ _ _ _ _ hid
          · rw [if_neg hlt, if_pos (UInt64.not_lt.mp hlt)]
            exact hdel _ _ _ _ hid
  | _ => exact hid

theorem RefBook.getElem?_step_other {ref : RefBook P} {msg : Payload P} {symbol : Str}
    (h : symbol ≠ msg.symbol) (id : UInt64) :
    (ref.step msg)[(symbol, id)]? = ref[(symbol, id)]? := by
  have hins : ∀ (r : RefBook P) (k : UInt64) (order : LiveOrder P),
      (r.insert (msg.symbol, k) order)[(symbol, id)]? = r[(symbol, id)]? := by
    intro r k order
    simp [TreeSum.getElem?_insert, h]
  have hdel : ∀ (r : RefBook P) (k : UInt64),
      (r.erase (msg.symbol, k))[(symbol, id)]? = r[(symbol, id)]? := by
    intro r k
    simp [TreeSum.getElem?_erase, h]
  cases msg with
  | addOrder msg => exact hins _ _ _
  | addOrderRefresh msg => exact hins _ _ _
  | deleteOrder msg => exact hdel _ _
  | replaceOrder msg => exact (hins _ _ _).trans (hdel _ _)
  | modifyOrder msg =>
      simp only [step]
      split
      · rfl
      · exact hins _ _ _
  | orderExecution msg =>
      simp only [step]
      split
      · rfl
      · split
        · exact hins _ _ _
        · exact hdel _ _
  | _ => rfl

variable [LinearOrder P]

theorem SameOrders.step {ob : OrderBook P} {ref : RefBook P} (h : SameOrders ob ref)
    (msg : Payload P) : SameOrders (ob.onMessage msg) (ref.step msg) := by
  intro symbol id
  rw [OrderBook.getOrCreateBook_onMessage]
  by_cases hs : symbol = msg.symbol
  · subst hs
    rw [if_pos rfl, SymbolBook.apply_orders]
    exact RefBook.getElem?_step_own (h msg.symbol) id
  · rw [if_neg hs, RefBook.getElem?_step_other hs]
    exact h symbol id

theorem run_orders (msgs : List (Payload P)) :
    SameOrders (OrderBook.run msgs) (RefBook.run msgs) := by
  induction msgs using List.reverseRecOn with
  | nil =>
      intro symbol id
      simp [RefBook.run, OrderBook.run]
  | append_singleton msgs msg ih =>
      rw [OrderBook.run_append_singleton, RefBook.run, List.foldl_append]
      exact ih.step msg

section SameOrders

variable {ob : OrderBook P} {ref : RefBook P} (h : SameOrders ob ref)

include h

theorem SameOrders.live_eq (symbol : Str) :
    ref.live symbol = (ob.getOrCreateBook symbol).orders.contains := by
  funext id
  rw [RefBook.live, ExtTreeMap.contains_eq_isSome_getElem?, h symbol id,
    ExtTreeMap.contains_eq_isSome_getElem?]

theorem SameOrders.rows (symbol : Str) (id : UInt64) :
    ref[(symbol, id)]? = (ob.books[symbol]?).bind fun book => book.orders[id]? := by
  rw [h symbol id, OrderBook.getOrCreateBook, ExtTreeMap.getD_eq_getD_getElem?]
  cases ob.books[symbol]? with
  | none => simp
  | some book => rfl

theorem SameOrders.total_eq (symbol : Str) (bid : Bool) (price : P) :
    ref.total symbol bid price = (ob.getOrCreateBook symbol).restingVolume bid price := by
  rw [RefBook.total, sumOver_rows h.rows, sumOver_single symbol]
  · rw [OrderBook.getOrCreateBook, ExtTreeMap.getD_eq_getD_getElem?]
    cases ob.books[symbol]? with
    | none => simp [SymbolBook.restingVolume, volumeIn]
    | some book => simp [SymbolBook.restingVolume, volumeIn]
  · intro other book hne
    simp [hne, sumOver]

theorem SameOrders.getLiveOrderCount : ob.getLiveOrderCount = ref.size := by
  rw [size_eq_sumOver, sumOver_rows h.rows]
  simp only [← size_eq_sumOver]
  rfl

end SameOrders

/-! ## The invariant along a run -/

namespace OrderBook

/-- No level that the message adds to reaches `2 ^ 64`. -/
def Fits (ob : OrderBook P) (msg : Payload P) : Prop :=
  (ob.getOrCreateBook msg.symbol).fits msg = true

instance (ob : OrderBook P) (msg : Payload P) : Decidable (ob.Fits msg) :=
  inferInstanceAs (Decidable ((ob.getOrCreateBook msg.symbol).fits msg = true))

/-- The call of `RemoveLevel` the message leads to, if any, returns `true`. -/
def Removes (ob : OrderBook P) (msg : Payload P) : Prop :=
  ∀ taken : LiveOrder P,
    removal (ob.getOrCreateBook msg.symbol).orders msg = some taken →
      ((ob.getOrCreateBook msg.symbol).removeLevel
        taken.side taken.price taken.volume).2 = true

def Sound (ob : OrderBook P) (excess : Str → SymbolBook.Excess P) : Prop :=
  ∀ symbol, (ob.getOrCreateBook symbol).Sound (excess symbol)

/-- The excess a message adds: on its own symbol, the volume of the order it
writes over. -/
def overwrittenVolume (ob : OrderBook P) (msg : Payload P) (symbol : Str) :
    SymbolBook.Excess P :=
  if symbol = msg.symbol then Mde.overwrittenVolume (ob.getOrCreateBook symbol).orders msg
  else 0

theorem sound_empty : ({} : OrderBook P).Sound 0 := by
  intro symbol
  rw [getOrCreateBook_empty]
  exact SymbolBook.sound_empty

theorem Sound.onMessage {ob : OrderBook P} {excess : Str → SymbolBook.Excess P}
    (h : ob.Sound excess) {msg : Payload P} (hpos : positive msg = true)
    (hfit : ob.Fits msg) :
    (ob.onMessage msg).Sound (excess + ob.overwrittenVolume msg) := by
  intro symbol
  rw [getOrCreateBook_onMessage, Pi.add_apply, OrderBook.overwrittenVolume]
  by_cases hs : symbol = msg.symbol
  · subst hs
    rw [if_pos rfl, if_pos rfl]
    exact (h msg.symbol).apply hpos hfit
  · rw [if_neg hs, if_neg hs, add_zero]
    exact h symbol

theorem Sound.removes {ob : OrderBook P} {excess : Str → SymbolBook.Excess P}
    (h : ob.Sound excess) (msg : Payload P) : ob.Removes msg :=
  fun _ ht => (h msg.symbol).accounted.removal_ok (h msg.symbol).ordersPositive ht

/-- A message adds no excess exactly when it writes over no live order. -/
theorem Sound.overwrittenVolume_eq_zero_iff {ob : OrderBook P}
    {excess : Str → SymbolBook.Excess P} (h : ob.Sound excess) {ref : RefBook P}
    (hsame : SameOrders ob ref) (msg : Payload P) :
    ob.overwrittenVolume msg = 0 ↔ ref.overwrites msg = false := by
  rw [RefBook.overwrites, hsame.live_eq]
  constructor
  · intro hz
    have hown := congrFun hz msg.symbol
    rw [OrderBook.overwrittenVolume, if_pos rfl] at hown
    by_contra hover
    exact overwrittenVolume_ne_zero (h msg.symbol).ordersPositive
      (Bool.not_eq_false _ ▸ hover) hown
  · intro hover
    funext symbol
    rw [OrderBook.overwrittenVolume]
    split
    · rename_i hs
      subst hs
      exact Mde.overwrittenVolume_eq_zero hover
    · rfl

/-- **The run lemma.** After messages of positive volume that wrap no level the
book is sound for some excess, none exactly when no message wrote over a live
order, and the build failures are the messages that missed. -/
theorem run_sound {msgs : List (Payload P)} (hpos : ∀ msg ∈ msgs, positive msg = true)
    (hfit : Runs.Along onMessage Fits {} msgs) :
    ∃ excess : Str → SymbolBook.Excess P, (run msgs).Sound excess
      ∧ (excess = 0 ↔
        Runs.Along RefBook.step (fun ref msg => ref.overwrites msg = false) ∅ msgs)
      ∧ (run msgs).getBookBuildFailures = RefBook.missCount msgs := by
  induction msgs using List.reverseRecOn with
  | nil => exact ⟨0, sound_empty, by simp [Runs.Along], rfl⟩
  | append_singleton msgs msg ih =>
      obtain ⟨hfits, hfit⟩ := Runs.along_append_singleton.mp hfit
      obtain ⟨excess, hsound, hzero, hfail⟩ := ih (fun m hm => hpos m (by simp [hm])) hfits
      have hsame := run_orders msgs
      refine ⟨excess + (run msgs).overwrittenVolume msg, ?_, ?_, ?_⟩
      · rw [run_append_singleton]
        exact hsound.onMessage (hpos msg (by simp)) hfit
      · rw [Runs.along_append_singleton, ← hzero, ← RefBook.run,
          ← hsound.overwrittenVolume_eq_zero_iff hsame]
        simp only [funext_iff, Pi.add_apply, Pi.zero_apply, Nat.add_eq_zero_iff,
          forall_and]
      · rw [run_append_singleton, getBookBuildFailures, onMessage,
          (hsound msg.symbol).accounted.bookBuild_eq (hsound msg.symbol).ordersPositive,
          RefBook.missCount,
          Runs.countAlong_append_singleton]
        rw [← RefBook.run, RefBook.misses, hsame.live_eq]
        exact congrArg (· + _) hfail

end OrderBook

/-! ## The refinement -/

/-- The displayed book is what the reference takes it to be. -/
structure Refines (ob : OrderBook P) (ref : RefBook P) : Prop where
  /-- A price is in the level map exactly when some live order rests there. -/
  present_iff : ∀ symbol bid price,
    ((ob.getOrCreateBook symbol).level bid price).isSome
      ↔ price ∈ ref.prices symbol bid
  /-- The aggregate volume of a level is the sum of its orders' volumes. -/
  volume_eq : ∀ symbol bid price resting,
    (ob.getOrCreateBook symbol).level bid price = some resting →
      resting.toNat = ref.total symbol bid price
  bestBid : ∀ symbol, ref.IsBest symbol true (ob.getTopOfBook symbol).bestBid
  bestAsk : ∀ symbol, ref.IsBest symbol false (ob.getTopOfBook symbol).bestAsk
  liveOrderCount : ob.getLiveOrderCount = ref.size

/-- A sound book without excess refines the reference with the same orders. -/
theorem OrderBook.Sound.refines {ob : OrderBook P} (h : ob.Sound 0) {ref : RefBook P}
    (hsame : SameOrders ob ref) : Refines ob ref := by
  have hpresent : ∀ symbol bid price,
      ((ob.getOrCreateBook symbol).level bid price).isSome
        ↔ price ∈ ref.prices symbol bid := by
    intro symbol bid price
    rw [(h symbol).isSome_level_iff, RefBook.prices]
    simp only [Set.mem_ofPred_eq, hsame symbol]
  have hvolume : ∀ symbol bid price resting,
      (ob.getOrCreateBook symbol).level bid price = some resting →
        resting.toNat = ref.total symbol bid price := by
    intro symbol bid price resting hl
    have hacc := (h symbol).accounted bid price
    rw [SymbolBook.levelVolume, hl, Option.elim_some] at hacc
    rw [hacc, hsame.total_eq]
    rfl
  have hbest : ∀ symbol bid,
      ref.IsBest symbol bid ((ob.getOrCreateBook symbol).best bid) := by
    intro symbol bid
    cases hb : (ob.getOrCreateBook symbol).best bid with
    | none =>
        refine Set.eq_empty_iff_forall_notMem.mpr ?_
        intro price hp
        have hsome := (hpresent symbol bid price).mpr hp
        rw [SymbolBook.best_eq_none_iff.mp hb price] at hsome
        cases hsome
    | some top =>
        obtain ⟨hl, hle⟩ := SymbolBook.best_eq_some hb
        have hmem : top.price ∈ ref.prices symbol bid :=
          (hpresent symbol bid top.price).mp (by rw [hl]; rfl)
        refine ⟨?_, hvolume symbol bid top.price _ hl⟩
        cases bid with
        | true => exact ⟨hmem, fun p hp => by simpa using hle p ((hpresent _ _ p).mpr hp)⟩
        | false => exact ⟨hmem, fun p hp => by simpa using hle p ((hpresent _ _ p).mpr hp)⟩
  refine ⟨hpresent, hvolume, fun symbol => ?_, fun symbol => ?_, hsame.getLiveOrderCount⟩
  · rw [OrderBook.getTopOfBook_eq]
    exact hbest symbol true
  · rw [OrderBook.getTopOfBook_eq]
    exact hbest symbol false

theorem RefBook.total_le (ref : RefBook P) (symbol : Str) (bid : Bool) (price : P) :
    ref.total symbol bid price ≤ sumOver ref fun _ order => order.volume.toNat := by
  refine sumOver_le_sumOver ?_
  intro key order
  split
  · rw [LiveOrder.volumeAt]
    split
    · exact Nat.le_refl _
    · exact Nat.zero_le _
  · exact Nat.zero_le _

/-- Admissible messages have positive volumes and wrap no level. -/
theorem RefBook.Admissible.fits {msgs : List (Payload P)} (h : RefBook.Admissible msgs) :
    (∀ msg ∈ msgs, Mde.positive msg = true)
      ∧ Runs.Along RefBook.step (fun ref msg => ref.overwrites msg = false) ∅ msgs
      ∧ Runs.Along OrderBook.onMessage OrderBook.Fits {} msgs := by
  induction msgs using List.reverseRecOn with
  | nil => exact ⟨by simp, trivial, trivial⟩
  | append_singleton msgs msg ih =>
      obtain ⟨hprev, hmsg⟩ := Runs.along_append_singleton.mp h
      obtain ⟨hpos, hfresh, hfits⟩ := ih hprev
      refine ⟨?_, Runs.along_append_singleton.mpr ⟨hfresh, hmsg.fresh⟩,
        Runs.along_append_singleton.mpr ⟨hfits, ?_⟩⟩
      · intro m hm
        rcases List.mem_append.mp hm with hm | hm
        · exact hpos m hm
        · rw [List.mem_singleton.mp hm]
          exact hmsg.positive
      · obtain ⟨excess, hsound, hzero, -⟩ := OrderBook.run_sound hpos hfits
        obtain rfl := hzero.mpr hfresh
        have hsame := run_orders msgs
        have hover := hmsg.fresh
        rw [RefBook.overwrites, ← RefBook.run, hsame.live_eq] at hover
        refine SymbolBook.Agrees.fits (hsound msg.symbol).accounted hover ?_
        intro bid price
        have htotal := hmsg.fits msg.symbol bid price
        rw [← RefBook.run, (hsame.step msg).total_eq, SymbolBook.restingVolume,
          OrderBook.getOrCreateBook_onMessage, if_pos rfl, SymbolBook.apply_orders] at htotal
        exact htotal

/-- Admissible messages leave sound books without excess, and fail only where they
miss. -/
theorem RefBook.Admissible.sound {msgs : List (Payload P)} (h : RefBook.Admissible msgs) :
    (OrderBook.run msgs).Sound 0
      ∧ (OrderBook.run msgs).getBookBuildFailures = RefBook.missCount msgs := by
  obtain ⟨hpos, hfresh, hfits⟩ := h.fits
  obtain ⟨excess, hsound, hzero, hfail⟩ := OrderBook.run_sound hpos hfits
  obtain rfl := hzero.mpr hfresh
  exact ⟨hsound, hfail⟩

/-- **The displayed book refines the reference.** On admissible messages the
book reads as the reference says, no `RemoveLevel` returns `false`, and the
build failures are the messages that name an order that is not live. -/
theorem run_refines {msgs : List (Payload P)} (h : RefBook.Admissible msgs) :
    Refines (OrderBook.run msgs) (RefBook.run msgs)
      ∧ Runs.Along OrderBook.onMessage OrderBook.Removes {} msgs
      ∧ (OrderBook.run msgs).getBookBuildFailures = RefBook.missCount msgs := by
  obtain ⟨hsound, hfail⟩ := h.sound
  refine ⟨hsound.refines (run_orders msgs), ?_, hfail⟩
  rw [Runs.along_iff_forall_append]
  rintro before msg after rfl
  obtain ⟨hsound, -⟩ := RefBook.Admissible.sound (Runs.along_append.mp h).1
  exact hsound.removes msg

/-- Two bids at one price, an execution, a Replace onto the ask side, and a
Delete that misses. -/
def RefBook.sample : List (Payload Nat) :=
  [.addOrder ⟨0, [], 0, 1, 10, 500, 'B'.toUInt8, []⟩,
    .addOrder ⟨0, [], 0, 2, 10, 300, 'B'.toUInt8, []⟩,
    .orderExecution ⟨0, [], 0, 1, 7, 10, 200, true⟩,
    .replaceOrder ⟨0, [], 0, 2, 3, 11, 400, 'S'.toUInt8⟩,
    .deleteOrder ⟨0, [], 0, 9⟩]

/-- A check that can be run: no total exceeds the volume of all live orders. -/
theorem RefBook.admissible_of_sum {msgs : List (Payload P)}
    (h : Runs.Along RefBook.step (fun ref msg => ref.overwrites msg = false
      ∧ Mde.positive msg = true
      ∧ (sumOver (ref.step msg) fun _ order => order.volume.toNat) < 2 ^ 64) ∅ msgs) :
    RefBook.Admissible msgs :=
  Runs.Along.imp (fun ref msg h => ⟨h.1, h.2.1, fun symbol bid price =>
    Nat.lt_of_le_of_lt ((ref.step msg).total_le symbol bid price) h.2.2⟩) h

theorem RefBook.sample_admissible : RefBook.Admissible RefBook.sample :=
  RefBook.admissible_of_sum (by decide)

theorem run_refines_sample :
    Refines (OrderBook.run RefBook.sample) (RefBook.run RefBook.sample)
      ∧ (OrderBook.run RefBook.sample).getBookBuildFailures = 1 := by
  obtain ⟨hrefines, -, hfail⟩ := run_refines RefBook.sample_admissible
  exact ⟨hrefines, hfail.trans (by decide)⟩

/-- Not every Modify, Delete, Execution or Replace counts as a failure: the
execution and the Replace of the sample find their orders live. -/
theorem run_refines_not_all_targets :
    RefBook.Admissible RefBook.sample
      ∧ (OrderBook.run RefBook.sample).getBookBuildFailures
        ≠ (RefBook.sample.filter fun msg => (targetOrder msg).isSome).length :=
  ⟨RefBook.sample_admissible, by decide⟩

end Mde
