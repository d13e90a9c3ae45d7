import Mde.BookView
import Mde.LastWrite

/-!
# Rebuilding a book from a refresh

An Add Order Refresh is sent for every order that rests on the book, as
part of a refresh response or a backup failover. `Snapshot` says of a list
of them that it has every live order of a book once, in whatever order.

- A sound book's levels are a function of its live orders
  (`Sound.display_eq`), so only the order tables matter.
- `Snapshot.admissible`: none of the refreshes is refused by the empty
  book, whatever order they come in.
- `rebuilt_from_snapshot`: a book that starts from the refresh shows what
  the book shows that saw the whole stream, now and after any messages
  that follow, and counts the same build failures from then on
  (`sameDisplay_of_snapshot` over any order of prices).
-/

open Std TreeSum

namespace Mde

open Messages OrderBook LastWrite FloatOrder

variable {P : Type*}

/-! ## Snapshots -/

def refreshEntry (msg : AddOrderRefresh P) : (Str × UInt64) × LiveOrder P :=
  ((msg.symbol, msg.orderId), ⟨msg.price, msg.volume, msg.side⟩)

/-- The refresh has the live orders of the book, each of them once. -/
structure Snapshot [LinearOrder P] (ob : OrderBook P) (refresh : List (AddOrderRefresh P)) :
    Prop where
  once : (refresh.map fun msg => (refreshEntry msg).1).Nodup
  exact : ∀ (symbol : Str) (id : UInt64) (order : LiveOrder P),
    ((symbol, id), order) ∈ refresh.map refreshEntry
      ↔ (ob.getOrCreateBook symbol).orders[id]? = some order

theorem RefBook.run_refresh (refresh : List (AddOrderRefresh P)) :
    RefBook.run (refresh.map .addOrderRefresh) = insertAll ∅ (refresh.map refreshEntry) := by
  rw [RefBook.run, insertAll, List.foldl_map, List.foldl_map]
  rfl

section Snapshot

variable [LinearOrder P] {ob : OrderBook P} {refresh : List (AddOrderRefresh P)}

theorem Snapshot.nodup_keys (h : Snapshot ob refresh) :
    ((refresh.map refreshEntry).map Prod.fst).Nodup := by
  rw [List.map_map]
  exact h.once

/-- The entries of the reference are a snapshot, in any order. -/
theorem snapshot_of_perm {ref : RefBook P} (hsame : SameOrders ob ref)
    (h : (refresh.map refreshEntry).Perm ref.toList) : Snapshot ob refresh where
  once := by
    have hkeys : (ref.toList.map Prod.fst).Nodup := by
      refine List.pairwise_map.mpr (ref.distinct_keys_toList.imp ?_)
      intro e e' hne heq
      rw [heq] at hne
      exact hne ReflCmp.compare_self
    have := (h.map Prod.fst).nodup_iff.mpr hkeys
    rwa [List.map_map] at this
  exact symbol id order := by
    rw [h.mem_iff, ExtTreeMap.mem_toList_iff_getElem?_eq_some, hsame symbol id]

theorem Snapshot.orders_eq (h : Snapshot ob refresh) (symbol : Str) :
    ((run (refresh.map .addOrderRefresh)).getOrCreateBook symbol).orders
      = (ob.getOrCreateBook symbol).orders := by
  refine ExtTreeMap.ext_getElem? ?_
  intro id
  refine Option.ext fun order => ?_
  rw [← run_orders, RefBook.run_refresh, getElem?_insertAll_empty h.nodup_keys, h.exact]

/-- The reference ends the refresh where it ended the stream. -/
theorem Snapshot.run_refresh {msgs : List (Payload P)} (h : Snapshot (run msgs) refresh) :
    RefBook.run (refresh.map .addOrderRefresh) = RefBook.run msgs := by
  refine ExtTreeMap.ext_getElem? ?_
  rintro ⟨symbol, id⟩
  rw [run_orders, run_orders, h.orders_eq]

theorem OrderBook.Sound.total_lt {ref : RefBook P} (h : ob.Sound 0)
    (hsame : SameOrders ob ref) (symbol : Str) (bid : Bool) (price : P) :
    ref.total symbol bid price < 2 ^ 64 := by
  have hacc := (h symbol).accounted bid price
  rw [Pi.zero_apply] at hacc
  rw [hsame.total_eq, ← Nat.add_zero (SymbolBook.restingVolume ..)]
  exact hacc ▸ SymbolBook.levelVolume_lt ..

/-- A part of the refresh puts no more on a level than the book has there. -/
theorem Snapshot.total_lt (h : Snapshot ob refresh) (hsound : ob.Sound 0) {ref : RefBook P}
    (hsame : SameOrders ob ref) {part : List (AddOrderRefresh P)}
    (hpart : part.Sublist refresh) (symbol : Str) (bid : Bool) (price : P) :
    (RefBook.run (part.map .addOrderRefresh)).total symbol bid price < 2 ^ 64 := by
  have hnodup : ((part.map refreshEntry).map Prod.fst).Nodup :=
    h.nodup_keys.sublist ((hpart.map _).map _)
  refine Nat.lt_of_le_of_lt ?_ (hsound.total_lt hsame symbol bid price)
  rw [RefBook.total, RefBook.run_refresh, sumOver_insertAll hnodup, RefBook.total]
  refine sum_le_sumOver (fun key order => if key.1 = symbol then order.volumeAt bid price
    else 0) ref _ hnodup ?_
  rintro ⟨⟨symbol', id⟩, order⟩ he
  rw [hsame symbol' id, ← h.exact]
  exact (hpart.map refreshEntry).subset he

/-- **A refresh is admissible**, whatever order it lists the orders in. -/
theorem Snapshot.admissible (h : Snapshot ob refresh) (hsound : ob.Sound 0)
    {ref : RefBook P} (hsame : SameOrders ob ref) :
    RefBook.Admissible (refresh.map .addOrderRefresh) := by
  rw [RefBook.Admissible, Runs.along_iff_forall_append]
  intro before msg after hsplit
  obtain ⟨before, rest, rfl, rfl, hrest⟩ := List.map_eq_append_iff.mp hsplit
  obtain ⟨msg, after, rfl, rfl, rfl⟩ := List.map_eq_cons_iff.mp hrest
  have hnodup := h.nodup_keys
  rw [List.map_append, List.map_append, List.nodup_append] at hnodup
  constructor
  · -- the order's key is not among those before it
    change ExtTreeMap.contains _ _ = false
    rw [ExtTreeMap.contains_eq_isSome_getElem?, ← RefBook.run, RefBook.run_refresh,
      Option.isSome_eq_false_iff, Option.isNone_iff_eq_none, Option.eq_none_iff_forall_not_mem]
    intro order horder
    have hmem := (getElem?_insertAll_empty hnodup.1 _ order).mp horder
    exact hnodup.2.2 _ (List.mem_map_of_mem hmem) _
      (by simp [refreshEntry, Payload.symbol]) rfl
  · have hlive := (h.exact msg.symbol msg.orderId ⟨msg.price, msg.volume, msg.side⟩).mp
      (by simp [refreshEntry])
    exact decide_eq_true ((hsound msg.symbol).ordersPositive _ _ hlive)
  · intro symbol bid price
    have hpart : (before ++ [msg]).Sublist (before ++ msg :: after) := by simp
    have := h.total_lt hsound hsame hpart symbol bid price
    rwa [List.map_append, RefBook.run, List.foldl_append] at this

end Snapshot

/-! ## The levels follow from the orders -/

section Display

variable [LinearOrder P]

/-- A sound book's levels are a function of its live orders. -/
theorem SymbolBook.Sound.display_eq {book book' : SymbolBook P} (h : book.Sound 0)
    (h' : book'.Sound 0) (horders : book.orders = book'.orders) :
    book.display = book'.display := by
  have hlevel : ∀ bid price, book.level bid price = book'.level bid price := by
    intro bid price
    have hsome : (book.level bid price).isSome ↔ (book'.level bid price).isSome := by
      rw [h.isSome_level_iff, h'.isSome_level_iff, horders]
    have hvolume : book.levelVolume bid price = book'.levelVolume bid price := by
      rw [h.accounted bid price, h'.accounted bid price, restingVolume, restingVolume,
        horders]
    rw [levelVolume, levelVolume] at hvolume
    cases hl : book.level bid price with
    | none =>
        rw [hl] at hsome
        exact (by simpa using hsome.symm : book'.level bid price = none).symm
    | some resting =>
        rw [hl] at hsome hvolume
        obtain ⟨resting', hl'⟩ := Option.isSome_iff_exists.mp (hsome.mp rfl)
        rw [hl', Option.elim_some, Option.elim_some] at hvolume
        rw [hl', UInt64.toNat_inj.mp hvolume]
  obtain ⟨hbid, hask⟩ := levels_ext hlevel
  exact Display.ext horders hbid hask

def SameDisplay (ob ob' : OrderBook P) : Prop :=
  ∀ symbol, (ob.getOrCreateBook symbol).display = (ob'.getOrCreateBook symbol).display

theorem OrderBook.Sound.sameDisplay {ob ob' : OrderBook P} (h : ob.Sound 0)
    (h' : ob'.Sound 0)
    (horders : ∀ symbol, (ob.getOrCreateBook symbol).orders
      = (ob'.getOrCreateBook symbol).orders) : SameDisplay ob ob' :=
  fun symbol => (h symbol).display_eq (h' symbol) (horders symbol)

/-- Books that show the same go on to show the same, and fail on the same messages. -/
theorem SameDisplay.onMessage {ob ob' : OrderBook P} (h : SameDisplay ob ob')
    (msg : Payload P) :
    SameDisplay (ob.onMessage msg) (ob'.onMessage msg)
      ∧ (ob.onMessage msg).getBookBuildFailures + ob'.getBookBuildFailures
        = (ob'.onMessage msg).getBookBuildFailures + ob.getBookBuildFailures := by
  obtain ⟨hdisplay, hbuild⟩ := SymbolBook.apply_display_congr (h msg.symbol) msg
  constructor
  · intro symbol
    rw [getOrCreateBook_onMessage, getOrCreateBook_onMessage]
    split
    · rename_i hs
      subst hs
      exact hdisplay
    · exact h symbol
  · simp only [getBookBuildFailures, OrderBook.onMessage, hbuild]
    omega

theorem SameDisplay.foldl {ob ob' : OrderBook P} (h : SameDisplay ob ob')
    (msgs : List (Payload P)) :
    SameDisplay (msgs.foldl OrderBook.onMessage ob) (msgs.foldl OrderBook.onMessage ob')
      ∧ (msgs.foldl OrderBook.onMessage ob).getBookBuildFailures + ob'.getBookBuildFailures
        = (msgs.foldl OrderBook.onMessage ob').getBookBuildFailures
          + ob.getBookBuildFailures := by
  induction msgs generalizing ob ob' with
  | nil => exact ⟨h, Nat.add_comm ..⟩
  | cons msg msgs ih =>
      obtain ⟨hnext, hone⟩ := h.onMessage msg
      obtain ⟨hrest, hmany⟩ := ih hnext
      refine ⟨hrest, ?_⟩
      rw [List.foldl_cons, List.foldl_cons]
      omega

end Display

/-! ## Failover -/

variable [LinearOrder P]

/-- After admissible messages, let a fresh
book see the refresh and nothing before it. Whatever messages follow, both books show
the same orders and levels, and the fresh one counts the build failures there
have been since the refresh. -/
theorem sameDisplay_of_snapshot {msgs : List (Payload P)} (h : RefBook.Admissible msgs)
    {refresh : List (AddOrderRefresh P)} (hsnapshot : Snapshot (run msgs) refresh)
    (more : List (Payload P)) :
    SameDisplay (run (refresh.map .addOrderRefresh ++ more)) (run (msgs ++ more))
      ∧ (run (refresh.map .addOrderRefresh ++ more)).getLiveOrderCount
        = (run (msgs ++ more)).getLiveOrderCount
      ∧ (run msgs).getBookBuildFailures
          + (run (refresh.map .addOrderRefresh ++ more)).getBookBuildFailures
        = (run (msgs ++ more)).getBookBuildFailures := by
  obtain ⟨hsound, -⟩ := h.sound
  have hadmissible := hsnapshot.admissible hsound (run_orders msgs)
  obtain ⟨hrebuilt, hfail⟩ := hadmissible.sound
  have hnone : RefBook.missCount (refresh.map Payload.addOrderRefresh) = 0 := by
    rw [RefBook.missCount, Runs.countAlong_eq_zero_iff, Runs.along_iff_forall_append]
    intro before msg after hsplit
    obtain ⟨before, rest, -, rfl, hrest⟩ := List.map_eq_append_iff.mp hsplit
    obtain ⟨msg, after, -, rfl, -⟩ := List.map_eq_cons_iff.mp hrest
    rfl
  have hsame := (hrebuilt.sameDisplay hsound hsnapshot.orders_eq).foldl more
  rw [hfail, hnone] at hsame
  have hrun : ∀ before : List (Payload P),
      run (before ++ more) = more.foldl OrderBook.onMessage (run before) :=
    fun _ => List.foldl_append
  have hcount : (run (refresh.map .addOrderRefresh ++ more)).getLiveOrderCount
      = (run (msgs ++ more)).getLiveOrderCount := by
    rw [(run_orders _).getLiveOrderCount, (run_orders _).getLiveOrderCount, RefBook.run,
      RefBook.run, List.foldl_append, List.foldl_append]
    exact congrArg (fun ref => (more.foldl RefBook.step ref).size) hsnapshot.run_refresh
  rw [hcount, hrun, hrun]
  refine ⟨hsame.1, rfl, ?_⟩
  have := hsame.2
  omega

theorem Snapshot.noNan {R : Type*} [LinearOrder R] {msgs : List (Payload (Value R))}
    (hnan : NoNan msgs) {refresh : List (AddOrderRefresh (Value R))}
    (h : Snapshot (run msgs) refresh) : NoNan (refresh.map Payload.addOrderRefresh) := by
  intro msg hm price hprice
  obtain ⟨msg, hmem, rfl⟩ := List.mem_map.mp hm
  obtain rfl := Option.some.inj hprice
  exact hnan.price_ne_nan ((h.exact _ _ _).mp (List.mem_map_of_mem hmem))

/-- **A book can be rebuilt from a refresh.** After admissible messages without NaN, let a
fresh book see the refresh and nothing before it. Whatever messages without NaN follow,
both books show the same orders, levels and tops, and the fresh one counts the build
failures there have been since the refresh. (The live-order count reads the order tables
alone.) -/
theorem rebuilt_from_snapshot {R : Type*} [LinearOrder R] {msgs : List (Payload (Value R))}
    (hnan : NoNan msgs) (h : RefBook.Admissible msgs)
    {refresh : List (AddOrderRefresh (Value R))} (hsnapshot : Snapshot (run msgs) refresh)
    {more : List (Payload (Value R))} (hmore : NoNan more) :
    KeyedBook.run Value.lt (refresh.map .addOrderRefresh ++ more)
        = KeyedBook.run Value.lt (msgs ++ more)
      ∧ (∀ symbol,
        (KeyedBook.run Value.lt (refresh.map .addOrderRefresh ++ more) symbol).topOfBook
          = (KeyedBook.run Value.lt (msgs ++ more) symbol).topOfBook)
      ∧ (run (refresh.map .addOrderRefresh ++ more)).getLiveOrderCount
        = (run (msgs ++ more)).getLiveOrderCount
      ∧ KeyedBook.failures Value.lt msgs
          + KeyedBook.failures Value.lt (refresh.map .addOrderRefresh ++ more)
        = KeyedBook.failures Value.lt (msgs ++ more) := by
  have hlt := Value.lt_eq_decide_of_ne_nan (R := R)
  have hfresh : NoNan (refresh.map Payload.addOrderRefresh ++ more) :=
    noNan_append_iff.mpr ⟨hsnapshot.noNan hnan, hmore⟩
  have hall : NoNan (msgs ++ more) := noNan_append_iff.mpr ⟨hnan, hmore⟩
  obtain ⟨hsame, hcount, hfail⟩ := sameDisplay_of_snapshot h hsnapshot more
  have hbooks : KeyedBook.run Value.lt (refresh.map .addOrderRefresh ++ more)
      = KeyedBook.run Value.lt (msgs ++ more) := by
    funext symbol
    rw [run_eq_view hlt hfresh, run_eq_view hlt hall, SymbolBook.view_eq_iff]
    exact hsame symbol
  refine ⟨hbooks, fun symbol => by rw [hbooks], hcount, ?_⟩
  rw [failures_eq hlt hnan, failures_eq hlt hfresh, failures_eq hlt hall]
  exact hfail

/-- Two orders, the refresh that lists the younger one first, and a Delete and a Modify of
an order that is not live. -/
theorem rebuilt_from_snapshot_sample :
    let msgs : List (Payload (Value Nat)) :=
      [.addOrder ⟨0, [], 0, 1, .finite 10, 300, 'B'.toUInt8, []⟩,
        .addOrder ⟨0, [], 0, 3, .finite 11, 400, 'S'.toUInt8, []⟩, .deleteOrder ⟨0, [], 0, 9⟩]
    let refresh : List (AddOrderRefresh (Value Nat)) :=
      [⟨5, [], 9, 3, .finite 11, 400, 'S'.toUInt8, []⟩,
        ⟨5, [], 9, 1, .finite 10, 300, 'B'.toUInt8, []⟩]
    let more : List (Payload (Value Nat)) :=
      [.deleteOrder ⟨6, [], 0, 3⟩, .modifyOrder ⟨7, [], 0, 2, .finite 10, 100, 'B'.toUInt8⟩]
    (KeyedBook.run Value.lt (refresh.map .addOrderRefresh ++ more) []).topOfBook
        = ⟨some ⟨.finite 10, 300⟩, none⟩
      ∧ (KeyedBook.run Value.lt (msgs ++ more) []).topOfBook = ⟨some ⟨.finite 10, 300⟩, none⟩
      ∧ KeyedBook.failures Value.lt (refresh.map .addOrderRefresh ++ more) = 1 := by
  intro msgs refresh more
  have hsnapshot : Snapshot (run msgs) refresh := snapshot_of_perm (run_orders _) (by decide)
  have hnan : NoNan msgs := by decide
  have hmore : NoNan more := by decide
  obtain ⟨-, htop, -, hfail⟩ :=
    rebuilt_from_snapshot hnan (RefBook.admissible_of_sum (by decide)) hsnapshot hmore
  have hwhole : (KeyedBook.run Value.lt (msgs ++ more) []).topOfBook
      = ⟨some ⟨.finite 10, 300⟩, none⟩ := by
    decide
  refine ⟨(htop []).trans hwhole, hwhole, ?_⟩
  have h1 : KeyedBook.failures Value.lt msgs = 1 := by decide
  have h2 : KeyedBook.failures Value.lt (msgs ++ more) = 2 := by decide
  omega

end Mde
