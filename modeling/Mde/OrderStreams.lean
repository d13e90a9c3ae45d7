import Mde.BookSnapshot
import Mde.Streams

/-!
# The displayed book and the streams of its orders

Which order of the messages matters to the displayed book. An order is
touched by the messages that carry its ID, a Replace touches two; what a
message makes of one order it reads from that order alone
(`getElem?_step`). So the order table, and with it the build failures,
depend on each order's own stream, and on an admissible run the levels
do too: messages about different orders may arrive in any order.
-/

open Std

namespace Mde

open Messages OrderBook FloatOrder

variable {P : Type*}

/-! ## One order -/

namespace RefBook

/-- The orders a message reads or writes. -/
def touched : Payload P → List (Str × UInt64)
  | .addOrder msg => [(msg.symbol, msg.orderId)]
  | .addOrderRefresh msg => [(msg.symbol, msg.orderId)]
  | .modifyOrder msg => [(msg.symbol, msg.orderId)]
  | .deleteOrder msg => [(msg.symbol, msg.orderId)]
  | .orderExecution msg => [(msg.symbol, msg.orderId)]
  | .replaceOrder msg => [(msg.symbol, msg.orderId), (msg.symbol, msg.newOrderId)]
  | _ => []

def executedAt (volume : UInt64) (order : LiveOrder P) : Option (LiveOrder P) :=
  if volume < order.volume then some { order with volume := order.volume - volume } else none

def stepAt (key : Str × UInt64) (order : Option (LiveOrder P)) :
    Payload P → Option (LiveOrder P)
  | .addOrder msg =>
    if key = (msg.symbol, msg.orderId) then some ⟨msg.price, msg.volume, msg.side⟩ else order
  | .addOrderRefresh msg =>
    if key = (msg.symbol, msg.orderId) then some ⟨msg.price, msg.volume, msg.side⟩ else order
  | .modifyOrder msg =>
    if key = (msg.symbol, msg.orderId) then
      order.map fun order => ⟨msg.price, msg.volume, order.side⟩
    else order
  | .deleteOrder msg => if key = (msg.symbol, msg.orderId) then none else order
  | .orderExecution msg =>
    if key = (msg.symbol, msg.orderId) then order.bind (executedAt msg.volume) else order
  | .replaceOrder msg =>
    if key = (msg.symbol, msg.newOrderId) then some ⟨msg.price, msg.volume, msg.side⟩
    else if key = (msg.symbol, msg.orderId) then none
    else order
  | _ => order

theorem stepAt_frame (key : Str × UInt64) (order : Option (LiveOrder P)) (msg : Payload P)
    (h : key ∉ touched msg) : stepAt key order msg = order := by
  cases msg with
  | addOrder msg => exact if_neg (by simpa [touched] using h)
  | addOrderRefresh msg => exact if_neg (by simpa [touched] using h)
  | modifyOrder msg => exact if_neg (by simpa [touched] using h)
  | deleteOrder msg => exact if_neg (by simpa [touched] using h)
  | orderExecution msg => exact if_neg (by simpa [touched] using h)
  | replaceOrder msg =>
      simp only [touched, List.mem_cons, List.not_mem_nil, or_false, not_or] at h
      rw [stepAt, if_neg h.2, if_neg h.1]
  | _ => rfl

def orderCells (P : Type*) : Streams (Str × UInt64) (Option (LiveOrder P)) (Payload P) where
  touched := touched
  step := stepAt
  frame := stepAt_frame

abbrev stream (key : Str × UInt64) (msgs : List (Payload P)) : List (Payload P) :=
  (orderCells P).stream key msgs

/-- **Orders are independent**: what becomes of one is read from it alone. -/
theorem getElem?_step (ref : RefBook P) (msg : Payload P) (key : Str × UInt64) :
    (ref.step msg)[key]? = stepAt key ref[key]? msg := by
  cases msg with
  | addOrder msg => exact TreeSum.getElem?_insert ..
  | addOrderRefresh msg => exact TreeSum.getElem?_insert ..
  | deleteOrder msg => exact TreeSum.getElem?_erase ..
  | replaceOrder msg =>
      rw [step, TreeSum.getElem?_insert, TreeSum.getElem?_erase]
      rfl
  | modifyOrder msg =>
      simp only [step, stepAt]
      by_cases hkey : key = (msg.symbol, msg.orderId)
      · subst hkey
        cases hold : ref[(msg.symbol, msg.orderId)]? with
        | none => simp [hold]
        | some order => simp
      · rw [if_neg hkey]
        split
        · rfl
        · rw [TreeSum.getElem?_insert, if_neg hkey]
  | orderExecution msg =>
      simp only [step, stepAt]
      by_cases hkey : key = (msg.symbol, msg.orderId)
      · subst hkey
        cases hold : ref[(msg.symbol, msg.orderId)]? with
        | none => simp [hold]
        | some order =>
            simp only [if_true, Option.bind_some, executedAt]
            split
            · rw [TreeSum.getElem?_insert, if_pos rfl]
            · rw [TreeSum.getElem?_erase, if_pos rfl]
      · rw [if_neg hkey]
        split
        · rfl
        · split
          · rw [TreeSum.getElem?_insert, if_neg hkey]
          · rw [TreeSum.getElem?_erase, if_neg hkey]
  | _ => rfl

theorem getElem?_run (msgs : List (Payload P)) (key : Str × UInt64) :
    (run msgs)[key]? = (stream key msgs).foldl (stepAt key) none := by
  have hcell : (stream key msgs).foldl (stepAt key) none = msgs.foldl (stepAt key) none :=
    (orderCells P).cell_stream key none msgs
  rw [hcell]
  clear hcell
  induction msgs using List.reverseRecOn with
  | nil => simp [run]
  | append_singleton msgs msg ih =>
      rw [run, List.foldl_append, List.foldl_cons, List.foldl_nil, getElem?_step, ← run, ih,
        List.foldl_append]
      rfl

/-! ## All orders -/

def target (msg : Payload P) : Option (Str × UInt64) :=
  (targetOrder msg).map fun id => (msg.symbol, id)

theorem target_touched (msg : Payload P) (key : Str × UInt64) (h : target msg = some key) :
    key ∈ touched msg := by
  cases msg with
  | modifyOrder msg => obtain rfl := Option.some.inj h; simp [touched, Payload.symbol]
  | deleteOrder msg => obtain rfl := Option.some.inj h; simp [touched, Payload.symbol]
  | orderExecution msg => obtain rfl := Option.some.inj h; simp [touched, Payload.symbol]
  | replaceOrder msg => obtain rfl := Option.some.inj h; simp [touched, Payload.symbol]
  | _ => cases h

theorem run_eq_of_stream_eq {msgs msgs' : List (Payload P)}
    (h : ∀ key, stream key msgs = stream key msgs') : run msgs = run msgs' := by
  refine ExtTreeMap.ext_getElem? ?_
  intro key
  rw [getElem?_run, getElem?_run, h]

theorem missCount_eq_of_stream_eq {msgs msgs' : List (Payload P)}
    (h : ∀ key, stream key msgs = stream key msgs') : missCount msgs = missCount msgs' := by
  refine (orderCells P).countAlong_eq_of_stream_eq target (fun order _ => order.isNone)
    (fun ref key => ref[key]?) ?_ ?_ target_touched ∅ h
  · intro ref msg
    funext key
    exact getElem?_step ref msg key
  · intro ref msg
    rw [misses, Mde.misses, target, Option.any_map]
    congr 1
    funext id
    rw [live, ExtTreeMap.contains_eq_isSome_getElem?]
    simp

end RefBook

/-! ## The displayed book -/

variable [LinearOrder P]

/-- Admissible runs with the same streams show the same book and count the same build
failures. -/
theorem sameDisplay_of_stream_eq {msgs msgs' : List (Payload P)}
    (h : RefBook.Admissible msgs) (h' : RefBook.Admissible msgs')
    (hstream : ∀ key, RefBook.stream key msgs = RefBook.stream key msgs') :
    SameDisplay (run msgs) (run msgs')
      ∧ (run msgs).getLiveOrderCount = (run msgs').getLiveOrderCount
      ∧ (run msgs).getBookBuildFailures = (run msgs').getBookBuildFailures := by
  obtain ⟨hsound, hfail⟩ := h.sound
  obtain ⟨hsound', hfail'⟩ := h'.sound
  have hrun := RefBook.run_eq_of_stream_eq hstream
  have horders : ∀ symbol, ((run msgs).getOrCreateBook symbol).orders
      = ((run msgs').getOrCreateBook symbol).orders := by
    intro symbol
    refine ExtTreeMap.ext_getElem? ?_
    intro id
    rw [← run_orders, ← run_orders, hrun]
  refine ⟨hsound.sameDisplay hsound' horders, ?_, ?_⟩
  · rw [(run_orders msgs).getLiveOrderCount, (run_orders msgs').getLiveOrderCount, hrun]
  · rw [hfail, hfail', RefBook.missCount_eq_of_stream_eq hstream]

/-- **Only the streams of the orders matter.** Two admissible runs without NaN in which
every order has the same messages in the same order, however these are interleaved with
the messages about other orders and whatever other messages there are, show the same book
and count the same build failures. -/
theorem order_interleaving_irrelevant {R : Type*} [LinearOrder R]
    {msgs msgs' : List (Payload (Value R))} (hnan : NoNan msgs) (hnan' : NoNan msgs')
    (h : RefBook.Admissible msgs) (h' : RefBook.Admissible msgs')
    (hstream : ∀ key, RefBook.stream key msgs = RefBook.stream key msgs') :
    KeyedBook.SameView Value.lt msgs msgs'
      ∧ (∀ symbol, (KeyedBook.run Value.lt msgs symbol).topOfBook
        = (KeyedBook.run Value.lt msgs' symbol).topOfBook)
      ∧ (run msgs).getLiveOrderCount = (run msgs').getLiveOrderCount := by
  obtain ⟨hsame, hcount, hfail⟩ := sameDisplay_of_stream_eq h h' hstream
  have hview : KeyedBook.SameView Value.lt msgs msgs' :=
    (sameView_iff Value.lt_eq_decide_of_ne_nan hnan hnan').mpr ⟨hsame, hfail⟩
  exact ⟨hview, fun symbol => by rw [hview.books], hcount⟩

/-- A Replace behind and ahead of the execution of another order. -/
theorem order_interleaving_irrelevant_sample :
    let adds : List (Payload (Value Nat)) :=
      [.addOrder ⟨0, [], 0, 1, .finite 10, 500, 'B'.toUInt8, []⟩,
        .addOrder ⟨0, [], 0, 2, .finite 10, 300, 'B'.toUInt8, []⟩]
    let execute : Payload (Value Nat) := .orderExecution ⟨0, [], 0, 1, 7, .finite 10, 200, true⟩
    let replace : Payload (Value Nat) :=
      .replaceOrder ⟨0, [], 0, 2, 3, .finite 11, 400, 'S'.toUInt8⟩
    let delete : Payload (Value Nat) := .deleteOrder ⟨0, [], 0, 9⟩
    KeyedBook.SameView Value.lt (adds ++ [execute, replace, delete])
        (adds ++ [replace, execute, delete])
      ∧ KeyedBook.failures Value.lt (adds ++ [execute, replace, delete]) = 1 := by
  intro adds execute replace delete
  refine ⟨?_, by decide⟩
  exact (order_interleaving_irrelevant (by decide) (by decide)
    (RefBook.admissible_of_sum (by decide)) (RefBook.admissible_of_sum (by decide))
    (fun key => (RefBook.orderCells (Value Nat)).stream_swap
      (by simp [execute, replace, RefBook.orderCells, RefBook.touched, List.Disjoint])
      key adds [delete])).1

end Mde
