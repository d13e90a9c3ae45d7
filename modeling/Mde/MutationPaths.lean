import Mde.BookView

/-!
# Different paths to the same displayed book

A Modify takes the order off its level and puts it on another, an
Execution lowers the level in place, a Replace is a Delete and an Add.
On the displayed part of a book, and in the failures they count, these
paths agree.

* `Accounted.executeOrder_part`, `executeOrder_all` — an Execution against
  a Modify of the order in place, and against a Delete.
* `NoEmptyLevel.dropOrder_putOrder` — taking off what was just put gives
  the levels back, unless putting it wrapped the level.
* `OrderBook.paths_agree` — the five equations, in every book that
  admissible messages leave; `mutation_paths_agree` has them of the
  source's own level maps.
* `modify_twice_wraps` — two Modifies of which the first wraps a level
  are not the second alone.
-/

open Std TreeSum FloatOrder

namespace Mde

open Messages

variable {P : Type*} [LinearOrder P]

/-! ## Volume on and off a level -/

namespace LevelMap

theorem shed_add {level : Option UInt64} (hne : level ≠ some 0) {volume : UInt64}
    (hfit : level.elim 0 UInt64.toNat + volume.toNat < 2 ^ 64) :
    ¬ level.getD 0 + volume < volume ∧ shed volume (level.getD 0 + volume) = level := by
  cases level with
  | none => simp [shed]
  | some resting =>
      have hz : resting ≠ 0 := fun hz => hne (by rw [hz])
      rw [Option.elim_some] at hfit
      have hge : ¬ resting + volume < volume := by
        rw [UInt64.lt_iff_toNat_lt, UInt64.toNat_add, Nat.mod_eq_of_lt hfit]
        omega
      refine ⟨hge, ?_⟩
      rw [Option.getD_some, shed, if_neg hge, add_sub_cancel_right, if_neg hz]

theorem lt_of_wraps {level : Option UInt64} {volume : UInt64}
    (h : ¬ level.elim 0 UInt64.toNat + volume.toNat < 2 ^ 64) :
    level.getD 0 + volume < volume := by
  cases level with
  | none => exact absurd (by simpa using volume.toNat_lt) h
  | some resting =>
      rw [Option.elim_some] at h
      rw [Option.getD_some, UInt64.lt_iff_toNat_lt, UInt64.toNat_add]
      have hlt := resting.toNat_lt
      omega

/-- Taking part of a volume off is taking all of it off and putting the rest back. -/
theorem shed_part {resting volume part : UInt64} (hle : volume ≤ resting)
    (hlt : part < volume) :
    shed part resting = some ((shed volume resting).getD 0 + (volume - part)) := by
  have hpart : ¬ resting < part := UInt64.not_lt.mpr (UInt64.le_trans (UInt64.le_of_lt hlt) hle)
  have hrest : resting - part ≠ 0 := fun hz => by
    have heq : resting = part := sub_eq_zero.mp hz
    exact absurd (UInt64.lt_of_lt_of_le hlt hle) (heq ▸ UInt64.lt_irrefl _)
  rw [shed, if_neg hpart, if_neg hrest, shed, if_neg (UInt64.not_lt.mpr hle)]
  split
  · rename_i hz
    rw [Option.getD_none, zero_add, sub_eq_zero.mp hz]
  · rw [Option.getD_some, sub_add_sub_cancel]

end LevelMap

/-! ## One symbol's book -/

namespace SymbolBook

variable {book : SymbolBook P} {id : UInt64} {order : LiveOrder P}

theorem display_ext {book' : SymbolBook P} (ho : book.orders = book'.orders)
    (hl : ∀ bid price, book.level bid price = book'.level bid price) :
    book.display = book'.display := by
  obtain ⟨hbid, hask⟩ := levels_ext hl
  rw [display, display, ho, hbid, hask]

theorem level_dropOrder (ho : book.orders[id]? = some order) (bid : Bool) (price : P) :
    (book.dropOrder id).1.level bid price
      = if bid = isBid order.side ∧ price = order.price
        then (book.level bid price).bind (LevelMap.shed order.volume)
        else book.level bid price := by
  rw [dropOrder_of_live ho]
  exact level_removeLevel ..

theorem dropOrder_bookBuild (ho : book.orders[id]? = some order) :
    (book.dropOrder id).2.bookBuild
      = if (book.level (isBid order.side) order.price).any (fun resting =>
          !(resting < order.volume)) then 0 else 1 := by
  rw [dropOrder_of_live ho, ← snd_removeLevel]
  rfl

/-- **Off again.** Taking off the order just put gives the book back and finds its level,
unless putting it wrapped the level; then it counts a failure. -/
theorem NoEmptyLevel.dropOrder_putOrder (hne : book.NoEmptyLevel)
    (hid : book.orders[id]? = none) (order : LiveOrder P) :
    (book.levelVolume (isBid order.side) order.price + order.volume.toNat < 2 ^ 64 →
        ((book.putOrder id order).dropOrder id).1.display = book.display
          ∧ ((book.putOrder id order).dropOrder id).2.bookBuild = 0)
      ∧ (¬ book.levelVolume (isBid order.side) order.price + order.volume.toNat < 2 ^ 64 →
        ((book.putOrder id order).dropOrder id).2.bookBuild = 1) := by
  have ho : (book.putOrder id order).orders[id]? = some order := by simp
  have hlevel := level_putOrder book id order (isBid order.side) order.price
  have hcount := dropOrder_bookBuild ho
  rw [if_pos ⟨rfl, rfl⟩] at hlevel
  rw [hlevel, Option.any_some] at hcount
  constructor
  · intro hfit
    obtain ⟨hge, hshed⟩ := LevelMap.shed_add (hne (isBid order.side) order.price) hfit
    refine ⟨display_ext ?_ fun bid price => ?_, ?_⟩
    · rw [dropOrder_orders, putOrder_orders, erase_insert, erase_of_none hid]
    · rw [level_dropOrder ho, level_putOrder]
      split
      · rename_i hat
        obtain ⟨rfl, rfl⟩ := hat
        rw [Option.bind_some]
        exact hshed
      · rfl
    · rw [hcount, decide_eq_false hge]
      rfl
  · intro hwraps
    rw [hcount, decide_eq_true (LevelMap.lt_of_wraps hwraps)]
    rfl

/-! ### An Execution -/

theorem executeOrder_all (ho : book.orders[id]? = some order) {volume : UInt64}
    (hle : order.volume ≤ volume) : book.executeOrder id volume = book.dropOrder id := by
  rw [executeOrder_of_live ho, dropOrder_of_live ho, executed_of_le hle, executedOrders,
    if_pos hle]

theorem Accounted.executeOrder_part (hacc : book.Accounted 0)
    (ho : book.orders[id]? = some order) {volume : UInt64} (hlt : volume < order.volume) :
    (book.executeOrder id volume).1.display
        = ((book.dropOrder id).1.putOrder id
          { order with volume := order.volume - volume }).display
      ∧ (book.executeOrder id volume).2.bookBuild = (book.dropOrder id).2.bookBuild := by
  -- the level is there, and holds the order's volume
  obtain ⟨resting, hl, hle⟩ : ∃ resting,
      book.level (isBid order.side) order.price = some resting ∧ order.volume ≤ resting := by
    have hlevel := hacc.le_levelVolume ho
    rw [levelVolume] at hlevel
    cases hl : book.level (isBid order.side) order.price with
    | none =>
        rw [hl, Option.elim_none] at hlevel
        rw [UInt64.lt_iff_toNat_lt] at hlt
        omega
    | some resting =>
        rw [hl, Option.elim_some] at hlevel
        exact ⟨resting, rfl, UInt64.le_iff_toNat_le.mpr hlevel⟩
  have hexecuted : (order.executed volume).volume = volume :=
    if_neg (UInt64.lt_asymm hlt)
  rw [executeOrder_of_live ho, hexecuted, executedOrders, if_neg (UInt64.not_le.mpr hlt)]
  constructor
  · refine display_ext ?_ fun bid price => ?_
    · rw [putOrder_orders, dropOrder_orders, insert_erase]
    · rw [level_putOrder, level_dropOrder ho]
      refine (level_removeLevel book order.side order.price volume bid price).trans ?_
      split
      · rename_i hat
        obtain ⟨rfl, rfl⟩ := hat
        rw [hl, Option.bind_some, Option.bind_some]
        exact LevelMap.shed_part hle hlt
      · rfl
  · have hpart : ¬ resting < volume :=
      UInt64.not_lt.mpr (UInt64.le_trans (UInt64.le_of_lt hlt) hle)
    rw [dropOrder_bookBuild ho, snd_removeLevel, hl, Option.any_some, Option.any_some,
      decide_eq_false hpart, decide_eq_false (UInt64.not_lt.mpr hle)]
    rfl

theorem apply_orderExecution (book : SymbolBook P) (msg : OrderExecution P) :
    (book.apply (.orderExecution msg)).1.display
        = (book.executeOrder msg.orderId msg.volume).1.display
      ∧ (book.apply (.orderExecution msg)).2.bookBuild
        = (book.executeOrder msg.orderId msg.volume).2.bookBuild :=
  apply_halves book (.orderExecution msg)

/-! ### A Modify -/

/-- A Modify of a live order drops it and puts it back, on the side it had. -/
theorem apply_modifyOrder_of_live {msg : ModifyOrder P}
    (ho : book.orders[msg.orderId]? = some order) :
    (book.apply (.modifyOrder msg)).1.display
        = ((book.dropOrder msg.orderId).1.putOrder msg.orderId
          ⟨msg.price, msg.volume, order.side⟩).display
      ∧ (book.apply (.modifyOrder msg)).2.bookBuild
        = (book.dropOrder msg.orderId).2.bookBuild := by
  obtain ⟨hd, hf⟩ := apply_halves book (.modifyOrder msg)
  rw [hd, hf]
  simp only [putHalf, ho]
  exact ⟨rfl, rfl⟩

/-- A Modify that follows another one of the same order: what it does to the book is what
it does alone, if the first one wraps no level; and it counts one failure more, if the
first one does. -/
theorem NoEmptyLevel.modifyOrder_modifyOrder (hne : book.NoEmptyLevel)
    {first second : ModifyOrder P} (hid : first.orderId = second.orderId)
    (ho : book.orders[second.orderId]? = some order) :
    let book' := (book.apply (.modifyOrder first)).1
    (book.fits (.modifyOrder first) = true →
        (book'.apply (.modifyOrder second)).1.display
            = (book.apply (.modifyOrder second)).1.display
          ∧ (book'.apply (.modifyOrder second)).2.bookBuild = 0)
      ∧ (book.fits (.modifyOrder first) = false →
        (book'.apply (.modifyOrder second)).2.bookBuild = 1) := by
  intro book'
  let order' : LiveOrder P := ⟨first.price, first.volume, order.side⟩
  let dropped := (book.dropOrder second.orderId).1
  let put := dropped.putOrder second.orderId order'
  have hbook' : book'.display = put.display := by
    have happly := (apply_modifyOrder_of_live (hid ▸ ho)).1
    rwa [hid] at happly
  have hput : put.orders[second.orderId]? = some order' := by simp [put]
  obtain ⟨hd, hf⟩ := apply_display_congr hbook' (.modifyOrder second)
  obtain ⟨hd', hf'⟩ := apply_modifyOrder_of_live hput
  have hdropped : dropped.NoEmptyLevel := hne.takeHalf (.modifyOrder second)
  have habsent : dropped.orders[second.orderId]? = none := by simp [dropped]
  obtain ⟨hfits, hwraps⟩ := hdropped.dropOrder_putOrder habsent order'
  have hfit : book.fits (.modifyOrder first) = true
      ↔ dropped.levelVolume (isBid order'.side) order'.price + order'.volume.toNat
        < 2 ^ 64 := by
    have htake : (book.takeHalf (.modifyOrder first)).1 = dropped :=
      congrArg (fun id => (book.dropOrder id).1) hid
    simp only [fits, putHalf, htake, hid, ho, Option.all_some, decide_eq_true_eq]
    exact Iff.rfl
  rw [hd, hf, hd', hf']
  constructor
  · intro h
    obtain ⟨hback, hcount⟩ := hfits (hfit.mp h)
    exact ⟨(putOrder_congr hback ..).trans (apply_modifyOrder_of_live ho).1.symm, hcount⟩
  · intro h
    exact hwraps fun hlt => absurd (hfit.mpr hlt) (by rw [h]; exact Bool.false_ne_true)

/-! ### The messages of one symbol -/

def applyAll (book : SymbolBook P) : List (Payload P) → SymbolBook P × Failures
  | [] => (book, 0)
  | msg :: msgs =>
    (((book.apply msg).1.applyAll msgs).1,
      (book.apply msg).2 + ((book.apply msg).1.applyAll msgs).2)

end SymbolBook

/-! ## All symbols -/

namespace OrderBook

theorem onMessages_own {symbol : Str} {msgs : List (Payload P)} (ob : OrderBook P)
    (h : ∀ msg ∈ msgs, msg.symbol = symbol) :
    (∀ s, (msgs.foldl onMessage ob).getOrCreateBook s
        = if s = symbol then ((ob.getOrCreateBook symbol).applyAll msgs).1
          else ob.getOrCreateBook s)
      ∧ (msgs.foldl onMessage ob).getBookBuildFailures
        = ob.getBookBuildFailures
          + ((ob.getOrCreateBook symbol).applyAll msgs).2.bookBuild := by
  induction msgs generalizing ob with
  | nil =>
      refine ⟨fun s => ?_, rfl⟩
      split
      · rename_i hs
        rw [hs]
        rfl
      · rfl
  | cons msg msgs ih =>
      obtain ⟨hmsg, hmsgs⟩ := List.forall_mem_cons.mp h
      subst hmsg
      obtain ⟨hbooks, hfail⟩ := ih (ob.onMessage msg) hmsgs
      rw [getOrCreateBook_onMessage_self] at hbooks hfail
      refine ⟨fun s => ?_, ?_⟩
      · rw [List.foldl_cons, hbooks]
        split
        · rfl
        · rename_i hs
          rw [getOrCreateBook_onMessage, if_neg hs]
      · rw [List.foldl_cons, hfail, SymbolBook.applyAll, Failures.add_bookBuild, ← Nat.add_assoc]
        rfl

/-- Two sequences of messages for one symbol lead to the same display exactly when they
do so on the symbol's book. -/
theorem agreeOnDisplay_iff (ob : OrderBook P) {symbol : Str} (msgs msgs' : List (Payload P))
    (h : ∀ msg ∈ msgs, msg.symbol = symbol) (h' : ∀ msg ∈ msgs', msg.symbol = symbol) :
    AgreeOnDisplay (msgs.foldl onMessage ob) (msgs'.foldl onMessage ob)
      ↔ ((ob.getOrCreateBook symbol).applyAll msgs).1.display
          = ((ob.getOrCreateBook symbol).applyAll msgs').1.display
        ∧ ((ob.getOrCreateBook symbol).applyAll msgs).2.bookBuild
          = ((ob.getOrCreateBook symbol).applyAll msgs').2.bookBuild := by
  obtain ⟨hbooks, hfail⟩ := onMessages_own ob h
  obtain ⟨hbooks', hfail'⟩ := onMessages_own ob h'
  constructor
  · rintro ⟨hdisplay, hcount⟩
    have hown := hdisplay symbol
    rw [hbooks, hbooks', if_pos rfl, if_pos rfl] at hown
    rw [hfail, hfail'] at hcount
    exact ⟨hown, Nat.add_left_cancel hcount⟩
  · rintro ⟨hdisplay, hcount⟩
    refine ⟨fun s => ?_, by rw [hfail, hfail', hcount]⟩
    rw [hbooks, hbooks']
    split
    · exact hdisplay
    · rfl

end OrderBook

/-! ## The five equations -/

def Targets (symbol : Str) (id : UInt64) (msg : Payload P) : Prop :=
  msg.symbol = symbol ∧ targetOrder msg = some id

/-- The Add Order puts `order` under `id` of `symbol`. -/
def Puts (symbol : Str) (id : UInt64) (order : LiveOrder P) (add : AddOrder P) : Prop :=
  add.symbol = symbol ∧ add.orderId = id
    ∧ (⟨add.price, add.volume, add.side⟩ : LiveOrder P) = order

section LiveOrder

variable {ob : OrderBook P} {symbol : Str} {id : UInt64} {order : LiveOrder P}
  (ho : (ob.getOrCreateBook symbol).orders[id]? = some order)

include ho

theorem execution_part_eq_modify (hacc : (ob.getOrCreateBook symbol).Accounted 0)
    {exec : OrderExecution P} {modify : ModifyOrder P}
    (hexec : Targets symbol id (.orderExecution exec))
    (hmodify : Targets symbol id (.modifyOrder modify))
    (hlt : exec.volume < order.volume) (hprice : modify.price = order.price)
    (hvolume : modify.volume = order.volume - exec.volume) :
    (ob.onMessage (.orderExecution exec)).AgreeOnDisplay
      (ob.onMessage (.modifyOrder modify)) := by
  obtain ⟨hexecSymbol, hexecId⟩ := hexec
  obtain ⟨hmodifySymbol, hmodifyId⟩ := hmodify
  obtain rfl : exec.orderId = id := Option.some.inj hexecId
  have hid : modify.orderId = exec.orderId := Option.some.inj hmodifyId
  obtain ⟨hpart, hpartCount⟩ := hacc.executeOrder_part ho hlt
  obtain ⟨hd, hf⟩ := (ob.getOrCreateBook symbol).apply_orderExecution exec
  obtain ⟨hd', hf'⟩ := SymbolBook.apply_modifyOrder_of_live (hid ▸ ho)
  rw [hid, hprice, hvolume] at hd'
  rw [hid] at hf'
  exact (OrderBook.agreeOnDisplay_iff ob [.orderExecution exec] [.modifyOrder modify]
    (by simpa using hexecSymbol) (by simpa using hmodifySymbol)).mpr
    ⟨hd.trans (hpart.trans hd'.symm), hf.trans (hpartCount.trans hf'.symm)⟩

theorem execution_all_eq_delete {exec : OrderExecution P} {delete : DeleteOrder}
    (hexec : Targets symbol id (.orderExecution exec))
    (hdelete : Targets symbol id (.deleteOrder delete : Payload P))
    (hle : order.volume ≤ exec.volume) :
    (ob.onMessage (.orderExecution exec)).AgreeOnDisplay
      (ob.onMessage (.deleteOrder delete)) := by
  obtain ⟨hexecSymbol, hexecId⟩ := hexec
  obtain ⟨hdeleteSymbol, hdeleteId⟩ := hdelete
  obtain rfl : exec.orderId = id := Option.some.inj hexecId
  have hid : delete.orderId = exec.orderId := Option.some.inj hdeleteId
  have hall : (ob.getOrCreateBook symbol).executeOrder exec.orderId exec.volume
      = (ob.getOrCreateBook symbol).apply (.deleteOrder delete) :=
    (SymbolBook.executeOrder_all ho hle).trans (congrArg _ hid.symm)
  obtain ⟨hd, hf⟩ := (ob.getOrCreateBook symbol).apply_orderExecution exec
  rw [hall] at hd hf
  exact (OrderBook.agreeOnDisplay_iff ob [.orderExecution exec] [.deleteOrder delete]
    (by simpa using hexecSymbol) (by simpa using hdeleteSymbol)).mpr ⟨hd, hf⟩

theorem modify_eq_delete_add {modify : ModifyOrder P} {delete : DeleteOrder}
    {add : AddOrder P} (hmodify : Targets symbol id (.modifyOrder modify))
    (hdelete : Targets symbol id (.deleteOrder delete : Payload P))
    (hadd : Puts symbol id ⟨modify.price, modify.volume, order.side⟩ add) :
    (ob.onMessage (.modifyOrder modify)).AgreeOnDisplay
      ((ob.onMessage (.deleteOrder delete)).onMessage (.addOrder add)) := by
  obtain ⟨hmodifySymbol, hmodifyId⟩ := hmodify
  obtain ⟨hdeleteSymbol, hdeleteId⟩ := hdelete
  obtain ⟨haddSymbol, haddId, hput⟩ := hadd
  obtain rfl : modify.orderId = id := Option.some.inj hmodifyId
  have hid : delete.orderId = modify.orderId := Option.some.inj hdeleteId
  obtain ⟨hd, hf⟩ := SymbolBook.apply_modifyOrder_of_live ho
  refine (OrderBook.agreeOnDisplay_iff ob [.modifyOrder modify]
    [.deleteOrder delete, .addOrder add] (by simpa using hmodifySymbol)
    (by simpa using ⟨hdeleteSymbol, haddSymbol⟩)).mpr ⟨hd.trans ?_, hf.trans ?_⟩
  · show _ = (((ob.getOrCreateBook symbol).dropOrder delete.orderId).1.putOrder add.orderId
      ⟨add.price, add.volume, add.side⟩).display
    rw [hid, haddId, hput]
  · show _ = ((ob.getOrCreateBook symbol).dropOrder delete.orderId).2.bookBuild
    rw [hid]

/-- The first of two Modifies is undone by the second, if it wraps no level. -/
theorem modify_modify_eq_modify_iff (hne : (ob.getOrCreateBook symbol).NoEmptyLevel)
    {first second : ModifyOrder P} (hfirst : Targets symbol id (.modifyOrder first))
    (hsecond : Targets symbol id (.modifyOrder second)) :
    ((ob.onMessage (.modifyOrder first)).onMessage (.modifyOrder second)).AgreeOnDisplay
        (ob.onMessage (.modifyOrder second))
      ↔ ob.Fits (.modifyOrder first) := by
  obtain ⟨hfirstSymbol, hfirstId⟩ := hfirst
  obtain ⟨hsecondSymbol, hsecondId⟩ := hsecond
  obtain rfl : second.orderId = id := Option.some.inj hsecondId
  have hid : first.orderId = second.orderId := Option.some.inj hfirstId
  let book := ob.getOrCreateBook symbol
  let book' := (book.apply (.modifyOrder first)).1
  have hcount : (book.apply (.modifyOrder first)).2.bookBuild
      = (book.apply (.modifyOrder second)).2.bookBuild := by
    rw [(SymbolBook.apply_modifyOrder_of_live (hid ▸ ho)).2,
      (SymbolBook.apply_modifyOrder_of_live ho).2, hid]
  have hiff := OrderBook.agreeOnDisplay_iff ob [.modifyOrder first, .modifyOrder second]
    [.modifyOrder second] (by simpa using ⟨hfirstSymbol, hsecondSymbol⟩)
    (by simpa using hsecondSymbol)
  have hsum : ((book.applyAll [.modifyOrder first, .modifyOrder second]).2.bookBuild
        = (book.applyAll [.modifyOrder second]).2.bookBuild)
      ↔ (book'.apply (.modifyOrder second)).2.bookBuild = 0 := by
    show (book.apply (.modifyOrder first)).2.bookBuild
        + (book'.apply (.modifyOrder second)).2.bookBuild
      = (book.apply (.modifyOrder second)).2.bookBuild ↔ _
    rw [hcount]
    exact Nat.add_eq_left
  obtain ⟨hfits, hwraps⟩ := hne.modifyOrder_modifyOrder hid ho
  have hfit : ob.Fits (.modifyOrder first) ↔ book.fits (.modifyOrder first) = true := by
    rw [OrderBook.Fits, hfirstSymbol]
  refine hiff.trans ((and_congr_right fun _ => hsum).trans ?_)
  rw [hfit]
  constructor
  · rintro ⟨-, hzero⟩
    by_contra hover
    exact absurd (hzero.symm.trans (hwraps (Bool.not_eq_true _ ▸ hover))) (by decide)
  · exact hfits

end LiveOrder

/-- Whether or not the order is live, and whatever the new ID is. -/
theorem replace_eq_delete_add (ob : OrderBook P) {symbol : Str} {id : UInt64}
    {replace : ReplaceOrder P} {delete : DeleteOrder} {add : AddOrder P}
    (hreplace : Targets symbol id (.replaceOrder replace))
    (hdelete : Targets symbol id (.deleteOrder delete : Payload P))
    (hadd : Puts symbol replace.newOrderId ⟨replace.price, replace.volume, replace.side⟩ add) :
    (ob.onMessage (.replaceOrder replace)).AgreeOnDisplay
      ((ob.onMessage (.deleteOrder delete)).onMessage (.addOrder add)) := by
  obtain ⟨hreplaceSymbol, hreplaceId⟩ := hreplace
  obtain ⟨hdeleteSymbol, hdeleteId⟩ := hdelete
  obtain ⟨haddSymbol, haddId, hput⟩ := hadd
  obtain rfl : replace.orderId = id := Option.some.inj hreplaceId
  have hid : delete.orderId = replace.orderId := Option.some.inj hdeleteId
  refine (OrderBook.agreeOnDisplay_iff ob [.replaceOrder replace]
    [.deleteOrder delete, .addOrder add] (by simpa using hreplaceSymbol)
    (by simpa using ⟨hdeleteSymbol, haddSymbol⟩)).mpr ⟨?_, ?_⟩
  · show _ = (((ob.getOrCreateBook symbol).dropOrder delete.orderId).1.putOrder add.orderId
      ⟨add.price, add.volume, add.side⟩).display
    rw [hid, haddId, hput]
    rfl
  · show _ = ((ob.getOrCreateBook symbol).dropOrder delete.orderId).2.bookBuild
    rw [hid]
    rfl

/-- In every book that admissible messages leave, and for every live order of it: an
Execution of part of the order is a Modify in place, one of all of it is a Delete, a
Modify is a Delete and an Add on the order's side, and a Replace is a Delete and an Add of
the new ID. Two Modifies are the second alone exactly when the first takes no level to
`2 ^ 64`. -/
theorem OrderBook.paths_agree {msgs : List (Payload P)} (h : RefBook.Admissible msgs)
    {symbol : Str} {id : UInt64} {order : LiveOrder P}
    (ho : ((OrderBook.run msgs).getOrCreateBook symbol).orders[id]? = some order) :
    let ob := OrderBook.run msgs
    (∀ (exec : OrderExecution P) (modify : ModifyOrder P),
      Targets symbol id (.orderExecution exec) →
      Targets symbol id (.modifyOrder modify : Payload P) →
      exec.volume < order.volume → modify.price = order.price →
      modify.volume = order.volume - exec.volume →
        (ob.onMessage (.orderExecution exec)).AgreeOnDisplay
          (ob.onMessage (.modifyOrder modify)))
    ∧ (∀ (exec : OrderExecution P) (delete : DeleteOrder),
      Targets symbol id (.orderExecution exec) →
      Targets symbol id (.deleteOrder delete : Payload P) → order.volume ≤ exec.volume →
        (ob.onMessage (.orderExecution exec)).AgreeOnDisplay
          (ob.onMessage (.deleteOrder delete)))
    ∧ (∀ (modify : ModifyOrder P) (delete : DeleteOrder) (add : AddOrder P),
      Targets symbol id (.modifyOrder modify) →
      Targets symbol id (.deleteOrder delete : Payload P) →
      Puts symbol id ⟨modify.price, modify.volume, order.side⟩ add →
        (ob.onMessage (.modifyOrder modify)).AgreeOnDisplay
          ((ob.onMessage (.deleteOrder delete)).onMessage (.addOrder add)))
    ∧ (∀ first second : ModifyOrder P,
      Targets symbol id (.modifyOrder first) → Targets symbol id (.modifyOrder second) →
        (((ob.onMessage (.modifyOrder first)).onMessage (.modifyOrder second)).AgreeOnDisplay
            (ob.onMessage (.modifyOrder second))
          ↔ ob.Fits (.modifyOrder first)))
    ∧ ∀ (replace : ReplaceOrder P) (delete : DeleteOrder) (add : AddOrder P),
      Targets symbol id (.replaceOrder replace) →
      Targets symbol id (.deleteOrder delete : Payload P) →
      Puts symbol replace.newOrderId ⟨replace.price, replace.volume, replace.side⟩ add →
        (ob.onMessage (.replaceOrder replace)).AgreeOnDisplay
          ((ob.onMessage (.deleteOrder delete)).onMessage (.addOrder add)) := by
  intro ob
  have hsound := h.sound.1 symbol
  exact ⟨fun _ _ => execution_part_eq_modify ho hsound.accounted,
    fun _ _ => execution_all_eq_delete ho, fun _ _ _ => modify_eq_delete_add ho,
    fun _ _ => modify_modify_eq_modify_iff ho hsound.noEmptyLevel,
    fun _ _ _ => replace_eq_delete_add ob⟩

/-- **The paths agree.** In every book that admissible messages without NaN leave, and for
every live order of it: an Execution of part of the order is a Modify in place, one of
all of it is a Delete, a Modify is a Delete and an Add on the order's side, and a Replace
is a Delete and an Add of the new ID. Two Modifies are the second alone exactly when the
first takes no level to `2 ^ 64`. -/
theorem mutation_paths_agree {R : Type*} [LinearOrder R] {msgs : List (Payload (Value R))}
    (hnan : NoNan msgs) (h : RefBook.Admissible msgs) {symbol : Str} {id : UInt64}
    {order : LiveOrder (Value R)}
    (ho : (KeyedBook.run Value.lt msgs symbol).orders[id]? = some order) :
    (∀ (exec : OrderExecution (Value R)) (modify : ModifyOrder (Value R)),
      Targets symbol id (.orderExecution exec) → Targets symbol id (.modifyOrder modify) →
      exec.volume < order.volume → modify.price = order.price →
      modify.volume = order.volume - exec.volume →
        KeyedBook.SameView Value.lt (msgs ++ [.orderExecution exec])
          (msgs ++ [.modifyOrder modify]))
    ∧ (∀ (exec : OrderExecution (Value R)) (delete : DeleteOrder),
      Targets symbol id (.orderExecution exec) →
      Targets symbol id (.deleteOrder delete : Payload (Value R)) →
      order.volume ≤ exec.volume →
        KeyedBook.SameView Value.lt (msgs ++ [.orderExecution exec])
          (msgs ++ [.deleteOrder delete]))
    ∧ (∀ (modify : ModifyOrder (Value R)) (delete : DeleteOrder) (add : AddOrder (Value R)),
      modify.price ≠ .nan → Targets symbol id (.modifyOrder modify) →
      Targets symbol id (.deleteOrder delete : Payload (Value R)) →
      Puts symbol id ⟨modify.price, modify.volume, order.side⟩ add →
        KeyedBook.SameView Value.lt (msgs ++ [.modifyOrder modify])
          (msgs ++ [.deleteOrder delete, .addOrder add]))
    ∧ (∀ first second : ModifyOrder (Value R), first.price ≠ .nan → second.price ≠ .nan →
      Targets symbol id (.modifyOrder first) → Targets symbol id (.modifyOrder second) →
        (KeyedBook.SameView Value.lt (msgs ++ [.modifyOrder first, .modifyOrder second])
            (msgs ++ [.modifyOrder second])
          ↔ (KeyedBook.run Value.lt msgs symbol).Fits Value.lt (.modifyOrder first)))
    ∧ ∀ (replace : ReplaceOrder (Value R)) (delete : DeleteOrder) (add : AddOrder (Value R)),
      replace.price ≠ .nan → Targets symbol id (.replaceOrder replace) →
      Targets symbol id (.deleteOrder delete : Payload (Value R)) →
      Puts symbol replace.newOrderId ⟨replace.price, replace.volume, replace.side⟩ add →
        KeyedBook.SameView Value.lt (msgs ++ [.replaceOrder replace])
          (msgs ++ [.deleteOrder delete, .addOrder add]) := by
  have hlt := Value.lt_eq_decide_of_ne_nan (R := R)
  rw [run_eq_view hlt hnan] at ho
  have hprice : order.price ≠ .nan := hnan.price_ne_nan ho
  have hview : ∀ {more more' : List (Payload (Value R))}, NoNan more → NoNan more' →
      (KeyedBook.SameView Value.lt (msgs ++ more) (msgs ++ more')
        ↔ (more.foldl OrderBook.onMessage (OrderBook.run msgs)).AgreeOnDisplay
          (more'.foldl OrderBook.onMessage (OrderBook.run msgs))) := by
    intro more more' hmore hmore'
    rw [sameView_iff hlt (noNan_append_iff.mpr ⟨hnan, hmore⟩)
      (noNan_append_iff.mpr ⟨hnan, hmore'⟩)]
    simp only [OrderBook.run, List.foldl_append]
  obtain ⟨hpart, hall, hmodify, htwice, hreplace⟩ := OrderBook.paths_agree h ho
  refine ⟨fun exec modify hexec hmod hlt' heq hvolume => ?_,
    fun exec delete hexec hdelete hle => ?_, fun modify delete add hmod ht hdelete hadd => ?_,
    fun first second hfirst hsecond ht ht' => ?_, fun replace delete add hrep ht hdelete hadd => ?_⟩
  · refine (hview (by simp [displayedPrice?]) (by simp [displayedPrice?, heq, hprice])).mpr ?_
    exact hpart exec modify hexec hmod hlt' heq hvolume
  · refine (hview (by simp [displayedPrice?]) (by simp [displayedPrice?])).mpr ?_
    exact hall exec delete hexec hdelete hle
  · have hput : add.price ≠ .nan := (congrArg LiveOrder.price hadd.2.2).trans_ne hmod
    refine (hview (by simp [displayedPrice?, hmod]) (by simp [displayedPrice?, hput])).mpr ?_
    exact hmodify modify delete add ht hdelete hadd
  · refine (hview (by simp [displayedPrice?, hfirst, hsecond])
      (by simp [displayedPrice?, hsecond])).trans ((htwice first second ht ht').trans ?_)
    rw [OrderBook.Fits, ht.1]
    exact ((run_simulates Value.separating_ne_nan hnan symbol).fits_iff Value.separating_ne_nan
      (by simpa [displayedPrice?] using hfirst)).symm
  · have hput : add.price ≠ .nan := (congrArg LiveOrder.price hadd.2.2).trans_ne hrep
    refine (hview (by simp [displayedPrice?, hrep]) (by simp [displayedPrice?, hput])).mpr ?_
    exact hreplace replace delete add ht hdelete hadd

def twoBids : List (Payload (Value Nat)) :=
  [.addOrder ⟨0, [], 0, 1, .finite 10, 100, 'B'.toUInt8, []⟩,
    .addOrder ⟨0, [], 0, 2, .finite 11, 200, 'B'.toUInt8, []⟩]

theorem twoBids_admissible : RefBook.Admissible twoBids :=
  RefBook.admissible_of_sum (by decide)

theorem twoBids_live : (KeyedBook.run Value.lt twoBids []).orders[(1 : UInt64)]?
    = some ⟨.finite 10, 100, 'B'.toUInt8⟩ := by
  decide

/-- A part of the first bid is executed; and it is modified twice, onto the level of the
second and off again. -/
theorem mutation_paths_agree_twoBids :
    KeyedBook.SameView Value.lt
        (twoBids ++ [.orderExecution ⟨0, [], 0, 1, 7, .finite 10, 40, true⟩])
        (twoBids ++ [.modifyOrder ⟨0, [], 0, 1, .finite 10, 60, 'B'.toUInt8⟩])
      ∧ KeyedBook.SameView Value.lt
        (twoBids ++ [.modifyOrder ⟨0, [], 0, 1, .finite 11, 60, 'B'.toUInt8⟩,
          .modifyOrder ⟨0, [], 0, 1, .finite 12, 50, 'B'.toUInt8⟩])
        (twoBids ++ [.modifyOrder ⟨0, [], 0, 1, .finite 12, 50, 'B'.toUInt8⟩]) := by
  obtain ⟨hpart, -, -, htwice, -⟩ :=
    mutation_paths_agree (by decide) twoBids_admissible twoBids_live
  exact ⟨hpart _ _ ⟨rfl, rfl⟩ ⟨rfl, rfl⟩ (by decide) rfl (by decide),
    (htwice _ _ (by decide) (by decide) ⟨rfl, rfl⟩ ⟨rfl, rfl⟩).mpr (by decide)⟩

/-- The first bid is modified to `2 ^ 64 - 1` at the price of the second, where 200 rest, and
modified again: the level has wrapped to 199, and the volume is not found on it. -/
theorem modify_twice_wraps :
    let first : Payload (Value Nat) :=
      .modifyOrder ⟨0, [], 0, 1, .finite 11, 18446744073709551615, 'B'.toUInt8⟩
    let second : Payload (Value Nat) :=
      .modifyOrder ⟨0, [], 0, 1, .finite 12, 50, 'B'.toUInt8⟩
    NoNan twoBids ∧ RefBook.Admissible twoBids
      ∧ (KeyedBook.run Value.lt twoBids []).orders[(1 : UInt64)]?
        = some ⟨.finite 10, 100, 'B'.toUInt8⟩
      ∧ KeyedBook.failures Value.lt (twoBids ++ [first, second]) = 1
      ∧ KeyedBook.failures Value.lt (twoBids ++ [second]) = 0
      ∧ ¬ KeyedBook.SameView Value.lt (twoBids ++ [first, second]) (twoBids ++ [second]) := by
  intro first second
  have hleft : KeyedBook.failures Value.lt (twoBids ++ [first, second]) = 1 := by decide
  have hright : KeyedBook.failures Value.lt (twoBids ++ [second]) = 0 := by decide
  refine ⟨by decide, twoBids_admissible, twoBids_live, hleft, hright, fun hsame => ?_⟩
  exact absurd (hleft.symm.trans (hsame.failures.trans hright)) (by decide)

end Mde
