import Mde.BookReference
import Mde.ComparatorMap

/-!
# The keys of the level maps

The displayed book for prices of which nothing is known but a comparator
`lt`, as the source's `std::map`s know them: `std::less` orders the asks
and `std::greater` the bids.

- `KeyedBook.apply` — what a message does to such a book: the call of
  `RemoveLevel` and the call of `AddLevel` that its handler makes.
- `Simulates`, `run_simulates` — as long as the displayed prices lie in a
  set on which the comparator is a linear order's `<`, the book is the
  `OrderBook` over that order.
- `OrderedKeys` — the comparator is a strict weak order on all keys that
  ever reach a map, and an order's own level is found again.
  `orderedKeys_of_displayed` proves it of such messages.
-/

open Std ComparatorMap

namespace Mde

open Messages

variable {P : Type*} (lt : P → P → Bool)

/-! ## Level maps -/

namespace KeyedLevels

/-- `levels[price] += volume`. -/
def add (levels : List (P × UInt64)) (price : P) (volume : UInt64) : List (P × UInt64) :=
  alter lt price (fun resting => some (resting.getD 0 + volume)) levels

/-- One branch of `RemoveLevel`: `false`, and the map untouched, when `find` ends at
no level or at one of less than `volume`. -/
def remove (levels : List (P × UInt64)) (price : P) (volume : UInt64) :
    List (P × UInt64) × Bool :=
  match find? lt price levels with
  | none => (levels, false)
  | some resting =>
    if resting < volume then (levels, false)
    else if resting - volume = 0 then (alter lt price (fun _ => none) levels, true)
    else (alter lt price (fun _ => some (resting - volume)) levels, true)

variable {lt} {s : Set P} {levels : List (P × UInt64)} {price q : P}

theorem sorted_add (hs : Separating lt s) (h : Sorted lt s levels) (hprice : price ∈ s)
    (volume : UInt64) : Sorted lt s (add lt levels price volume) :=
  h.alter hs hprice _

theorem sorted_remove (hs : Separating lt s) (h : Sorted lt s levels) (hprice : price ∈ s)
    (volume : UInt64) : Sorted lt s (remove lt levels price volume).1 := by
  rw [remove]
  split
  · exact h
  · split
    · exact h
    · split
      · exact h.alter hs hprice _
      · exact h.alter hs hprice _

theorem snd_remove (levels : List (P × UInt64)) (price : P) (volume : UInt64) :
    (remove lt levels price volume).2
      = (find? lt price levels).any fun resting => !(resting < volume) := by
  rw [remove]
  cases find? lt price levels with
  | none => rfl
  | some resting =>
      simp only [Option.any_some]
      split
      · rename_i h; simp [h]
      · rename_i h
        split <;> simp [h]

variable [DecidableEq P]

theorem find?_add (hs : Separating lt s) (h : Sorted lt s levels) (hprice : price ∈ s)
    (hq : q ∈ s) (volume : UInt64) :
    find? lt q (add lt levels price volume)
      = if q = price then some ((find? lt q levels).getD 0 + volume)
        else find? lt q levels := by
  rw [add, find?_alter hs hprice hq h]
  split
  · rename_i hqp; rw [hqp]
  · rfl

theorem find?_remove (hs : Separating lt s) (h : Sorted lt s levels) (hprice : price ∈ s)
    (hq : q ∈ s) (volume : UInt64) :
    find? lt q (remove lt levels price volume).1
      = if q = price then (find? lt q levels).bind (LevelMap.shed volume)
        else find? lt q levels := by
  rw [remove]
  by_cases hqp : q = price
  · subst hqp
    rw [if_pos rfl]
    cases hfind : find? lt q levels with
    | none => simp [hfind]
    | some resting =>
        simp only [LevelMap.shed, Option.bind_some]
        split
        · exact hfind
        · split
          · simp [find?_alter hs hq hq h]
          · simp [find?_alter hs hq hq h]
  · rw [if_neg hqp]
    split
    · rfl
    · split
      · rfl
      · split
        · simp [find?_alter hs hprice hq h, hqp]
        · simp [find?_alter hs hprice hq h, hqp]

end KeyedLevels

/-! ## One symbol's book -/

structure KeyedBook (P : Type*) where
  orders : ExtTreeMap UInt64 (LiveOrder P) := ∅
  bidLevels : List (P × UInt64) := []
  askLevels : List (P × UInt64) := []

namespace KeyedBook

def before (bid : Bool) (x y : P) : Bool := if bid then lt y x else lt x y

def levels (book : KeyedBook P) (bid : Bool) : List (P × UInt64) :=
  if bid then book.bidLevels else book.askLevels

def addLevel (book : KeyedBook P) (side : Byte) (price : P) (volume : UInt64) :
    KeyedBook P :=
  if isBid side then
    { book with bidLevels := KeyedLevels.add (before lt true) book.bidLevels price volume }
  else
    { book with askLevels := KeyedLevels.add (before lt false) book.askLevels price volume }

def removeLevel (book : KeyedBook P) (side : Byte) (price : P) (volume : UInt64) :
    KeyedBook P × Bool :=
  if isBid side then
    let r := KeyedLevels.remove (before lt true) book.bidLevels price volume
    ({ book with bidLevels := r.1 }, r.2)
  else
    let r := KeyedLevels.remove (before lt false) book.askLevels price volume
    ({ book with askLevels := r.1 }, r.2)

/-- The level maps after the first half of a message. -/
def takeHalf (book : KeyedBook P) (msg : Payload P) : KeyedBook P :=
  match removal book.orders msg with
  | none => book
  | some taken => (book.removeLevel lt taken.side taken.price taken.volume).1

def apply (book : KeyedBook P) (msg : Payload P) : KeyedBook P :=
  let taken := book.takeHalf lt msg
  let put := match putHalf book.orders msg with
    | none => taken
    | some put => taken.addLevel lt put.2.side put.2.price put.2.volume
  { put with orders := nextOrders book.orders msg }

/-- The level that `find` ends at. -/
def level (book : KeyedBook P) (bid : Bool) (price : P) : Option UInt64 :=
  find? (before lt bid) price (book.levels bid)

/-- The message's `AddLevel` does not wrap. -/
def Fits (book : KeyedBook P) (msg : Payload P) : Prop :=
  ∀ put ∈ putHalf book.orders msg,
    ((book.takeHalf lt msg).level lt (isBid put.2.side) put.2.price).elim 0 UInt64.toNat
      + put.2.volume.toNat < 2 ^ 64

/-- A key that the message inserts into a side's map or looks up there. -/
def Touches (book : KeyedBook P) (msg : Payload P) (bid : Bool) (key : P) : Prop :=
  (∃ taken ∈ removal book.orders msg, isBid taken.side = bid ∧ taken.price = key)
    ∨ ∃ put ∈ putHalf book.orders msg, isBid put.2.side = bid ∧ put.2.price = key

/-- The look-up of an order that the message modifies, executes, deletes or replaces
ends at the level of the order's price, if that is in the map. -/
def FindsOwnLevel (book : KeyedBook P) (msg : Payload P) : Prop :=
  ∀ id ∈ targetOrder msg, ∀ order ∈ book.orders[id]?, ∀ resting,
    book.level lt (isBid order.side) order.price = some resting
      ↔ (order.price, resting) ∈ book.levels (isBid order.side)

/-- The level of such an order is in the map, and holds its volume. An order of no
volume may have lost its level. -/
def StoresOwnLevel (book : KeyedBook P) (msg : Payload P) : Prop :=
  ∀ id ∈ targetOrder msg, ∀ order ∈ book.orders[id]?, 0 < order.volume →
    ∃ resting, book.level lt (isBid order.side) order.price = some resting
      ∧ order.volume ≤ resting

end KeyedBook

/-! ## All books -/

namespace KeyedBook

def onMessage (books : Str → KeyedBook P) (msg : Payload P) : Str → KeyedBook P :=
  Function.update books msg.symbol ((books msg.symbol).apply lt msg)

def run (msgs : List (Payload P)) : Str → KeyedBook P := msgs.foldl (onMessage lt) fun _ => {}

/-- The keys that ever reach a symbol's map. -/
def keys (msgs : List (Payload P)) (symbol : Str) (bid : Bool) : Set P :=
  { key | ∃ (before : List (Payload P)) (msg : Payload P) (after : List (Payload P)),
    msgs = before ++ msg :: after ∧ msg.symbol = symbol
      ∧ (run lt before symbol).Touches msg bid key }

end KeyedBook

def AlongKeyed (ok : KeyedBook P → Payload P → Prop) (msgs : List (Payload P)) : Prop :=
  Runs.Along (KeyedBook.onMessage lt) (fun books msg => ok (books msg.symbol) msg)
    (fun _ => {}) msgs

structure OrderedKeys (msgs : List (Payload P)) : Prop where
  strictWeak : ∀ symbol bid,
    StrictWeakOn (KeyedBook.before lt bid) (KeyedBook.keys lt msgs symbol bid)
  found : AlongKeyed lt (KeyedBook.FindsOwnLevel lt) msgs
  stored : AlongKeyed lt (KeyedBook.Fits lt) msgs →
    AlongKeyed lt (KeyedBook.StoresOwnLevel lt) msgs

/-! ## Prices of orders -/

/-- The price at which an Add, Modify, Replace or Refresh displays an order. -/
def displayedPrice? : Payload P → Option P
  | .addOrder msg => some msg.price
  | .modifyOrder msg => some msg.price
  | .replaceOrder msg => some msg.price
  | .addOrderRefresh msg => some msg.price
  | _ => none

theorem displayedPrice?_of_putHalf {orders : ExtTreeMap UInt64 (LiveOrder P)}
    {msg : Payload P} {put : UInt64 × LiveOrder P} (h : putHalf orders msg = some put) :
    displayedPrice? msg = some put.2.price := by
  cases msg with
  | addOrder msg => obtain rfl := Option.some.inj h; rfl
  | addOrderRefresh msg => obtain rfl := Option.some.inj h; rfl
  | replaceOrder msg => obtain rfl := Option.some.inj h; rfl
  | modifyOrder msg =>
      simp only [putHalf] at h
      split at h
      · cases h
      · obtain rfl := Option.some.inj h
        rfl
  | _ => cases h

theorem price_takenOrders {orders : ExtTreeMap UInt64 (LiveOrder P)} {msg : Payload P}
    {id : UInt64} {order : LiveOrder P} (h : (takenOrders orders msg)[id]? = some order) :
    ∃ (id' : UInt64) (old : LiveOrder P), orders[id']? = some old
      ∧ old.price = order.price := by
  have herase : ∀ k : UInt64, (orders.erase k)[id]? = some order →
      orders[id]? = some order := by
    intro k h
    rw [TreeSum.getElem?_erase] at h
    split at h
    · cases h
    · exact h
  cases msg with
  | modifyOrder msg => exact ⟨_, _, herase _ h, rfl⟩
  | deleteOrder msg => exact ⟨_, _, herase _ h, rfl⟩
  | replaceOrder msg => exact ⟨_, _, herase _ h, rfl⟩
  | orderExecution msg =>
      simp only [takenOrders] at h
      split at h
      · exact ⟨_, _, h, rfl⟩
      · rename_i old hold
        rw [executedOrders] at h
        split at h
        · exact ⟨_, _, herase _ h, rfl⟩
        · rw [TreeSum.getElem?_insert] at h
          split at h
          · obtain rfl := Option.some.inj h
            exact ⟨_, _, hold, rfl⟩
          · exact ⟨_, _, h, rfl⟩
  | _ => exact ⟨_, _, h, rfl⟩

/-- Every live order rests at a price that was there before, or at the one that the
message displays. -/
theorem price_nextOrders {orders : ExtTreeMap UInt64 (LiveOrder P)} {msg : Payload P}
    {id : UInt64} {order : LiveOrder P} (h : (nextOrders orders msg)[id]? = some order) :
    (∃ (id' : UInt64) (old : LiveOrder P), orders[id']? = some old
        ∧ old.price = order.price)
      ∨ displayedPrice? msg = some order.price := by
  rw [nextOrders] at h
  split at h
  · exact .inl (price_takenOrders h)
  · rename_i put hput
    rw [TreeSum.getElem?_insert] at h
    split at h
    · obtain rfl := Option.some.inj h
      exact .inr (displayedPrice?_of_putHalf hput)
    · exact .inl (price_takenOrders h)

/-! ## The simulation -/

section Simulation

variable {lt} {s : Set P}

theorem separating_before (hs : Separating lt s) (bid : Bool) :
    Separating (KeyedBook.before lt bid) s := by
  cases bid
  · exact hs
  · exact hs.flip

theorem levels_addLevel (keyed : KeyedBook P) (side : Byte) (price : P) (volume : UInt64)
    (bid : Bool) :
    (keyed.addLevel lt side price volume).levels bid
      = if bid = isBid side
        then KeyedLevels.add (KeyedBook.before lt bid) (keyed.levels bid) price volume
        else keyed.levels bid := by
  unfold KeyedBook.addLevel KeyedBook.levels
  cases isBid side <;> cases bid <;> rfl

theorem levels_removeLevel (keyed : KeyedBook P) (side : Byte) (price : P)
    (volume : UInt64) (bid : Bool) :
    (keyed.removeLevel lt side price volume).1.levels bid
      = if bid = isBid side
        then (KeyedLevels.remove (KeyedBook.before lt bid) (keyed.levels bid) price volume).1
        else keyed.levels bid := by
  unfold KeyedBook.removeLevel KeyedBook.levels
  cases isBid side <;> cases bid <;> rfl

variable [LinearOrder P]

/-- The maps are in order, and their look-ups those of the book over the linear order,
which has no other levels. -/
structure SameLevels (lt : P → P → Bool) (s : Set P) (keyed : KeyedBook P)
    (book : SymbolBook P) : Prop where
  sorted : ∀ bid, Sorted (KeyedBook.before lt bid) s (keyed.levels bid)
  level : ∀ bid, ∀ price ∈ s, keyed.level lt bid price = book.level bid price
  keys : ∀ bid price resting, book.level bid price = some resting → price ∈ s

theorem SameLevels.addLevel (hs : Separating lt s) {keyed : KeyedBook P}
    {book : SymbolBook P} (h : SameLevels lt s keyed book) (side : Byte) {price : P}
    (hprice : price ∈ s) (volume : UInt64) :
    SameLevels lt s (keyed.addLevel lt side price volume)
      (book.addLevel side price volume) := by
  refine ⟨?_, ?_, fun bid q resting hq => ?_⟩
  · intro bid
    rw [levels_addLevel]
    split
    · exact KeyedLevels.sorted_add (separating_before hs bid) (h.sorted bid) hprice volume
    · exact h.sorted bid
  · intro bid q hq
    have hlevel := h.level bid q hq
    rw [KeyedBook.level] at hlevel ⊢
    rw [levels_addLevel, SymbolBook.level_addLevel]
    by_cases hside : bid = isBid side
    · rw [if_pos hside, KeyedLevels.find?_add (separating_before hs bid) (h.sorted bid)
        hprice hq, hlevel]
      simp [hside]
    · rw [if_neg hside, hlevel]
      simp [hside]
  · rw [SymbolBook.level_addLevel] at hq
    split at hq
    · rename_i hat
      exact hat.2 ▸ hprice
    · exact h.keys bid q resting hq

theorem SameLevels.removeLevel (hs : Separating lt s) {keyed : KeyedBook P}
    {book : SymbolBook P} (h : SameLevels lt s keyed book) (side : Byte) {price : P}
    (hprice : price ∈ s) (volume : UInt64) :
    SameLevels lt s (keyed.removeLevel lt side price volume).1
      (book.removeLevel side price volume).1 := by
  refine ⟨?_, ?_, fun bid q resting hq => ?_⟩
  · intro bid
    rw [levels_removeLevel]
    split
    · exact KeyedLevels.sorted_remove (separating_before hs bid) (h.sorted bid) hprice volume
    · exact h.sorted bid
  · intro bid q hq
    have hlevel := h.level bid q hq
    rw [KeyedBook.level] at hlevel ⊢
    rw [levels_removeLevel, SymbolBook.level_removeLevel]
    by_cases hside : bid = isBid side
    · rw [if_pos hside, KeyedLevels.find?_remove (separating_before hs bid) (h.sorted bid)
        hprice hq, hlevel]
      simp [hside]
    · rw [if_neg hside, hlevel]
      simp [hside]
  · rw [SymbolBook.level_removeLevel] at hq
    split at hq
    · rename_i hat
      exact hat.2 ▸ hprice
    · exact h.keys bid q resting hq

/-- `RemoveLevel` returns the same in both. -/
theorem SameLevels.snd_removeLevel {keyed : KeyedBook P} {book : SymbolBook P}
    (h : SameLevels lt s keyed book) (side : Byte) {price : P} (hprice : price ∈ s)
    (volume : UInt64) :
    (keyed.removeLevel lt side price volume).2 = (book.removeLevel side price volume).2 := by
  have hremove : (keyed.removeLevel lt side price volume).2
      = (keyed.level lt (isBid side) price).any fun resting => !(resting < volume) := by
    unfold KeyedBook.removeLevel KeyedBook.level KeyedBook.levels
    cases isBid side
    · exact KeyedLevels.snd_remove ..
    · exact KeyedLevels.snd_remove ..
  rw [hremove, SymbolBook.snd_removeLevel, h.level _ price hprice]

/-- The book over the linear order, with all displayed prices in the set. -/
structure Simulates (lt : P → P → Bool) (s : Set P) (keyed : KeyedBook P)
    (book : SymbolBook P) : Prop extends SameLevels lt s keyed book where
  orders : keyed.orders = book.orders
  prices : ∀ (id : UInt64) (order : LiveOrder P),
    book.orders[id]? = some order → order.price ∈ s

theorem Simulates.takeHalf (hs : Separating lt s) {keyed : KeyedBook P}
    {book : SymbolBook P} (h : Simulates lt s keyed book) (msg : Payload P) :
    SameLevels lt s (keyed.takeHalf lt msg) (book.takeHalf msg).1 := by
  rw [KeyedBook.takeHalf, h.orders, SymbolBook.takeHalf_eq]
  cases ht : removal book.orders msg with
  | none => exact h.toSameLevels
  | some taken =>
      obtain ⟨id, order, ho, -, hprice, -⟩ := removal_le ht
      have hremove := h.toSameLevels.removeLevel hs taken.side
        (hprice ▸ h.prices id order ho) taken.volume
      exact ⟨hremove.sorted, hremove.level, hremove.keys⟩

theorem Simulates.apply (hs : Separating lt s) {keyed : KeyedBook P}
    {book : SymbolBook P} (h : Simulates lt s keyed book) {msg : Payload P}
    (hmsg : ∀ price ∈ displayedPrice? msg, price ∈ s) :
    Simulates lt s (keyed.apply lt msg) (book.apply msg).1 := by
  have htake := h.takeHalf hs msg
  have hhalves : ∀ bid price, (book.apply msg).1.level bid price
      = ((book.takeHalf msg).1.putBack (putHalf book.orders msg)).level bid price := by
    obtain ⟨-, hb, ha⟩ := Display.mk.injEq .. |>.mp
      (SymbolBook.apply_halves book msg).1
    intro bid price
    simp only [SymbolBook.level, hb, ha]
  have hsame : SameLevels lt s (keyed.apply lt msg)
      ((book.takeHalf msg).1.putBack (putHalf book.orders msg)) := by
    rw [KeyedBook.apply, h.orders]
    cases hput : putHalf book.orders msg with
    | none => exact ⟨htake.sorted, htake.level, htake.keys⟩
    | some put =>
        have hadd := htake.addLevel hs put.2.side
          (hmsg _ (displayedPrice?_of_putHalf hput)) put.2.volume
        have hput : ∀ bid price, ((book.takeHalf msg).1.putBack (some put)).level bid price
            = ((book.takeHalf msg).1.addLevel put.2.side put.2.price put.2.volume).level bid
              price := by
          intro bid price
          rw [SymbolBook.putBack, SymbolBook.level_putOrder, SymbolBook.level_addLevel]
        refine ⟨hadd.sorted, fun bid price hprice => ?_, fun bid price resting hl => ?_⟩
        · exact (hadd.level bid price hprice).trans (hput bid price).symm
        · exact hadd.keys bid price resting ((hput bid price).symm.trans hl)
  refine ⟨⟨hsame.sorted, fun bid price hprice => ?_, fun bid price resting hl => ?_⟩, ?_, ?_⟩
  · rw [hhalves]
    exact hsame.level bid price hprice
  · rw [hhalves] at hl
    exact hsame.keys bid price resting hl
  · rw [SymbolBook.apply_orders, ← h.orders]
    rfl
  · intro id order ho
    rw [SymbolBook.apply_orders] at ho
    rcases price_nextOrders ho with ⟨id', old, hold, hprice⟩ | hprice
    · exact hprice ▸ h.prices id' old hold
    · exact hmsg _ hprice

theorem simulates_empty : Simulates lt s ({} : KeyedBook P) {} where
  sorted := fun bid => by cases bid <;> exact sorted_nil
  level := fun bid price _ => by
    unfold KeyedBook.level KeyedBook.levels SymbolBook.level
    cases bid <;> simp [find?]
  keys := fun bid price resting hl => by
    unfold SymbolBook.level at hl
    cases bid <;> simp at hl
  orders := rfl
  prices := fun id order ho => by simp at ho

/-- **The run lemma.** While the displayed prices are in the set, every symbol's book
is the one over the linear order. -/
theorem run_simulates (hs : Separating lt s) {msgs : List (Payload P)}
    (hmsgs : ∀ msg ∈ msgs, ∀ price ∈ displayedPrice? msg, price ∈ s) (symbol : Str) :
    Simulates lt s (KeyedBook.run lt msgs symbol)
      ((OrderBook.run msgs).getOrCreateBook symbol) := by
  induction msgs using List.reverseRecOn with
  | nil =>
      rw [OrderBook.run, List.foldl_nil, OrderBook.getOrCreateBook_empty]
      exact simulates_empty
  | append_singleton msgs msg ih =>
      have ih := ih fun m hm => hmsgs m (by simp [hm])
      rw [OrderBook.run_append_singleton, OrderBook.getOrCreateBook_onMessage, KeyedBook.run,
        List.foldl_append, List.foldl_cons, List.foldl_nil, ← KeyedBook.run,
        KeyedBook.onMessage]
      by_cases hsymbol : symbol = msg.symbol
      · subst hsymbol
        rw [if_pos rfl, Function.update_self]
        exact ih.apply hs (hmsgs msg (by simp))
      · rw [if_neg hsymbol, Function.update_of_ne hsymbol]
        exact ih

/-! ## What follows for the keys -/

theorem Simulates.price_of_removal {keyed : KeyedBook P} {book : SymbolBook P}
    (h : Simulates lt s keyed book) {msg : Payload P} {taken : LiveOrder P}
    (ht : removal keyed.orders msg = some taken) : taken.price ∈ s := by
  rw [h.orders] at ht
  obtain ⟨id, order, ho, -, hprice, -⟩ := removal_le ht
  exact hprice ▸ h.prices id order ho

theorem keys_subset (hs : Separating lt s) {msgs : List (Payload P)}
    (hmsgs : ∀ msg ∈ msgs, ∀ price ∈ displayedPrice? msg, price ∈ s) (symbol : Str)
    (bid : Bool) : KeyedBook.keys lt msgs symbol bid ⊆ s := by
  rintro key ⟨before, msg, after, rfl, -, htouches⟩
  have hbefore : ∀ m ∈ before, ∀ price ∈ displayedPrice? m, price ∈ s :=
    fun m hm => hmsgs m (by simp [hm])
  have hsim := run_simulates hs hbefore symbol
  rcases htouches with ⟨taken, ht, -, rfl⟩ | ⟨put, hput, -, rfl⟩
  · exact hsim.price_of_removal ht
  · exact hmsgs msg (by simp) _ (displayedPrice?_of_putHalf hput)

theorem Simulates.findsOwnLevel (hs : Separating lt s) {keyed : KeyedBook P}
    {book : SymbolBook P} (h : Simulates lt s keyed book) (msg : Payload P) :
    keyed.FindsOwnLevel lt msg := by
  intro id _ order ho resting
  rw [h.orders] at ho
  exact find?_eq_some_iff (separating_before hs _) (h.prices id order ho) (h.sorted _)

theorem Simulates.fits_iff (hs : Separating lt s) {keyed : KeyedBook P} {book : SymbolBook P}
    (h : Simulates lt s keyed book) {msg : Payload P}
    (hmsg : ∀ price ∈ displayedPrice? msg, price ∈ s) :
    keyed.Fits lt msg ↔ book.fits msg = true := by
  rw [KeyedBook.Fits, h.orders, SymbolBook.fits, Option.all_eq_true]
  refine forall₂_congr fun put hput => ?_
  rw [(h.takeHalf hs msg).level _ _ (hmsg _ (displayedPrice?_of_putHalf hput)),
    decide_eq_true_iff]
  rfl

/-- While no level wraps, the levels account for all live orders. -/
theorem run_accounted (hs : Separating lt s) {msgs : List (Payload P)}
    (hmsgs : ∀ msg ∈ msgs, ∀ price ∈ displayedPrice? msg, price ∈ s)
    (hfits : AlongKeyed lt (KeyedBook.Fits lt) msgs) (symbol : Str) :
    ∃ excess, ((OrderBook.run msgs).getOrCreateBook symbol).Accounted excess := by
  induction msgs using List.reverseRecOn with
  | nil =>
      rw [OrderBook.run, List.foldl_nil, OrderBook.getOrCreateBook_empty]
      exact ⟨0, SymbolBook.accounted_empty⟩
  | append_singleton msgs msg ih =>
      obtain ⟨hfits, hfit⟩ := Runs.along_append_singleton.mp hfits
      have hmsgs' := fun m hm => hmsgs m (List.mem_append_left [msg] hm)
      obtain ⟨excess, hacc⟩ := ih hmsgs' hfits
      rw [OrderBook.run_append_singleton, OrderBook.getOrCreateBook_onMessage]
      split
      · rename_i hsymbol
        subst hsymbol
        have hsim := run_simulates hs hmsgs' msg.symbol
        exact ⟨_, hacc.apply ((hsim.fits_iff hs (hmsgs msg (by simp))).mp hfit)⟩
      · exact ⟨excess, hacc⟩

theorem Simulates.storesOwnLevel {keyed : KeyedBook P} {book : SymbolBook P}
    (h : Simulates lt s keyed book) {excess : SymbolBook.Excess P}
    (hacc : book.Accounted excess) (msg : Payload P) : keyed.StoresOwnLevel lt msg := by
  intro id _ order ho hpos
  rw [h.orders] at ho
  have hle := hacc.le_levelVolume ho
  rw [h.level _ _ (h.prices id order ho)]
  rw [SymbolBook.levelVolume] at hle
  have hpos' := UInt64.lt_iff_toNat_lt.mp hpos
  cases hl : book.level (isBid order.side) order.price with
  | none =>
      rw [hl] at hle
      simp only [Option.elim_none, UInt64.toNat_zero] at hle hpos'
      omega
  | some resting =>
      rw [hl] at hle
      exact ⟨resting, rfl, UInt64.le_iff_toNat_le.mpr hle⟩

/-- **Displayed prices that the comparator separates** keep every level map in order. -/
theorem orderedKeys_of_displayed (hs : Separating lt s) {msgs : List (Payload P)}
    (hmsgs : ∀ msg ∈ msgs, ∀ price ∈ displayedPrice? msg, price ∈ s) :
    OrderedKeys lt msgs where
  strictWeak symbol bid :=
    (separating_before hs bid).toStrictWeakOn.mono (keys_subset hs hmsgs symbol bid)
  found := by
    refine Runs.along_iff_forall_append.mpr ?_
    rintro before msg after rfl
    exact (run_simulates hs (fun m hm => hmsgs m (by simp [hm])) _).findsOwnLevel hs msg
  stored hfits := by
    refine Runs.along_iff_forall_append.mpr ?_
    rintro before msg after rfl
    have hmsgs' : ∀ m ∈ before, ∀ price ∈ displayedPrice? m, price ∈ s :=
      fun m hm => hmsgs m (by simp [hm])
    obtain ⟨excess, hacc⟩ := run_accounted hs hmsgs' (Runs.along_append.mp hfits).1 msg.symbol
    exact (run_simulates hs hmsgs' _).storesOwnLevel hacc msg

end Simulation

end Mde
