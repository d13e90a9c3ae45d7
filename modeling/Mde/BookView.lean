import Mde.BookKeys
import Mde.FloatOrder

/-!
# What a comparator's book shows

The results on the displayed book are proved over a linear order of
prices. The source's prices are `double`s and its level maps ordered by
their `<`, which is a linear order's on all values but NaN. As long as no
displayed price is NaN, the book of the source is the one over the linear
order, entry by entry (`run_eq_view`) and failure by failure
(`failures_eq`), so the results are about the source's book, which is how
their final forms state them.

With a NaN among the prices none of this holds: other orders may be
booked on its level.
-/

open Std OrderDual ComparatorMap FloatOrder

namespace Mde

open Messages

variable {P : Type*} (lt : P → P → Bool)

/-! ## What is shown -/

namespace KeyedBook

/-- Handling the message raises `_bookBuildFailures`: the order it names is not live, or
`RemoveLevel` returns `false`. -/
def fails (book : KeyedBook P) (msg : Payload P) : Bool :=
  misses book.orders.contains msg
    || (removal book.orders msg).any fun taken =>
      !(book.removeLevel lt taken.side taken.price taken.volume).2

/-- `GetBookBuildFailures`. -/
def failures (msgs : List (Payload P)) : Nat :=
  Runs.countAlong (onMessage lt) (fun books msg => (books msg.symbol).fails lt msg)
    (fun _ => {}) msgs

/-- The two `begin()` entries. -/
def topOfBook (book : KeyedBook P) : TopOfBook P where
  bestBid := book.bidLevels.head?.map fun e => ⟨e.1, e.2⟩
  bestAsk := book.askLevels.head?.map fun e => ⟨e.1, e.2⟩

/-- Two runs end with the same orders and levels of every symbol, and have counted the
same build failures. -/
structure SameView (msgs msgs' : List (Payload P)) : Prop where
  books : run lt msgs = run lt msgs'
  failures : failures lt msgs = failures lt msgs'

instance (book : KeyedBook P) (msg : Payload P) : Decidable (book.Fits lt msg) :=
  Option.decidableForallMem _

end KeyedBook

instance (ok : KeyedBook P → Payload P → Prop) [∀ book msg, Decidable (ok book msg)]
    (msgs : List (Payload P)) : Decidable (AlongKeyed lt ok msgs) :=
  inferInstanceAs (Decidable (Runs.Along (KeyedBook.onMessage lt)
    (fun books msg => ok (books msg.symbol) msg) (fun _ => {}) msgs))

/-! ## A book over a linear order, as one over its comparator -/

section View

variable [LinearOrder P]

/-- The displayed part of a book, its level maps as the lists of their entries. -/
def SymbolBook.view (book : SymbolBook P) : KeyedBook P where
  orders := book.orders
  bidLevels := book.entries true
  askLevels := book.entries false

namespace SymbolBook

theorem mem_levels_view {book : SymbolBook P} {bid : Bool} {price : P} {resting : UInt64} :
    (price, resting) ∈ book.view.levels bid ↔ book.level bid price = some resting := by
  cases bid with
  | true =>
      show _ ∈ List.map _ _ ↔ book.bidLevels[toDual price]? = _
      rw [List.mem_map, ← ExtTreeMap.mem_toList_iff_getElem?_eq_some]
      constructor
      · rintro ⟨⟨q, v⟩, hmem, heq⟩
        obtain ⟨rfl, rfl⟩ := Prod.mk.inj heq
        exact hmem
      · exact fun hmem => ⟨_, hmem, rfl⟩
  | false => exact ExtTreeMap.mem_toList_iff_getElem?_eq_some

theorem topOfBook_view (book : SymbolBook P) : book.view.topOfBook = book.topOfBook := by
  show TopOfBook.mk ((book.bidLevels.toList.map fun e => (ofDual e.1, e.2)).head?.map _) _ = _
  rw [List.head?_map, Option.map_map]
  rfl

theorem view_eq_iff {book book' : SymbolBook P} :
    book.view = book'.view ↔ book.display = book'.display := by
  constructor
  · intro h
    have hlevel : ∀ bid price, book.level bid price = book'.level bid price := by
      intro bid price
      refine Option.ext fun resting => ?_
      rw [← mem_levels_view, h, mem_levels_view]
    obtain ⟨hbid, hask⟩ := levels_ext hlevel
    exact Display.ext (congrArg KeyedBook.orders h) hbid hask
  · intro h
    obtain ⟨horders, hbid, hask⟩ := Display.mk.injEq .. |>.mp h
    simp only [view, entries, horders, hbid, hask]

end SymbolBook

end View

/-! ## The comparator's book is the view -/

section Transfer

variable [LinearOrder P] {lt} {s : Set P}

/-- A book and the one it simulates fail on the same messages. -/
theorem Simulates.fails_eq {keyed : KeyedBook P} {book : SymbolBook P}
    (h : Simulates lt s keyed book) (msg : Payload P) :
    (keyed.fails lt msg).toNat = (book.apply msg).2.bookBuild := by
  rw [SymbolBook.apply_bookBuild, KeyedBook.fails, h.orders]
  cases ht : removal book.orders msg with
  | none => rw [Option.any_none, Bool.or_false, Nat.add_zero]
  | some taken =>
      obtain ⟨id, order, ho, -, hprice, -⟩ := removal_le ht
      rw [misses_eq_false_of_removal ht, Bool.false_or, Option.any_some,
        h.toSameLevels.snd_removeLevel _ (hprice ▸ h.prices id order ho)]
      cases hok : (book.removeLevel taken.side taken.price taken.volume).2 <;> simp [hok]

variable (hlt : ∀ x ∈ s, ∀ y ∈ s, lt x y = decide (x < y))

include hlt

/-- The entries of a view whose prices are in the set are in the comparator's order. -/
theorem sorted_view {book : SymbolBook P}
    (hkeys : ∀ bid price resting, book.level bid price = some resting → price ∈ s) (bid : Bool) :
    Sorted (KeyedBook.before lt bid) s (book.view.levels bid) := by
  have hmem : ∀ e ∈ book.view.levels bid, e.1 ∈ s := fun e he =>
    hkeys bid e.1 e.2 (SymbolBook.mem_levels_view.mp he)
  refine ⟨?_, hmem⟩
  cases bid with
  | true =>
      have hord := book.bidLevels.ordered_keys_toList
      refine List.Pairwise.imp_of_mem ?_
        (List.pairwise_map.mpr (hord.imp fun {a b} hab => compare_lt_iff_lt.mp hab) :
          (book.view.levels true).Pairwise fun e e' => toDual e.1 < toDual e'.1)
      intro a b ha hb hab
      show lt b.1 a.1 = true
      rw [hlt b.1 (hmem b hb) a.1 (hmem a ha)]
      exact decide_eq_true hab
  | false =>
      have hord := book.askLevels.ordered_keys_toList
      refine List.Pairwise.imp_of_mem ?_ hord
      intro a b ha hb hab
      show lt a.1 b.1 = true
      rw [hlt a.1 (hmem a ha) b.1 (hmem b hb)]
      exact decide_eq_true (compare_lt_iff_lt.mp hab)

/-- A book that simulates another one shows it: the lists are in the same order and have
the same entries. -/
theorem Simulates.eq_view {keyed : KeyedBook P} {book : SymbolBook P}
    (h : Simulates lt s keyed book) : keyed = book.view := by
  have hs := separating_of_eq_decide hlt
  have hlevels : ∀ bid, keyed.levels bid = book.view.levels bid := by
    intro bid
    refine (h.sorted bid).ext (separating_before hs bid).toStrictWeakOn
      (sorted_view hlt h.keys bid) ?_
    rintro ⟨price, resting⟩
    rw [SymbolBook.mem_levels_view]
    constructor
    · intro hmem
      have hprice : price ∈ s := (h.sorted bid).keys _ hmem
      rw [← h.level bid price hprice]
      exact (find?_eq_some_iff (separating_before hs bid) hprice (h.sorted bid)).mpr hmem
    · intro hl
      have hprice := h.keys bid price resting hl
      rw [← h.level bid price hprice] at hl
      exact (find?_eq_some_iff (separating_before hs bid) hprice (h.sorted bid)).mp hl
  obtain ⟨orders, bidLevels, askLevels⟩ := keyed
  obtain rfl : orders = book.orders := h.orders
  obtain rfl : bidLevels = book.view.bidLevels := hlevels true
  obtain rfl : askLevels = book.view.askLevels := hlevels false
  rfl

variable {msgs : List (Payload P)}
  (hmsgs : ∀ msg ∈ msgs, ∀ price ∈ displayedPrice? msg, price ∈ s)

include hmsgs

/-- **The comparator's book is the order book.** -/
theorem run_eq_view (symbol : Str) :
    KeyedBook.run lt msgs symbol = ((OrderBook.run msgs).getOrCreateBook symbol).view :=
  (run_simulates (separating_of_eq_decide hlt) hmsgs symbol).eq_view hlt

theorem failures_eq :
    KeyedBook.failures lt msgs = (OrderBook.run msgs).getBookBuildFailures := by
  induction msgs using List.reverseRecOn with
  | nil => rfl
  | append_singleton msgs msg ih =>
      have hmsgs' : ∀ m ∈ msgs, ∀ price ∈ displayedPrice? m, price ∈ s :=
        fun m hm => hmsgs m (List.mem_append_left _ hm)
      have hsim := run_simulates (separating_of_eq_decide hlt) hmsgs' msg.symbol
      rw [KeyedBook.failures, Runs.countAlong_append_singleton, ← KeyedBook.failures, ih hmsgs',
        ← KeyedBook.run, hsim.fails_eq, OrderBook.run_append_singleton]
      rfl

theorem alongKeyed_iff (ok : KeyedBook P → Payload P → Prop) :
    AlongKeyed lt ok msgs ↔ Runs.Along OrderBook.onMessage
      (fun ob msg => ok (ob.getOrCreateBook msg.symbol).view msg) {} msgs := by
  rw [AlongKeyed, Runs.along_iff_forall_append, Runs.along_iff_forall_append]
  refine forall₃_congr fun before msg after => forall_congr' fun hsplit => ?_
  have hbefore : ∀ m ∈ before, ∀ price ∈ displayedPrice? m, price ∈ s := fun m hm =>
    hmsgs m (hsplit ▸ List.mem_append_left _ hm)
  rw [← KeyedBook.run, run_eq_view hlt hbefore, OrderBook.run]

theorem along_fits_iff :
    AlongKeyed lt (KeyedBook.Fits lt) msgs
      ↔ Runs.Along OrderBook.onMessage OrderBook.Fits {} msgs := by
  rw [AlongKeyed, Runs.along_iff_forall_append, Runs.along_iff_forall_append]
  refine forall₃_congr fun before msg after => forall_congr' fun hsplit => ?_
  have hbefore : ∀ m ∈ before, ∀ price ∈ displayedPrice? m, price ∈ s := fun m hm =>
    hmsgs m (hsplit ▸ List.mem_append_left _ hm)
  have hs := separating_of_eq_decide hlt
  exact (run_simulates hs hbefore msg.symbol).fits_iff hs
    (hmsgs msg (by rw [hsplit]; simp))

end Transfer

/-! ## Two runs that show the same -/

/-- Two order books have the same displayed part, symbol by symbol, and the same build
failures. -/
structure OrderBook.AgreeOnDisplay [LinearOrder P] (ob ob' : OrderBook P) : Prop where
  display : ∀ symbol,
    (ob.getOrCreateBook symbol).display = (ob'.getOrCreateBook symbol).display
  bookBuildFailures : ob.getBookBuildFailures = ob'.getBookBuildFailures

theorem sameView_iff [LinearOrder P] {lt} {s : Set P}
    (hlt : ∀ x ∈ s, ∀ y ∈ s, lt x y = decide (x < y)) {msgs msgs' : List (Payload P)}
    (hmsgs : ∀ msg ∈ msgs, ∀ price ∈ displayedPrice? msg, price ∈ s)
    (hmsgs' : ∀ msg ∈ msgs', ∀ price ∈ displayedPrice? msg, price ∈ s) :
    KeyedBook.SameView lt msgs msgs'
      ↔ (OrderBook.run msgs).AgreeOnDisplay (OrderBook.run msgs') := by
  have hbooks : KeyedBook.run lt msgs = KeyedBook.run lt msgs'
      ↔ ∀ symbol, ((OrderBook.run msgs).getOrCreateBook symbol).display
          = ((OrderBook.run msgs').getOrCreateBook symbol).display := by
    rw [funext_iff]
    refine forall_congr' fun symbol => ?_
    rw [run_eq_view hlt hmsgs, run_eq_view hlt hmsgs', SymbolBook.view_eq_iff]
  have hfailures : KeyedBook.failures lt msgs = KeyedBook.failures lt msgs'
      ↔ (OrderBook.run msgs).getBookBuildFailures
        = (OrderBook.run msgs').getBookBuildFailures := by
    rw [failures_eq hlt hmsgs, failures_eq hlt hmsgs']
  exact ⟨fun h => ⟨hbooks.mp h.books, hfailures.mp h.failures⟩,
    fun h => ⟨hbooks.mpr h.display, hfailures.mpr h.bookBuildFailures⟩⟩

/-! ## Floating-point prices -/

section NoNan

variable {R : Type*}

def NoNan (msgs : List (Payload (Value R))) : Prop :=
  ∀ msg ∈ msgs, ∀ price ∈ displayedPrice? msg, price ≠ .nan

instance [DecidableEq R] (msgs : List (Payload (Value R))) : Decidable (NoNan msgs) :=
  inferInstanceAs (Decidable (∀ msg ∈ msgs, ∀ price ∈ displayedPrice? msg, price ≠ .nan))

variable {msg : Payload (Value R)} {msgs msgs' : List (Payload (Value R))}

@[simp] theorem noNan_nil : NoNan ([] : List (Payload (Value R))) := by simp [NoNan]

@[simp] theorem noNan_cons_iff :
    NoNan (msg :: msgs) ↔ (∀ price, displayedPrice? msg = some price → price ≠ .nan)
      ∧ NoNan msgs := List.forall_mem_cons

@[simp] theorem noNan_append_iff : NoNan (msgs ++ msgs') ↔ NoNan msgs ∧ NoNan msgs' :=
  List.forall_mem_append

variable [LinearOrder R]

theorem NoNan.price_ne_nan (h : NoNan msgs) {symbol : Str} {id : UInt64}
    {order : LiveOrder (Value R)}
    (ho : ((OrderBook.run msgs).getOrCreateBook symbol).orders[id]? = some order) :
    order.price ≠ .nan :=
  (run_simulates Value.separating_ne_nan h symbol).prices id order ho

end NoNan

end Mde
