import Mde.BookIndependence
import Mde.FeedFile
import Mde.Frozen
import Mde.ReferenceFiles

/-!
# The snapshots of the BBO validation

The callback of `bbo-validation`: it drives an order book, and whenever a
book event of a symbol with a reference quote is not later than that
quote, it freezes the symbol's top of book.

`frozen_run` says what is frozen in the end: for each symbol the top of
book after the last event that qualified. When the timestamps of a
symbol's events do not decrease, this is the top of the book of exactly
the events up to the reference time, and of no other message
(`frozen_eq_of_nondecreasing`); `frozen_at_reference` says it of the
engine, for every interleaving of its threads.
-/

open Std

namespace Mde

open Messages Nyse

variable {P : Type} [LinearOrder P]

/-! ## The callback -/

structure BookEventMeta where
  symbol : Str := []
  nanosSinceMidnight : UInt64 := 0
  mutatesBook : Bool := false

omit [LinearOrder P] in
def extractBookEventMeta : Payload P → BookEventMeta
  | .addOrder msg => ⟨msg.symbol, msg.nanosSinceMidnight, true⟩
  | .modifyOrder msg => ⟨msg.symbol, msg.nanosSinceMidnight, true⟩
  | .deleteOrder msg => ⟨msg.symbol, msg.nanosSinceMidnight, true⟩
  | .orderExecution msg => ⟨msg.symbol, msg.nanosSinceMidnight, true⟩
  | .replaceOrder msg => ⟨msg.symbol, msg.nanosSinceMidnight, true⟩
  | .addOrderRefresh msg => ⟨msg.symbol, msg.nanosSinceMidnight, true⟩
  | _ => {}

structure BboState (P : Type) [LinearOrder P] where
  book : OrderBook P := {}
  frozen : ExtTreeMap Str (TopOfBook P) := ∅

/-- The callback that `bbo-validation` gives the engine. -/
def bboCallback (reference : Quotes P) (state : BboState P) (data : Payload P) :
    BboState P :=
  let book := state.book.onMessage data
  let event := extractBookEventMeta data
  if !event.mutatesBook then { state with book }
  else
    match reference[event.symbol]? with
    | none => { state with book }
    | some quote =>
      if event.nanosSinceMidnight ≤ quote.nanosSinceMidnight then
        { book, frozen := state.frozen.insert event.symbol (book.getTopOfBook event.symbol) }
      else { state with book }

/-! ## What is frozen -/

section Events

omit [LinearOrder P]

theorem mutatesBook_eq (data : Payload P) :
    (extractBookEventMeta data).mutatesBook = isOrderMessage data := by
  cases data <;> rfl

theorem symbol_extractBookEventMeta {data : Payload P} (h : isOrderMessage data = true) :
    (extractBookEventMeta data).symbol = data.symbol := by
  cases data <;> first | rfl | cases h

def isEventOf (symbol : Str) (data : Payload P) : Bool :=
  isOrderMessage data && data.symbol == symbol

def eventTime (data : Payload P) : UInt64 := (extractBookEventMeta data).nanosSinceMidnight

/-- A book event of the symbol that is not later than its reference quote. -/
def qualifies (reference : Quotes P) (symbol : Str) (data : Payload P) : Bool :=
  isEventOf symbol data
    && (reference[symbol]?).any fun quote => eventTime data ≤ quote.nanosSinceMidnight

theorem isEventOf_of_qualifies {reference : Quotes P} {symbol : Str} {data : Payload P}
    (h : qualifies reference symbol data = true) : isEventOf symbol data = true :=
  (Bool.and_eq_true_iff.mp h).1

theorem qualifies_of_le {reference : Quotes P} {symbol : Str} {data data' : Payload P}
    (hevent : isEventOf symbol data = true) (hle : eventTime data ≤ eventTime data')
    (h : qualifies reference symbol data' = true) : qualifies reference symbol data = true := by
  obtain ⟨-, htime⟩ := Bool.and_eq_true_iff.mp h
  obtain ⟨quote, hquote, hle'⟩ := Option.any_eq_true .. |>.mp htime
  refine Bool.and_eq_true_iff.mpr ⟨hevent, Option.any_eq_true .. |>.mpr ⟨quote, hquote, ?_⟩⟩
  simp only [decide_eq_true_eq] at hle' ⊢
  exact UInt64.le_trans hle hle'

end Events

theorem book_bboCallback (reference : Quotes P) (state : BboState P) (data : Payload P) :
    (bboCallback reference state data).book = state.book.onMessage data := by
  rw [bboCallback]
  split
  · rfl
  · split
    · rfl
    · split <;> rfl

theorem frozen_bboCallback (reference : Quotes P) (state : BboState P) (data : Payload P)
    (symbol : Str) :
    (bboCallback reference state data).frozen[symbol]?
      = if qualifies reference symbol data then
          some ((state.book.onMessage data).getTopOfBook symbol)
        else state.frozen[symbol]? := by
  rw [bboCallback, mutatesBook_eq]
  cases hevent : isOrderMessage data with
  | false => simp [qualifies, isEventOf, hevent]
  | true =>
      rw [symbol_extractBookEventMeta hevent]
      simp only [qualifies, isEventOf, hevent, Bool.not_true, Bool.false_eq_true, if_false,
        Bool.true_and]
      by_cases hs : symbol = data.symbol
      · subst hs
        cases hquote : reference[data.symbol]? with
        | none => simp
        | some quote =>
            dsimp only
            split
            · rename_i hle
              simp [eventTime, hle]
            · rename_i hlt
              simp [eventTime, hlt]
      · have hother : (data.symbol == symbol) = false := by simpa using Ne.symm hs
        rw [hother]
        cases reference[data.symbol]? with
        | none => rfl
        | some quote =>
            dsimp only
            split
            · simp [TreeSum.getElem?_insert, hs]
            · rfl

/-- What the callback has frozen for a symbol: the top of its book after the last event
that qualified. -/
theorem frozen_run (reference : Quotes P) (msgs : List (Payload P)) (symbol : Str) :
    (msgs.foldl (bboCallback reference) {}).frozen[symbol]?
      = if Frozen.upTo (qualifies reference symbol) msgs = [] then none
        else some ((OrderBook.run
          (Frozen.upTo (qualifies reference symbol) msgs)).getTopOfBook symbol) := by
  have hstep : ∀ (state : BboState P) (data : Payload P),
      Frozen.freeze OrderBook.onMessage (fun ob => ob.getTopOfBook symbol)
          (qualifies reference symbol) (state.book, state.frozen[symbol]?) data
        = ((bboCallback reference state data).book,
          (bboCallback reference state data).frozen[symbol]?) := by
    intro state data
    rw [Frozen.freeze, book_bboCallback, frozen_bboCallback]
  have hrun : msgs.foldl (Frozen.freeze OrderBook.onMessage
        (fun ob => ob.getTopOfBook symbol) (qualifies reference symbol)) ({}, none)
      = ((msgs.foldl (bboCallback reference) {}).book,
        (msgs.foldl (bboCallback reference) {}).frozen[symbol]?) := by
    rw [← List.foldl_hom (fun state : BboState P => (state.book, state.frozen[symbol]?)) hstep,
      show (({} : BboState P).frozen[symbol]?) = none from by simp]
  rw [Frozen.foldl_freeze] at hrun
  exact (congrArg Prod.snd hrun).symm

theorem getTopOfBook_filter_isEventOf (msgs : List (Payload P)) (symbol : Str) :
    (OrderBook.run (msgs.filter (isEventOf symbol))).getTopOfBook symbol
      = (OrderBook.run msgs).getTopOfBook symbol := by
  have hdisplay : (OrderBook.run (msgs.filter isOrderMessage)).getTopOfBook symbol
      = (OrderBook.run msgs).getTopOfBook symbol :=
    (sameDisplayed_of_filter_eq (by simp [List.filter_filter])).topOfBook symbol
  have hown : OrderBook.own symbol (msgs.filter (isEventOf symbol))
      = OrderBook.own symbol (msgs.filter isOrderMessage) := by
    simp only [OrderBook.own, Shard.Machine.own, List.filter_filter]
    refine List.filter_congr fun data _ => ?_
    by_cases hsymbol : data.symbol = symbol
    · simp [isEventOf, OrderBook.machine, hsymbol]
    · simp [isEventOf, OrderBook.machine, hsymbol]
  rw [← hdisplay, OrderBook.getTopOfBook_eq, OrderBook.getTopOfBook_eq,
    OrderBook.getOrCreateBook_run, OrderBook.getOrCreateBook_run, hown]

/-- When the timestamps of a symbol's events do not decrease, what is frozen is the top
of the book of the events that qualify, whatever else happened. -/
theorem frozen_eq_of_nondecreasing (reference : Quotes P) {msgs : List (Payload P)}
    {symbol : Str} (h : (msgs.filter (isEventOf symbol)).Pairwise
      fun data data' => eventTime data ≤ eventTime data') :
    (msgs.foldl (bboCallback reference) {}).frozen[symbol]?
      = if msgs.filter (qualifies reference symbol) = [] then none
        else some ((OrderBook.run
          (msgs.filter (qualifies reference symbol))).getTopOfBook symbol) := by
  have hfirst : (msgs.filter (isEventOf symbol)).Pairwise fun data data' =>
      qualifies reference symbol data' = true → qualifies reference symbol data = true :=
    h.imp_of_mem fun hmem _ hle => qualifies_of_le (List.mem_filter.mp hmem).2 hle
  have hevents : (Frozen.upTo (qualifies reference symbol) msgs).filter (isEventOf symbol)
      = msgs.filter (qualifies reference symbol) :=
    Frozen.filter_upTo (fun _ => isEventOf_of_qualifies) hfirst
  rw [frozen_run, ← getTopOfBook_filter_isEventOf, hevents]
  simp only [Frozen.upTo_eq_nil_iff]

/-! ## The driver -/

section Driver

variable {fromChars : Str → FromChars P} {reference : Quotes P} {ingestType : IngestData}
  {pathExists : Bool} {disk : Option Str} {start e : FileEngine P (BboState P)}
  {actions : List Engine.Action}

theorem sink_joined (hstart : FileEngine.construct ingestType pathExists {} = .ok start)
    (h : Guarded.play (FileEngine.step fromChars
      (fun state message => bboCallback reference state message.data) disk) start actions = some e)
    (hjoined : e.engine.Joined) (hstop : e.engine.stopRequested = false) :
    e.engine.egress.sink = ((decoded fromChars (FileEngine.lines disk)).map Message.data).foldl
      (bboCallback reference) {} := by
  have hobserved := ((FileEngine.play_sound hstart h).joined hjoined hstop).2
  rw [Sequential.run_eq] at hobserved
  rw [List.foldl_map]
  exact (Sequential.mk.injEq .. |>.mp hobserved).2.2.2.2

/-- **The snapshots are the books at the reference times.** Once `Join` has returned
without a stop, whatever the interleaving: the book is that of the whole file; what is
frozen of a symbol is its top of book after the last of its book events that is not later
than its reference quote, and nothing without such an event; and when the timestamps of
its book events do not decrease, this is the top of the book of exactly the events up to
the reference time. -/
theorem frozen_at_reference
    (hstart : FileEngine.construct ingestType pathExists {} = .ok start)
    (h : Guarded.play (FileEngine.step fromChars
      (fun state message => bboCallback reference state message.data) disk) start actions = some e)
    (hjoined : e.engine.Joined) (hstop : e.engine.stopRequested = false) :
    let events := (decoded fromChars (FileEngine.lines disk)).map Message.data
    let state := e.engine.egress.sink
    state.book = OrderBook.run events
      ∧ ∀ symbol,
        (state.frozen[symbol]?
          = if Frozen.upTo (qualifies reference symbol) events = [] then none
            else some ((OrderBook.run
              (Frozen.upTo (qualifies reference symbol) events)).getTopOfBook symbol))
        ∧ ((events.filter (isEventOf symbol)).Pairwise
            (fun data data' => eventTime data ≤ eventTime data') →
          state.frozen[symbol]?
            = if events.filter (qualifies reference symbol) = [] then none
              else some ((OrderBook.run
                (events.filter (qualifies reference symbol))).getTopOfBook symbol)) := by
  intro events state
  rw [show state = events.foldl (bboCallback reference) {} from
    sink_joined hstart h hjoined hstop]
  refine ⟨?_, fun symbol => ⟨frozen_run reference events symbol,
    frozen_eq_of_nondecreasing reference⟩⟩
  rw [OrderBook.run]
  exact (List.foldl_hom BboState.book
    fun state data => (book_bboCallback reference state data).symm).symm

end Driver

section Sample

/-- Two bids for a symbol, a minute apart. -/
def sampleFeed : Str :=
  "100,7,09:30:00.000000001,A,1,55,125,300,B,F,\n100,8,09:31:00.000000001,A,2,56,130,200,B,F,"
    |>.toList.map Char.toUInt8

def sampleQuotes : Quotes Nat :=
  ({} : Quotes Nat).insert (digitsOf "A") ⟨126, 100, 125, 300, 34230000000000⟩

def sampleActions : List Engine.Action :=
  [.turn .ingest, .callJoin] ++ List.replicate 8 (.turn .ingest)
    ++ List.replicate 7 (.turn .egress) ++ List.replicate 3 (.turn .owner)

def sampleDriver : FileEngine Nat (BboState Nat) := { engine := Engine.new [] {} }

abbrev sampleRun : Option (FileEngine Nat (BboState Nat)) :=
  Guarded.play (FileEngine.step Engine.sampleFromChars
    (fun state message => bboCallback sampleQuotes state message.data) (some sampleFeed))
    sampleDriver sampleActions

theorem sampleRun_isSome : sampleRun.isSome = true := by decide +kernel

/-- The later bid is in the book, and not in the snapshot. -/
theorem frozen_at_reference_sample :
    let state := (sampleRun.get sampleRun_isSome).engine.egress.sink
    let events := (decoded Engine.sampleFromChars (FileEngine.lines (some sampleFeed))).map
      Message.data
    state.frozen[digitsOf "A"]? = some { bestBid := some ⟨125, 300⟩ }
      ∧ state.book.getTopOfBook (digitsOf "A") = { bestBid := some ⟨130, 200⟩ }
      ∧ (events.filter (qualifies sampleQuotes (digitsOf "A"))).length = 1 := by
  intro state events
  have hstart : FileEngine.construct IngestData.nysePillar true {} = .ok sampleDriver := rfl
  have hrun : sampleRun = some (sampleRun.get sampleRun_isSome) := (Option.some_get _).symm
  obtain ⟨hbook, hfrozen⟩ := frozen_at_reference hstart hrun
    ⟨by decide +kernel, by decide +kernel⟩ (by decide +kernel)
  refine ⟨((hfrozen (digitsOf "A")).2 (by decide +kernel)).trans (by decide +kernel), ?_,
    by decide +kernel⟩
  exact (congrArg (OrderBook.getTopOfBook · (digitsOf "A")) hbook).trans (by decide +kernel)

end Sample

end Mde
