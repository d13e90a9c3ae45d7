import Mde.BookView
import Mde.Decode
import Mde.DoubleScan
import Mde.Sequential

/-!
# From the price column to the level maps

A displayed price is the number in one column of its line, and the keys
of the level maps are displayed prices. `std::from_chars` reads spellings
of the infinities and of NaN as well, and nothing behind it looks at the
value.

* `displayedPrice?_decode` — the emitted price is the value of the
  line's price column.
* `OrderedPrices` — all displayed prices are finite numbers, and the
  keys of the level maps are in order.
* `orderedPrices_iff` — so it is exactly when no accepted line spells
  an infinity or NaN there.
* `nanLines` — what one NaN does: later orders are booked on its level.
-/

namespace Mde.Nyse

open ComparatorMap FloatOrder Messages

/-! ## The price column -/

def priceColumn? : MessageType → Option Nat
  | .addOrder => some 6
  | .modifyOrder => some 6
  | .replaceOrder => some 7
  | .addOrderRefresh => some 6
  | _ => none

theorem leaf_of_priceColumn? {type : MessageType} {i : Nat} (h : priceColumn? type = some i) :
    (wireMembers type).leaves[i]? = some (.price, .base .double) := by
  cases type <;> first | cases h; done | (obtain rfl := Option.some.inj h; rfl)

section Decoding

variable {P : Type} {fromChars : Str → FromChars P}

theorem displayedPrice?_isSome_iff (payload : Payload P) :
    (displayedPrice? payload).isSome ↔ (priceColumn? payload.type).isSome := by
  cases payload <;> rfl

theorem mem_members_of_displayedPrice? {payload : Payload P} {price : P}
    (h : displayedPrice? payload = some price) : (.price, .double price) ∈ members payload := by
  cases payload <;> first
    | (cases h; done)
    | (obtain rfl := Option.some.inj h; simp [members, headerMembers])

/-- **The displayed price is the value of the price column.** -/
theorem displayedPrice?_decode {texts : List Str} {message : Message P} {price : P}
    (hdecode : decode fromChars texts = some message)
    (h : displayedPrice? message.data = some price) :
    ∃ (i : Nat) (text : Str), priceColumn? message.type = some i ∧ texts[i]? = some text
      ∧ parseStdType fromChars text = .ok price := by
  obtain ⟨type, row, -, hrow, rfl⟩ := (decode_eq_some_iff fromChars).mp hdecode
  have hcolumn := (displayedPrice?_isSome_iff _).mp (Option.isSome_of_eq_some h)
  obtain ⟨i, hi⟩ := Option.isSome_iff_exists.mp hcolumn
  rw [(emit type row).tagged] at hi
  change priceColumn? type = some i at hi
  obtain ⟨j, ⟨leaf, value⟩, text, htext, hleaf, hparse, hmember, hunique⟩ :=
    exists_givenBy fromChars hrow (mem_members_of_displayedPrice? h)
  obtain rfl : i = j := hunique i _ (leaf_of_priceColumn? hi) rfl
  rw [leaf_of_priceColumn? hi] at hleaf
  obtain rfl := Option.some.inj hleaf
  obtain rfl : price = value := FieldValue.double.inj (congrArg Prod.snd hmember)
  refine ⟨i, text, hi, htext, ?_⟩
  change (parseStdType fromChars text).toOption = some price at hparse
  cases hvalue : parseStdType fromChars text with
  | error e => rw [hvalue] at hparse; cases hparse
  | ok value =>
      rw [hvalue] at hparse
      cases hparse
      rfl

theorem Accepts.displayedPrice? {type : MessageType} {texts : List Str} {i : Nat}
    (h : Accepts fromChars type texts) (hi : priceColumn? type = some i) :
    ∃ (message : Message P) (price : P), decode fromChars texts = some message
      ∧ message.type = type ∧ Mde.displayedPrice? message.data = some price := by
  obtain ⟨message, hdecode, htype⟩ := (exists_decode_iff fromChars).mpr h
  have hsome : (Mde.displayedPrice? message.data).isSome := by
    rw [displayedPrice?_isSome_iff, message.tagged, htype, hi]
    rfl
  obtain ⟨price, hprice⟩ := Option.isSome_iff_exists.mp hsome
  exact ⟨message, price, hdecode, htype, hprice⟩

end Decoding

/-! ## Ordered prices -/

section OrderedPrices

variable {R : Type} [LinearOrder R] (round : Decimal → Option R)

def payloads (lines : List Str) : List (Payload (Value R)) :=
  (decoded (doubleFromChars round) lines).map Message.data

/-- Every price that is emitted for display is a finite number, and only ordered keys
reach the level maps. -/
structure OrderedPrices (lines : List Str) : Prop where
  finite : ∀ line ∈ lines, ∀ (parser : Parser) (message : Message (Value R))
    (price : Value R), (parseNext (doubleFromChars round) parser line).emitted = some message →
      displayedPrice? message.data = some price → price.isFinite = true
  keys : OrderedKeys Value.lt (payloads round lines)

/-- The line is accepted as an Add, Modify, Replace or Refresh, and an infinity or NaN
stands in its price column. -/
def NonFinitePrice (line : Str) : Prop :=
  ∃ (type : MessageType) (i : Nat) (text : Str),
    Accepts (doubleFromChars round) type (columns line)
      ∧ priceColumn? type = some i ∧ (columns line)[i]? = some text ∧ NonFiniteSpelling text

variable {round}

omit [LinearOrder R] in
theorem nonFinitePrice_iff {line : Str} :
    NonFinitePrice round line
      ↔ ∃ (message : Message (Value R)) (price : Value R),
        decode (doubleFromChars round) (columns line) = some message
          ∧ displayedPrice? message.data = some price ∧ price.isFinite = false := by
  constructor
  · rintro ⟨type, i, text, haccepts, hi, htext, hspelling⟩
    obtain ⟨message, price, hdecode, htype, hprice⟩ := haccepts.displayedPrice? hi
    obtain ⟨i', text', hi', htext', hparse⟩ := displayedPrice?_decode hdecode hprice
    rw [htype, hi] at hi'
    obtain rfl := Option.some.inj hi'
    rw [htext] at htext'
    obtain rfl := Option.some.inj htext'
    obtain ⟨value, hvalue, hfinite⟩ : ∃ value,
        parseStdType (doubleFromChars round) text = .ok value ∧ value.isFinite = false :=
      parseDouble_nonFinite_iff.mpr hspelling
    rw [hvalue] at hparse
    obtain rfl := Except.ok.inj hparse
    exact ⟨message, value, hdecode, hprice, hfinite⟩
  · rintro ⟨message, price, hdecode, hprice, hfinite⟩
    obtain ⟨i, text, hi, htext, hparse⟩ := displayedPrice?_decode hdecode hprice
    exact ⟨message.type, i, text, (exists_decode_iff _).mp ⟨message, hdecode, rfl⟩, hi, htext,
      parseDouble_nonFinite_iff.mp ⟨price, hparse, hfinite⟩⟩

omit [LinearOrder R] in
theorem mem_payloads_iff {lines : List Str} {payload : Payload (Value R)} :
    payload ∈ payloads round lines
      ↔ ∃ line ∈ lines, ∃ message : Message (Value R),
        decode (doubleFromChars round) (columns line) = some message
          ∧ message.data = payload := by
  simp only [payloads, decoded, List.mem_map, List.mem_filterMap, emitted_parseNext]
  constructor
  · rintro ⟨message, ⟨line, hline, hdecode⟩, hdata⟩
    exact ⟨line, hline, message, hdecode, hdata⟩
  · rintro ⟨line, hline, message, hdecode, hdata⟩
    exact ⟨message, ⟨line, hline, hdecode⟩, hdata⟩

/-- Without NaN among the displayed prices the level maps are in order, whatever else
is displayed. -/
theorem orderedKeys_of_noNan {lines : List Str} (h : NoNan (payloads round lines)) :
    OrderedKeys Value.lt (payloads round lines) :=
  orderedKeys_of_displayed Value.separating_ne_nan h

/-- **Prices are ordered** on exactly the lines of which none is accepted with an
infinity or NaN in its price column. -/
theorem orderedPrices_iff {lines : List Str} :
    OrderedPrices round lines ↔ ∀ line ∈ lines, ¬ NonFinitePrice round line := by
  simp only [nonFinitePrice_iff]
  constructor
  · rintro h line hline ⟨message, price, hdecode, hprice, hfinite⟩
    rw [h.finite line hline {} message price (by rw [emitted_parseNext, hdecode]) hprice]
      at hfinite
    cases hfinite
  · intro h
    refine ⟨?_, orderedKeys_of_noNan ?_⟩
    · intro line hline parser message price hemitted hprice
      rw [emitted_parseNext] at hemitted
      rw [← Bool.not_eq_false]
      exact fun hfinite => h line hline ⟨message, price, hemitted, hprice, hfinite⟩
    · rintro payload hpayload price hprice rfl
      obtain ⟨line, hline, message, hdecode, rfl⟩ := mem_payloads_iff.mp hpayload
      exact h line hline ⟨message, _, hdecode, hprice, rfl⟩

end OrderedPrices

/-! ## One NaN -/

/-- The value of a decimal number, as if nothing had to be rounded. -/
def unrounded (d : Decimal) : Option ℚ :=
  some ((if d.negative then -(d.mantissa : ℚ) else d.mantissa) * 10 ^ d.exponent)

/-- Three offers, the first of them at `nan`, and a Delete of the last. -/
def nanLines : List Str :=
  [bytes "100,1,09:30:00.000000001,A,1,1,nan,300,S,F,",
    bytes "100,2,09:30:00.000000002,A,2,2,10,200,S,F,",
    bytes "100,3,09:30:00.000000003,A,3,3,10.5,100,S,F,",
    bytes "102,4,09:30:00.000000004,A,4,3,"]

def nanPayloads : List (Payload (Value ℚ)) :=
  [.addOrder ⟨34200000000001, bytes "A", 1, 1, .nan, 300, 'S'.toUInt8, bytes "F"⟩,
    .addOrder ⟨34200000000002, bytes "A", 2, 2, .finite 10, 200, 'S'.toUInt8, bytes "F"⟩,
    .addOrder ⟨34200000000003, bytes "A", 3, 3, .finite (21 / 2), 100, 'S'.toUInt8, bytes "F"⟩,
    .deleteOrder ⟨34200000000004, bytes "A", 4, 3⟩]

theorem payloads_nanLines : payloads unrounded nanLines = nanPayloads := by
  decide +kernel

/-- Both other offers are booked on the level of the NaN. -/
theorem askLevels_nanPayloads :
    (KeyedBook.run Value.lt (nanPayloads.take 3) (bytes "A")).askLevels = [(.nan, 600)] := by
  decide +kernel

/-- **The NaN gets through**: it is displayed, its map's keys are in no order, and the
Delete takes its volume off the level of the NaN. -/
theorem nanLines_unordered :
    (∃ payload ∈ payloads unrounded nanLines, displayedPrice? payload = some .nan)
      ∧ ¬ StrictWeakOn (KeyedBook.before Value.lt false)
          (KeyedBook.keys Value.lt (payloads unrounded nanLines) (bytes "A") false)
      ∧ ¬ AlongKeyed Value.lt (KeyedBook.FindsOwnLevel Value.lt) (payloads unrounded nanLines)
      ∧ ¬ OrderedPrices unrounded nanLines := by
  rw [payloads_nanLines]
  have hfound : ¬ AlongKeyed Value.lt (KeyedBook.FindsOwnLevel Value.lt) nanPayloads := by
    intro h
    have hlast := Runs.along_iff_forall_append.mp h (nanPayloads.take 3) _ [] rfl
    have horder : (KeyedBook.run Value.lt (nanPayloads.take 3) (bytes "A")).orders[(3 : UInt64)]?
        = some ⟨.finite (21 / 2), 100, 'S'.toUInt8⟩ := by
      decide +kernel
    have hlevel : (KeyedBook.run Value.lt (nanPayloads.take 3) (bytes "A")).level Value.lt
        false (.finite (21 / 2)) = some 600 := by
      decide +kernel
    have hmem := (hlast 3 rfl _ horder 600).mp hlevel
    change _ ∈ (KeyedBook.run Value.lt (nanPayloads.take 3) (bytes "A")).askLevels at hmem
    rw [askLevels_nanPayloads] at hmem
    simp at hmem
  refine ⟨⟨_, List.mem_cons_self .., rfl⟩, fun h => ?_, hfound, fun h => ?_⟩
  · have hnan : Value.nan ∈ KeyedBook.keys Value.lt nanPayloads (bytes "A") false :=
      ⟨[], _, _, rfl, rfl, .inr ⟨_, rfl, rfl, rfl⟩⟩
    have hten : Value.finite 10 ∈ KeyedBook.keys Value.lt nanPayloads (bytes "A") false :=
      ⟨nanPayloads.take 1, _, _, rfl, rfl, .inr ⟨_, rfl, rfl, rfl⟩⟩
    have hmore : Value.finite (21 / 2) ∈ KeyedBook.keys Value.lt nanPayloads (bytes "A") false :=
      ⟨nanPayloads.take 2, _, _, rfl, rfl, .inr ⟨_, rfl, rfl, rfl⟩⟩
    exact Value.not_strictWeakOn_of_nan hnan hten hmore (by decide +kernel) h
  · have hkeys := h.keys.found
    rw [payloads_nanLines] at hkeys
    exact hfound hkeys

end Mde.Nyse
