import Mde.Decode
import Mde.TimeOfDay

/-!
# What a feed can publish

The image of the decoder: which messages some line of a feed file makes
the parser emit.

* `Plain` — a text without a comma and without a line feed, what a column
  of a line of a file is.
* `BaseField.Publishable` — the values that a plain text spells, type by
  type: any number, any plain byte and string, the times up to
  `clockEnd`, and of the prices those that `fromChars` reads from one.
* `Publishable` — the same of a public member, by its name.
* `fromPayload` — a row of the wire table for a public struct, with the
  members that no public struct has left at their defaults.

`exists_line_iff` says that a message is emitted for some line of a file
exactly when all its members are publishable, and `exists_lines` that a
whole list of such messages has lines, with whatever sequence numbers in
their headers.
-/

namespace Mde.Nyse

open Messages Members

/-! ## Plain texts -/

def PlainByte (c : Byte) : Prop := c ≠ comma ∧ c ≠ lineFeed

instance (c : Byte) : Decidable (PlainByte c) := inferInstanceAs (Decidable (_ ∧ _))

def Plain (text : Str) : Prop := ∀ c ∈ text, PlainByte c

instance (text : Str) : Decidable (Plain text) := inferInstanceAs (Decidable (∀ c ∈ text, _))

theorem plain_append {text text' : Str} : Plain (text ++ text') ↔ Plain text ∧ Plain text' :=
  List.forall_mem_append

theorem plain_cons {c : Byte} {text : Str} : Plain (c :: text) ↔ PlainByte c ∧ Plain text :=
  List.forall_mem_cons

theorem plainByte_of_isDigit {c : Byte} (h : isDigit c = true) : PlainByte c := by
  have hc := isDigit_iff.mp h
  constructor
  · rintro rfl
    exact absurd hc (by decide)
  · rintro rfl
    exact absurd hc (by decide)

theorem Digits.plain {width : Nat} (field : Digits width) : Plain field.text :=
  fun c hc => plainByte_of_isDigit (field.isDigit_text c hc)

theorem plain_of_mem_columns {line text : Str} (hline : lineFeed ∉ line)
    (h : text ∈ columns line) : Plain text := by
  intro c hc
  obtain ⟨hmem, hne⟩ := Separated.mem_of_mem_splitOn comma h hc
  refine ⟨hne, ?_⟩
  rintro rfl
  exact hline hmem

/-! ## The values of a column -/

/-- One more than the last time a clock text can show. -/
def clockEnd : Nat := 362440 * nanosPerSecond

/-- As many hours as there is room for, then as many minutes. -/
theorem exists_clock {n : Nat} (h : n < 362440) :
    ∃ hours minutes seconds, hours < 10 ^ 2 ∧ minutes < 10 ^ 2 ∧ seconds < 10 ^ 2
      ∧ n = hours * 3600 + minutes * 60 + seconds :=
  ⟨min 99 (n / 3600), min 99 ((n - min 99 (n / 3600) * 3600) / 60),
    n - min 99 (n / 3600) * 3600 - min 99 ((n - min 99 (n / 3600) * 3600) / 60) * 60,
    by omega, by omega, by omega, by omega⟩

/-- The clock texts show every time before their last one, `99:99:99.999999999`. -/
theorem exists_clockText_iff {n : Nat} :
    (∃ clock : ClockText, clock.nanosSinceMidnight = n) ↔ n < clockEnd := by
  constructor
  · rintro ⟨clock, rfl⟩
    have hh := clock.hours.value_lt
    have hm := clock.minutes.value_lt
    have hs := clock.seconds.value_lt
    have hn := clock.nanos.value_lt
    simp only [ClockText.nanosSinceMidnight, clockEnd, nanosPerHour, nanosPerMinute,
      nanosPerSecond]
    omega
  · intro h
    obtain ⟨hours, minutes, seconds, hhours, hminutes, hseconds, hsplit⟩ :=
      exists_clock (Nat.div_lt_of_lt_mul (by rwa [Nat.mul_comm] : n < nanosPerSecond * 362440))
    have hnanos : n % nanosPerSecond < 10 ^ 9 := Nat.mod_lt _ (by decide)
    refine ⟨⟨.ofNat 2 hours hhours, .ofNat 2 minutes hminutes, .ofNat 2 seconds hseconds,
      .ofNat 9 _ hnanos⟩, ?_⟩
    calc _ = (hours * 3600 + minutes * 60 + seconds) * nanosPerSecond + n % nanosPerSecond := by
          simp only [ClockText.nanosSinceMidnight, Digits.value_ofNat, nanosPerHour,
            nanosPerMinute]
          ring
      _ = n := by rw [← hsplit, Nat.div_add_mod']

theorem exists_parse_unsigned {α : Type} {bound : Nat} (f : Nat → α) {n : Nat}
    (hn : n < bound) (hbound : bound ≤ 10 ^ 20) :
    ∃ text, Plain text
      ∧ parseStdType (fun text => (unsignedFromChars bound text).map f) text = .ok (f n) := by
  let field := Digits.ofNat 20 n (Nat.lt_of_lt_of_le hn hbound)
  have hvalue : decimal field.text = n := Digits.value_ofNat _
  have htake : field.text.takeWhile isDigit = field.text :=
    List.takeWhile_eq_self_iff.mpr field.isDigit_text
  have hdrop : field.text.dropWhile isDigit = [] :=
    List.dropWhile_eq_nil_iff.mpr field.isDigit_text
  have hne : field.text ≠ [] := by
    rw [← List.length_pos_iff, field.length_text]
    decide
  refine ⟨field.text, field.plain, parseStdType_ok_iff.mpr ?_⟩
  rw [unsignedFromChars, htake, hdrop, if_neg hne, hvalue, if_neg (Nat.not_le.mpr hn),
    FromChars.map]

theorem toOption_eq_some_iff {ε α : Type} {result : Except ε α} {value : α} :
    result.toOption = some value ↔ result = .ok value := by
  cases result <;> simp [Except.toOption]

variable {P : Type} (fromChars : Str → FromChars P)

def BaseField.Publishable : (field : BaseField) → field.Value P → Prop
  | .char, c => PlainByte c
  | .string, text => Plain text
  | .sourceTime, time => time.nanosSinceMidnight.toNat < clockEnd
  | .uint8, _ => True
  | .uint64, _ => True
  | .double, price => ∃ text, Plain text ∧ fromChars text = .ok price []

/-- A value is publishable exactly when a plain text spells it. -/
theorem BaseField.publishable_iff (field : BaseField) (value : field.Value P) :
    field.Publishable fromChars value
      ↔ ∃ text, Plain text ∧ field.parse fromChars text = some value := by
  cases field with
  | char =>
      constructor
      · intro h
        exact ⟨[value], plain_cons.mpr ⟨h, List.forall_mem_nil _⟩, rfl⟩
      · rintro ⟨text, hplain, hparse⟩
        cases text with
        | nil => cases hparse
        | cons c text =>
            cases text with
            | nil =>
                obtain rfl := Option.some.inj hparse
                exact (plain_cons.mp hplain).1
            | cons c' text => cases hparse
  | string =>
      constructor
      · intro h
        exact ⟨value, h, rfl⟩
      · rintro ⟨text, hplain, hparse⟩
        obtain rfl := Option.some.inj hparse
        exact hplain
  | sourceTime =>
      have hparse : ∀ text, BaseField.sourceTime.parse fromChars text = some value
          ↔ parseSourceTime text = .ok value := by
        intro text
        rw [parse, toOption_eq_some_iff]
      simp only [hparse, parseSourceTime_eq_ok_iff, Publishable, ← exists_clockText_iff]
      constructor
      · rintro ⟨clock, hclock⟩
        refine ⟨clock.text, ?_, clock, rfl, hclock.symm⟩
        simp only [ClockText.text, plain_append, plain_cons, Digits.plain, true_and, and_true]
        decide
      · rintro ⟨_, -, clock, -, hclock⟩
        exact ⟨clock, hclock.symm⟩
  | uint8 =>
      obtain ⟨text, hplain, hparse⟩ := exists_parse_unsigned UInt8.ofNat
        value.toNat_lt (by decide)
      refine iff_of_true trivial ⟨text, hplain, ?_⟩
      rw [parse, show parseStdType uint8FromChars text = _ from hparse, UInt8.ofNat_toNat]
      rfl
  | uint64 =>
      obtain ⟨text, hplain, hparse⟩ := exists_parse_unsigned UInt64.ofNat
        value.toNat_lt (by decide)
      refine iff_of_true trivial ⟨text, hplain, ?_⟩
      rw [parse, show parseStdType uint64FromChars text = _ from hparse, UInt64.ofNat_toNat]
      rfl
  | double =>
      have hparse : ∀ text, BaseField.double.parse fromChars text = some value
          ↔ fromChars text = .ok value [] := by
        intro text
        rw [← parseStdType_ok_iff, parse, toOption_eq_some_iff]
      simp only [hparse, Publishable]

/-! ## Public members -/

def Publishable (member : Name × FieldValue P) : Prop :=
  match member.2 with
  | .char c => PlainByte c
  | .string text => Plain text
  | .uint64 n => member.1 = .nanosSinceMidnight → n.toNat < clockEnd
  | .double price => ∃ text, Plain text ∧ fromChars text = .ok price []
  | .uint8 _ | .bool _ | .nullopt => True

/-- What the tables have in common: the times are what is published as the nanoseconds,
and no string or time is optional. -/
structure Regular (leaf : Name × FieldType) : Prop where
  time : publicName leaf.1 = .nanosSinceMidnight ↔ leaf.2 = .base .sourceTime
  string : leaf.2 ≠ .optional .string
  sourceTime : leaf.2 ≠ .optional .sourceTime

instance (leaf : Name × FieldType) : Decidable (Regular leaf) :=
  decidable_of_iff ((publicName leaf.1 = .nanosSinceMidnight ↔ leaf.2 = .base .sourceTime)
      ∧ leaf.2 ≠ .optional .string ∧ leaf.2 ≠ .optional .sourceTime)
    ⟨fun ⟨ht, hs, hst⟩ => ⟨ht, hs, hst⟩, fun ⟨ht, hs, hst⟩ => ⟨ht, hs, hst⟩⟩

theorem regular_leaves (type : MessageType) : ∀ leaf ∈ (wireMembers type).leaves, Regular leaf := by
  cases type <;> decide

variable {fromChars}

theorem publishable_base {name : Name} {field : BaseField} (value : field.Value P)
    (htime : publicName name = .nanosSinceMidnight ↔ field = .sourceTime) :
    Publishable fromChars (publicName name, publicFlag name (field.publicValue value))
      ↔ field.Publishable fromChars value := by
  have hflag : ∀ value : FieldValue P, (∀ flag, value ≠ .uint8 flag) →
      publicFlag name value = value := by
    intro value hvalue
    cases name <;> cases value <;> first | rfl | exact absurd rfl (hvalue _)
  cases field with
  | char => rw [hflag _ (by simp [BaseField.publicValue])]; rfl
  | string => rw [hflag _ (by simp [BaseField.publicValue])]; rfl
  | sourceTime =>
      rw [hflag _ (by simp [BaseField.publicValue])]
      exact ⟨fun h => h (htime.mpr rfl), fun h _ => h⟩
  | uint8 =>
      refine iff_of_true ?_ trivial
      cases name <;> trivial
  | uint64 =>
      rw [hflag _ (by simp [BaseField.publicValue])]
      exact iff_of_true (fun h => nomatch htime.mp h) trivial
  | double => rw [hflag _ (by simp [BaseField.publicValue])]; rfl

theorem parse_blank (hblank : fromChars [] = .invalidArgument) {field : BaseField}
    (hfield : field ≠ .string) : field.parse fromChars [] = none := by
  cases field with
  | string => exact absurd rfl hfield
  | double => rw [BaseField.parse, parseStdType, hblank]; rfl
  | char => rfl
  | sourceTime => rfl
  | uint8 => rfl
  | uint64 => rfl

/-- A cell of a table is spelled by a plain text exactly when the member it designates
is publishable. -/
theorem publishable_publicMember_iff (hblank : fromChars [] = .invalidArgument) {cell : Cell P}
    (hreg : Regular cell.1) :
    Publishable fromChars (publicMember cell)
      ↔ ∃ text, Plain text ∧ cell.1.2.parse fromChars text = some cell.2 := by
  obtain ⟨⟨name, type⟩, value⟩ := cell
  cases type with
  | base field =>
      have htime : publicName name = .nanosSinceMidnight ↔ field = .sourceTime := by
        simpa using hreg.time
      exact (publishable_base value htime).trans (field.publishable_iff fromChars value)
  | optional field =>
      have htime : publicName name = .nanosSinceMidnight ↔ field = .sourceTime :=
        iff_of_false (fun h => nomatch hreg.time.mp h) fun h =>
          hreg.sourceTime (congrArg FieldType.optional h)
      cases value with
      | none =>
          have hnone : (FieldType.optional field).parse fromChars [] = some none := by
            rw [FieldType.parse, if_pos rfl]
          refine iff_of_true ?_ ⟨[], List.forall_mem_nil _, hnone⟩
          cases name <;> trivial
      | some value =>
          refine ((publishable_base value htime).trans
            (field.publishable_iff fromChars value)).trans ?_
          refine exists_congr fun text => and_congr_right fun _ => ?_
          show _ ↔ (if text = [] then some none
            else (field.parse fromChars text).map some) = some (some value)
          split
          · rename_i htext
            rw [htext, parse_blank hblank fun h => hreg.string (congrArg FieldType.optional h)]
            simp
          · simp

/-! ## Rows of a table -/

/-- A row for a public struct: the members it does not have are blank, a flag is 0 or 1,
and the header has the type's code. -/
def fromPayload (sequenceNumber : UInt64) :
    (payload : Payload P) → (wireMembers payload.type).Row P
  | .symbolIndexMapping msg =>
    ((code .symbolIndexMapping, sequenceNumber, ()), msg.symbol, msg.marketId, msg.systemId,
      msg.exchangeCode, msg.securityType, msg.lotSize, msg.prevClosePrice,
      msg.prevCloseVolume, msg.priceResolution, msg.roundLot, msg.mpv, msg.unitOfTrade, ())
  | .securityStatus msg =>
    (((code .securityStatus, sequenceNumber, ()), ⟨msg.nanosSinceMidnight⟩, msg.symbol,
      msg.symbolSeqNum, ()), msg.securityStatus, msg.haltCondition, msg.price1, msg.price2,
      msg.ssrTriggeringExchangeId, msg.ssrTriggeringVolume, msg.time, msg.ssrState,
      msg.marketState, ())
  | .addOrder msg =>
    (((code .addOrder, sequenceNumber, ()), ⟨msg.nanosSinceMidnight⟩, msg.symbol,
      msg.symbolSeqNum, ()), msg.orderId, msg.price, msg.volume, msg.side, msg.firmId, none,
      ())
  | .modifyOrder msg =>
    (((code .modifyOrder, sequenceNumber, ()), ⟨msg.nanosSinceMidnight⟩, msg.symbol,
      msg.symbolSeqNum, ()), msg.orderId, msg.price, msg.volume, none, msg.side, none, ())
  | .deleteOrder msg =>
    (((code .deleteOrder, sequenceNumber, ()), ⟨msg.nanosSinceMidnight⟩, msg.symbol,
      msg.symbolSeqNum, ()), msg.orderId, none, ())
  | .orderExecution msg =>
    (((code .orderExecution, sequenceNumber, ()), ⟨msg.nanosSinceMidnight⟩, msg.symbol,
      msg.symbolSeqNum, ()), msg.orderId, msg.tradeId, msg.price, msg.volume,
      msg.printedToSip.toNat.toUInt8, none, none, none, none, none, ())
  | .replaceOrder msg =>
    (((code .replaceOrder, sequenceNumber, ()), ⟨msg.nanosSinceMidnight⟩, msg.symbol,
      msg.symbolSeqNum, ()), msg.orderId, msg.newOrderId, msg.price, msg.volume, msg.side,
      none, ())
  | .retailPriceImprovement msg =>
    (((code .retailPriceImprovement, sequenceNumber, ()), ⟨msg.nanosSinceMidnight⟩,
      msg.symbol, msg.symbolSeqNum, ()), msg.rpiIndicator, ())
  | .imbalance msg =>
    (((code .imbalance, sequenceNumber, ()), ⟨msg.nanosSinceMidnight⟩, msg.symbol,
      msg.symbolSeqNum, ()), msg.referencePrice, msg.pairedQty, msg.totalImbalanceQty,
      msg.marketImbalanceQty, msg.auctionTime, msg.auctionType, msg.imbalanceSide,
      msg.continuousBookClearingPrice, msg.auctionInterestClearingPrice, msg.ssrFilingPrice,
      msg.indicativeMatchPrice, msg.upperCollar, msg.lowerCollar, msg.auctionStatus,
      msg.freezeStatus, msg.numExtensions, msg.unpairedQuantity, msg.unpairedSide,
      msg.significantImbalance, ())
  | .addOrderRefresh msg =>
    (((code .addOrderRefresh, sequenceNumber, ()), ⟨msg.nanosSinceMidnight⟩, msg.symbol,
      msg.symbolSeqNum, ()), msg.orderId, msg.price, msg.volume, msg.side, msg.firmId, none,
      ())
  | .nonDisplayedTrade msg =>
    (((code .nonDisplayedTrade, sequenceNumber, ()), ⟨msg.nanosSinceMidnight⟩, msg.symbol,
      msg.symbolSeqNum, ()), msg.tradeId, msg.price, msg.volume,
      msg.printedToSip.toNat.toUInt8, none, none, none, none, ())
  | .crossTrade msg =>
    (((code .crossTrade, sequenceNumber, ()), ⟨msg.nanosSinceMidnight⟩, msg.symbol,
      msg.symbolSeqNum, ()), msg.crossId, msg.price, msg.volume, msg.crossType, ())
  | .tradeCancel msg =>
    (((code .tradeCancel, sequenceNumber, ()), ⟨msg.nanosSinceMidnight⟩, msg.symbol,
      msg.symbolSeqNum, ()), msg.tradeId, ())
  | .crossCorrection msg =>
    (((code .crossCorrection, sequenceNumber, ()), ⟨msg.nanosSinceMidnight⟩, msg.symbol,
      msg.symbolSeqNum, ()), msg.crossId, msg.volume, ())

theorem toPayload_fromPayload (sequenceNumber : UInt64) (payload : Payload P) :
    toPayload payload.type (fromPayload sequenceNumber payload) = payload := by
  have hflag : ∀ flag : Bool, (flag.toNat.toUInt8 != 0) = flag := by decide
  cases payload with
  | orderExecution msg => simp [fromPayload, toPayload, toOrderExecution, hflag, Payload.type]
  | nonDisplayedTrade msg =>
      simp [fromPayload, toPayload, toNonDisplayedTrade, hflag, Payload.type]
  | _ => rfl

def numberOrBlank : Cell P → Bool
  | ⟨(_, .base .uint8), _⟩ => true
  | ⟨(_, .base .uint64), _⟩ => true
  | ⟨(_, .optional _), none⟩ => true
  | _ => false

/-- What the public structs do not have is filled in with numbers and blanks. -/
theorem numberOrBlank_of_dropped (sequenceNumber : UInt64) (payload : Payload P) :
    (((wireMembers payload.type).cells (fromPayload sequenceNumber payload)).filter
      fun cell => dropped (publicMember cell).1).all numberOrBlank = true := by
  cases payload <;> rfl

theorem publishable_of_numberOrBlank {cell : Cell P} (h : numberOrBlank cell = true)
    (hdropped : dropped (publicMember cell).1 = true) :
    Publishable fromChars (publicMember cell) := by
  obtain ⟨⟨name, type⟩, value⟩ := cell
  cases type with
  | base field =>
      have htime : publicName name = .nanosSinceMidnight ↔ field = .sourceTime := by
        refine iff_of_false (fun htime => ?_) (fun hfield => ?_)
        · rw [show (publicMember (P := P) _).1 = publicName name from rfl, htime] at hdropped
          cases hdropped
        · subst hfield
          cases h
      cases field with
      | uint8 => exact (publishable_base value htime).mpr trivial
      | uint64 => exact (publishable_base value htime).mpr trivial
      | _ => cases h
  | optional field =>
      cases value with
      | none => cases name <;> trivial
      | some value => cases h

theorem parse_struct_iff {name : Name} {inner rest : Members} {texts : List Str}
    {value : inner.Row P} {row : rest.Row P} :
    (Members.struct name inner rest).parse fromChars texts = some (value, row)
      ↔ inner.parse fromChars texts = some value
        ∧ rest.parse fromChars (texts.drop inner.fieldCount) = some row := by
  rw [Members.parse]
  split
  · rename_i hvalue hrow
    rw [hvalue, hrow]
    simp
  · rename_i hnone
    refine iff_of_false (by simp) ?_
    rintro ⟨hvalue, hrow⟩
    exact hnone _ _ hvalue hrow

theorem parse_field_iff {name : Name} {type : FieldType} {rest : Members} {text : Str}
    {texts : List Str} {value : type.Value P} {row : rest.Row P} :
    (Members.field name type rest).parse fromChars (text :: texts) = some (value, row)
      ↔ type.parse fromChars text = some value ∧ rest.parse fromChars texts = some row := by
  rw [Members.parse]
  split
  · rename_i hvalue hrow
    rw [hvalue, hrow]
    simp
  · rename_i hnone
    refine iff_of_false (by simp) ?_
    rintro ⟨hvalue, hrow⟩
    exact hnone _ _ hvalue hrow

theorem parse_of_cells (members : Members) {texts : List Str} {row : members.Row P}
    (h : List.Forall₂ (fun text (cell : Cell P) => cell.1.2.parse fromChars text = some cell.2)
      texts (members.cells row)) :
    members.parse fromChars texts = some row := by
  induction members generalizing texts with
  | nil => rfl
  | field name type rest ih =>
      obtain ⟨value, row⟩ := row
      cases h with
      | cons hvalue hrow => exact parse_field_iff.mpr ⟨hvalue, ih hrow⟩
  | struct name inner rest ihi ih =>
      obtain ⟨value, row⟩ := row
      have hlength : (inner.cells value).length = inner.fieldCount := by
        rw [← length_leaves, ← map_fst_cells inner value, List.length_map]
      have hinner := ihi (List.forall₂_take_append _ _ _ h)
      have hrest := ih (List.forall₂_drop_append _ _ _ h)
      rw [hlength] at hinner hrest
      refine parse_struct_iff.mpr ⟨?_, hrest⟩
      rw [← hinner]
      exact parse_congr fromChars inner (by rw [List.take_take, Nat.min_self])

/-- The row for a public struct has the type's code and the sequence number in its
header. -/
theorem header_fromPayload {sequenceNumber : UInt64} {payload : Payload P} {texts : List Str}
    (h : (wireMembers payload.type).parse fromChars texts
      = some (fromPayload sequenceNumber payload)) :
    header fromChars texts = some (code payload.type, sequenceNumber) := by
  have hheader : messageHeaderMembers.parse fromChars texts
      = some (code payload.type, sequenceNumber, ()) := by
    cases payload with
    | symbolIndexMapping msg => exact (parse_struct_iff.mp h).1
    | _ => exact (parse_struct_iff.mp (parse_struct_iff.mp h).1).1
  rw [header, hheader]
  rfl

/-! ## Lines -/

theorem exists_forall₂ {α β : Type} {p : α → Prop} {R : α → β → Prop} {bs : List β}
    (h : ∀ b ∈ bs, ∃ a, p a ∧ R a b) : ∃ as, (∀ a ∈ as, p a) ∧ List.Forall₂ R as bs := by
  induction bs with
  | nil => exact ⟨[], List.forall_mem_nil _, .nil⟩
  | cons b bs ih =>
      obtain ⟨a, hp, ha⟩ := h b (List.mem_cons_self ..)
      obtain ⟨as, hps, has⟩ := ih fun b hb => h b (List.mem_cons_of_mem _ hb)
      exact ⟨a :: as, List.forall_mem_cons.mpr ⟨hp, hps⟩, .cons ha has⟩

theorem exists_columns_eq {texts : List Str} (hne : texts ≠ [])
    (hplain : ∀ text ∈ texts, Plain text) :
    ∃ line, lineFeed ∉ line ∧ columns line = texts := by
  refine ⟨[comma].intercalate texts, ?_,
    List.splitOn_intercalate comma (fun text htext hc => (hplain text htext _ hc).1 rfl) hne⟩
  intro hmem
  rcases Separated.mem_of_mem_intercalate comma hmem with h | ⟨text, htext, h⟩
  · exact absurd h (by decide)
  · exact (hplain text htext _ h).2 rfl

/-- A message whose members are publishable has a line, with any sequence number in its
header. -/
theorem exists_line (hblank : fromChars [] = .invalidArgument) (message : Message P)
    (h : ∀ member ∈ members message.data, Publishable fromChars member)
    (sequenceNumber : UInt64) :
    ∃ line, lineFeed ∉ line ∧ decode fromChars (columns line) = some message
      ∧ header fromChars (columns line) = some (code message.type, sequenceNumber) := by
  obtain ⟨type, payload, rfl⟩ := message
  have hcells : ∀ cell ∈ (wireMembers payload.type).cells (fromPayload sequenceNumber payload),
      ∃ text, Plain text ∧ cell.1.2.parse fromChars text = some cell.2 := by
    intro cell hcell
    have hreg : Regular cell.1 := by
      refine regular_leaves payload.type _ ?_
      rw [← map_fst_cells _ (fromPayload sequenceNumber payload)]
      exact List.mem_map_of_mem hcell
    rw [← publishable_publicMember_iff hblank hreg]
    by_cases hdropped : dropped (publicMember cell).1 = true
    · refine publishable_of_numberOrBlank ?_ hdropped
      refine List.all_eq_true.mp (numberOrBlank_of_dropped sequenceNumber payload) cell ?_
      exact List.mem_filter.mpr ⟨hcell, hdropped⟩
    · refine h _ ?_
      rw [← toPayload_fromPayload sequenceNumber payload, members_toPayload, List.mem_filter]
      exact ⟨List.mem_map_of_mem hcell, by simpa using hdropped⟩
  obtain ⟨texts, hplain, htexts⟩ := exists_forall₂ hcells
  have hparse := parse_of_cells _ htexts
  have hne : texts ≠ [] := by
    rintro rfl
    have hlength := htexts.length_eq
    rw [← List.length_map (f := Sigma.fst), map_fst_cells, length_leaves] at hlength
    cases payload <;> cases hlength
  obtain ⟨line, hline, rfl⟩ := exists_columns_eq hne hplain
  have hheader := header_fromPayload hparse
  refine ⟨line, hline, ?_, hheader⟩
  refine (decode_eq_some_iff fromChars).mpr
    ⟨payload.type, _, fst_header fromChars hheader, hparse, ?_⟩
  simp [emit, toPayload_fromPayload]

theorem publishable_of_decode (hblank : fromChars [] = .invalidArgument) {line : Str}
    (hline : lineFeed ∉ line) {message : Message P}
    (h : decode fromChars (columns line) = some message) :
    ∀ member ∈ members message.data, Publishable fromChars member := by
  obtain ⟨type, row, -, hrow, rfl⟩ := (decode_eq_some_iff fromChars).mp h
  intro member hmember
  obtain ⟨i, cell, text, htext, hleaf, hparse, rfl, -⟩ :=
    exists_givenBy fromChars hrow hmember
  refine (publishable_publicMember_iff hblank ?_).mpr
    ⟨text, plain_of_mem_columns hline (List.mem_of_getElem? htext), hparse⟩
  exact regular_leaves type _ (List.mem_of_getElem? hleaf)

/-- **What a feed file can publish.** Whatever the parser has read before, a line of a
file makes it emit exactly the messages of which every member is publishable. -/
theorem exists_line_iff (hblank : fromChars [] = .invalidArgument) (parser : Parser)
    (message : Message P) :
    (∃ line, lineFeed ∉ line ∧ (parseNext fromChars parser line).emitted = some message)
      ↔ ∀ member ∈ members message.data, Publishable fromChars member := by
  simp only [emitted_parseNext]
  constructor
  · rintro ⟨line, hline, hdecode⟩
    exact publishable_of_decode hblank hline hdecode
  · intro h
    obtain ⟨line, hline, hdecode, -⟩ := exists_line hblank message h 0
    exact ⟨line, hline, hdecode⟩

section Sample

def sampleDeletion (nanosSinceMidnight : UInt64) (symbol : Str) : Message Nat where
  type := .deleteOrder
  data := .deleteOrder { nanosSinceMidnight, symbol, symbolSeqNum := 1, orderId := 55 }
  tagged := rfl

theorem publishable_sampleDeletion {n : UInt64} {symbol : Str} :
    (∀ member ∈ members (sampleDeletion n symbol).data,
        Publishable (unsignedFromChars (2 ^ 64)) member)
      ↔ n.toNat < clockEnd ∧ Plain symbol := by
  simp [sampleDeletion, members, headerMembers, Publishable]

/-- The last time a clock text can show is published, a nanosecond later is not, nor is
a symbol with a comma. -/
theorem exists_line_iff_deletion :
    (∃ line, lineFeed ∉ line
        ∧ (parseNext (unsignedFromChars (2 ^ 64)) {} line).emitted
          = some (sampleDeletion 362439999999999 [65]))
      ∧ (¬∃ line, lineFeed ∉ line
        ∧ (parseNext (unsignedFromChars (2 ^ 64)) {} line).emitted
          = some (sampleDeletion 362440000000000 [65]))
      ∧ ¬∃ line, lineFeed ∉ line
        ∧ (parseNext (unsignedFromChars (2 ^ 64)) {} line).emitted
          = some (sampleDeletion 0 [65, comma]) := by
  refine ⟨?_, ?_, ?_⟩ <;> rw [exists_line_iff rfl, publishable_sampleDeletion] <;>
    decide +kernel

end Sample

end Mde.Nyse
