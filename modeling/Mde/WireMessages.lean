import Mde.Wire

/-!
# The wire messages

The tables of `nyse_types.hpp`, one per struct, and the case bodies of
`ParseNext`, which build the public struct of a message from the wire
struct's members.

`wireMembers` and `toPayload` collect them by message type. `members`
lists the members of a public struct by name, and `members_toPayload`
says that they are the wire members under the same names, in the same
order: but for the `dropped` ones, and with `_sourceTime` published as
`_nanosSinceMidnight` and `_printableFlag` as `_printedToSip`.
-/

namespace Mde.Nyse

open Messages

/-! ## Tables -/

section Tables

open Members

abbrev messageHeaderMembers : Members :=
  field .msgType (.base .uint8) <|
  field .sequenceNumber (.base .uint64) <|
  nil

abbrev symbolIndexMappingMembers : Members :=
  struct .header messageHeaderMembers <|
  field .symbol (.base .string) <|
  field .marketId (.base .uint8) <|
  field .systemId (.base .uint8) <|
  field .exchangeCode (.base .char) <|
  field .securityType (.base .char) <|
  field .lotSize (.base .uint64) <|
  field .prevClosePrice (.base .double) <|
  field .prevCloseVolume (.base .uint64) <|
  field .priceResolution (.base .uint8) <|
  field .roundLot (.base .char) <|
  field .mpv (.base .double) <|
  field .unitOfTrade (.base .uint8) <|
  nil

abbrev perSymbolHeaderMembers : Members :=
  struct .header messageHeaderMembers <|
  field .sourceTime (.base .sourceTime) <|
  field .symbol (.base .string) <|
  field .symbolSeqNum (.base .uint64) <|
  nil

abbrev securityStatusMembers : Members :=
  struct .header perSymbolHeaderMembers <|
  field .securityStatus (.base .char) <|
  field .haltCondition (.optional .char) <|
  field .price1 (.optional .double) <|
  field .price2 (.optional .double) <|
  field .ssrTriggeringExchangeId (.optional .char) <|
  field .ssrTriggeringVolume (.optional .uint64) <|
  field .time (.optional .uint64) <|
  field .ssrState (.optional .char) <|
  field .marketState (.optional .char) <|
  nil

abbrev addOrderMembers : Members :=
  struct .header perSymbolHeaderMembers <|
  field .orderId (.base .uint64) <|
  field .price (.base .double) <|
  field .volume (.base .uint64) <|
  field .side (.base .char) <|
  field .firmId (.base .string) <|
  field .reserved (.optional .uint64) <|
  nil

abbrev modifyOrderMembers : Members :=
  struct .header perSymbolHeaderMembers <|
  field .orderId (.base .uint64) <|
  field .price (.base .double) <|
  field .volume (.base .uint64) <|
  field .positionChange (.optional .uint64) <|
  field .side (.base .char) <|
  field .reserved2 (.optional .uint64) <|
  nil

abbrev deleteOrderMembers : Members :=
  struct .header perSymbolHeaderMembers <|
  field .orderId (.base .uint64) <|
  field .reserved (.optional .uint64) <|
  nil

abbrev orderExecutionMembers : Members :=
  struct .header perSymbolHeaderMembers <|
  field .orderId (.base .uint64) <|
  field .tradeId (.base .uint64) <|
  field .price (.base .double) <|
  field .volume (.base .uint64) <|
  field .printableFlag (.base .uint8) <|
  field .reserved1 (.optional .uint64) <|
  field .tradeCondition1 (.optional .char) <|
  field .tradeCondition2 (.optional .char) <|
  field .tradeCondition3 (.optional .char) <|
  field .tradeCondition4 (.optional .char) <|
  nil

abbrev replaceOrderMembers : Members :=
  struct .header perSymbolHeaderMembers <|
  field .orderId (.base .uint64) <|
  field .newOrderId (.base .uint64) <|
  field .price (.base .double) <|
  field .volume (.base .uint64) <|
  field .side (.base .char) <|
  field .reserved2 (.optional .uint64) <|
  nil

abbrev retailPriceImprovementMembers : Members :=
  struct .header perSymbolHeaderMembers <|
  field .rpiIndicator (.optional .char) <|
  nil

abbrev imbalanceMembers : Members :=
  struct .header perSymbolHeaderMembers <|
  field .referencePrice (.base .double) <|
  field .pairedQty (.base .uint64) <|
  field .totalImbalanceQty (.base .uint64) <|
  field .marketImbalanceQty (.base .uint64) <|
  field .auctionTime (.base .uint64) <|
  field .auctionType (.base .char) <|
  field .imbalanceSide (.base .char) <|
  field .continuousBookClearingPrice (.base .double) <|
  field .auctionInterestClearingPrice (.base .double) <|
  field .ssrFilingPrice (.base .double) <|
  field .indicativeMatchPrice (.base .double) <|
  field .upperCollar (.base .double) <|
  field .lowerCollar (.base .double) <|
  field .auctionStatus (.base .uint8) <|
  field .freezeStatus (.base .uint8) <|
  field .numExtensions (.base .uint64) <|
  field .unpairedQuantity (.base .uint64) <|
  field .unpairedSide (.base .char) <|
  field .significantImbalance (.base .char) <|
  nil

/-- Same field layout as Add Order. -/
abbrev addOrderRefreshMembers : Members :=
  struct .header perSymbolHeaderMembers <|
  field .orderId (.base .uint64) <|
  field .price (.base .double) <|
  field .volume (.base .uint64) <|
  field .side (.base .char) <|
  field .firmId (.base .string) <|
  field .reserved (.optional .uint64) <|
  nil

abbrev nonDisplayedTradeMembers : Members :=
  struct .header perSymbolHeaderMembers <|
  field .tradeId (.base .uint64) <|
  field .price (.base .double) <|
  field .volume (.base .uint64) <|
  field .printableFlag (.base .uint8) <|
  field .tradeCondition1 (.optional .char) <|
  field .tradeCondition2 (.optional .char) <|
  field .tradeCondition3 (.optional .char) <|
  field .tradeCondition4 (.optional .char) <|
  nil

abbrev crossTradeMembers : Members :=
  struct .header perSymbolHeaderMembers <|
  field .crossId (.base .uint64) <|
  field .price (.base .double) <|
  field .volume (.base .uint64) <|
  field .crossType (.base .char) <|
  nil

abbrev tradeCancelMembers : Members :=
  struct .header perSymbolHeaderMembers <|
  field .tradeId (.base .uint64) <|
  nil

abbrev crossCorrectionMembers : Members :=
  struct .header perSymbolHeaderMembers <|
  field .crossId (.base .uint64) <|
  field .volume (.base .uint64) <|
  nil

end Tables

/-- The table of a message type's wire struct. -/
abbrev wireMembers : MessageType → Members
  | .symbolIndexMapping => symbolIndexMappingMembers
  | .securityStatus => securityStatusMembers
  | .addOrder => addOrderMembers
  | .modifyOrder => modifyOrderMembers
  | .deleteOrder => deleteOrderMembers
  | .orderExecution => orderExecutionMembers
  | .replaceOrder => replaceOrderMembers
  | .retailPriceImprovement => retailPriceImprovementMembers
  | .imbalance => imbalanceMembers
  | .addOrderRefresh => addOrderRefreshMembers
  | .nonDisplayedTrade => nonDisplayedTradeMembers
  | .crossTrade => crossTradeMembers
  | .tradeCancel => tradeCancelMembers
  | .crossCorrection => crossCorrectionMembers

/-! ## From wire to public structs -/

section Public

variable {P : Type}

def toSymbolIndexMapping : symbolIndexMappingMembers.Row P → SymbolIndexMapping P
  | (_, symbol, marketId, systemId, exchangeCode, securityType, lotSize, prevClosePrice,
      prevCloseVolume, priceResolution, roundLot, mpv, unitOfTrade, ()) =>
    { symbol, marketId, systemId, exchangeCode, securityType, lotSize, prevClosePrice,
      prevCloseVolume, priceResolution, roundLot, mpv, unitOfTrade }

def toSecurityStatus : securityStatusMembers.Row P → SecurityStatus P
  | ((_, sourceTime, symbol, symbolSeqNum, ()), securityStatus, haltCondition, price1,
      price2, ssrTriggeringExchangeId, ssrTriggeringVolume, time, ssrState, marketState,
      ()) =>
    { nanosSinceMidnight := sourceTime.nanosSinceMidnight, symbol, symbolSeqNum,
      securityStatus, haltCondition, price1, price2, ssrTriggeringExchangeId,
      ssrTriggeringVolume, time, ssrState, marketState }

def toAddOrder : addOrderMembers.Row P → AddOrder P
  | ((_, sourceTime, symbol, symbolSeqNum, ()), orderId, price, volume, side, firmId,
      _reserved, ()) =>
    { nanosSinceMidnight := sourceTime.nanosSinceMidnight, symbol, symbolSeqNum, orderId,
      price, volume, side, firmId }

def toModifyOrder : modifyOrderMembers.Row P → ModifyOrder P
  | ((_, sourceTime, symbol, symbolSeqNum, ()), orderId, price, volume, _positionChange,
      side, _reserved2, ()) =>
    { nanosSinceMidnight := sourceTime.nanosSinceMidnight, symbol, symbolSeqNum, orderId,
      price, volume, side }

def toDeleteOrder : deleteOrderMembers.Row P → DeleteOrder
  | ((_, sourceTime, symbol, symbolSeqNum, ()), orderId, _reserved, ()) =>
    { nanosSinceMidnight := sourceTime.nanosSinceMidnight, symbol, symbolSeqNum, orderId }

def toOrderExecution : orderExecutionMembers.Row P → OrderExecution P
  | ((_, sourceTime, symbol, symbolSeqNum, ()), orderId, tradeId, price, volume,
      printableFlag, _reserved1, _tradeCondition1, _tradeCondition2, _tradeCondition3,
      _tradeCondition4, ()) =>
    { nanosSinceMidnight := sourceTime.nanosSinceMidnight, symbol, symbolSeqNum, orderId,
      tradeId, price, volume, printedToSip := printableFlag != 0 }

def toReplaceOrder : replaceOrderMembers.Row P → ReplaceOrder P
  | ((_, sourceTime, symbol, symbolSeqNum, ()), orderId, newOrderId, price, volume, side,
      _reserved2, ()) =>
    { nanosSinceMidnight := sourceTime.nanosSinceMidnight, symbol, symbolSeqNum, orderId,
      newOrderId, price, volume, side }

def toRetailPriceImprovement :
    retailPriceImprovementMembers.Row P → RetailPriceImprovement
  | ((_, sourceTime, symbol, symbolSeqNum, ()), rpiIndicator, ()) =>
    { nanosSinceMidnight := sourceTime.nanosSinceMidnight, symbol, symbolSeqNum,
      rpiIndicator }

def toImbalance : imbalanceMembers.Row P → Imbalance P
  | ((_, sourceTime, symbol, symbolSeqNum, ()), referencePrice, pairedQty,
      totalImbalanceQty, marketImbalanceQty, auctionTime, auctionType, imbalanceSide,
      continuousBookClearingPrice, auctionInterestClearingPrice, ssrFilingPrice,
      indicativeMatchPrice, upperCollar, lowerCollar, auctionStatus, freezeStatus,
      numExtensions, unpairedQuantity, unpairedSide, significantImbalance, ()) =>
    { nanosSinceMidnight := sourceTime.nanosSinceMidnight, symbol, symbolSeqNum,
      referencePrice, pairedQty, totalImbalanceQty, marketImbalanceQty, auctionTime,
      auctionType, imbalanceSide, continuousBookClearingPrice,
      auctionInterestClearingPrice, ssrFilingPrice, indicativeMatchPrice, upperCollar,
      lowerCollar, auctionStatus, freezeStatus, numExtensions, unpairedQuantity,
      unpairedSide, significantImbalance }

def toAddOrderRefresh : addOrderRefreshMembers.Row P → AddOrderRefresh P
  | ((_, sourceTime, symbol, symbolSeqNum, ()), orderId, price, volume, side, firmId,
      _reserved, ()) =>
    { nanosSinceMidnight := sourceTime.nanosSinceMidnight, symbol, symbolSeqNum, orderId,
      price, volume, side, firmId }

def toNonDisplayedTrade : nonDisplayedTradeMembers.Row P → NonDisplayedTrade P
  | ((_, sourceTime, symbol, symbolSeqNum, ()), tradeId, price, volume, printableFlag,
      _tradeCondition1, _tradeCondition2, _tradeCondition3, _tradeCondition4, ()) =>
    { nanosSinceMidnight := sourceTime.nanosSinceMidnight, symbol, symbolSeqNum, tradeId,
      price, volume, printedToSip := printableFlag != 0 }

def toCrossTrade : crossTradeMembers.Row P → CrossTrade P
  | ((_, sourceTime, symbol, symbolSeqNum, ()), crossId, price, volume, crossType, ()) =>
    { nanosSinceMidnight := sourceTime.nanosSinceMidnight, symbol, symbolSeqNum, crossId,
      price, volume, crossType }

def toTradeCancel : tradeCancelMembers.Row P → TradeCancel
  | ((_, sourceTime, symbol, symbolSeqNum, ()), tradeId, ()) =>
    { nanosSinceMidnight := sourceTime.nanosSinceMidnight, symbol, symbolSeqNum, tradeId }

def toCrossCorrection : crossCorrectionMembers.Row P → CrossCorrection
  | ((_, sourceTime, symbol, symbolSeqNum, ()), crossId, volume, ()) =>
    { nanosSinceMidnight := sourceTime.nanosSinceMidnight, symbol, symbolSeqNum, crossId,
      volume }

/-- The struct that the case of a message type emits. -/
def toPayload : (type : MessageType) → (wireMembers type).Row P → Payload P
  | .symbolIndexMapping, wireMessage => .symbolIndexMapping (toSymbolIndexMapping wireMessage)
  | .securityStatus, wireMessage => .securityStatus (toSecurityStatus wireMessage)
  | .addOrder, wireMessage => .addOrder (toAddOrder wireMessage)
  | .modifyOrder, wireMessage => .modifyOrder (toModifyOrder wireMessage)
  | .deleteOrder, wireMessage => .deleteOrder (toDeleteOrder wireMessage)
  | .orderExecution, wireMessage => .orderExecution (toOrderExecution wireMessage)
  | .replaceOrder, wireMessage => .replaceOrder (toReplaceOrder wireMessage)
  | .retailPriceImprovement, wireMessage =>
    .retailPriceImprovement (toRetailPriceImprovement wireMessage)
  | .imbalance, wireMessage => .imbalance (toImbalance wireMessage)
  | .addOrderRefresh, wireMessage => .addOrderRefresh (toAddOrderRefresh wireMessage)
  | .nonDisplayedTrade, wireMessage => .nonDisplayedTrade (toNonDisplayedTrade wireMessage)
  | .crossTrade, wireMessage => .crossTrade (toCrossTrade wireMessage)
  | .tradeCancel, wireMessage => .tradeCancel (toTradeCancel wireMessage)
  | .crossCorrection, wireMessage => .crossCorrection (toCrossCorrection wireMessage)

theorem toPayload_type (type : MessageType) (wireMessage : (wireMembers type).Row P) :
    (toPayload type wireMessage).type = type := by
  cases type <;> rfl

/-! ## Public members by name -/

/-- A value of some member. A blank optional is `std::nullopt`. -/
inductive FieldValue (P : Type) where
  | char (value : Byte)
  | string (value : Str)
  | uint8 (value : UInt8)
  | uint64 (value : UInt64)
  | double (value : P)
  | bool (value : Bool)
  | nullopt

def FieldValue.ofOption {α : Type} (f : α → FieldValue P) : Option α → FieldValue P
  | none => .nullopt
  | some value => f value

/-- A column's value as a public struct holds it; a time of day as its nanoseconds. -/
def BaseField.publicValue : (field : BaseField) → field.Value P → FieldValue P
  | .char, value => .char value
  | .string, value => .string value
  | .sourceTime, value => .uint64 value.nanosSinceMidnight
  | .uint8, value => .uint8 value
  | .uint64, value => .uint64 value
  | .double, value => .double value

def FieldType.publicValue : (type : FieldType) → type.Value P → FieldValue P
  | .base field, value => field.publicValue value
  | .optional field, value => .ofOption field.publicValue value

def publicName : Name → Name
  | .sourceTime => .nanosSinceMidnight
  | .printableFlag => .printedToSip
  | name => name

/-- A flag column is published as the test for non-zero. -/
def publicFlag (name : Name) (value : FieldValue P) : FieldValue P :=
  match name, value with
  | .printableFlag, .uint8 flag => .bool (flag != 0)
  | _, value => value

def publicMember (cell : Members.Cell P) : Name × FieldValue P :=
  (publicName cell.1.1, publicFlag cell.1.1 (cell.1.2.publicValue cell.2))

/-- The wire members that no public struct has. -/
def dropped : Name → Bool
  | .msgType | .sequenceNumber | .reserved | .reserved1 | .reserved2 | .positionChange
  | .tradeCondition1 | .tradeCondition2 | .tradeCondition3 | .tradeCondition4 => true
  | _ => false

/-- The first three members of every public struct but `SymbolIndexMapping`. -/
def headerMembers (nanosSinceMidnight : UInt64) (symbol : Str) (symbolSeqNum : UInt64) :
    List (Name × FieldValue P) :=
  [(.nanosSinceMidnight, .uint64 nanosSinceMidnight), (.symbol, .string symbol),
    (.symbolSeqNum, .uint64 symbolSeqNum)]

def members : Payload P → List (Name × FieldValue P)
  | .symbolIndexMapping msg =>
    [(.symbol, .string msg.symbol), (.marketId, .uint8 msg.marketId),
      (.systemId, .uint8 msg.systemId), (.exchangeCode, .char msg.exchangeCode),
      (.securityType, .char msg.securityType), (.lotSize, .uint64 msg.lotSize),
      (.prevClosePrice, .double msg.prevClosePrice),
      (.prevCloseVolume, .uint64 msg.prevCloseVolume),
      (.priceResolution, .uint8 msg.priceResolution), (.roundLot, .char msg.roundLot),
      (.mpv, .double msg.mpv), (.unitOfTrade, .uint8 msg.unitOfTrade)]
  | .securityStatus msg =>
    headerMembers msg.nanosSinceMidnight msg.symbol msg.symbolSeqNum ++
    [(.securityStatus, .char msg.securityStatus),
      (.haltCondition, .ofOption .char msg.haltCondition),
      (.price1, .ofOption .double msg.price1), (.price2, .ofOption .double msg.price2),
      (.ssrTriggeringExchangeId, .ofOption .char msg.ssrTriggeringExchangeId),
      (.ssrTriggeringVolume, .ofOption .uint64 msg.ssrTriggeringVolume),
      (.time, .ofOption .uint64 msg.time), (.ssrState, .ofOption .char msg.ssrState),
      (.marketState, .ofOption .char msg.marketState)]
  | .addOrder msg =>
    headerMembers msg.nanosSinceMidnight msg.symbol msg.symbolSeqNum ++
    [(.orderId, .uint64 msg.orderId), (.price, .double msg.price),
      (.volume, .uint64 msg.volume), (.side, .char msg.side), (.firmId, .string msg.firmId)]
  | .modifyOrder msg =>
    headerMembers msg.nanosSinceMidnight msg.symbol msg.symbolSeqNum ++
    [(.orderId, .uint64 msg.orderId), (.price, .double msg.price),
      (.volume, .uint64 msg.volume), (.side, .char msg.side)]
  | .deleteOrder msg =>
    headerMembers msg.nanosSinceMidnight msg.symbol msg.symbolSeqNum ++
    [(.orderId, .uint64 msg.orderId)]
  | .orderExecution msg =>
    headerMembers msg.nanosSinceMidnight msg.symbol msg.symbolSeqNum ++
    [(.orderId, .uint64 msg.orderId), (.tradeId, .uint64 msg.tradeId),
      (.price, .double msg.price), (.volume, .uint64 msg.volume),
      (.printedToSip, .bool msg.printedToSip)]
  | .replaceOrder msg =>
    headerMembers msg.nanosSinceMidnight msg.symbol msg.symbolSeqNum ++
    [(.orderId, .uint64 msg.orderId), (.newOrderId, .uint64 msg.newOrderId),
      (.price, .double msg.price), (.volume, .uint64 msg.volume), (.side, .char msg.side)]
  | .retailPriceImprovement msg =>
    headerMembers msg.nanosSinceMidnight msg.symbol msg.symbolSeqNum ++
    [(.rpiIndicator, .ofOption .char msg.rpiIndicator)]
  | .imbalance msg =>
    headerMembers msg.nanosSinceMidnight msg.symbol msg.symbolSeqNum ++
    [(.referencePrice, .double msg.referencePrice), (.pairedQty, .uint64 msg.pairedQty),
      (.totalImbalanceQty, .uint64 msg.totalImbalanceQty),
      (.marketImbalanceQty, .uint64 msg.marketImbalanceQty),
      (.auctionTime, .uint64 msg.auctionTime), (.auctionType, .char msg.auctionType),
      (.imbalanceSide, .char msg.imbalanceSide),
      (.continuousBookClearingPrice, .double msg.continuousBookClearingPrice),
      (.auctionInterestClearingPrice, .double msg.auctionInterestClearingPrice),
      (.ssrFilingPrice, .double msg.ssrFilingPrice),
      (.indicativeMatchPrice, .double msg.indicativeMatchPrice),
      (.upperCollar, .double msg.upperCollar), (.lowerCollar, .double msg.lowerCollar),
      (.auctionStatus, .uint8 msg.auctionStatus), (.freezeStatus, .uint8 msg.freezeStatus),
      (.numExtensions, .uint64 msg.numExtensions),
      (.unpairedQuantity, .uint64 msg.unpairedQuantity),
      (.unpairedSide, .char msg.unpairedSide),
      (.significantImbalance, .char msg.significantImbalance)]
  | .addOrderRefresh msg =>
    headerMembers msg.nanosSinceMidnight msg.symbol msg.symbolSeqNum ++
    [(.orderId, .uint64 msg.orderId), (.price, .double msg.price),
      (.volume, .uint64 msg.volume), (.side, .char msg.side), (.firmId, .string msg.firmId)]
  | .nonDisplayedTrade msg =>
    headerMembers msg.nanosSinceMidnight msg.symbol msg.symbolSeqNum ++
    [(.tradeId, .uint64 msg.tradeId), (.price, .double msg.price),
      (.volume, .uint64 msg.volume), (.printedToSip, .bool msg.printedToSip)]
  | .crossTrade msg =>
    headerMembers msg.nanosSinceMidnight msg.symbol msg.symbolSeqNum ++
    [(.crossId, .uint64 msg.crossId), (.price, .double msg.price),
      (.volume, .uint64 msg.volume), (.crossType, .char msg.crossType)]
  | .tradeCancel msg =>
    headerMembers msg.nanosSinceMidnight msg.symbol msg.symbolSeqNum ++
    [(.tradeId, .uint64 msg.tradeId)]
  | .crossCorrection msg =>
    headerMembers msg.nanosSinceMidnight msg.symbol msg.symbolSeqNum ++
    [(.crossId, .uint64 msg.crossId), (.volume, .uint64 msg.volume)]

theorem FieldValue.ofOption_injective {α : Type} {f : α → FieldValue P}
    (hf : Function.Injective f) (hnone : ∀ a, f a ≠ .nullopt) :
    Function.Injective (FieldValue.ofOption f) := by
  intro o o' h
  cases o <;> cases o' <;> simp_all [FieldValue.ofOption, hf.eq_iff, (hnone _).symm]

/-- The listed members are all there is to a public struct. -/
theorem members_inj {payload payload' : Payload P} (htype : payload.type = payload'.type)
    (h : members payload = members payload') : payload = payload' := by
  have hchar := FieldValue.ofOption_injective (f := FieldValue.char (P := P))
    (fun _ _ h => FieldValue.char.inj h) (by simp)
  have huint64 := FieldValue.ofOption_injective (f := FieldValue.uint64 (P := P))
    (fun _ _ h => FieldValue.uint64.inj h) (by simp)
  have hdouble := FieldValue.ofOption_injective (f := FieldValue.double (P := P))
    (fun _ _ h => FieldValue.double.inj h) (by simp)
  cases payload <;> cases payload' <;> first
    | (cases htype; done)
    | (rename_i msg msg'
       cases msg
       cases msg'
       simp [members, headerMembers, hchar.eq_iff, huint64.eq_iff, hdouble.eq_iff] at h
       simp [h])

theorem message_inj {message message' : Message P} (htype : message.type = message'.type)
    (h : members message.data = members message'.data) : message = message' := by
  obtain ⟨type, data, htagged⟩ := message
  obtain ⟨type', data', htagged'⟩ := message'
  obtain rfl : type = type' := htype
  obtain rfl := members_inj (htagged.trans htagged'.symm) h
  rfl

/-- **The emitted struct is the row**, in the row's order, without the members it
drops. -/
theorem members_toPayload (type : MessageType) (wireMessage : (wireMembers type).Row P) :
    members (toPayload type wireMessage)
      = (((wireMembers type).cells wireMessage).map publicMember).filter
          fun member => !dropped member.1 := by
  cases type <;> rfl

theorem nodup_publicName_leaves (type : MessageType) :
    ((wireMembers type).leaves.map fun leaf => publicName leaf.1).Nodup := by
  cases type <;> decide

theorem header_prefix_leaves (type : MessageType) :
    messageHeaderMembers.leaves <+: (wireMembers type).leaves := by
  cases type <;> decide

end Public

end Mde.Nyse
