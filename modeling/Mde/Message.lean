import Mathlib

/-!
# The decoded messages

The exchange-agnostic structs of `message.hpp`: one structure per
message type, the tag enumeration `MessageType`, and the queue entry
`Message` that pairs a tag with a type-erased payload.

Prices are a type parameter `P`; the source instantiates it with
`double`. Everything else has the width of the source: `std::uint64_t`
is `UInt64`, a `char` is one byte and a `std::string` is the list of
its bytes.
-/

namespace Mde

/-- A `char`: one byte. -/
abbrev Byte := UInt8

/-- The bytes of a `std::string` or a `std::string_view`. -/
abbrev Str := List Byte

namespace Messages

inductive MessageType where
  | symbolIndexMapping
  | securityStatus
  | addOrder
  | modifyOrder
  | deleteOrder
  | orderExecution
  | replaceOrder
  | retailPriceImprovement
  | imbalance
  | addOrderRefresh
  | nonDisplayedTrade
  | crossTrade
  | tradeCancel
  | crossCorrection
deriving DecidableEq, Repr

structure SymbolIndexMapping (P : Type*) where
  symbol : Str
  marketId : UInt8
  systemId : UInt8
  exchangeCode : Byte
  securityType : Byte
  lotSize : UInt64
  prevClosePrice : P
  prevCloseVolume : UInt64
  priceResolution : UInt8
  roundLot : Byte
  mpv : P
  unitOfTrade : UInt8
deriving DecidableEq, Repr

/-- A field is `none` where the exchange published it blank. -/
structure SecurityStatus (P : Type*) where
  nanosSinceMidnight : UInt64
  symbol : Str
  symbolSeqNum : UInt64
  securityStatus : Byte
  haltCondition : Option Byte
  price1 : Option P
  price2 : Option P
  ssrTriggeringExchangeId : Option Byte
  ssrTriggeringVolume : Option UInt64
  time : Option UInt64
  ssrState : Option Byte
  marketState : Option Byte
deriving DecidableEq, Repr

structure AddOrder (P : Type*) where
  nanosSinceMidnight : UInt64
  symbol : Str
  symbolSeqNum : UInt64
  orderId : UInt64
  price : P
  volume : UInt64
  side : Byte
  firmId : Str
deriving DecidableEq, Repr

structure ModifyOrder (P : Type*) where
  nanosSinceMidnight : UInt64
  symbol : Str
  symbolSeqNum : UInt64
  orderId : UInt64
  price : P
  volume : UInt64
  side : Byte
deriving DecidableEq, Repr

structure DeleteOrder where
  nanosSinceMidnight : UInt64
  symbol : Str
  symbolSeqNum : UInt64
  orderId : UInt64
deriving DecidableEq, Repr

structure OrderExecution (P : Type*) where
  nanosSinceMidnight : UInt64
  symbol : Str
  symbolSeqNum : UInt64
  orderId : UInt64
  tradeId : UInt64
  price : P
  volume : UInt64
  printedToSip : Bool
deriving DecidableEq, Repr

structure ReplaceOrder (P : Type*) where
  nanosSinceMidnight : UInt64
  symbol : Str
  symbolSeqNum : UInt64
  orderId : UInt64
  newOrderId : UInt64
  price : P
  volume : UInt64
  side : Byte
deriving DecidableEq, Repr

structure RetailPriceImprovement where
  nanosSinceMidnight : UInt64
  symbol : Str
  symbolSeqNum : UInt64
  rpiIndicator : Option Byte
deriving DecidableEq, Repr

structure Imbalance (P : Type*) where
  nanosSinceMidnight : UInt64
  symbol : Str
  symbolSeqNum : UInt64
  referencePrice : P
  pairedQty : UInt64
  totalImbalanceQty : UInt64
  marketImbalanceQty : UInt64
  auctionTime : UInt64
  auctionType : Byte
  imbalanceSide : Byte
  continuousBookClearingPrice : P
  auctionInterestClearingPrice : P
  ssrFilingPrice : P
  indicativeMatchPrice : P
  upperCollar : P
  lowerCollar : P
  auctionStatus : UInt8
  freezeStatus : UInt8
  numExtensions : UInt64
  unpairedQuantity : UInt64
  unpairedSide : Byte
  significantImbalance : Byte
deriving DecidableEq, Repr

/-- Same fields as `AddOrder`, sent for every order currently resting on
the book. -/
structure AddOrderRefresh (P : Type*) where
  nanosSinceMidnight : UInt64
  symbol : Str
  symbolSeqNum : UInt64
  orderId : UInt64
  price : P
  volume : UInt64
  side : Byte
  firmId : Str
deriving DecidableEq, Repr

structure NonDisplayedTrade (P : Type*) where
  nanosSinceMidnight : UInt64
  symbol : Str
  symbolSeqNum : UInt64
  tradeId : UInt64
  price : P
  volume : UInt64
  printedToSip : Bool
deriving DecidableEq, Repr

structure CrossTrade (P : Type*) where
  nanosSinceMidnight : UInt64
  symbol : Str
  symbolSeqNum : UInt64
  crossId : UInt64
  price : P
  volume : UInt64
  crossType : Byte
deriving DecidableEq, Repr

structure TradeCancel where
  nanosSinceMidnight : UInt64
  symbol : Str
  symbolSeqNum : UInt64
  tradeId : UInt64
deriving DecidableEq, Repr

structure CrossCorrection where
  nanosSinceMidnight : UInt64
  symbol : Str
  symbolSeqNum : UInt64
  crossId : UInt64
  volume : UInt64
deriving DecidableEq, Repr

/-- The object a queue entry's `_data` pointer owns, with the struct it
was made from. -/
inductive Payload (P : Type*) where
  | symbolIndexMapping (msg : SymbolIndexMapping P)
  | securityStatus (msg : SecurityStatus P)
  | addOrder (msg : AddOrder P)
  | modifyOrder (msg : ModifyOrder P)
  | deleteOrder (msg : DeleteOrder)
  | orderExecution (msg : OrderExecution P)
  | replaceOrder (msg : ReplaceOrder P)
  | retailPriceImprovement (msg : RetailPriceImprovement)
  | imbalance (msg : Imbalance P)
  | addOrderRefresh (msg : AddOrderRefresh P)
  | nonDisplayedTrade (msg : NonDisplayedTrade P)
  | crossTrade (msg : CrossTrade P)
  | tradeCancel (msg : TradeCancel)
  | crossCorrection (msg : CrossCorrection)
deriving DecidableEq, Repr

variable {P : Type*}

namespace Payload

/-- The tag whose `static_cast` in `OnMessage` names this struct. -/
def type : Payload P → MessageType
  | .symbolIndexMapping _ => .symbolIndexMapping
  | .securityStatus _ => .securityStatus
  | .addOrder _ => .addOrder
  | .modifyOrder _ => .modifyOrder
  | .deleteOrder _ => .deleteOrder
  | .orderExecution _ => .orderExecution
  | .replaceOrder _ => .replaceOrder
  | .retailPriceImprovement _ => .retailPriceImprovement
  | .imbalance _ => .imbalance
  | .addOrderRefresh _ => .addOrderRefresh
  | .nonDisplayedTrade _ => .nonDisplayedTrade
  | .crossTrade _ => .crossTrade
  | .tradeCancel _ => .tradeCancel
  | .crossCorrection _ => .crossCorrection

def symbol : Payload P → Str
  | .symbolIndexMapping msg => msg.symbol
  | .securityStatus msg => msg.symbol
  | .addOrder msg => msg.symbol
  | .modifyOrder msg => msg.symbol
  | .deleteOrder msg => msg.symbol
  | .orderExecution msg => msg.symbol
  | .replaceOrder msg => msg.symbol
  | .retailPriceImprovement msg => msg.symbol
  | .imbalance msg => msg.symbol
  | .addOrderRefresh msg => msg.symbol
  | .nonDisplayedTrade msg => msg.symbol
  | .crossTrade msg => msg.symbol
  | .tradeCancel msg => msg.symbol
  | .crossCorrection msg => msg.symbol

end Payload

/-- A queue entry. `MakeMessage` takes the tag and the payload
separately; the field `tagged` records that the tag names the payload's
struct, so the cast a consumer does on `type` is the identity. -/
structure Message (P : Type*) where
  type : MessageType
  data : Payload P
  tagged : data.type = type
deriving DecidableEq

end Messages

end Mde
