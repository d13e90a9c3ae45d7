import Mde.WireMessages

/-!
# The parser

`Parser` of `schema/parse.hpp`, the state every feed's parser has: the
sequence-integrity metrics and the histogram of message types. And
`ParseNext` of the NYSE parser, which decodes one line.

`parseNext` gives back the message it emits, at most one; the engine
pushes it. `decode` is the decoder on the columns of a line alone, and
`parseNext_eq` says that `ParseNext` is this decoder plus the record it
makes of the header.

`_lastSequenceNumber` and `_messagesLost` are as wide as in the source;
what counts lines is a natural number.
-/

namespace Mde

open Messages

namespace Parser

inductive ParseError where
  | none
  | unknownMsgType
  | messageDecode
  | unknown
deriving DecidableEq, Repr

structure IntegrityMetrics where
  lastSequenceNumber : UInt64 := 0
  /-- `seq > lastSeq + 1` -/
  gapEvents : Nat := 0
  /-- sum of `seq - lastSeq - 1` across gaps -/
  messagesLost : UInt64 := 0
  /-- `seq == lastSeq` -/
  duplicates : Nat := 0
  /-- `seq < lastSeq` -/
  backwardsJumps : Nat := 0
deriving DecidableEq, Repr

end Parser

structure Parser where
  lineData : Parser.IntegrityMetrics := {}
  msgTypeCounts : UInt8 → Nat := fun _ => 0

namespace Parser

/-- The part of `RecordSequence` that classifies a sequence number. -/
def IntegrityMetrics.classify (metrics : IntegrityMetrics) (sequenceNumber : UInt64) :
    IntegrityMetrics :=
  if sequenceNumber = metrics.lastSequenceNumber then
    { metrics with duplicates := metrics.duplicates + 1 }
  else if sequenceNumber < metrics.lastSequenceNumber then
    { metrics with backwardsJumps := metrics.backwardsJumps + 1 }
  else if sequenceNumber > metrics.lastSequenceNumber + 1 then
    { metrics with
      gapEvents := metrics.gapEvents + 1
      messagesLost := metrics.messagesLost
        + (sequenceNumber - metrics.lastSequenceNumber - 1) }
  else metrics

/-- The high-water mark only rises. -/
def IntegrityMetrics.raise (metrics : IntegrityMetrics) (sequenceNumber : UInt64) :
    IntegrityMetrics :=
  if sequenceNumber > metrics.lastSequenceNumber then
    { metrics with lastSequenceNumber := sequenceNumber }
  else metrics

def recordSequence (parser : Parser) (msgType : UInt8) (sequenceNumber : UInt64) :
    Parser where
  lineData := (parser.lineData.classify sequenceNumber).raise sequenceNumber
  msgTypeCounts := Function.update parser.msgTypeCounts msgType
    (parser.msgTypeCounts msgType + 1)

end Parser

namespace Nyse

/-! ## Dispatch -/

/-- The `msgType` constants. -/
def code : MessageType → UInt8
  | .symbolIndexMapping => 3
  | .securityStatus => 34
  | .addOrder => 100
  | .modifyOrder => 101
  | .deleteOrder => 102
  | .orderExecution => 103
  | .replaceOrder => 104
  | .imbalance => 105
  | .addOrderRefresh => 106
  | .nonDisplayedTrade => 110
  | .crossTrade => 111
  | .tradeCancel => 112
  | .crossCorrection => 113
  | .retailPriceImprovement => 114

/-- The `switch` of `ParseNext`. -/
def dispatch (msgType : UInt8) : Option MessageType :=
  match msgType with
  | 3 => some .symbolIndexMapping
  | 34 => some .securityStatus
  | 100 => some .addOrder
  | 101 => some .modifyOrder
  | 102 => some .deleteOrder
  | 103 => some .orderExecution
  | 104 => some .replaceOrder
  | 114 => some .retailPriceImprovement
  | 105 => some .imbalance
  | 106 => some .addOrderRefresh
  | 110 => some .nonDisplayedTrade
  | 111 => some .crossTrade
  | 112 => some .tradeCancel
  | 113 => some .crossCorrection
  | _ => none

theorem dispatch_eq_some_iff {msgType : UInt8} {type : MessageType} :
    dispatch msgType = some type ↔ msgType = code type := by
  constructor
  · intro h
    unfold dispatch at h
    split at h <;> cases h <;> rfl
  · rintro rfl
    cases type <;> rfl

/-! ## One line -/

section Line

variable {P : Type} (fromChars : Str → FromChars P)

/-- What `Emit` pushes for a wire message. -/
def emit (type : MessageType) (wireMessage : (wireMembers type).Row P) : Message P where
  type
  data := toPayload type wireMessage
  tagged := toPayload_type type wireMessage

structure Parsed (P : Type) where
  parser : Parser
  emitted : Option (Message P)
  error : Parser.ParseError

/-- `ParseNext`. The wire struct is read again from column 0, by the reader that
read the header. -/
def parseNext (parser : Parser) (data : Str) : Parsed P :=
  match messageHeaderMembers.populate fromChars { csvLine := data } 0 with
  | .error _ => ⟨parser, none, .messageDecode⟩
  | .ok ((msgType, sequenceNumber, ()), csvReader) =>
    let parser := parser.recordSequence msgType sequenceNumber
    match dispatch msgType with
    | none => ⟨parser, none, .unknownMsgType⟩
    | some type =>
      match (wireMembers type).populate fromChars csvReader 0 with
      | .error _ => ⟨parser, none, .messageDecode⟩
      | .ok (wireMessage, _) => ⟨parser, some (emit type wireMessage), .none⟩

/-! ## The decoder on columns -/

def header (texts : List Str) : Option (UInt8 × UInt64) :=
  (messageHeaderMembers.parse fromChars texts).map fun row => (row.1, row.2.1)

def decode (texts : List Str) : Option (Message P) :=
  match header fromChars texts with
  | none => none
  | some (msgType, _) =>
    match dispatch msgType with
    | none => none
    | some type => ((wireMembers type).parse fromChars texts).map (emit type)

/-- What a line without a message is answered with. -/
def refusal (texts : List Str) : Parser.ParseError :=
  match header fromChars texts with
  | none => .messageDecode
  | some (msgType, _) =>
    match dispatch msgType with
    | none => .unknownMsgType
    | some _ => .messageDecode

theorem refusal_ne_none (texts : List Str) : refusal fromChars texts ≠ .none := by
  unfold refusal
  split
  · simp
  · split <;> simp

def recordHeader (parser : Parser) (texts : List Str) : Parser :=
  match header fromChars texts with
  | none => parser
  | some (msgType, sequenceNumber) => parser.recordSequence msgType sequenceNumber

/-- **`ParseNext` is the decoder on the columns**, whatever state the parser is in. -/
theorem parseNext_eq (parser : Parser) (data : Str) :
    parseNext fromChars parser data
      = { parser := recordHeader fromChars parser (columns data)
          emitted := decode fromChars (columns data)
          error := match decode fromChars (columns data) with
            | some _ => .none
            | none => refusal fromChars (columns data) } := by
  have hheader := messageHeaderMembers.populate_reads fromChars
    (CSVReader.valid_new data) 0
  rw [List.drop_zero] at hheader
  rw [parseNext]
  unfold recordHeader decode refusal header
  cases hpop : messageHeaderMembers.populate fromChars { csvLine := data } 0 with
  | error e =>
      rw [hpop] at hheader
      rw [show messageHeaderMembers.parse fromChars (columns data) = none from hheader]
      rfl
  | ok r =>
      obtain ⟨⟨msgType, sequenceNumber, ⟨⟩⟩, csvReader⟩ := r
      rw [hpop] at hheader
      obtain ⟨hparse, hvalid⟩ := hheader
      rw [hparse]
      dsimp only [Option.map_some]
      cases hdispatch : dispatch msgType with
      | none => rfl
      | some type =>
          have hbody := (wireMembers type).populate_reads fromChars hvalid 0
          rw [List.drop_zero] at hbody
          dsimp only
          cases hpop' : (wireMembers type).populate fromChars csvReader 0 with
          | error e =>
              rw [hpop'] at hbody
              rw [show (wireMembers type).parse fromChars (columns data) = none from hbody]
              rfl
          | ok r =>
              rw [hpop'] at hbody
              rw [hbody.1]
              rfl

theorem emitted_parseNext (parser : Parser) (data : Str) :
    (parseNext fromChars parser data).emitted = decode fromChars (columns data) := by
  rw [parseNext_eq]

/-- A line is a success exactly when it emits its message. -/
theorem error_parseNext_eq_none_iff (parser : Parser) (data : Str) :
    (parseNext fromChars parser data).error = .none
      ↔ (decode fromChars (columns data)).isSome := by
  rw [parseNext_eq]
  dsimp only
  cases decode fromChars (columns data) with
  | some message => exact iff_of_true rfl rfl
  | none => exact iff_of_false (refusal_ne_none fromChars _) (by simp)

end Line

end Nyse

end Mde
