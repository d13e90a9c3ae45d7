import Mde.Delivery
import Mde.SequenceIntegrity

/-!
# Every line is accounted for

The parser counts headers, the engine counts verdicts, and the queue gets
messages. `LineOutcome` lists the three things `ParseNext` can do with a
line, and `parseNext_outcome` says that it does the one its columns
decide. Two of them record the header, once, and only the last pushes.

`parserAfter_eq` turns the lines read into the calls of `RecordSequence`
they make, `sum_msgTypeCounts` counts these by message type and
`Parser.recordAll_tallied` by sequence number; with the invariant of the
ingest thread the three sets of counters stay in step
(`lines_accounted`).
-/

namespace Mde

open Messages Nyse

variable {P C : Type} (fromChars : Str → FromChars P)

/-! ## One line -/

/-- What `ParseNext` does with a line: the parser, the queue and the verdict
afterwards. -/
inductive LineOutcome (parser : Parser) (queue : MessageQueue (Message P)) (line : Str) :
    Parser → MessageQueue (Message P) → Parser.ParseError → Prop where
  /-- the header does not decode, and nothing is recorded -/
  | rejected (hheader : header fromChars (columns line) = none) :
      LineOutcome parser queue line parser queue .messageDecode
  /-- the header is recorded, and the type is unknown or the body does not decode -/
  | failed (msgType : UInt8) (sequenceNumber : UInt64)
      (hheader : header fromChars (columns line) = some (msgType, sequenceNumber))
      (hbody : ∀ type, dispatch msgType = some type →
        (wireMembers type).parse fromChars (columns line) = none) :
      LineOutcome parser queue line (parser.recordSequence msgType sequenceNumber) queue
        (if dispatch msgType = none then .unknownMsgType else .messageDecode)
  /-- the header is recorded, and the message of the row is pushed; its payload is that of
  its tag, as of every `Message` -/
  | pushed (msgType : UInt8) (sequenceNumber : UInt64) (type : MessageType)
      (row : (wireMembers type).Row P)
      (hheader : header fromChars (columns line) = some (msgType, sequenceNumber))
      (htype : dispatch msgType = some type)
      (hbody : (wireMembers type).parse fromChars (columns line) = some row) :
      LineOutcome parser queue line (parser.recordSequence msgType sequenceNumber)
        (queue.push (emit type row)) .none

theorem parseNext_outcome (t : IngestThread P) (queue : MessageQueue (Message P))
    (line : Str) :
    LineOutcome fromChars t.parser queue line (t.parseLine fromChars line).parser
      (t.emitLine fromChars line queue) (parseNext fromChars t.parser line).error := by
  rw [IngestThread.parseLine, IngestThread.emitLine, parseNext_eq]
  dsimp only
  unfold recordHeader decode refusal
  cases hheader : header fromChars (columns line) with
  | none => exact .rejected hheader
  | some call =>
      obtain ⟨msgType, sequenceNumber⟩ := call
      dsimp only
      cases hdispatch : dispatch msgType with
      | none =>
          have hfailed : LineOutcome fromChars t.parser queue line
              (t.parser.recordSequence msgType sequenceNumber) queue _ :=
            .failed msgType sequenceNumber hheader (by rw [hdispatch]; rintro _ ⟨⟩)
          simpa [hdispatch] using hfailed
      | some type =>
          dsimp only
          cases hbody : (wireMembers type).parse fromChars (columns line) with
          | none =>
              have hfailed : LineOutcome fromChars t.parser queue line
                  (t.parser.recordSequence msgType sequenceNumber) queue _ :=
                .failed msgType sequenceNumber hheader (by rw [hdispatch]; rintro _ ⟨⟩; exact hbody)
              simpa [hdispatch] using hfailed
          | some row => exact .pushed msgType sequenceNumber type row hheader hdispatch hbody

/-! ## The calls of `RecordSequence` -/

def headers (lines : List Str) : List (UInt8 × UInt64) :=
  lines.filterMap fun line => header fromChars (columns line)

def withHeader (lines : List Str) : List Str :=
  lines.filter fun line => (header fromChars (columns line)).isSome

theorem length_headers (lines : List Str) :
    (headers fromChars lines).length = (withHeader fromChars lines).length := by
  rw [headers, List.length_filterMap_eq_countP, withHeader, List.countP_eq_length_filter]

theorem parserAfter_eq (lines : List Str) :
    parserAfter fromChars lines = Parser.recordAll (headers fromChars lines) := by
  induction lines using List.reverseRecOn with
  | nil => rfl
  | append_singleton lines line ih =>
      have hheaders : headers fromChars (lines ++ [line])
          = headers fromChars lines ++ (header fromChars (columns line)).toList := by
        rw [headers, List.filterMap_append]
        cases hheader : header fromChars (columns line) <;> simp [headers, hheader]
      rw [parserAfter_append_singleton, ih, parseNext_eq, hheaders, Parser.recordAll,
        Parser.recordAll, List.foldl_append]
      unfold recordHeader
      cases header fromChars (columns line) <;> rfl

theorem sum_msgTypeCounts (calls : List (UInt8 × UInt64)) :
    ∑ msgType, (Parser.recordAll calls).msgTypeCounts msgType = calls.length := by
  induction calls using List.reverseRecOn with
  | nil => simp [Parser.recordAll]
  | append_singleton calls call ih =>
      have hcall : (Parser.recordAll (calls ++ [call])).msgTypeCounts
          = Function.update (Parser.recordAll calls).msgTypeCounts call.1
            ((Parser.recordAll calls).msgTypeCounts call.1 + 1) := by
        rw [Parser.recordAll, List.foldl_append]
        rfl
      rw [hcall, Finset.sum_update_of_mem (Finset.mem_univ _), List.length_append,
        List.length_singleton, ← ih,
        ← Finset.add_sum_erase Finset.univ _ (Finset.mem_univ call.1),
        Finset.sdiff_singleton_eq_erase]
      omega

/-- Only a line with a header has a message. -/
theorem length_decoded_le (lines : List Str) :
    (decoded fromChars lines).length ≤ (headers fromChars lines).length := by
  rw [decoded, headers, List.length_filterMap_eq_countP, List.length_filterMap_eq_countP]
  refine List.countP_mono_left ?_
  intro line _ hsome
  rw [emitted_parseNext, decode] at hsome
  cases hheader : header fromChars (columns line) with
  | none => simp [hheader] at hsome
  | some call => rfl

/-! ## All lines -/

variable {fromChars} {callback : C → Message P → C}

/-- **Every line is accounted for, once.** A line is rejected at its header, fails
behind it or is pushed; and when the ingest thread is through with its lines, the
counters of the engine, the parser and the queue tell the same story. -/
theorem lines_accounted :
    (∀ (t : IngestThread P) (queue : MessageQueue (Message P)) (line : Str),
      LineOutcome fromChars t.parser queue line (t.parseLine fromChars line).parser
        (t.emitLine fromChars line queue) (parseNext fromChars t.parser line).error)
    ∧ ∀ (lines : List Str) (sink : C) (actions : List Engine.Action) (e : Engine P C),
      Engine.play fromChars callback lines sink actions = some e →
      e.ingest.pc = .done → e.ingest.lines = [] →
        e.getTotal = lines.length
        ∧ e.getSuccess = e.ingest.pushed.length
        ∧ ∑ msgType, e.getMsgTypeCounts msgType = (withHeader fromChars lines).length
        ∧ (withHeader fromChars lines).length
          = e.getIntegrityMetrics.duplicates + e.getIntegrityMetrics.backwardsJumps
            + Parser.advances (headers fromChars lines)
        ∧ e.getSuccess ≤ (withHeader fromChars lines).length
        ∧ (withHeader fromChars lines).length ≤ e.getTotal := by
  refine ⟨parseNext_outcome fromChars, ?_⟩
  intro lines sink actions e h hpc hlines
  have hs := (Engine.play_sound h).ingest
  have hparsed : e.ingest.parsed = lines := by
    simpa [IngestThread.pendingLine, hpc, hlines] using hs.split
  have hparser : e.ingest.parser = Parser.recordAll (headers fromChars lines) := by
    rw [hs.parser, hparsed, parserAfter_eq]
  have hsuccess := hs.success
  have htotal := hs.total
  have hpushed := hs.pushed
  simp only [IngestThread.pendingVerdict, hpc] at hsuccess htotal
  rw [hparsed] at htotal hpushed
  rw [hpushed] at hsuccess
  have htallied := (Parser.recordAll_tallied (headers fromChars lines)).total
  refine ⟨htotal, by rw [hpushed]; exact hsuccess, ?_, ?_, ?_, ?_⟩
  · rw [Engine.getMsgTypeCounts, hparser, sum_msgTypeCounts, length_headers]
  · rw [Engine.getIntegrityMetrics, hparser, htallied, List.length_map, length_headers]
  · rw [← length_headers]
    exact (Nat.le_of_eq hsuccess).trans (length_decoded_le fromChars lines)
  · exact (List.length_filter_le ..).trans_eq htotal.symm

/-- The line of no known type has a header and no message. -/
theorem lines_accounted_sample :
    let e := Engine.sampleEngine
    e.getTotal = 3
      ∧ e.getSuccess = e.ingest.pushed.length
      ∧ ∑ msgType, e.getMsgTypeCounts msgType = 3
      ∧ e.getSuccess = 2 := by
  intro e
  have hplay : Engine.samplePlay = some e := (Option.some_get _).symm
  obtain ⟨htotal, hsuccess, hcounts, -⟩ := lines_accounted.2 Engine.sampleLines {}
    Engine.sampleActions e hplay (by decide +kernel) (by decide +kernel)
  exact ⟨htotal, hsuccess, hcounts.trans (by decide +kernel), by decide +kernel⟩

end Mde
