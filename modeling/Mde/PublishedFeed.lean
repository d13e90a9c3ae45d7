import Mde.FeedFile
import Mde.LineAccounts
import Mde.Publish

/-!
# From messages to a file and back

Whatever list of publishable messages there is, some feed file carries
it: a line for each message, numbered from one, every line terminated.
The engine on this file delivers the messages, in this order and nothing
else, and its sequence-integrity metrics stay clean. And no file makes it
deliver anything but publishable messages, in whatever state it is looked
at.
-/

namespace Mde

open Messages Nyse Getline

variable {P C : Type} {fromChars : Str → FromChars P} {callback : C → Message P → C}

def numbered (messages : List (Message P)) : List (UInt8 × UInt64) :=
  messages.mapIdx fun i message => (code message.type, UInt64.ofNat (i + 1))

/-- Publishable messages have lines, with consecutive sequence numbers. -/
theorem exists_lines (hblank : fromChars [] = .invalidArgument) {messages : List (Message P)}
    (h : ∀ message ∈ messages, ∀ member ∈ members message.data, Publishable fromChars member) :
    ∃ lines, (∀ line ∈ lines, lineFeed ∉ line) ∧ lines.length = messages.length
      ∧ decoded fromChars lines = messages ∧ headers fromChars lines = numbered messages := by
  induction messages using List.reverseRecOn with
  | nil => exact ⟨[], List.forall_mem_nil _, rfl, rfl, rfl⟩
  | append_singleton messages message ih =>
      obtain ⟨hmessages, hmessage⟩ := List.forall_mem_append.mp h
      obtain ⟨lines, hplain, hlength, hdecoded, hheaders⟩ := ih hmessages
      obtain ⟨line, hline, hdecode, hheader⟩ := exists_line hblank message
        (hmessage message (List.mem_singleton_self _)) (UInt64.ofNat (messages.length + 1))
      refine ⟨lines ++ [line], ?_, ?_, ?_, ?_⟩
      · exact List.forall_mem_append.mpr ⟨hplain, by simpa using hline⟩
      · rw [List.length_append, List.length_append, hlength]
        rfl
      · rw [decoded_append_singleton lines line {}, hdecoded, emitted_parseNext, hdecode]
        rfl
      · rw [headers, List.filterMap_append, ← headers, hheaders, numbered, numbered,
          List.mapIdx_concat, List.filterMap_cons, hheader]
        rfl

theorem classify_succ {n : Nat} (hn : n + 1 < 2 ^ 64) :
    let metrics : Parser.IntegrityMetrics := { lastSequenceNumber := UInt64.ofNat n }
    metrics.record (UInt64.ofNat (n + 1))
      = { lastSequenceNumber := UInt64.ofNat (n + 1) } := by
  intro metrics
  have hlast : (UInt64.ofNat n).toNat = n := UInt64.toNat_ofNat_of_lt' (Nat.lt_of_succ_lt hn)
  have hnext : (UInt64.ofNat (n + 1)).toNat = n + 1 := UInt64.toNat_ofNat_of_lt' hn
  have hlt : UInt64.ofNat n < UInt64.ofNat (n + 1) := by
    rw [UInt64.lt_iff_toNat_lt, hlast, hnext]
    omega
  have hgap : ¬ UInt64.ofNat (n + 1) > UInt64.ofNat n + 1 := by
    rw [Parser.gap_iff hlt, hlast, hnext]
    omega
  have hskipped : UInt64.ofNat (n + 1) - UInt64.ofNat n - 1 = 0 := by
    refine UInt64.toNat_inj.mp ?_
    rw [Parser.toNat_skipped hlt, hlast, hnext, UInt64.toNat_zero]
    omega
  rcases metrics.record_cases (UInt64.ofNat (n + 1)) with ⟨heq, -⟩ | ⟨hgt, -⟩ | ⟨-, hrecord⟩
  · rw [show UInt64.ofNat (n + 1) = UInt64.ofNat n from heq] at hlt
    exact absurd hlt (UInt64.lt_irrefl _)
  · exact absurd hlt (UInt64.lt_asymm hgt)
  · rw [hrecord]
    simp only [metrics, hskipped, if_neg hgap]
    rfl

theorem lineData_recordAll_numbered {messages : List (Message P)}
    (h : messages.length < 2 ^ 64) :
    (Parser.recordAll (numbered messages)).lineData
      = { lastSequenceNumber := UInt64.ofNat messages.length } := by
  induction messages using List.reverseRecOn with
  | nil => rfl
  | append_singleton messages message ih =>
      rw [List.length_append, List.length_singleton] at h ⊢
      rw [numbered, List.mapIdx_concat, ← numbered, Parser.recordAll, List.foldl_append,
        ← Parser.recordAll]
      show (Parser.recordAll (numbered messages)).lineData.record
        (UInt64.ofNat (messages.length + 1)) = _
      rw [ih (by omega), classify_succ h]

namespace FileEngine

/-- **What a feed file can say, and that it says it.** At no moment of any interleaving
has the engine delivered a message that is not publishable. And for any publishable
messages there is a file from which it delivers these, in order, whatever the callback,
counting each of them as a line and a success and no irregularity. -/
theorem published_feed (hblank : fromChars [] = .invalidArgument) :
    (∀ (callback : C → Message P → C) (disk : Option Str) (ingestType : IngestData)
      (pathExists : Bool) (sink : C) (start e : FileEngine P C) (actions : List Engine.Action),
      construct ingestType pathExists sink = .ok start →
      Guarded.play (step fromChars callback disk) start actions = some e →
        ∀ message ∈ e.engine.egress.delivered, ∀ member ∈ members message.data,
          Publishable fromChars member)
      ∧ ∀ messages : List (Message P), messages.length < 2 ^ 64 →
        (∀ message ∈ messages, ∀ member ∈ members message.data,
          Publishable fromChars member) →
        ∃ content, ∀ (callback : C → Message P → C) (ingestType : IngestData)
          (pathExists : Bool) (sink : C) (start e : FileEngine P C)
          (actions : List Engine.Action),
          construct ingestType pathExists sink = .ok start →
          Guarded.play (step fromChars callback (some content)) start actions = some e →
          e.engine.Joined → e.engine.stopRequested = false →
            e.engine.egress.delivered = messages
              ∧ e.engine.getTotal = messages.length
              ∧ e.engine.getSuccess = messages.length
              ∧ e.engine.getIntegrityMetrics
                = { lastSequenceNumber := UInt64.ofNat messages.length } := by
  constructor
  · intro callback disk ingestType pathExists sink start e actions hstart hplay message hmessage
    have hs := play_sound hstart hplay
    have hpushed : message ∈ decoded fromChars e.engine.ingest.parsed := by
      have hmem : message ∈ e.engine.ingest.pushed := by
        rw [← show _ = e.engine.ingest.pushed from hs.fifo]
        exact List.mem_append_left _ hmessage
      rwa [show e.engine.ingest.pushed = _ from hs.ingest.pushed] at hmem
    obtain ⟨line, hline, hdecode⟩ := List.mem_filterMap.mp hpushed
    rw [emitted_parseNext] at hdecode
    have hmem : line ∈ lines disk := by
      rw [← hs.ingest.split]
      exact List.mem_append_left _ hline
    refine publishable_of_decode hblank ?_ hdecode
    cases disk with
    | none => cases hmem
    | some content => exact not_mem_of_mem_getlines hmem
  · intro messages hlength hmessages
    obtain ⟨feed, hplain, hfeed, hdecoded, hheaders⟩ := exists_lines hblank hmessages
    refine ⟨unlines lineFeed feed, ?_⟩
    intro callback ingestType pathExists sink start e actions hstart hplay hjoined hstop
    have hlines : lines (some (unlines lineFeed feed)) = feed := getlines_unlines hplain
    have hs := play_sound hstart hplay
    rw [hlines] at hs
    obtain ⟨hdelivered, hobserved⟩ := hs.joined hjoined hstop
    rw [Sequential.run_eq] at hobserved
    obtain ⟨hparser, hsuccess, htotal, -, -⟩ := Sequential.mk.injEq .. |>.mp hobserved
    refine ⟨hdelivered.trans hdecoded, htotal.trans hfeed, ?_, ?_⟩
    · exact hsuccess.trans (by rw [hdecoded])
    · replace hparser : e.engine.ingest.parser = parserAfter fromChars feed := hparser
      rw [Engine.getIntegrityMetrics, hparser, parserAfter_eq, hheaders,
        lineData_recordAll_numbered hlength]

section Sample

/-- A file that publishes two deletions, counted by the callback. -/
theorem published_feed_deletions :
    ∃ content, ∀ (start e : FileEngine Nat Nat) (actions : List Engine.Action),
      construct IngestData.nysePillar true 0 = .ok start →
      Guarded.play (step (unsignedFromChars (2 ^ 64)) (fun count _ => count + 1)
        (some content)) start actions = some e →
      e.engine.Joined → e.engine.stopRequested = false →
        e.engine.egress.delivered = [sampleDeletion 1 [65], sampleDeletion 2 [66]]
          ∧ e.engine.getIntegrityMetrics = { lastSequenceNumber := 2 } := by
  have hpublishable : ∀ message ∈ [sampleDeletion 1 [65], sampleDeletion 2 [66]],
      ∀ member ∈ members message.data,
        Publishable (unsignedFromChars (2 ^ 64)) member := by
    intro message hmessage
    rcases List.mem_pair.mp hmessage with rfl | rfl
    · exact publishable_sampleDeletion.mpr (by decide +kernel)
    · exact publishable_sampleDeletion.mpr (by decide +kernel)
  obtain ⟨content, hcontent⟩ := (published_feed rfl).2
    [sampleDeletion 1 [65], sampleDeletion 2 [66]] (by decide) hpublishable
  refine ⟨content, ?_⟩
  intro start e actions hstart hplay hjoined hstop
  obtain ⟨hdelivered, -, -, hmetrics⟩ :=
    hcontent _ _ true 0 start e actions hstart hplay hjoined hstop
  exact ⟨hdelivered, hmetrics⟩

end Sample

end FileEngine

end Mde
