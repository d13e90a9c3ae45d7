import Mde.Parser

/-!
# Line by line

The engine without its threads: every line is parsed, recorded and, if it
has a message, handed to the callback, before the next one is read. This
is what the pipeline of two threads is meant to be indistinguishable
from once it has run dry.

`run_eq` gives the end of a run in closed form.
-/

namespace Mde

open Messages Nyse

variable {P C : Type}

def decoded (fromChars : Str → FromChars P) (lines : List Str) : List (Message P) :=
  lines.filterMap fun line => (parseNext fromChars {} line).emitted

def parserAfter (fromChars : Str → FromChars P) (lines : List Str) : Parser :=
  lines.foldl (fun parser line => (parseNext fromChars parser line).parser) {}

section Decoded

variable {fromChars : Str → FromChars P}

theorem emitted_eq (parser : Parser) (line : Str) :
    (parseNext fromChars parser line).emitted = (parseNext fromChars {} line).emitted := by
  rw [emitted_parseNext, emitted_parseNext]

theorem decoded_append_singleton (lines : List Str) (line : Str) (parser : Parser) :
    decoded fromChars (lines ++ [line])
      = decoded fromChars lines ++ (parseNext fromChars parser line).emitted.toList := by
  rw [emitted_eq, decoded, List.filterMap_append, List.filterMap_cons, List.filterMap_nil]
  cases (parseNext fromChars {} line).emitted <;> rfl

theorem parserAfter_append_singleton (lines : List Str) (line : Str) :
    parserAfter fromChars (lines ++ [line])
      = (parseNext fromChars (parserAfter fromChars lines) line).parser := by
  rw [parserAfter, List.foldl_append]
  rfl

theorem length_emitted (parser : Parser) (line : Str) :
    (parseNext fromChars parser line).emitted.toList.length
      = if (parseNext fromChars parser line).error = .none then 1 else 0 := by
  simp only [error_parseNext_eq_none_iff, emitted_parseNext]
  cases decode fromChars (columns line) <;> rfl

end Decoded

/-- The engine's state, as far as it can be observed, and the callback's. -/
structure Sequential (P C : Type) where
  parser : Parser := {}
  success : Nat := 0
  total : Nat := 0
  egressCount : Nat := 0
  sink : C

namespace Sequential

variable (fromChars : Str → FromChars P) (callback : C → Message P → C)

def line (s : Sequential P C) (line : Str) : Sequential P C :=
  let parsed := parseNext fromChars s.parser line
  { parser := parsed.parser
    success := if parsed.error = .none then s.success + 1 else s.success
    total := s.total + 1
    egressCount := s.egressCount + parsed.emitted.toList.length
    sink := parsed.emitted.toList.foldl callback s.sink }

def run (lines : List Str) (sink : C) : Sequential P C :=
  lines.foldl (line fromChars callback) { sink }

theorem run_eq (lines : List Str) (sink : C) :
    run fromChars callback lines sink
      = { parser := parserAfter fromChars lines
          success := (decoded fromChars lines).length
          total := lines.length
          egressCount := (decoded fromChars lines).length
          sink := (decoded fromChars lines).foldl callback sink } := by
  induction lines using List.reverseRecOn with
  | nil => rfl
  | append_singleton lines l ih =>
      rw [parserAfter_append_singleton,
        decoded_append_singleton lines l (parserAfter fromChars lines),
        List.length_append, List.length_append, List.foldl_append, run, List.foldl_append,
        List.foldl_cons, List.foldl_nil, ← run, ih, line, length_emitted]
      split <;> rfl

end Sequential

end Mde
