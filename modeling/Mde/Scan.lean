import Mde.Message

/-!
# Scanning one field

The number and time scanners of `csv.hpp`: `parse_std_type` around
`std::from_chars`, and `parse_source_time`.

`FromChars` is what `std::from_chars` reports. For the unsigned types it
is defined here: the longest prefix of decimal digits, no sign and no
blank. For `double` it stays a parameter of all that reads a line;
`Mde.DoubleScan` has the one of the standard.
-/

namespace Mde.Nyse

inductive ParseError where
  | invalidNumber
  | outOfRange
  | trailingCharacters
deriving DecidableEq, Repr

/-- The result of `std::from_chars`: the two error codes, or the value with what is
left of the text. -/
inductive FromChars (α : Type*) where
  | invalidArgument
  | resultOutOfRange
  | ok (value : α) (rest : Str)
deriving DecidableEq, Repr

def FromChars.map {α β : Type*} (f : α → β) : FromChars α → FromChars β
  | .invalidArgument => .invalidArgument
  | .resultOutOfRange => .resultOutOfRange
  | .ok value rest => .ok (f value) rest

/-! ## Unsigned numbers -/

def isDigit (c : Byte) : Bool := '0'.toUInt8 ≤ c && c ≤ '9'.toUInt8

def decimal (digits : Str) : Nat :=
  digits.foldl (fun n c => 10 * n + (c - '0'.toUInt8).toNat) 0

/-- `std::from_chars` for an unsigned type of `bound` values. -/
def unsignedFromChars (bound : Nat) (text : Str) : FromChars Nat :=
  let digits := text.takeWhile isDigit
  if digits = [] then .invalidArgument
  else if bound ≤ decimal digits then .resultOutOfRange
  else .ok (decimal digits) (text.dropWhile isDigit)

def uint8FromChars (text : Str) : FromChars UInt8 :=
  (unsignedFromChars (2 ^ 8) text).map UInt8.ofNat

def uint64FromChars (text : Str) : FromChars UInt64 :=
  (unsignedFromChars (2 ^ 64) text).map UInt64.ofNat

/-- `parse_std_type`: the whole text has to be the number. -/
def parseStdType {α : Type*} (fromChars : Str → FromChars α) (text : Str) :
    Except ParseError α :=
  match fromChars text with
  | .invalidArgument => .error .invalidNumber
  | .resultOutOfRange => .error .outOfRange
  | .ok value rest => if rest ≠ [] then .error .trailingCharacters else .ok value

theorem parseStdType_ok_iff {α : Type*} {fromChars : Str → FromChars α} {text : Str}
    {value : α} :
    parseStdType fromChars text = .ok value ↔ fromChars text = .ok value [] := by
  rw [parseStdType]
  cases fromChars text with
  | invalidArgument => simp
  | resultOutOfRange => simp
  | ok value' rest => cases rest <;> simp

/-! ## Times of day -/

structure SourceTime where
  nanosSinceMidnight : UInt64 := 0
deriving DecidableEq, Repr

def kNanosPerSecond : UInt64 := 1000000000
def kNanosPerMinute : UInt64 := 60 * kNanosPerSecond
def kNanosPerHour : UInt64 := 60 * kNanosPerMinute

/-- `"HH:MM:SS.nnnnnnnnn"`; every failure is `InvalidNumber`. -/
def parseSourceTime (text : Str) : Except ParseError SourceTime :=
  if text.length ≠ 18 ∨ text[2]? ≠ some ':'.toUInt8 ∨ text[5]? ≠ some ':'.toUInt8
      ∨ text[8]? ≠ some '.'.toUInt8 then .error .invalidNumber
  else
    match parseStdType uint64FromChars (text.take 2),
      parseStdType uint64FromChars ((text.drop 3).take 2),
      parseStdType uint64FromChars ((text.drop 6).take 2),
      parseStdType uint64FromChars ((text.drop 9).take 9) with
    | .ok hours, .ok minutes, .ok seconds, .ok nanos =>
      .ok ⟨hours * kNanosPerHour + minutes * kNanosPerMinute + seconds * kNanosPerSecond
        + nanos⟩
    | _, _, _, _ => .error .invalidNumber

end Mde.Nyse
