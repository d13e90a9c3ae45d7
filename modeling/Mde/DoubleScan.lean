import Mde.FloatOrder
import Mde.TimeOfDay

/-!
# Scanning a price

`std::from_chars` for `double` in its general format. Everything but the
rounding is defined here: `round` gives the nearest finite value of a
decimal number, and `none` for one that is out of range.

* `doubleFromChars` — the scanner: an optional minus sign, then an
  infinity, a NaN or a decimal number, the longest there is.
* `DecimalWord`, `IsInfinity`, `IsNan` — what may be written behind the
  sign.
* `parseDouble_eq_ok_iff` — with `parse_std_type` around it the scanner
  accepts exactly these texts.

The texts of the second kind are `NonFiniteSpelling`s, and they are all
that makes a price other than a finite number (`parseDouble_nonFinite_iff`).
-/

namespace Mde.Nyse

open FloatOrder

variable {R : Type}

/-! ## The scanner -/

/-- A decimal number as it is written, `mantissa * 10 ^ exponent`. -/
structure Decimal where
  negative : Bool
  mantissa : Nat
  exponent : Int
deriving DecidableEq, Repr

def bytes (text : String) : Str := text.toList.map Char.toUInt8

def toLower (c : Byte) : Byte :=
  if 'A'.toUInt8 ≤ c && c ≤ 'Z'.toUInt8 then c + 32 else c

def afterWord : Str → Str → Option Str
  | [], text => some text
  | _ :: _, [] => none
  | w :: word, c :: text => if toLower c = w then afterWord word text else none

def isNChar (c : Byte) : Bool :=
  isDigit c || ('a'.toUInt8 ≤ toLower c && toLower c ≤ 'z'.toUInt8) || c == '_'.toUInt8

/-- What follows the payload of a NaN; all of it when the parentheses do not close. -/
def afterPayload (text : Str) : Str :=
  match text with
  | [] => text
  | c :: chars =>
    if c = '('.toUInt8 then
      match chars.dropWhile isNChar with
      | [] => text
      | d :: rest => if d = ')'.toUInt8 then rest else text
    else text

def scanSpecial (negative : Bool) (text : Str) : Option (Value R × Str) :=
  match afterWord (bytes "infinity") text with
  | some rest => some (.infinity negative, rest)
  | none =>
    match afterWord (bytes "inf") text with
    | some rest => some (.infinity negative, rest)
    | none => (afterWord (bytes "nan") text).map fun rest => (.nan, afterPayload rest)

def scanSignificand (text : Str) : Str × Str × Str :=
  let whole := text.takeWhile isDigit
  match text.dropWhile isDigit with
  | [] => (whole, [], [])
  | c :: rest =>
    if c = '.'.toUInt8 then (whole, rest.takeWhile isDigit, rest.dropWhile isDigit)
    else (whole, [], c :: rest)

/-- A sign in an exponent: whether it is a minus. -/
def scanSign (text : Str) : Bool × Str :=
  match text with
  | [] => (false, [])
  | c :: rest =>
    if c = '-'.toUInt8 then (true, rest)
    else if c = '+'.toUInt8 then (false, rest)
    else (false, text)

/-- An exponent without digits is none. -/
def scanExponent (text : Str) : Int × Str :=
  match text with
  | [] => (0, [])
  | c :: chars =>
    if toLower c = 'e'.toUInt8 then
      let (negative, rest) := scanSign chars
      let digits := rest.takeWhile isDigit
      if digits = [] then (0, text)
      else (if negative then -decimal digits else decimal digits, rest.dropWhile isDigit)
    else (0, text)

def scanDecimal (negative : Bool) (text : Str) : Option (Decimal × Str) :=
  let (whole, fraction, rest) := scanSignificand text
  if whole ++ fraction = [] then none
  else
    let (exponent, rest) := scanExponent rest
    some (⟨negative, decimal (whole ++ fraction), exponent - fraction.length⟩, rest)

def scanMagnitude (round : Decimal → Option R) (negative : Bool) (text : Str) :
    FromChars (Value R) :=
  match scanSpecial negative text with
  | some (value, rest) => .ok value rest
  | none =>
    match scanDecimal negative text with
    | none => .invalidArgument
    | some (d, rest) =>
      match round d with
      | none => .resultOutOfRange
      | some number => .ok (.finite number) rest

/-- `std::from_chars` for `double`. -/
def doubleFromChars (round : Decimal → Option R) (text : Str) : FromChars (Value R) :=
  match text with
  | [] => scanMagnitude round false []
  | c :: rest =>
    if c = '-'.toUInt8 then scanMagnitude round true rest
    else scanMagnitude round false text

/-! ## What may be written -/

/-- Digits with a point among them, or none; some digit there is. -/
inductive Significand : Str → Str → Str → Prop where
  | whole {digits : Str} (hne : digits ≠ []) (h : ∀ c ∈ digits, isDigit c = true) :
      Significand digits digits []
  | point {whole fraction : Str} (hne : whole ++ fraction ≠ [])
      (hwhole : ∀ c ∈ whole, isDigit c = true)
      (hfraction : ∀ c ∈ fraction, isDigit c = true) :
      Significand (whole ++ '.'.toUInt8 :: fraction) whole fraction

/-- Nothing, or `e` with digits behind it, which may have a sign. -/
inductive ExponentPart : Str → Int → Prop where
  | none : ExponentPart [] 0
  | unsigned {e : Byte} {digits : Str} (he : toLower e = 'e'.toUInt8) (hne : digits ≠ [])
      (h : ∀ c ∈ digits, isDigit c = true) : ExponentPart (e :: digits) (decimal digits)
  | plus {e : Byte} {digits : Str} (he : toLower e = 'e'.toUInt8) (hne : digits ≠ [])
      (h : ∀ c ∈ digits, isDigit c = true) :
      ExponentPart (e :: '+'.toUInt8 :: digits) (decimal digits)
  | minus {e : Byte} {digits : Str} (he : toLower e = 'e'.toUInt8) (hne : digits ≠ [])
      (h : ∀ c ∈ digits, isDigit c = true) :
      ExponentPart (e :: '-'.toUInt8 :: digits) (-decimal digits)

def DecimalWord (negative : Bool) (text : Str) (d : Decimal) : Prop :=
  ∃ (digits whole fraction tail : Str) (exponent : Int), text = digits ++ tail
    ∧ Significand digits whole fraction ∧ ExponentPart tail exponent
    ∧ d = ⟨negative, decimal (whole ++ fraction), exponent - fraction.length⟩

def IsInfinity (text : Str) : Prop :=
  text.map toLower = bytes "inf" ∨ text.map toLower = bytes "infinity"

def IsNan (text : Str) : Prop :=
  ∃ word payload : Str, text = word ++ payload ∧ word.map toLower = bytes "nan"
    ∧ (payload = [] ∨ ∃ chars : Str, payload = '('.toUInt8 :: (chars ++ [')'.toUInt8])
      ∧ ∀ c ∈ chars, isNChar c = true)

inductive Word (round : Decimal → Option R) (negative : Bool) : Str → Value R → Prop where
  | finite {text : Str} {d : Decimal} {number : R} (h : DecimalWord negative text d)
      (hround : round d = some number) : Word round negative text (.finite number)
  | infinity {text : Str} (h : IsInfinity text) : Word round negative text (.infinity negative)
  | nan {text : Str} (h : IsNan text) : Word round negative text .nan

/-- The general format: the value of a text. -/
def Spells (round : Decimal → Option R) (text : Str) (value : Value R) : Prop :=
  Word round false text value
    ∨ ∃ word : Str, text = '-'.toUInt8 :: word ∧ Word round true word value

def NonFiniteSpelling (text : Str) : Prop :=
  (IsInfinity text ∨ IsNan text)
    ∨ ∃ word : Str, text = '-'.toUInt8 :: word ∧ (IsInfinity word ∨ IsNan word)

/-! ## Words -/

theorem afterWord_eq_some_iff {word text rest : Str} :
    afterWord word text = some rest ↔ ∃ w : Str, text = w ++ rest ∧ w.map toLower = word := by
  induction word generalizing text with
  | nil =>
      rw [afterWord, Option.some.injEq]
      constructor
      · rintro rfl
        exact ⟨[], rfl, rfl⟩
      · rintro ⟨w, rfl, hw⟩
        rw [List.map_eq_nil_iff.mp hw, List.nil_append]
  | cons l word ih =>
      cases text with
      | nil =>
          refine iff_of_false (by simp [afterWord]) ?_
          rintro ⟨w, htext, hw⟩
          rw [(List.append_eq_nil_iff.mp htext.symm).1] at hw
          cases hw
      | cons c text =>
          rw [afterWord]
          constructor
          · intro h
            split at h
            · rename_i hc
              obtain ⟨w, rfl, hw⟩ := ih.mp h
              exact ⟨c :: w, rfl, by rw [List.map_cons, hc, hw]⟩
            · cases h
          · rintro ⟨w, htext, hw⟩
            cases w with
            | nil => cases hw
            | cons c' w =>
                obtain ⟨rfl, rfl⟩ := List.cons.inj htext
                rw [List.map_cons] at hw
                obtain ⟨hc, hw⟩ := List.cons.inj hw
                rw [if_pos hc]
                exact ih.mpr ⟨w, rfl, hw⟩

theorem afterWord_eq_nil_iff {word text : Str} :
    afterWord word text = some [] ↔ text.map toLower = word := by
  simp [afterWord_eq_some_iff]

theorem afterPayload_eq_nil_iff {text : Str} :
    afterPayload text = [] ↔ text = [] ∨ ∃ chars : Str,
      text = '('.toUInt8 :: (chars ++ [')'.toUInt8]) ∧ ∀ c ∈ chars, isNChar c = true := by
  cases text with
  | nil => simp [afterPayload]
  | cons c rest =>
      rw [afterPayload]
      constructor
      · intro h
        split at h
        · rename_i hc
          cases hdrop : rest.dropWhile isNChar with
          | nil => rw [hdrop] at h; cases h
          | cons d tail =>
              rw [hdrop] at h
              dsimp only at h
              split at h
              · rename_i hd
                refine .inr ⟨rest.takeWhile isNChar, ?_, fun c hc => List.mem_takeWhile_imp hc⟩
                rw [hc, ← hd, ← h, ← hdrop, List.takeWhile_append_dropWhile]
              · cases h
        · cases h
      · rintro (h | ⟨chars, h, hchars⟩)
        · cases h
        · obtain ⟨rfl, rfl⟩ := List.cons.inj h
          have hdrop : (chars ++ [')'.toUInt8]).dropWhile isNChar = [')'.toUInt8] := by
            rw [List.dropWhile_append_of_pos hchars]
            rfl
          rw [if_pos rfl, hdrop]
          rfl

theorem isNan_iff {text : Str} :
    IsNan text ↔ ∃ rest, afterWord (bytes "nan") text = some rest ∧ afterPayload rest = [] := by
  simp only [IsNan, afterWord_eq_some_iff, afterPayload_eq_nil_iff]
  constructor
  · rintro ⟨word, payload, htext, hword, hpayload⟩
    exact ⟨payload, ⟨word, htext, hword⟩, hpayload⟩
  · rintro ⟨payload, ⟨word, htext, hword⟩, hpayload⟩
    exact ⟨word, payload, htext, hword, hpayload⟩

theorem isInfinity_iff {text : Str} :
    IsInfinity text ↔ afterWord (bytes "inf") text = some []
      ∨ afterWord (bytes "infinity") text = some [] := by
  rw [IsInfinity, afterWord_eq_nil_iff, afterWord_eq_nil_iff]

theorem afterWord_cons_inj {l l' : Byte} {word word' text rest rest' : Str}
    (h : afterWord (l :: word) text = some rest)
    (h' : afterWord (l' :: word') text = some rest') : l = l' := by
  cases text with
  | nil => cases h
  | cons c text =>
      rw [afterWord] at h h'
      split at h
      · split at h'
        · rename_i hl hl'
          rw [← hl, hl']
        · cases h'
      · cases h

theorem not_isNan_of_afterWord {word text rest : Str}
    (h : afterWord ('i'.toUInt8 :: word) text = some rest) : ¬ IsNan text := by
  intro hnan
  obtain ⟨rest', hrest', -⟩ := isNan_iff.mp hnan
  have : 'i'.toUInt8 = 'n'.toUInt8 := afterWord_cons_inj h hrest'
  exact absurd this (by decide)

/-- The scanner takes a special value for the whole text exactly when it is one. -/
theorem scanSpecial_eq_some_nil_iff {negative : Bool} {text : Str} {value : Value R} :
    scanSpecial negative text = some (value, [])
      ↔ (IsInfinity text ∧ value = .infinity negative) ∨ (IsNan text ∧ value = .nan) := by
  rw [scanSpecial]
  cases hinfinity : afterWord (bytes "infinity") text with
  | some rest =>
      have hnan := not_isNan_of_afterWord hinfinity
      have hlength : afterWord (bytes "inf") text ≠ some [] := by
        obtain ⟨w, rfl, hw⟩ := afterWord_eq_some_iff.mp hinfinity
        intro h
        have hmap := congrArg List.length (afterWord_eq_nil_iff.mp h)
        rw [List.map_append, List.length_append, hw] at hmap
        have hlt : 3 < (bytes "infinity").length := by decide
        exact absurd hmap (by change _ ≠ 3; omega)
      simp [isInfinity_iff, hnan, hlength, hinfinity, and_comm, eq_comm]
  | none =>
      cases hinf : afterWord (bytes "inf") text with
      | some rest =>
          have hnan := not_isNan_of_afterWord hinf
          simp [isInfinity_iff, hnan, hinf, hinfinity, and_comm, eq_comm]
      | none =>
          cases hword : afterWord (bytes "nan") text with
          | none => simp [isInfinity_iff, isNan_iff, hinf, hinfinity, hword]
          | some rest =>
              have hnan : IsNan text ↔ afterPayload rest = [] := by simp [isNan_iff, hword]
              simp [isInfinity_iff, hnan, hinf, hinfinity, and_comm, eq_comm (a := value)]

/-! ## Decimal numbers -/

theorem isDigit_toNat {c : Byte} (h : isDigit c = true) : toLower c = c ∧ c.toNat ≤ 57
    ∧ 48 ≤ c.toNat := by
  obtain ⟨hlow, hhigh⟩ := isDigit_iff.mp h
  refine ⟨?_, hhigh, hlow⟩
  rw [toLower, if_neg]
  rw [Bool.and_eq_true, decide_eq_true_eq, decide_eq_true_eq, UInt8.le_iff_toNat_le]
  rintro ⟨hA, -⟩
  have : ('A'.toUInt8).toNat = 65 := rfl
  omega

theorem span_digits {digits rest : Str} (hdigits : ∀ c ∈ digits, isDigit c = true)
    (hrest : ∀ c ∈ rest.head?, isDigit c = false) :
    (digits ++ rest).takeWhile isDigit = digits
      ∧ (digits ++ rest).dropWhile isDigit = rest := by
  rw [List.takeWhile_append_of_pos hdigits, List.dropWhile_append_of_pos hdigits]
  cases rest with
  | nil => simp
  | cons c rest =>
      have hc := hrest c rfl
      simp [hc]

theorem span_all {digits : Str} (hdigits : ∀ c ∈ digits, isDigit c = true) :
    digits.takeWhile isDigit = digits ∧ digits.dropWhile isDigit = [] := by
  have hspan : (digits ++ []).takeWhile isDigit = digits
      ∧ (digits ++ []).dropWhile isDigit = [] := span_digits hdigits (by simp)
  rwa [List.append_nil] at hspan

theorem all_digits {text : Str} (h : text.dropWhile isDigit = []) :
    ∀ c ∈ text, isDigit c = true :=
  List.dropWhile_eq_nil_iff.mp h

theorem ExponentPart.head {text : Str} {exponent : Int} (h : ExponentPart text exponent) :
    ∀ c ∈ text.head?, isDigit c = false ∧ c ≠ '.'.toUInt8 := by
  have hletter : ∀ {e : Byte}, toLower e = 'e'.toUInt8 →
      isDigit e = false ∧ e ≠ '.'.toUInt8 := by
    intro e he
    constructor
    · by_contra hdigit
      obtain ⟨hlower, hhigh, -⟩ := isDigit_toNat (Bool.not_eq_false _ ▸ hdigit)
      rw [← hlower, he] at hhigh
      exact absurd hhigh (by decide)
    · rintro rfl
      exact absurd he (by decide)
  intro c hc
  cases h with
  | none => cases hc
  | unsigned he | plus he | minus he =>
      obtain rfl := Option.some.inj hc
      exact hletter he

theorem scanSign_digits {digits : Str} (h : ∀ c ∈ digits, isDigit c = true) :
    scanSign digits = (false, digits) := by
  cases digits with
  | nil => rfl
  | cons c rest =>
      obtain ⟨-, -, hlow⟩ := isDigit_toNat (h c (List.mem_cons_self ..))
      have hminus : c ≠ '-'.toUInt8 := by rintro rfl; exact absurd hlow (by decide)
      have hplus : c ≠ '+'.toUInt8 := by rintro rfl; exact absurd hlow (by decide)
      rw [scanSign, if_neg hminus, if_neg hplus]

theorem scanSign_cases (text : Str) :
    (∃ rest, text = '-'.toUInt8 :: rest ∧ scanSign text = (true, rest))
      ∨ (∃ rest, text = '+'.toUInt8 :: rest ∧ scanSign text = (false, rest))
      ∨ scanSign text = (false, text) := by
  cases text with
  | nil => exact .inr (.inr rfl)
  | cons c rest =>
      by_cases hminus : c = '-'.toUInt8
      · exact .inl ⟨rest, by rw [hminus], by rw [hminus]; rfl⟩
      · by_cases hplus : c = '+'.toUInt8
        · exact .inr (.inl ⟨rest, by rw [hplus], by rw [hplus]; rfl⟩)
        · exact .inr (.inr (by rw [scanSign, if_neg hminus, if_neg hplus]))

theorem digits_of_scanExponent {e : Byte} {chars rest : Str} {exponent : Int}
    {negative : Bool} (h : scanExponent (e :: chars) = (exponent, []))
    (hsign : scanSign chars = (negative, rest)) :
    toLower e = 'e'.toUInt8 ∧ rest ≠ [] ∧ (∀ c ∈ rest, isDigit c = true)
      ∧ exponent = if negative then -(decimal rest : Int) else decimal rest := by
  rw [scanExponent] at h
  split at h
  · rename_i he
    simp only [hsign] at h
    split at h
    · cases h
    · rename_i hne
      obtain ⟨hvalue, hrest⟩ := Prod.mk.injEq .. |>.mp h
      have hdigits := all_digits hrest
      rw [(span_all hdigits).1] at hne hvalue
      exact ⟨he, hne, hdigits, hvalue.symm⟩
  · cases h

/-- The scanner takes an exponent for the whole text exactly when it is one. -/
theorem scanExponent_eq_nil_iff {text : Str} {exponent : Int} :
    scanExponent text = (exponent, []) ↔ ExponentPart text exponent := by
  constructor
  · intro h
    cases text with
    | nil =>
        obtain ⟨rfl, -⟩ := Prod.mk.injEq .. |>.mp h
        exact .none
    | cons e chars =>
        rcases scanSign_cases chars with ⟨rest, rfl, hsign⟩ | ⟨rest, rfl, hsign⟩ | hsign
        · obtain ⟨he, hne, hdigits, rfl⟩ := digits_of_scanExponent h hsign
          exact .minus he hne hdigits
        · obtain ⟨he, hne, hdigits, rfl⟩ := digits_of_scanExponent h hsign
          exact .plus he hne hdigits
        · obtain ⟨he, hne, hdigits, rfl⟩ := digits_of_scanExponent h hsign
          exact .unsigned he hne hdigits
  · intro h
    cases h with
    | none => rfl
    | unsigned he hne hdigits =>
        obtain ⟨htake, hdrop⟩ := span_all hdigits
        simp [scanExponent, if_pos he, scanSign_digits hdigits, htake, hdrop, hne]
    | @plus e digits he hne hdigits =>
        obtain ⟨htake, hdrop⟩ := span_all hdigits
        have hsign : scanSign ('+'.toUInt8 :: digits) = (false, digits) := rfl
        simp [scanExponent, if_pos he, hsign, htake, hdrop, hne]
    | @minus e digits he hne hdigits =>
        obtain ⟨htake, hdrop⟩ := span_all hdigits
        have hsign : scanSign ('-'.toUInt8 :: digits) = (true, digits) := rfl
        simp [scanExponent, if_pos he, hsign, htake, hdrop, hne]

theorem significand_of_scan {text whole fraction tail : Str}
    (h : scanSignificand text = (whole, fraction, tail)) (hne : whole ++ fraction ≠ []) :
    ∃ digits, text = digits ++ tail ∧ Significand digits whole fraction := by
  have hsplit := List.takeWhile_append_dropWhile (p := isDigit) (l := text)
  have hall : ∀ l : Str, ∀ c ∈ l.takeWhile isDigit, isDigit c = true :=
    fun l c hc => List.mem_takeWhile_imp hc
  rw [scanSignificand] at h
  split at h
  · rename_i hdrop
    obtain ⟨rfl, rfl, rfl⟩ := by simpa using h
    rw [List.append_nil] at hne
    exact ⟨text.takeWhile isDigit, by rw [← hdrop, hsplit], .whole hne (hall _)⟩
  · rename_i c rest hdrop
    split at h
    · rename_i hc
      obtain ⟨rfl, rfl, rfl⟩ := by simpa using h
      refine ⟨text.takeWhile isDigit ++ '.'.toUInt8 :: rest.takeWhile isDigit, ?_,
        .point hne (hall _) (hall _)⟩
      rw [List.append_assoc, List.cons_append, List.takeWhile_append_dropWhile, ← hc, ← hdrop,
        hsplit]
    · obtain ⟨rfl, rfl, rfl⟩ := by simpa using h
      rw [List.append_nil] at hne
      exact ⟨text.takeWhile isDigit, by rw [← hdrop, hsplit], .whole hne (hall _)⟩

/-- In front of an exponent the scanner takes a significand for what it is. -/
theorem Significand.scan {digits whole fraction tail : Str}
    (h : Significand digits whole fraction)
    (htail : ∀ c ∈ tail.head?, isDigit c = false ∧ c ≠ '.'.toUInt8) :
    scanSignificand (digits ++ tail) = (whole, fraction, tail) := by
  cases h with
  | whole _ hdigits =>
      obtain ⟨htake, hdrop⟩ := span_digits hdigits fun c hc => (htail c hc).1
      rw [scanSignificand, htake, hdrop]
      cases tail with
      | nil => rfl
      | cons c tail => simp [(htail c rfl).2]
  | point _ hwhole hfraction =>
      have hpoint : ∀ c ∈ ('.'.toUInt8 :: (fraction ++ tail)).head?, isDigit c = false := by
        rintro c ⟨⟩
        rfl
      obtain ⟨htake, hdrop⟩ := span_digits hwhole hpoint
      obtain ⟨htake', hdrop'⟩ := span_digits hfraction fun c hc => (htail c hc).1
      rw [List.append_assoc, List.cons_append, scanSignificand, htake, hdrop]
      simp [htake', hdrop']

theorem Significand.digits_ne_nil {digits whole fraction : Str}
    (h : Significand digits whole fraction) : whole ++ fraction ≠ [] := by
  cases h with
  | whole hne => simpa using hne
  | point hne => exact hne

theorem scanDecimal_eq_some_nil_iff {negative : Bool} {text : Str} {d : Decimal} :
    scanDecimal negative text = some (d, []) ↔ DecimalWord negative text d := by
  constructor
  · intro h
    rw [scanDecimal] at h
    rcases hscan : scanSignificand text with ⟨whole, fraction, tail⟩
    rcases hexp : scanExponent tail with ⟨exponent, rest⟩
    simp only [hscan, hexp] at h
    split at h
    · cases h
    · rename_i hne
      obtain ⟨hd, rfl⟩ := Prod.mk.injEq .. |>.mp (Option.some.inj h)
      obtain ⟨digits, htext, hsig⟩ := significand_of_scan hscan hne
      exact ⟨digits, whole, fraction, tail, exponent, htext, hsig,
        scanExponent_eq_nil_iff.mp hexp, hd.symm⟩
  · rintro ⟨digits, whole, fraction, tail, exponent, rfl, hsig, hexp, rfl⟩
    rw [scanDecimal, hsig.scan hexp.head]
    simp [hsig.digits_ne_nil, scanExponent_eq_nil_iff.mpr hexp]

/-! ## The whole text -/

theorem scanSpecial_of_head {negative : Bool} {c : Byte} {text : Str}
    (hi : toLower c ≠ 'i'.toUInt8) (hn : toLower c ≠ 'n'.toUInt8) :
    scanSpecial (R := R) negative (c :: text) = none := by
  have hword : ∀ (l : Byte) (word : Str), toLower c ≠ l →
      afterWord (l :: word) (c :: text) = none := by
    intro l word hne
    rw [afterWord, if_neg hne]
  rw [scanSpecial, show bytes "infinity" = 'i'.toUInt8 :: bytes "nfinity" from rfl,
    show bytes "inf" = 'i'.toUInt8 :: bytes "nf" from rfl,
    show bytes "nan" = 'n'.toUInt8 :: bytes "an" from rfl, hword _ _ hi, hword _ _ hi,
    hword _ _ hn]
  rfl

theorem Significand.head {digits whole fraction : Str}
    (h : Significand digits whole fraction) :
    ∃ c rest, digits = c :: rest ∧ (isDigit c = true ∨ c = '.'.toUInt8) := by
  cases h with
  | whole hne hdigits =>
      obtain ⟨c, rest, rfl⟩ := List.exists_cons_of_ne_nil hne
      exact ⟨c, rest, rfl, .inl (hdigits c (List.mem_cons_self ..))⟩
  | point _ hwhole _ =>
      cases whole with
      | nil => exact ⟨_, _, rfl, .inr rfl⟩
      | cons c rest => exact ⟨c, _, rfl, .inl (hwhole c (List.mem_cons_self ..))⟩

/-- A decimal number starts with a digit or a point, so it is taken for nothing
special. -/
theorem DecimalWord.scanSpecial {negative negative' : Bool} {text : Str} {d : Decimal}
    (h : DecimalWord negative text d) :
    scanSpecial (R := R) negative' text = none := by
  obtain ⟨_, _, _, tail, _, rfl, hsig, -, -⟩ := h
  obtain ⟨c, rest, rfl, hdigit | rfl⟩ := hsig.head
  · obtain ⟨hlower, hhigh, -⟩ := isDigit_toNat hdigit
    have hne : ∀ l : Byte, 57 < l.toNat → toLower c ≠ l := by
      rintro l hl rfl
      rw [hlower] at hl
      omega
    exact scanSpecial_of_head (hne _ (by decide)) (hne _ (by decide))
  · exact scanSpecial_of_head (by decide) (by decide)

theorem scanMagnitude_eq_ok_nil_iff {round : Decimal → Option R} {negative : Bool}
    {text : Str} {value : Value R} :
    scanMagnitude round negative text = .ok value [] ↔ Word round negative text value := by
  constructor
  · intro h
    rw [scanMagnitude] at h
    split at h
    · rename_i hspecial
      obtain ⟨rfl, rfl⟩ := FromChars.ok.inj h
      rcases scanSpecial_eq_some_nil_iff.mp hspecial with ⟨hword, rfl⟩ | ⟨hword, rfl⟩
      · exact .infinity hword
      · exact .nan hword
    · split at h
      · cases h
      · rename_i d rest hdecimal
        split at h
        · cases h
        · rename_i number hround
          obtain ⟨rfl, rfl⟩ := FromChars.ok.inj h
          exact .finite (scanDecimal_eq_some_nil_iff.mp hdecimal) hround
  · intro h
    rw [scanMagnitude]
    cases h with
    | finite hword hround =>
        rw [hword.scanSpecial, scanDecimal_eq_some_nil_iff.mpr hword]
        simp only [hround]
    | infinity hword => rw [scanSpecial_eq_some_nil_iff.mpr (.inl ⟨hword, rfl⟩)]
    | nan hword => rw [scanSpecial_eq_some_nil_iff.mpr (.inr ⟨hword, rfl⟩)]

theorem not_word_minus {round : Decimal → Option R} {negative : Bool} {text : Str}
    {value : Value R} : ¬ Word round negative ('-'.toUInt8 :: text) value := by
  rw [← scanMagnitude_eq_ok_nil_iff, scanMagnitude,
    scanSpecial_of_head (by decide) (by decide)]
  exact nofun

/-- The texts that `parse_std_type` accepts are those of the general format. -/
theorem parseDouble_eq_ok_iff {round : Decimal → Option R} {text : Str} {value : Value R} :
    parseStdType (doubleFromChars round) text = .ok value ↔ Spells round text value := by
  rw [parseStdType_ok_iff, Spells]
  cases text with
  | nil => simp [doubleFromChars, scanMagnitude_eq_ok_nil_iff]
  | cons c rest =>
      have hscan : doubleFromChars round (c :: rest)
          = if c = '-'.toUInt8 then scanMagnitude round true rest
            else scanMagnitude round false (c :: rest) := rfl
      rw [hscan]
      by_cases hc : c = '-'.toUInt8
      · rw [if_pos hc, scanMagnitude_eq_ok_nil_iff, hc]
        simp [not_word_minus]
      · rw [if_neg hc, scanMagnitude_eq_ok_nil_iff]
        simp [hc]

theorem Word.isFinite_eq_false_iff {round : Decimal → Option R} {negative : Bool}
    {text : Str} :
    (∃ value, Word round negative text value ∧ value.isFinite = false)
      ↔ IsInfinity text ∨ IsNan text := by
  constructor
  · rintro ⟨value, hword, hfinite⟩
    cases hword with
    | finite => cases hfinite
    | infinity h => exact .inl h
    | nan h => exact .inr h
  · rintro (h | h)
    · exact ⟨_, .infinity h, rfl⟩
    · exact ⟨_, .nan h, rfl⟩

/-- **What is accepted without being a finite number** is a spelling of an infinity or
of NaN. -/
theorem parseDouble_nonFinite_iff {round : Decimal → Option R} {text : Str} :
    (∃ value, parseStdType (doubleFromChars round) text = .ok value
        ∧ value.isFinite = false)
      ↔ NonFiniteSpelling text := by
  simp only [parseDouble_eq_ok_iff, Spells, NonFiniteSpelling]
  constructor
  · rintro ⟨value, hword | ⟨word, rfl, hword⟩, hfinite⟩
    · exact .inl (Word.isFinite_eq_false_iff.mp ⟨value, hword, hfinite⟩)
    · exact .inr ⟨word, rfl, Word.isFinite_eq_false_iff.mp ⟨value, hword, hfinite⟩⟩
  · rintro (hword | ⟨word, rfl, hword⟩)
    · obtain ⟨value, hword, hfinite⟩ := Word.isFinite_eq_false_iff.mpr hword
      exact ⟨value, .inl hword, hfinite⟩
    · obtain ⟨value, hword, hfinite⟩ := Word.isFinite_eq_false_iff.mpr hword
      exact ⟨value, .inr ⟨word, rfl, hword⟩, hfinite⟩

end Mde.Nyse
