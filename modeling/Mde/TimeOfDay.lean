import Mde.Scan
import Mde.MixedRadix

/-!
# Times of day

What `parse_source_time` accepts and returns.

* `Digits`, `ClockText` — texts of decimal digits of a given length, and
  the texts `HH:MM:SS.nnnnnnnnn` made of four of them.
* `parseSourceTime_eq_ok_iff` — the scanner accepts exactly these, with
  the nanoseconds their fields add up to.
* `formatTime` — the text of a time of day; a clock text whose fields
  are in range is the text of its nanoseconds.

The scanner compares the length, the separators and the digits, but no
field with its range, so `24:00:00.000000000` is accepted, and
`00:60:00.000000000` for the same time as `01:00:00.000000000`.
`readsTimesOfDay_iff` says that these texts are the only ones it does
not read as times of day.
-/

namespace Mde.Nyse

open MixedRadix

/-! ## Decimal digits -/

def digitValue (c : Byte) : Nat := (c - '0'.toUInt8).toNat

def digitByte (d : Nat) : Byte := '0'.toUInt8 + UInt8.ofNat d

theorem isDigit_iff {c : Byte} : isDigit c = true ↔ 48 ≤ c.toNat ∧ c.toNat ≤ 57 := by
  simp only [isDigit, Bool.and_eq_true, decide_eq_true_eq, UInt8.le_iff_toNat_le]
  rfl

theorem digitValue_eq {c : Byte} (h : isDigit c = true) : digitValue c = c.toNat - 48 := by
  have hc := isDigit_iff.mp h
  have hzero : ('0'.toUInt8).toNat = 48 := rfl
  rw [digitValue, UInt8.toNat_sub_of_le _ _ (UInt8.le_iff_toNat_le.mpr (by omega)), hzero]

theorem digitValue_lt {c : Byte} (h : isDigit c = true) : digitValue c < 10 := by
  have hc := isDigit_iff.mp h
  rw [digitValue_eq h]
  omega

theorem toNat_digitByte {d : Nat} (h : d < 10) : (digitByte d).toNat = 48 + d := by
  have hzero : ('0'.toUInt8).toNat = 48 := rfl
  rw [digitByte, UInt8.toNat_add, UInt8.toNat_ofNat', hzero]
  omega

theorem isDigit_digitByte {d : Nat} (h : d < 10) : isDigit (digitByte d) = true := by
  rw [isDigit_iff, toNat_digitByte h]
  omega

theorem digitValue_digitByte {d : Nat} (h : d < 10) : digitValue (digitByte d) = d := by
  rw [digitValue_eq (isDigit_digitByte h), toNat_digitByte h]
  omega

theorem digitByte_digitValue {c : Byte} (h : isDigit c = true) :
    digitByte (digitValue c) = c := by
  have hc := isDigit_iff.mp h
  refine UInt8.toNat_inj.mp ?_
  rw [toNat_digitByte (digitValue_lt h), digitValue_eq h]
  omega

theorem digitValue_injOn : Set.InjOn digitValue {c | isDigit c = true} := by
  intro c hc d hd h
  rw [← digitByte_digitValue hc, h, digitByte_digitValue hd]

theorem digitValue_lt_digitValue_iff {c d : Byte} (hc : isDigit c = true)
    (hd : isDigit d = true) : digitValue c < digitValue d ↔ c < d := by
  have hc' := isDigit_iff.mp hc
  have hd' := isDigit_iff.mp hd
  rw [UInt8.lt_iff_toNat_lt, digitValue_eq hc, digitValue_eq hd]
  omega

abbrev decimals (width : Nat) : List Nat := List.replicate width 10

/-- The decimal digits of a number, with leading zeros. -/
def padded (width n : Nat) : Str := (digits (decimals width) n).map digitByte

structure Digits (width : Nat) where
  text : Str
  length_text : text.length = width
  isDigit_text : ∀ c ∈ text, isDigit c = true

namespace Digits

variable {width : Nat}

def value (field : Digits width) : Nat := decimal field.text

theorem fits (field : Digits width) : Fits (field.text.map digitValue) (decimals width) := by
  show List.Forall₂ (· < ·) _ _
  rw [List.forall₂_iff_get]
  refine ⟨by simp [field.length_text], fun i h _ => ?_⟩
  rw [List.length_map] at h
  simpa using digitValue_lt (field.isDigit_text _ (List.getElem_mem h))

theorem foldl_decimal (text : Str) (n : Nat) :
    text.foldl (fun n c => 10 * n + (c - '0'.toUInt8).toNat) n
      = n * 10 ^ text.length
        + MixedRadix.value (decimals text.length) (text.map digitValue) := by
  induction text generalizing n with
  | nil => simp [MixedRadix.value]
  | cons c text ih =>
      have hplaces : decimals (c :: text).length = 10 :: decimals text.length := rfl
      rw [List.foldl_cons, ih, hplaces, List.map_cons, MixedRadix.value, List.prod_replicate,
        List.length_cons, digitValue]
      ring

theorem value_eq (field : Digits width) :
    field.value = MixedRadix.value (decimals width) (field.text.map digitValue) := by
  rw [value, decimal, foldl_decimal, Nat.zero_mul, Nat.zero_add, field.length_text]

theorem value_lt (field : Digits width) : field.value < 10 ^ width := by
  have h := MixedRadix.value_lt field.fits
  rwa [List.prod_replicate, ← value_eq] at h

theorem text_lt_iff (field field' : Digits width) :
    field.text < field'.text ↔ field.value < field'.value := by
  rw [value_eq, value_eq, value_lt_value_iff field.fits field'.fits,
    map_lt_map_iff digitValue_injOn (fun _ hc _ hd => digitValue_lt_digitValue_iff hc hd)
      field.isDigit_text field'.isDigit_text]

theorem padded_value (field : Digits width) : padded width field.value = field.text := by
  have hmap : (field.text.map digitValue).map digitByte = field.text := by
    rw [List.map_map]
    exact (List.map_congr_left fun c hc =>
      digitByte_digitValue (field.isDigit_text c hc)).trans (List.map_id _)
  rw [padded, value_eq, digits_value field.fits, hmap]

theorem text_eq_iff (field field' : Digits width) :
    field.text = field'.text ↔ field.value = field'.value := by
  constructor
  · intro h
    rw [value, value, h]
  · intro h
    rw [← padded_value, h, padded_value]

end Digits

theorem forall_digits_lt {width n : Nat} (h : n < 10 ^ width) :
    ∀ d ∈ digits (decimals width) n, d < 10 := by
  intro d hd
  have hfits := fits_digits (show n < (decimals width).prod by simpa using h)
  obtain ⟨i, hi, rfl⟩ := List.mem_iff_getElem.mp hd
  simpa using hfits.get hi (by rwa [length_digits] at hi)

def Digits.ofNat (width n : Nat) (h : n < 10 ^ width) : Digits width where
  text := padded width n
  length_text := by rw [padded, List.length_map, length_digits, List.length_replicate]
  isDigit_text := by
    intro c hc
    obtain ⟨d, hd, rfl⟩ := List.mem_map.mp hc
    exact isDigit_digitByte (forall_digits_lt h d hd)

theorem Digits.value_ofNat {width n : Nat} (h : n < 10 ^ width) :
    (Digits.ofNat width n h).value = n := by
  have hmap : ((digits (decimals width) n).map digitByte).map digitValue
      = digits (decimals width) n := by
    rw [List.map_map]
    exact (List.map_congr_left fun d hd =>
      digitValue_digitByte (forall_digits_lt h d hd)).trans (List.map_id _)
  rw [Digits.value_eq]
  show MixedRadix.value _ (((digits (decimals width) n).map digitByte).map digitValue) = n
  rw [hmap, value_digits (by simpa using h)]

theorem parseStdType_eq_ok_iff (width : Nat) (hpos : 0 < width) (hle : width ≤ 19)
    {text : Str} (hlen : text.length = width) {v : UInt64} :
    parseStdType uint64FromChars text = .ok v
      ↔ ∃ field : Digits width, field.text = text ∧ v.toNat = field.value := by
  have hne : text ≠ [] := by
    rintro rfl
    rw [List.length_nil] at hlen
    omega
  have hbound : ∀ field : Digits width, field.value < 2 ^ 64 := fun field =>
    calc field.value < 10 ^ width := field.value_lt
      _ ≤ 10 ^ 19 := Nat.pow_le_pow_right (by omega) hle
      _ ≤ 2 ^ 64 := by norm_num
  rw [parseStdType_ok_iff]
  by_cases hall : ∀ c ∈ text, isDigit c = true
  · -- the digits go to the end of the field
    have htake : text.takeWhile isDigit = text := List.takeWhile_eq_self_iff.mpr hall
    have hdrop : text.dropWhile isDigit = [] := List.dropWhile_eq_nil_iff.mpr hall
    have hlt : ¬ 2 ^ 64 ≤ decimal text := Nat.not_le.mpr (hbound ⟨text, hlen, hall⟩)
    simp only [uint64FromChars, unsignedFromChars, htake, hdrop, if_neg hne, if_neg hlt,
      FromChars.map, FromChars.ok.injEq, and_true]
    constructor
    · rintro rfl
      exact ⟨⟨text, hlen, hall⟩, rfl, UInt64.toNat_ofNat_of_lt' (Nat.not_le.mp hlt)⟩
    · rintro ⟨field, rfl, hv⟩
      refine UInt64.toNat_inj.mp ?_
      rw [UInt64.toNat_ofNat_of_lt' (Nat.not_le.mp hlt), hv, Digits.value]
  · have hrest : text.dropWhile isDigit ≠ [] := fun h =>
      hall (List.dropWhile_eq_nil_iff.mp h)
    refine iff_of_false ?_ ?_
    · simp only [uint64FromChars, unsignedFromChars]
      split_ifs <;> simp [FromChars.map, hrest]
    · rintro ⟨field, rfl, -⟩
      exact hall field.isDigit_text

theorem Digits.exists_parseStdType {width : Nat} (hpos : 0 < width) (hle : width ≤ 19)
    (field : Digits width) :
    ∃ v, parseStdType uint64FromChars field.text = .ok v ∧ v.toNat = field.value := by
  have hlt : field.value < 2 ^ 64 :=
    calc field.value < 10 ^ width := field.value_lt
      _ ≤ 10 ^ 19 := Nat.pow_le_pow_right (by omega) hle
      _ ≤ 2 ^ 64 := by norm_num
  have hv := UInt64.toNat_ofNat_of_lt' hlt
  exact ⟨_, (parseStdType_eq_ok_iff width hpos hle field.length_text).mpr ⟨field, rfl, hv⟩, hv⟩

/-! ## Clock texts -/

def nanosPerSecond : Nat := 1000000000
def nanosPerMinute : Nat := 60 * nanosPerSecond
def nanosPerHour : Nat := 60 * nanosPerMinute
def nanosPerDay : Nat := 24 * nanosPerHour

structure ClockText where
  hours : Digits 2
  minutes : Digits 2
  seconds : Digits 2
  nanos : Digits 9

namespace ClockText

def text (clock : ClockText) : Str :=
  clock.hours.text ++ ':'.toUInt8 :: (clock.minutes.text ++ ':'.toUInt8 ::
    (clock.seconds.text ++ '.'.toUInt8 :: clock.nanos.text))

def nanosSinceMidnight (clock : ClockText) : Nat :=
  clock.hours.value * nanosPerHour + clock.minutes.value * nanosPerMinute
    + clock.seconds.value * nanosPerSecond + clock.nanos.value

def InRange (clock : ClockText) : Prop :=
  clock.hours.value < 24 ∧ clock.minutes.value < 60 ∧ clock.seconds.value < 60

/-- Where the scanner looks for the fields. -/
theorem cut_text (clock : ClockText) :
    clock.text.length = 18 ∧ clock.text[2]? = some ':'.toUInt8
      ∧ clock.text[5]? = some ':'.toUInt8 ∧ clock.text[8]? = some '.'.toUInt8
      ∧ clock.text.take 2 = clock.hours.text
      ∧ (clock.text.drop 3).take 2 = clock.minutes.text
      ∧ (clock.text.drop 6).take 2 = clock.seconds.text
      ∧ (clock.text.drop 9).take 9 = clock.nanos.text := by
  obtain ⟨⟨hh, hhl, _⟩, ⟨mm, hml, _⟩, ⟨ss, hsl, _⟩, ⟨nn, hnl, _⟩⟩ := clock
  obtain ⟨h0, h1, rfl⟩ := List.length_eq_two.mp hhl
  obtain ⟨m0, m1, rfl⟩ := List.length_eq_two.mp hml
  obtain ⟨s0, s1, rfl⟩ := List.length_eq_two.mp hsl
  refine ⟨?_, rfl, rfl, rfl, rfl, rfl, rfl, List.take_of_length_le hnl.le⟩
  show nn.length + 9 = 18
  omega

theorem text_injective {clock clock' : ClockText} (h : clock.text = clock'.text) :
    clock.hours.text = clock'.hours.text ∧ clock.minutes.text = clock'.minutes.text
      ∧ clock.seconds.text = clock'.seconds.text ∧ clock.nanos.text = clock'.nanos.text := by
  obtain ⟨-, -, -, -, hh, hm, hs, hn⟩ := clock.cut_text
  obtain ⟨-, -, -, -, hh', hm', hs', hn'⟩ := clock'.cut_text
  rw [h] at hh hm hs hn
  exact ⟨hh.symm.trans hh', hm.symm.trans hm', hs.symm.trans hs', hn.symm.trans hn'⟩

theorem text_lt_iff (clock clock' : ClockText) :
    clock.text < clock'.text
      ↔ clock.hours.value < clock'.hours.value
        ∨ clock.hours.value = clock'.hours.value
          ∧ (clock.minutes.value < clock'.minutes.value
            ∨ clock.minutes.value = clock'.minutes.value
              ∧ (clock.seconds.value < clock'.seconds.value
                ∨ clock.seconds.value = clock'.seconds.value
                  ∧ clock.nanos.value < clock'.nanos.value)) := by
  have hlen : ∀ {width : Nat} (field field' : Digits width),
      field.text.length = field'.text.length := fun field field' =>
    field.length_text.trans field'.length_text.symm
  have hsep : ∀ c : Byte, ¬ c < c := fun c => UInt8.lt_irrefl c
  simp only [text, append_lt_append_iff (hlen _ _), List.cons_lt_cons_iff, hsep, false_or,
    true_and, Digits.text_lt_iff, Digits.text_eq_iff]

/-- **Clock texts in range compare as their nanoseconds.** -/
theorem text_lt_iff_of_inRange {clock clock' : ClockText} (h : clock.InRange)
    (h' : clock'.InRange) :
    clock.text < clock'.text ↔ clock.nanosSinceMidnight < clock'.nanosSinceMidnight := by
  have hn := clock.nanos.value_lt
  have hn' := clock'.nanos.value_lt
  simp only [InRange] at h h'
  rw [text_lt_iff]
  simp only [nanosSinceMidnight, nanosPerHour, nanosPerMinute, nanosPerSecond]
  omega

theorem nanosSinceMidnight_lt_pow (clock : ClockText) :
    clock.nanosSinceMidnight < 2 ^ 64 := by
  have hh := clock.hours.value_lt
  have hm := clock.minutes.value_lt
  have hs := clock.seconds.value_lt
  have hn := clock.nanos.value_lt
  simp only [nanosSinceMidnight, nanosPerHour, nanosPerMinute, nanosPerSecond]
  omega

theorem nanosSinceMidnight_lt {clock : ClockText} (h : clock.InRange) :
    clock.nanosSinceMidnight < nanosPerDay := by
  have hn := clock.nanos.value_lt
  simp only [InRange] at h
  simp only [nanosSinceMidnight, nanosPerDay, nanosPerHour, nanosPerMinute, nanosPerSecond]
  omega

end ClockText

def formatTime (n : Nat) : Str :=
  padded 2 (n / nanosPerHour) ++ ':'.toUInt8 ::
    (padded 2 (n / nanosPerMinute % 60) ++ ':'.toUInt8 ::
      (padded 2 (n / nanosPerSecond % 60) ++ '.'.toUInt8 ::
        padded 9 (n % nanosPerSecond)))

/-- **A clock text in range is the text of its nanoseconds.** -/
theorem ClockText.text_eq_formatTime {clock : ClockText} (h : clock.InRange) :
    clock.text = formatTime clock.nanosSinceMidnight := by
  have hn := clock.nanos.value_lt
  simp only [InRange] at h
  have hhours : clock.nanosSinceMidnight / nanosPerHour = clock.hours.value := by
    simp only [nanosSinceMidnight, nanosPerHour, nanosPerMinute, nanosPerSecond]
    omega
  have hminutes : clock.nanosSinceMidnight / nanosPerMinute % 60 = clock.minutes.value := by
    simp only [nanosSinceMidnight, nanosPerHour, nanosPerMinute, nanosPerSecond]
    omega
  have hseconds : clock.nanosSinceMidnight / nanosPerSecond % 60 = clock.seconds.value := by
    simp only [nanosSinceMidnight, nanosPerHour, nanosPerMinute, nanosPerSecond]
    omega
  have hnanos : clock.nanosSinceMidnight % nanosPerSecond = clock.nanos.value := by
    simp only [nanosSinceMidnight, nanosPerHour, nanosPerMinute, nanosPerSecond]
    omega
  rw [formatTime, hhours, hminutes, hseconds, hnanos, Digits.padded_value, Digits.padded_value,
    Digits.padded_value, Digits.padded_value, text]

theorem exists_clockText {n : Nat} (h : n < nanosPerDay) :
    ∃ clock : ClockText, clock.InRange ∧ clock.text = formatTime n
      ∧ clock.nanosSinceMidnight = n := by
  simp only [nanosPerDay, nanosPerHour, nanosPerMinute, nanosPerSecond] at h
  have hhours : n / nanosPerHour < 10 ^ 2 := by
    simp only [nanosPerHour, nanosPerMinute, nanosPerSecond]
    omega
  have hnanos : n % nanosPerSecond < 10 ^ 9 := Nat.mod_lt _ (by decide)
  refine ⟨⟨.ofNat 2 (n / nanosPerHour) hhours, .ofNat 2 (n / nanosPerMinute % 60) (by omega),
    .ofNat 2 (n / nanosPerSecond % 60) (by omega), .ofNat 9 (n % nanosPerSecond) hnanos⟩,
    ?_, rfl, ?_⟩
  · simp only [ClockText.InRange, Digits.value_ofNat, nanosPerHour, nanosPerMinute,
      nanosPerSecond]
    omega
  · simp only [ClockText.nanosSinceMidnight, Digits.value_ofNat, nanosPerHour, nanosPerMinute,
      nanosPerSecond]
    omega

/-! ## The scanner -/

theorem eq_append_of_separators {text : Str} (hlen : text.length = 18)
    (h2 : text[2]? = some ':'.toUInt8) (h5 : text[5]? = some ':'.toUInt8)
    (h8 : text[8]? = some '.'.toUInt8) :
    text = text.take 2 ++ ':'.toUInt8 :: ((text.drop 3).take 2 ++ ':'.toUInt8 ::
      ((text.drop 6).take 2 ++ '.'.toUInt8 :: (text.drop 9).take 9)) := by
  have hat : ∀ {i : Nat} {c : Byte}, text[i]? = some c → text.drop i = c :: text.drop (i + 1) := by
    intro i c h
    obtain ⟨hi, rfl⟩ := List.getElem?_eq_some_iff.mp h
    exact List.drop_eq_getElem_cons hi
  have hfield : ∀ i, text.drop i = (text.drop i).take 2 ++ text.drop (i + 2) := by
    intro i
    rw [← List.drop_drop, List.take_append_drop]
  have hlast : (text.drop 9).take 9 = text.drop 9 := by
    refine List.take_of_length_le ?_
    rw [List.length_drop, hlen]
  rw [hlast, ← hat h8, ← hfield, ← hat h5, ← hfield, ← hat h2, List.take_append_drop]

/-- The sum of the scanner does not wrap. -/
theorem toNat_nanos {hours minutes seconds nanos : UInt64} (hh : hours.toNat < 10 ^ 2)
    (hm : minutes.toNat < 10 ^ 2) (hs : seconds.toNat < 10 ^ 2) (hn : nanos.toNat < 10 ^ 9) :
    (hours * kNanosPerHour + minutes * kNanosPerMinute + seconds * kNanosPerSecond
        + nanos).toNat
      = hours.toNat * nanosPerHour + minutes.toNat * nanosPerMinute
        + seconds.toNat * nanosPerSecond + nanos.toNat := by
  have hhour : kNanosPerHour.toNat = 3600000000000 := rfl
  have hminute : kNanosPerMinute.toNat = 60000000000 := rfl
  have hsecond : kNanosPerSecond.toNat = 1000000000 := rfl
  simp only [UInt64.toNat_add, UInt64.toNat_mul, hhour, hminute, hsecond, nanosPerHour,
    nanosPerMinute, nanosPerSecond]
  omega

/-- **What the scanner accepts**: the clock texts, with what their fields add up to. -/
theorem parseSourceTime_eq_ok_iff {text : Str} {time : SourceTime} :
    parseSourceTime text = .ok time
      ↔ ∃ clock : ClockText, clock.text = text
        ∧ time.nanosSinceMidnight.toNat = clock.nanosSinceMidnight := by
  constructor
  · intro h
    rw [parseSourceTime] at h
    split at h
    · cases h
    · rename_i hsep
      simp only [not_or, not_not] at hsep
      obtain ⟨hlen, h2, h5, h8⟩ := hsep
      split at h
      · rename_i hours minutes seconds nanos hhours hminutes hseconds hnanos
        cases h
        rw [parseStdType_eq_ok_iff 2 (by decide) (by decide) (by simp [hlen])]
          at hhours hminutes hseconds
        rw [parseStdType_eq_ok_iff 9 (by decide) (by decide) (by simp [hlen])] at hnanos
        obtain ⟨fh, hfh, hvh⟩ := hhours
        obtain ⟨fm, hfm, hvm⟩ := hminutes
        obtain ⟨fs, hfs, hvs⟩ := hseconds
        obtain ⟨fn, hfn, hvn⟩ := hnanos
        refine ⟨⟨fh, fm, fs, fn⟩, ?_, ?_⟩
        · rw [ClockText.text, hfh, hfm, hfs, hfn]
          exact (eq_append_of_separators hlen h2 h5 h8).symm
        · have hh := fh.value_lt
          have hm := fm.value_lt
          have hs := fs.value_lt
          have hn := fn.value_lt
          rw [toNat_nanos (by omega) (by omega) (by omega) (by omega), hvh, hvm, hvs, hvn,
            ClockText.nanosSinceMidnight]
      · cases h
  · rintro ⟨clock, rfl, htime⟩
    obtain ⟨hlen, h2, h5, h8, hth, htm, hts, htn⟩ := clock.cut_text
    obtain ⟨hours, hhours, hvh⟩ := clock.hours.exists_parseStdType (by decide) (by decide)
    obtain ⟨minutes, hminutes, hvm⟩ := clock.minutes.exists_parseStdType (by decide) (by decide)
    obtain ⟨seconds, hseconds, hvs⟩ := clock.seconds.exists_parseStdType (by decide) (by decide)
    obtain ⟨nanos, hnanos, hvn⟩ := clock.nanos.exists_parseStdType (by decide) (by decide)
    have hsum := toNat_nanos (hvh ▸ clock.hours.value_lt) (hvm ▸ clock.minutes.value_lt)
      (hvs ▸ clock.seconds.value_lt) (hvn ▸ clock.nanos.value_lt)
    rw [hvh, hvm, hvs, hvn] at hsum
    have hvalue := UInt64.toNat_inj.mp (hsum.trans htime.symm)
    rw [parseSourceTime, if_neg (by rw [hlen, h2, h5, h8]; simp), hth, htm, hts, htn, hhours,
      hminutes, hseconds, hnanos]
    exact congrArg (fun n => Except.ok (SourceTime.mk n)) hvalue

/-! ## Reading times of day -/

def OutOfRange (text : Str) : Prop :=
  ∃ clock : ClockText, clock.text = text ∧ ¬ clock.InRange

/-- Without such a field, what is accepted is the text of a time of day. -/
theorem exists_formatTime {text : Str} (h : ¬ OutOfRange text) {time : SourceTime}
    (hparse : parseSourceTime text = .ok time) :
    ∃ clock : ClockText, clock.InRange ∧ clock.text = text
      ∧ time.nanosSinceMidnight.toNat = clock.nanosSinceMidnight := by
  obtain ⟨clock, rfl, htime⟩ := parseSourceTime_eq_ok_iff.mp hparse
  exact ⟨clock, not_not.mp fun hrange => h ⟨clock, rfl, hrange⟩, rfl, htime⟩

theorem parseSourceTime_formatTime {n : Nat} (h : n < nanosPerDay) :
    parseSourceTime (formatTime n) = .ok ⟨UInt64.ofNat n⟩ := by
  obtain ⟨clock, -, htext, hn⟩ := exists_clockText h
  refine parseSourceTime_eq_ok_iff.mpr ⟨clock, htext, ?_⟩
  have hlt : n < 2 ^ 64 := Nat.lt_trans h (by decide)
  rw [hn, UInt64.toNat_ofNat_of_lt' hlt]

/-- A text with such a field is accepted, and is the text of no time of day. -/
theorem OutOfRange.ne_formatTime {text : Str} (h : OutOfRange text) {n : Nat}
    (hn : n < nanosPerDay) : text ≠ formatTime n := by
  rintro rfl
  obtain ⟨clock, htext, hrange⟩ := h
  obtain ⟨clock', hrange', htext', -⟩ := exists_clockText hn
  obtain ⟨hhours, hminutes, hseconds, -⟩ := ClockText.text_injective (htext.trans htext'.symm)
  rw [Digits.text_eq_iff] at hhours hminutes hseconds
  refine hrange ?_
  rw [ClockText.InRange, hhours, hminutes, hseconds]
  exact hrange'

/-- Of these texts the scanner accepts the times of day, and decodes them in their
order. -/
structure ReadsTimesOfDay (texts : Set Str) : Prop where
  ok_iff : ∀ text ∈ texts, ∀ time, parseSourceTime text = .ok time
    ↔ ∃ n < nanosPerDay, text = formatTime n ∧ time.nanosSinceMidnight.toNat = n
  parse_format : ∀ n < nanosPerDay, formatTime n ∈ texts →
    parseSourceTime (formatTime n) = .ok ⟨UInt64.ofNat n⟩
  format_parse : ∀ text ∈ texts, ∀ time, parseSourceTime text = .ok time →
    formatTime time.nanosSinceMidnight.toNat = text
  eq_iff : ∀ text ∈ texts, ∀ text' ∈ texts, ∀ time time', parseSourceTime text = .ok time →
    parseSourceTime text' = .ok time' → (time = time' ↔ text = text')
  lt_iff : ∀ text ∈ texts, ∀ text' ∈ texts, ∀ time time', parseSourceTime text = .ok time →
    parseSourceTime text' = .ok time' →
      (time.nanosSinceMidnight < time'.nanosSinceMidnight ↔ text < text')

/-- **Times of day are read exactly where no field is out of range.** The scanner compares
no field with its range, so a text with 60 minutes is read, as the time of another text. -/
theorem readsTimesOfDay_iff (texts : Set Str) :
    ReadsTimesOfDay texts ↔ ∀ text ∈ texts, ¬ OutOfRange text := by
  constructor
  · intro h text htext hout
    obtain ⟨clock, rfl, -⟩ := id hout
    have hparse : parseSourceTime clock.text
        = .ok ⟨UInt64.ofNat clock.nanosSinceMidnight⟩ :=
      parseSourceTime_eq_ok_iff.mpr
        ⟨clock, rfl, UInt64.toNat_ofNat_of_lt' clock.nanosSinceMidnight_lt_pow⟩
    obtain ⟨n, hn, heq, -⟩ := (h.ok_iff _ htext _).mp hparse
    exact hout.ne_formatTime hn heq
  · intro h
    have hformat : ∀ text ∈ texts, ∀ time, parseSourceTime text = .ok time →
        time.nanosSinceMidnight.toNat < nanosPerDay
          ∧ text = formatTime time.nanosSinceMidnight.toNat := by
      intro text htext time hparse
      obtain ⟨clock, hrange, rfl, htime⟩ := exists_formatTime (h text htext) hparse
      rw [htime]
      exact ⟨ClockText.nanosSinceMidnight_lt hrange, ClockText.text_eq_formatTime hrange⟩
    refine ⟨fun text htext time => ⟨fun hparse => ?_, ?_⟩, fun n hn _ =>
      parseSourceTime_formatTime hn, fun text htext time hparse =>
      (hformat text htext time hparse).2.symm, ?_, ?_⟩
    · exact ⟨_, (hformat text htext time hparse).1, (hformat text htext time hparse).2, rfl⟩
    · rintro ⟨n, hn, rfl, rfl⟩
      rw [parseSourceTime_formatTime hn, UInt64.ofNat_toNat]
    · intro text htext text' htext' time time' hparse hparse'
      constructor
      · rintro rfl
        rw [(hformat text htext _ hparse).2, (hformat text' htext' _ hparse').2]
      · rintro rfl
        rw [hparse] at hparse'
        exact Except.ok.inj hparse'
    · intro text htext text' htext' time time' hparse hparse'
      obtain ⟨clock, hrange, rfl, htime⟩ := exists_formatTime (h text htext) hparse
      obtain ⟨clock', hrange', rfl, htime'⟩ := exists_formatTime (h text' htext') hparse'
      rw [UInt64.lt_iff_toNat_lt, htime, htime', ClockText.text_lt_iff_of_inRange hrange hrange']

section Sample

def clockBytes (text : String) : Str := text.toList.map Char.toUInt8

/-- Sixty minutes past midnight collide with one o'clock. -/
theorem sixty_minutes :
    parseSourceTime (clockBytes "00:60:00.000000000") = .ok ⟨3600000000000⟩
      ∧ parseSourceTime (clockBytes "01:00:00.000000000") = .ok ⟨3600000000000⟩
      ∧ clockBytes "00:60:00.000000000" ≠ clockBytes "01:00:00.000000000"
      ∧ ¬ ReadsTimesOfDay {clockBytes "00:60:00.000000000",
        clockBytes "01:00:00.000000000"} := by
  have hsixty : parseSourceTime (clockBytes "00:60:00.000000000") = .ok ⟨3600000000000⟩ := by
    decide +kernel
  have hone : parseSourceTime (clockBytes "01:00:00.000000000") = .ok ⟨3600000000000⟩ := by
    decide +kernel
  have hne : clockBytes "00:60:00.000000000" ≠ clockBytes "01:00:00.000000000" := by
    decide +kernel
  refine ⟨hsixty, hone, hne, fun h => hne ?_⟩
  exact (h.eq_iff _ (.inl rfl) _ (.inr rfl) _ _ hsixty hone).mp rfl

end Sample

end Mde.Nyse
