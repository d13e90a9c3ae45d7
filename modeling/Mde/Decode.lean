import Mde.Parser

/-!
# The decoder is exact

What `ParseNext` accepts, what it emits and what it reads, by message
type.

`Accepts` says of the columns of a line that they fit the flattened table
of a type. `parseNext_exact` says that `ParseNext` emits a message of the
type on these lines and no others, that every member of the emitted
struct is the value of one column, the only one whose leaf designates the
member, that a message is no more than its members, and that the columns
behind the table are not looked at.
-/

namespace Mde.Nyse

open Messages Members

variable {P : Type} (fromChars : Str → FromChars P)

/-! ## Lines of a type -/

/-- The columns fit a type's table: there are enough, the first is the type's code,
and each is accepted by the leaf of its position. -/
structure Accepts (type : MessageType) (texts : List Str) : Prop where
  enough : (wireMembers type).fieldCount ≤ texts.length
  msgType : texts[0]?.bind (BaseField.uint8.parse fromChars) = some (code type)
  leaves : ∀ (i : Nat) (leaf : Name × FieldType) (text : Str),
    (wireMembers type).leaves[i]? = some leaf → texts[i]? = some text →
      (leaf.2.parse fromChars text).isSome

theorem fst_header {texts : List Str} {msgType : UInt8} {sequenceNumber : UInt64}
    (h : header fromChars texts = some (msgType, sequenceNumber)) :
    texts[0]?.bind (BaseField.uint8.parse fromChars) = some msgType := by
  rw [header, Option.map_eq_some_iff] at h
  obtain ⟨row, hrow, heq⟩ := h
  obtain ⟨rfl, -⟩ := Prod.mk.injEq .. |>.mp heq
  have hcells := parse_cells fromChars _ hrow
  cases texts with
  | nil => cases hcells
  | cons text texts =>
      cases hcells with
      | cons htext _ => exact htext

theorem isSome_header {type : MessageType} {texts : List Str}
    (h : ((wireMembers type).parse fromChars texts).isSome) :
    (header fromChars texts).isSome := by
  rw [parse_isSome_iff] at h
  rw [header, Option.isSome_map, parse_isSome_iff]
  intro i leaf hleaf
  refine h i leaf ?_
  obtain ⟨rest, hrest⟩ := header_prefix_leaves type
  rw [← hrest, List.getElem?_append_left (List.getElem?_eq_some_iff.mp hleaf).1]
  exact hleaf

theorem accepts_iff {type : MessageType} {texts : List Str} :
    Accepts fromChars type texts
      ↔ texts[0]?.bind (BaseField.uint8.parse fromChars) = some (code type)
        ∧ ((wireMembers type).parse fromChars texts).isSome := by
  rw [parse_isSome_iff]
  constructor
  · intro h
    refine ⟨h.msgType, ?_⟩
    intro i leaf hleaf
    have hlt : i < texts.length := by
      have := (List.getElem?_eq_some_iff.mp hleaf).1
      rw [length_leaves] at this
      exact Nat.lt_of_lt_of_le this h.enough
    exact ⟨texts[i], List.getElem?_eq_getElem hlt,
      h.leaves i leaf _ hleaf (List.getElem?_eq_getElem hlt)⟩
  · rintro ⟨hcode, hleaves⟩
    refine ⟨?_, hcode, ?_⟩
    · by_contra hlt
      have hlast : texts.length < (wireMembers type).leaves.length := by
        rw [length_leaves]
        exact Nat.not_le.mp hlt
      obtain ⟨text, htext, -⟩ := hleaves _ _ (List.getElem?_eq_getElem hlast)
      rw [List.getElem?_eq_none (Nat.le_refl _)] at htext
      cases htext
    · intro i leaf text hleaf htext
      obtain ⟨text', htext', hsome⟩ := hleaves i leaf hleaf
      rw [htext] at htext'
      obtain rfl := Option.some.inj htext'
      exact hsome

/-! ## The message of a line -/

theorem decode_eq_some_iff {texts : List Str} {message : Message P} :
    decode fromChars texts = some message
      ↔ ∃ (type : MessageType) (row : (wireMembers type).Row P),
        texts[0]?.bind (BaseField.uint8.parse fromChars) = some (code type)
          ∧ (wireMembers type).parse fromChars texts = some row
          ∧ emit type row = message := by
  constructor
  · intro h
    unfold decode at h
    split at h
    · cases h
    · rename_i msgType sequenceNumber hheader
      split at h
      · cases h
      · rename_i type hdispatch
        obtain ⟨row, hrow, hemit⟩ := Option.map_eq_some_iff.mp h
        refine ⟨type, row, ?_, hrow, hemit⟩
        rw [fst_header fromChars hheader, dispatch_eq_some_iff.mp hdispatch]
  · rintro ⟨type, row, hcode, hrow, rfl⟩
    obtain ⟨⟨msgType, sequenceNumber⟩, hheader⟩ := Option.isSome_iff_exists.mp
      (isSome_header fromChars (Option.isSome_of_eq_some hrow))
    have hmsgType := fst_header fromChars hheader
    rw [hcode] at hmsgType
    have hdispatch : dispatch msgType = some type :=
      dispatch_eq_some_iff.mpr (Option.some.inj hmsgType).symm
    unfold decode
    rw [hheader]
    dsimp only
    rw [hdispatch]
    dsimp only
    rw [hrow]
    rfl

theorem type_of_decode {type : MessageType} {texts : List Str} {message : Message P}
    (h : decode fromChars texts = some message) (htype : message.type = type) :
    ∃ row : (wireMembers type).Row P,
      (wireMembers type).parse fromChars texts = some row ∧ emit type row = message := by
  obtain ⟨type', row, -, hrow, rfl⟩ := (decode_eq_some_iff fromChars).mp h
  obtain rfl : type' = type := htype
  exact ⟨row, hrow, rfl⟩

theorem exists_decode_iff {type : MessageType} {texts : List Str} :
    (∃ message, decode fromChars texts = some message ∧ message.type = type)
      ↔ Accepts fromChars type texts := by
  rw [accepts_iff]
  constructor
  · rintro ⟨message, hdecode, htype⟩
    obtain ⟨type', row, hcode, hrow, rfl⟩ := (decode_eq_some_iff fromChars).mp hdecode
    obtain rfl : type' = type := htype
    exact ⟨hcode, Option.isSome_of_eq_some hrow⟩
  · rintro ⟨hcode, hsome⟩
    obtain ⟨row, hrow⟩ := Option.isSome_iff_exists.mp hsome
    exact ⟨emit type row,
      (decode_eq_some_iff fromChars).mpr ⟨type, row, hcode, hrow, rfl⟩, rfl⟩

/-! ## Where a member comes from -/

/-- Column `i` gives the member its value, and no other column is for it. -/
def GivenBy (type : MessageType) (texts : List Str) (member : Name × FieldValue P)
    (i : Nat) : Prop :=
  ∃ (cell : Cell P) (text : Str), texts[i]? = some text
    ∧ (wireMembers type).leaves[i]? = some cell.1
    ∧ cell.1.2.parse fromChars text = some cell.2
    ∧ member = publicMember cell
    ∧ ∀ (j : Nat) (leaf : Name × FieldType), (wireMembers type).leaves[j]? = some leaf →
      publicName leaf.1 = member.1 → j = i

theorem exists_givenBy {type : MessageType} {texts : List Str}
    {row : (wireMembers type).Row P} (h : (wireMembers type).parse fromChars texts = some row)
    {member : Name × FieldValue P} (hmember : member ∈ members (toPayload type row)) :
    ∃ i, GivenBy fromChars type texts member i := by
  rw [members_toPayload, List.mem_filter, List.mem_map] at hmember
  obtain ⟨⟨cell, hcell, rfl⟩, -⟩ := hmember
  obtain ⟨i, hi, rfl⟩ := List.mem_iff_getElem.mp hcell
  have hcells := parse_cells fromChars _ h
  have hleaf : (wireMembers type).leaves[i]? = some ((wireMembers type).cells row)[i].1 := by
    rw [← map_fst_cells _ row, List.getElem?_map, List.getElem?_eq_getElem hi]
    rfl
  have htake : i < (texts.take (wireMembers type).fieldCount).length := by
    rw [hcells.length_eq]
    exact hi
  have hlt : i < texts.length := Nat.lt_of_lt_of_le htake (List.length_take_le' ..)
  have hparse := hcells.get htake hi
  simp only [List.get_eq_getElem, List.getElem_take] at hparse
  refine ⟨i, _, texts[i], List.getElem?_eq_getElem hlt, hleaf, hparse, rfl, ?_⟩
  intro j leaf hj hname
  have hlt' := (List.getElem?_eq_some_iff.mp hj).1
  refine (List.getElem?_inj (by simpa using hlt') (nodup_publicName_leaves type)).mp ?_
  rw [List.getElem?_map, List.getElem?_map, hj, hleaf]
  exact congrArg some hname

/-! ## Exactness -/

/-- Only the columns of the type's table decide about a line of the type. -/
theorem parseNext_congr (parser : Parser) {line line' : Str} {type : MessageType}
    (haccepts : Accepts fromChars type (columns line))
    (h : (columns line').take (wireMembers type).fieldCount
      = (columns line).take (wireMembers type).fieldCount) :
    parseNext fromChars parser line' = parseNext fromChars parser line := by
  have hcount : messageHeaderMembers.fieldCount ≤ (wireMembers type).fieldCount := by
    rw [← length_leaves, ← length_leaves]
    exact (header_prefix_leaves type).length_le
  have hheader : header fromChars (columns line') = header fromChars (columns line) := by
    rw [header, header]
    refine congrArg _ (parse_congr fromChars _ ?_)
    have := congrArg (List.take messageHeaderMembers.fieldCount) h
    rwa [List.take_take, List.take_take, Nat.min_eq_left hcount] at this
  have hbody := parse_congr fromChars (wireMembers type) h
  obtain ⟨message, hdecode, htype⟩ := (exists_decode_iff fromChars).mpr haccepts
  obtain ⟨type', row, hcode, hrow, rfl⟩ := (decode_eq_some_iff fromChars).mp hdecode
  obtain rfl : type' = type := htype
  have hcode' : (columns line')[0]?.bind (BaseField.uint8.parse fromChars)
      = some (code type') := by
    obtain ⟨⟨msgType, sequenceNumber⟩, hsome⟩ := Option.isSome_iff_exists.mp
      (isSome_header fromChars (Option.isSome_of_eq_some hrow))
    rw [fst_header fromChars (hheader.trans hsome), ← hcode, fst_header fromChars hsome]
  have hdecode' : decode fromChars (columns line') = some (emit type' row) :=
    (decode_eq_some_iff fromChars).mpr ⟨type', row, hcode', hbody.trans hrow, rfl⟩
  rw [parseNext_eq, parseNext_eq, hdecode, hdecode', recordHeader, recordHeader, hheader]

/-- **`ParseNext` is exact.** A line is answered with a message of a type exactly
when its columns fit the type's table; every member of the message is then given by
one column, no other message of the type has these members, and the columns behind the
table have no influence. -/
theorem parseNext_exact (parser : Parser) (line : Str) (type : MessageType) :
    (((parseNext fromChars parser line).error = .none
        ∧ ∃ message, (parseNext fromChars parser line).emitted = some message
          ∧ message.type = type)
      ↔ Accepts fromChars type (columns line))
    ∧ ∀ message, (parseNext fromChars parser line).emitted = some message →
      message.type = type →
        (∀ member ∈ members message.data,
          ∃ i, GivenBy fromChars type (columns line) member i)
        ∧ (∀ message' : Message P, message'.type = type →
          members message'.data = members message.data → message' = message)
        ∧ ∀ line', (columns line').take (wireMembers type).fieldCount
            = (columns line).take (wireMembers type).fieldCount →
          parseNext fromChars parser line' = parseNext fromChars parser line := by
  rw [error_parseNext_eq_none_iff, emitted_parseNext]
  constructor
  · rw [← exists_decode_iff]
    constructor
    · exact And.right
    · rintro ⟨message, hdecode, htype⟩
      exact ⟨Option.isSome_of_eq_some hdecode, message, hdecode, htype⟩
  · intro message hdecode htype
    have haccepts := (exists_decode_iff fromChars).mp ⟨message, hdecode, htype⟩
    obtain ⟨row, hrow, rfl⟩ := type_of_decode fromChars hdecode htype
    refine ⟨?_, ?_, ?_⟩
    · intro member hmember
      exact exists_givenBy fromChars hrow hmember
    · intro message' htype' hmembers
      exact message_inj htype' hmembers
    · intro line' h
      exact parseNext_congr fromChars parser haccepts h

/-- A halt with its conditional columns blank. -/
example : (parseNext (unsignedFromChars (2 ^ 64)) {}
      ("34,1,09:30:00.000000000,ABC,1,5,,,,,,,,".toList.map Char.toUInt8)).emitted.map
        Message.data
    = some (.securityStatus
      { nanosSinceMidnight := 34200000000000, symbol := "ABC".toList.map Char.toUInt8,
        symbolSeqNum := 1, securityStatus := '5'.toUInt8, haltCondition := none,
        price1 := none, price2 := none, ssrTriggeringExchangeId := none,
        ssrTriggeringVolume := none, time := none, ssrState := none,
        marketState := none }) := by
  decide +kernel

end Mde.Nyse
