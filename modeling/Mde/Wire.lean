import Mde.Csv
import Mde.Scan

/-!
# The wire structs

The X-macro tables of `nyse_types.hpp` and what `DEFINE_STRUCT` makes of
them. A table is a value of `Members`; a struct read from it is a `Row`
of the table, and `Members.populate` is the constructor the macro
generates: one `PopulateMember` per line, with the running field index.

`Members.parse` is the specification of the constructor on the columns
themselves, without reader, index or errors, and `populate_reads`
relates the two. `leaves` flattens a table, nested structs in place, and
`cells` a row of it: `parse_cells` says that every cell is read from the
column of its position.

The prices of the feed are of a type `P` (the source's `double`), read
by a parameter `fromChars`.
-/

namespace Mde.Nyse

/-- The member names of the wire structs, and the two names that only the public
structs have. -/
inductive Name where
  | header | msgType | sequenceNumber | sourceTime | symbol | symbolSeqNum
  | marketId | systemId | exchangeCode | securityType | lotSize | prevClosePrice
  | prevCloseVolume | priceResolution | roundLot | mpv | unitOfTrade
  | securityStatus | haltCondition | price1 | price2 | ssrTriggeringExchangeId
  | ssrTriggeringVolume | time | ssrState | marketState
  | orderId | price | volume | side | firmId | reserved | positionChange | reserved2
  | tradeId | printableFlag | reserved1 | tradeCondition1 | tradeCondition2
  | tradeCondition3 | tradeCondition4 | newOrderId | rpiIndicator
  | referencePrice | pairedQty | totalImbalanceQty | marketImbalanceQty | auctionTime
  | auctionType | imbalanceSide | continuousBookClearingPrice
  | auctionInterestClearingPrice | ssrFilingPrice | indicativeMatchPrice | upperCollar
  | lowerCollar | auctionStatus | freezeStatus | numExtensions | unpairedQuantity
  | unpairedSide | significantImbalance | crossId | crossType
  | nanosSinceMidnight | printedToSip
deriving DecidableEq, Repr

/-! ## Fields -/

/-- The types of `OptionalBaseField` that the tables use. -/
inductive BaseField where
  | char
  | string
  | sourceTime
  | uint8
  | uint64
  | double
deriving DecidableEq, Repr

/-- A `CSVField`: a base field, or a `std::optional` of one. -/
inductive FieldType where
  | base (field : BaseField)
  | optional (field : BaseField)
deriving DecidableEq, Repr

abbrev BaseField.Value (P : Type) : BaseField → Type
  | .char => Byte
  | .string => Str
  | .sourceTime => SourceTime
  | .uint8 => UInt8
  | .uint64 => UInt64
  | .double => P

abbrev FieldType.Value (P : Type) : FieldType → Type
  | .base field => field.Value P
  | .optional field => Option (field.Value P)

namespace CSVReader

inductive Error.Kind where
  | fieldNotFound
  | invalidCharCount
  | parseFailure
deriving DecidableEq, Repr

structure Error where
  kind : Error.Kind
  fieldIndex : Nat
  what : String
deriving DecidableEq, Repr

end CSVReader

/-- `static_cast<unsigned>` of a `ParseError`. -/
def ParseError.code : ParseError → Nat
  | .invalidNumber => 0
  | .outOfRange => 1
  | .trailingCharacters => 2

section Populate

variable {P : Type} (fromChars : Str → FromChars P)

/-- The `StdParsable` branch of `PopulateField`. -/
def populateNumber {α : Type} (idx : Nat) (parsed : Except ParseError α) :
    Except CSVReader.Error α :=
  match parsed with
  | .ok value => .ok value
  | .error error => .error
    ⟨.parseFailure, idx, s!"Failed to parse field at index {idx} (code {error.code})"⟩

/-- What `PopulateField` makes of a field's text, by type. -/
def populateText (field : BaseField) (idx : Nat) (value : Str) :
    Except CSVReader.Error (field.Value P) :=
  match field with
  | .char =>
    match value with
    | [c] => .ok c
    | _ => .error ⟨.invalidCharCount, idx,
        s!"Expected exactly one character at CSV field index {idx}"⟩
  | .string => .ok value
  | .sourceTime =>
    match parseSourceTime value with
    | .ok parsed => .ok parsed
    | .error _ => .error
      ⟨.parseFailure, idx, s!"Failed to parse SourceTime at field index {idx}"⟩
  | .uint8 => populateNumber idx (parseStdType uint8FromChars value)
  | .uint64 => populateNumber idx (parseStdType uint64FromChars value)
  | .double => populateNumber idx (parseStdType fromChars value)

/-- `PopulateField` at a base type. -/
def populateBase (field : BaseField) (reader : CSVReader) (idx : Nat) :
    Except CSVReader.Error (field.Value P × CSVReader) :=
  match reader.getField idx with
  | (.error _, _) =>
    .error ⟨.fieldNotFound, idx, s!"Failed to read CSV field at index {idx}"⟩
  | (.ok value, reader) =>
    match populateText fromChars field idx value with
    | .error e => .error e
    | .ok parsed => .ok (parsed, reader)

/-- `PopulateField`. An optional field that is not blank is read again, at its base
type. -/
def populateField (type : FieldType) (reader : CSVReader) (idx : Nat) :
    Except CSVReader.Error (type.Value P × CSVReader) :=
  match type with
  | .base field => populateBase fromChars field reader idx
  | .optional field =>
    match reader.getField idx with
    | (.error _, _) =>
      .error ⟨.fieldNotFound, idx, s!"Failed to read CSV field at index {idx}"⟩
    | (.ok value, reader) =>
      if value = [] then .ok (none, reader)
      else
        match populateBase fromChars field reader idx with
        | .error e => .error e
        | .ok (parsed, reader) => .ok (some parsed, reader)

/-! ## Tables -/

/-- The member list of a `DEFINE_STRUCT`. -/
inductive Members where
  | nil
  | field (name : Name) (type : FieldType) (rest : Members)
  | struct (name : Name) (inner : Members) (rest : Members)

namespace Members

def fieldCount : Members → Nat
  | .nil => 0
  | .field _ _ rest => 1 + rest.fieldCount
  | .struct _ inner rest => inner.fieldCount + rest.fieldCount

abbrev Row (P : Type) : Members → Type
  | .nil => Unit
  | .field _ type rest => type.Value P × rest.Row P
  | .struct _ inner rest => inner.Row P × rest.Row P

/-- The constructor of the struct, from column `idx` on. -/
def populate : (members : Members) → CSVReader → Nat →
    Except CSVReader.Error (members.Row P × CSVReader)
  | .nil, reader, _ => .ok ((), reader)
  | .field _ type rest, reader, idx =>
    match populateField fromChars type reader idx with
    | .error e => .error e
    | .ok (value, reader) =>
      match rest.populate reader (idx + 1) with
      | .error e => .error e
      | .ok (values, reader) => .ok ((value, values), reader)
  | .struct _ inner rest, reader, idx =>
    match inner.populate reader idx with
    | .error e => .error e
    | .ok (value, reader) =>
      match rest.populate reader (idx + inner.fieldCount) with
      | .error e => .error e
      | .ok (values, reader) => .ok ((value, values), reader)

end Members

/-! ## What a table accepts -/

/-- The value of a column's text at a base type: exactly one byte, any string, a time
of day, a number. -/
def BaseField.parse (field : BaseField) (text : Str) : Option (field.Value P) :=
  match field with
  | .char =>
    match text with
    | [c] => some c
    | _ => none
  | .string => some text
  | .sourceTime => (parseSourceTime text).toOption
  | .uint8 => (parseStdType uint8FromChars text).toOption
  | .uint64 => (parseStdType uint64FromChars text).toOption
  | .double => (parseStdType fromChars text).toOption

/-- An optional field also accepts the blank text. -/
def FieldType.parse (type : FieldType) (text : Str) : Option (type.Value P) :=
  match type with
  | .base field => field.parse fromChars text
  | .optional field =>
    if text = [] then some none else (field.parse fromChars text).map some

namespace Members

/-- The flattened table: the fields in column order, nested structs in place. -/
def leaves : Members → List (Name × FieldType)
  | .nil => []
  | .field name type rest => (name, type) :: rest.leaves
  | .struct _ inner rest => inner.leaves ++ rest.leaves

theorem length_leaves (members : Members) : members.leaves.length = members.fieldCount := by
  induction members with
  | nil => rfl
  | field name type rest ih => rw [leaves, List.length_cons, ih, fieldCount, Nat.add_comm]
  | struct name inner rest ihi ih => rw [leaves, List.length_append, ihi, ih, fieldCount]

/-- The struct that columns spell, column by column. -/
def parse : (members : Members) → List Str → Option (members.Row P)
  | .nil, _ => some ()
  | .field _ _ _, [] => none
  | .field _ type rest, text :: texts =>
    match type.parse fromChars text, rest.parse texts with
    | some value, some values => some (value, values)
    | _, _ => none
  | .struct _ inner rest, texts =>
    match inner.parse texts, rest.parse (texts.drop inner.fieldCount) with
    | some value, some values => some (value, values)
    | _, _ => none

end Members

namespace Members

/-- A struct is read exactly when every leaf of the table accepts its column. -/
theorem parse_isSome_iff (members : Members) (texts : List Str) :
    (members.parse fromChars texts).isSome
      ↔ ∀ (i : Nat) (leaf : Name × FieldType), members.leaves[i]? = some leaf →
        ∃ text, texts[i]? = some text ∧ (leaf.2.parse fromChars text).isSome := by
  induction members generalizing texts with
  | nil => simp [parse, leaves]
  | field name type rest ih =>
      cases texts with
      | nil =>
          refine iff_of_false (by simp [parse]) ?_
          intro h
          obtain ⟨text, htext, -⟩ := h 0 (name, type) rfl
          cases htext
      | cons text texts =>
          have hsplit : ((field name type rest).parse fromChars (text :: texts)).isSome
              ↔ (type.parse fromChars text).isSome ∧ (rest.parse fromChars texts).isSome := by
            rw [parse]
            cases type.parse fromChars text <;> cases rest.parse fromChars texts <;> simp
          rw [hsplit, ih]
          constructor
          · rintro ⟨hhead, htail⟩ i leaf hleaf
            cases i with
            | zero =>
                obtain rfl := Option.some.inj hleaf
                exact ⟨text, rfl, hhead⟩
            | succ i => exact htail i leaf hleaf
          · intro h
            obtain ⟨text', htext, hhead⟩ := h 0 (name, type) rfl
            obtain rfl := Option.some.inj htext
            exact ⟨hhead, fun i leaf hleaf => h (i + 1) leaf hleaf⟩
  | struct name inner rest ihi ih =>
      have hsplit : ((struct name inner rest).parse fromChars texts).isSome
          ↔ (inner.parse fromChars texts).isSome
            ∧ (rest.parse fromChars (texts.drop inner.fieldCount)).isSome := by
        rw [parse]
        cases inner.parse fromChars texts <;>
          cases rest.parse fromChars (texts.drop inner.fieldCount) <;> simp
      rw [hsplit, ihi, ih]
      simp only [leaves, List.getElem?_drop, ← length_leaves]
      constructor
      · rintro ⟨hinner, hrest⟩ i leaf hleaf
        rcases Nat.lt_or_ge i inner.leaves.length with hlt | hge
        · rw [List.getElem?_append_left hlt] at hleaf
          exact hinner i leaf hleaf
        · rw [List.getElem?_append_right hge] at hleaf
          obtain ⟨text, htext, hsome⟩ := hrest _ leaf hleaf
          rw [Nat.add_sub_cancel' hge] at htext
          exact ⟨text, htext, hsome⟩
      · intro h
        refine ⟨fun i leaf hleaf => h i leaf ?_, fun i leaf hleaf => h _ leaf ?_⟩
        · rw [List.getElem?_append_left (List.getElem?_eq_some_iff.mp hleaf).1]
          exact hleaf
        · rw [List.getElem?_append_right (Nat.le_add_right ..), Nat.add_sub_cancel_left]
          exact hleaf

/-! ### The cells of a row -/

abbrev Cell (P : Type) := (leaf : Name × FieldType) × leaf.2.Value P

def cells : (members : Members) → members.Row P → List (Cell P)
  | .nil, _ => []
  | .field name type rest, (value, row) => ⟨(name, type), value⟩ :: rest.cells row
  | .struct _ inner rest, (value, row) => inner.cells value ++ rest.cells row

theorem map_fst_cells (members : Members) (row : members.Row P) :
    (members.cells row).map Sigma.fst = members.leaves := by
  induction members with
  | nil => rfl
  | field name type rest ih =>
      obtain ⟨value, row⟩ := row
      rw [cells, leaves, List.map_cons, ih]
  | struct name inner rest ihi ih =>
      obtain ⟨value, row⟩ := row
      rw [cells, leaves, List.map_append, ihi, ih]

theorem parse_cells (members : Members) {texts : List Str} {row : members.Row P}
    (h : members.parse fromChars texts = some row) :
    List.Forall₂ (fun text (cell : Cell P) => cell.1.2.parse fromChars text = some cell.2)
      (texts.take members.fieldCount) (members.cells row) := by
  induction members generalizing texts with
  | nil => simp [cells, fieldCount]
  | field name type rest ih =>
      obtain ⟨value, row⟩ := row
      cases texts with
      | nil => cases h
      | cons text texts =>
          rw [parse] at h
          split at h
          · rename_i hvalue hrow
            cases h
            rw [fieldCount, Nat.add_comm, List.take_succ_cons]
            exact .cons hvalue (ih hrow)
          · cases h
  | struct name inner rest ihi ih =>
      obtain ⟨value, row⟩ := row
      rw [parse] at h
      split at h
      · rename_i hvalue hrow
        cases h
        rw [fieldCount, List.take_add]
        exact List.rel_append (ihi hvalue) (ih hrow)
      · cases h

/-! ### Columns and the specification -/

theorem parse_congr (members : Members) {texts texts' : List Str}
    (h : texts.take members.fieldCount = texts'.take members.fieldCount) :
    members.parse fromChars texts = members.parse fromChars texts' := by
  induction members generalizing texts texts' with
  | nil => rfl
  | field name type rest ih =>
      rw [fieldCount, Nat.add_comm] at h
      cases texts with
      | nil =>
          cases texts' with
          | nil => rfl
          | cons text' texts' => simp at h
      | cons text texts =>
          cases texts' with
          | nil => simp at h
          | cons text' texts' =>
              rw [List.take_succ_cons, List.take_succ_cons, List.cons.injEq] at h
              rw [parse, parse, h.1, ih h.2]
  | struct name inner rest ihi ih =>
      rw [fieldCount] at h
      have hinner := congrArg (List.take inner.fieldCount) h
      rw [List.take_take, List.take_take, Nat.min_eq_left (Nat.le_add_right ..)] at hinner
      have hrest := congrArg (List.drop inner.fieldCount) h
      rw [List.drop_take, List.drop_take, Nat.add_sub_cancel_left] at hrest
      rw [parse, parse, ihi hinner, ih hrest]

end Members

/-! ## The constructor meets the specification -/

theorem populateText_toOption (field : BaseField) (idx : Nat) (text : Str) :
    (populateText fromChars field idx text).toOption = field.parse fromChars text := by
  have hnumber : ∀ {α : Type} (parsed : Except ParseError α),
      (populateNumber idx parsed).toOption = parsed.toOption := fun parsed => by
    cases parsed <;> rfl
  cases field with
  | char =>
      cases text with
      | nil => rfl
      | cons c cs => cases cs <;> rfl
  | string => rfl
  | sourceTime =>
      simp only [populateText, BaseField.parse]
      cases parseSourceTime text <;> rfl
  | uint8 => exact hnumber _
  | uint64 => exact hnumber _
  | double => exact hnumber _

/-- A read from a valid reader: what the specification says, and a valid reader if
it succeeds. -/
def Reads {α : Type} (line : Str) (result : Except CSVReader.Error (α × CSVReader))
    (value : Option α) : Prop :=
  match result with
  | .ok (v, reader) => value = some v ∧ reader.Valid line
  | .error _ => value = none

section Reads

variable {reader : CSVReader} {line : Str}

/-- A call of `GetField` on a valid reader fails where the line has no such column, and
else finds it. -/
theorem getField_cases (h : reader.Valid line) (idx : Nat) :
    (∃ reader' error, reader.getField idx = (.error error, reader')
        ∧ (columns line)[idx]? = none)
      ∨ ∃ reader' text, reader.getField idx = (.ok text, reader')
        ∧ (columns line)[idx]? = some text ∧ reader'.Valid line := by
  obtain ⟨hfield, hvalid⟩ := h.getField idx
  rcases hget : reader.getField idx with ⟨found, reader'⟩
  rw [hget] at hfield hvalid
  cases hcol : (columns line)[idx]? with
  | none =>
      rw [hcol] at hfield
      exact .inl ⟨reader', _, by rw [show found = _ from hfield], rfl⟩
  | some text =>
      rw [hcol] at hfield
      exact .inr ⟨reader', text, by rw [show found = _ from hfield], rfl, hvalid⟩

theorem populateBase_reads (h : reader.Valid line) (field : BaseField) (idx : Nat) :
    Reads line (populateBase fromChars field reader idx)
      (((columns line)[idx]?).bind (field.parse fromChars)) := by
  rw [populateBase]
  rcases getField_cases h idx with ⟨reader', error, hget, hcol⟩
    | ⟨reader', text, hget, hcol, hvalid⟩
  · rw [hget, hcol]
    rfl
  · rw [hget, hcol, Option.bind_some, ← populateText_toOption fromChars field idx]
    dsimp only
    cases populateText fromChars field idx text with
    | error e => rfl
    | ok value => exact ⟨rfl, hvalid⟩

theorem populateField_reads (h : reader.Valid line) (type : FieldType) (idx : Nat) :
    Reads line (populateField fromChars type reader idx)
      (((columns line)[idx]?).bind (type.parse fromChars)) := by
  cases type with
  | base field => exact populateBase_reads fromChars h field idx
  | optional field =>
      rw [populateField]
      rcases getField_cases h idx with ⟨reader', error, hget, hcol⟩
        | ⟨reader', text, hget, hcol, hvalid⟩
      · rw [hget, hcol]
        rfl
      · have hbase := populateBase_reads fromChars hvalid field idx
        rw [hcol, Option.bind_some] at hbase
        rw [hget, hcol, Option.bind_some, FieldType.parse]
        dsimp only
        split
        · exact ⟨rfl, hvalid⟩
        · cases hpop : populateBase fromChars field reader' idx with
          | error e =>
              rw [hpop] at hbase
              show Option.map some _ = none
              rw [show field.parse fromChars text = none from hbase]
              rfl
          | ok r =>
              rw [hpop] at hbase
              obtain ⟨hparse, hvalid'⟩ := hbase
              exact ⟨by rw [hparse]; rfl, hvalid'⟩

/-- **The constructor is the specification**, on the columns from the offset on. -/
theorem Members.populate_reads (members : Members) {reader : CSVReader}
    (h : reader.Valid line) (idx : Nat) :
    Reads line (members.populate fromChars reader idx)
      (members.parse fromChars ((columns line).drop idx)) := by
  induction members generalizing reader idx with
  | nil => exact ⟨rfl, h⟩
  | field name type rest ih =>
      have hhead := populateField_reads fromChars h type idx
      rw [populate]
      cases hcol : (columns line)[idx]? with
      | none =>
          rw [hcol, Option.bind_none] at hhead
          rw [List.drop_eq_nil_of_le (List.getElem?_eq_none_iff.mp hcol)]
          cases hpop : populateField fromChars type reader idx with
          | error e => rfl
          | ok r => rw [hpop] at hhead; cases hhead.1
      | some text =>
          obtain ⟨hlt, hget⟩ := List.getElem?_eq_some_iff.mp hcol
          rw [hcol, Option.bind_some] at hhead
          rw [List.drop_eq_getElem_cons hlt, hget, parse]
          cases hpop : populateField fromChars type reader idx with
          | error e =>
              rw [hpop] at hhead
              rw [show type.parse fromChars text = none from hhead]
              rfl
          | ok r =>
              rw [hpop] at hhead
              obtain ⟨hvalue, hvalid⟩ := hhead
              have hrest := ih hvalid (idx + 1)
              dsimp only
              rw [hvalue]
              cases hpop' : rest.populate fromChars r.2 (idx + 1) with
              | error e =>
                  rw [hpop'] at hrest
                  rw [show rest.parse fromChars _ = none from hrest]
                  rfl
              | ok r' =>
                  rw [hpop'] at hrest
                  rw [hrest.1]
                  exact ⟨rfl, hrest.2⟩
  | struct name inner rest ihi ih =>
      have hinner := ihi h idx
      rw [populate, parse]
      cases hpop : inner.populate fromChars reader idx with
      | error e =>
          rw [hpop] at hinner
          rw [show inner.parse fromChars _ = none from hinner]
          rfl
      | ok r =>
          rw [hpop] at hinner
          have hrest := ih hinner.2 (idx + inner.fieldCount)
          dsimp only
          rw [hinner.1, List.drop_drop]
          cases hpop' : rest.populate fromChars r.2 (idx + inner.fieldCount) with
          | error e =>
              rw [hpop'] at hrest
              rw [show rest.parse fromChars _ = none from hrest]
              rfl
          | ok r' =>
              rw [hpop'] at hrest
              rw [hrest.1]
              exact ⟨rfl, hrest.2⟩

end Reads

end Populate

end Mde.Nyse
