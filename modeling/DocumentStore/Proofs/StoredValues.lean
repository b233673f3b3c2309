import DocumentStore.Proofs.FlaggedLevels
import DocumentStore.Row.OfDocument

/-!
# What stands in a row

`Stored` says which cell stands in a field for the value that a document has there, or for its
absence. It is stated level by level and in terms of look-ups only, so it does not depend on the
order of members. What the codec writes meets it, and whatever is proved of stored documents is
proved of it.
-/

set_option autoImplicit false

namespace DocumentStore

/-! ## Looking up in a record of slots -/

namespace Row

variable {slots : List (String × Slot)}

/-- A record of slots holds the value of each slot under its name. -/
theorem get?_ofSlots (nodup : (slots.map Prod.fst).Nodup)
    (hflags : Column.flags ∉ slots.map Prod.fst) {name : String} (hname : name ≠ Column.flags) :
    (Row.ofSlots slots).get? name = (slots.lookup name).map Slot.value := by
  unfold Row.ofSlots
  rw [Record.get?_ofList, lookup_cons_eq_ite, if_neg hname]
  · exact lookup_map_values Slot.value slots name
  · rw [List.map_cons, List.map_map, List.nodup_cons]
    exact ⟨hflags, nodup⟩

/-- The flags of a row made of slots are those of its slots. -/
theorem get?_flags_ofSlots (nodup : (slots.map Prod.fst).Nodup)
    (hflags : Column.flags ∉ slots.map Prod.fst) :
    (Row.ofSlots slots).get? Column.flags =
      some (.struct ⟨slots.map fun slot => (slot.1, Cell.boolean (!slot.2.present))⟩) := by
  unfold Row.ofSlots
  rw [Record.get?_ofList, lookup_cons_eq_ite, if_pos rfl, Record.ofList_of_nodup]
  · rw [List.map_map]
    exact nodup
  · rw [List.map_cons, List.map_map, List.nodup_cons]
    exact ⟨hflags, nodup⟩

/-- The flag of a slot says whether it is empty. -/
theorem flag?_ofSlots (nodup : (slots.map Prod.fst).Nodup)
    (hflags : Column.flags ∉ slots.map Prod.fst) (name : String) :
    (Row.ofSlots slots).flag? name = (slots.lookup name).map fun slot => !slot.present := by
  unfold Row.flag?
  rw [get?_flags_ofSlots nodup hflags]
  have hlookup := lookup_map_values (fun slot : Slot => Cell.boolean (!slot.present)) slots name
  simp only [Cell.members?, Record.get?, hlookup, Option.bind_eq_bind, Option.bind_some]
  cases slots.lookup name <;> rfl

end Row

/-! ## The relation of values and cells -/

/-- The cell that a leaf of the given type stores for a value. -/
inductive Cell.Encodes : DataType → Bool → MetaValue → Cell → Prop
  | null {type : DataType} : Encodes type true .null .null
  | utf8 {nullable : Bool} (s : String) : Encodes .utf8 nullable (.string s) (.utf8 s)
  | int32 {nullable : Bool} (n : Int64)
      (range : Int32.minValue.toInt ≤ n.toInt ∧ n.toInt ≤ Int32.maxValue.toInt) :
      Encodes .int32 nullable (.int n) (.int32 (Int32.ofInt n.toInt))
  | int64 {nullable : Bool} (n : Int64) : Encodes .int64 nullable (.int n) (.int64 n)
  | float32 {nullable : Bool} (x : Binary64) :
      Encodes .float32 nullable (.float x) (.float32 (x.convert Floating.Format.binary32))
  | float32OfInt {nullable : Bool} (n : Int64) :
      Encodes .float32 nullable (.int n) (.float32 (Floating.ofInt n.toInt))
  | float64 {nullable : Bool} (x : Binary64) : Encodes .float64 nullable (.float x) (.float64 x)
  | float64OfInt {nullable : Bool} (n : Int64) :
      Encodes .float64 nullable (.int n) (.float64 (Floating.ofInt n.toInt))
  | boolean {nullable : Bool} (b : Bool) : Encodes .boolean nullable (.bool b) (.boolean b)
  | binary {nullable : Bool} (b : List UInt8) : Encodes .binary nullable (.bytes b) (.binary b)
  | timestamp {nullable : Bool} (zone : Option String) (t : Instant) :
      Encodes (.timestamp .second zone) nullable (.timestamp t) (.timestamp t.seconds)
  | timestampText {nullable : Bool} (zone : Option String) {s : String} {t : Instant}
      (reads : Time.read s = .instant t) :
      Encodes (.timestamp .second zone) nullable (.string s) (.timestamp t.seconds)

/-- A text that is taken for an instant stands for it. -/
theorem Instant.read_of_ofText {s : String} {t : Instant} {invalid : Error}
    (h : Instant.ofText s invalid = .ok t) : Time.read s = .instant t := by
  unfold Instant.ofText at h
  split at h
  · next hread =>
    cases h
    exact hread
  · cases h
  · cases h

/-- What is stored in a leaf is decided by its type and the value. -/
theorem Cell.encodes_of_eq_ok {path : String} {type : DataType} {nullable : Bool}
    {value : MetaValue} {cell : Cell} (h : Cell.ofMetaValue path type nullable value = .ok cell) :
    Cell.Encodes type nullable value cell := by
  cases value with
  | null =>
    have hnull : (if nullable then Except.ok Cell.null
        else Except.error (Error.validation (.notNullable path))) = .ok cell := by
      rw [← h]
      cases type with
      | timestamp unit zone => cases unit <;> rfl
      | _ => rfl
    cases nullable with
    | true =>
      cases hnull
      exact .null
    | false => cases hnull
  | int n =>
    cases type with
    | int32 =>
      have h : (if Int32.minValue.toInt ≤ n.toInt ∧ n.toInt ≤ Int32.maxValue.toInt then
          Except.ok (Cell.int32 (Int32.ofInt n.toInt))
          else Except.error (Error.validation (.outsideInt32 path n))) = .ok cell := h
      split at h
      · next hrange =>
        cases h
        exact .int32 n hrange
      · cases h
    | int64 =>
      cases h
      exact .int64 n
    | float32 =>
      cases h
      exact .float32OfInt n
    | float64 =>
      cases h
      exact .float64OfInt n
    | timestamp unit zone => cases unit <;> cases h
    | _ => cases h
  | string s =>
    cases type with
    | utf8 =>
      cases h
      exact .utf8 s
    | timestamp unit zone =>
      cases unit with
      | second =>
        obtain ⟨t, ht, h⟩ := (bind_eq_ok_iff _ _ _).mp h
        cases h
        exact .timestampText zone (Instant.read_of_ofText ht)
      | millisecond => cases h
    | _ => cases h
  | timestamp t =>
    cases type with
    | timestamp unit zone =>
      cases unit with
      | second =>
        cases h
        exact .timestamp zone t
      | millisecond => cases h
    | _ => cases h
  | bool b =>
    cases type with
    | boolean =>
      cases h
      exact .boolean b
    | timestamp unit zone => cases unit <;> cases h
    | _ => cases h
  | float x =>
    cases type with
    | float32 =>
      cases h
      exact .float32 x
    | float64 =>
      cases h
      exact .float64 x
    | timestamp unit zone => cases unit <;> cases h
    | _ => cases h
  | bytes b =>
    cases type with
    | binary =>
      cases h
      exact .binary b
    | timestamp unit zone => cases unit <;> cases h
    | _ => cases h
  | map entries =>
    cases type with
    | timestamp unit zone => cases unit <;> cases h
    | _ => cases h

/-- The value that a level of metadata has in a field; an absent level has none. -/
def Metadata.valueIn (entries : Option Metadata) (field : Field) : Option MetaValue :=
  entries.bind fun held => held.get? field.name

/-- The cell stands for the value in a field of the given type, or for the absence of one. -/
inductive Stored : DataType → Bool → Option MetaValue → Cell → Prop
  | leaf {type : DataType} {nullable : Bool} {value : MetaValue} {cell : Cell}
      (leaf : type.isMetadataLeaf = true) (h : Cell.Encodes type nullable value cell) :
      Stored type nullable (some value) cell
  | absentLeaf {path : String} {type : DataType} {nullable : Bool} {cell : Cell}
      (leaf : type.isMetadataLeaf = true)
      (h : Cell.leafPlaceholder path type nullable = .ok cell) :
      Stored type nullable none cell
  | null {fields : List Field} : Stored (.struct fields) true (some .null) .null
  | struct {fields : List Field} {nullable : Bool} {entries : Option Metadata} {record : Row}
      (level : Field.HasFlags fields)
      (flag : ∀ field ∈ Field.declared fields,
        record.flag? field.name = some (Metadata.valueIn entries field).isNone)
      (there : ∀ field ∈ Field.declared fields, ∃ cell, record.get? field.name = some cell)
      (below : ∀ field ∈ Field.declared fields, ∀ cell, record.get? field.name = some cell →
        Stored field.type field.nullable (Metadata.valueIn entries field) cell) :
      Stored (.struct fields) nullable (entries.map MetaValue.map) (.struct record)

/-! ## Levels of slots -/

/-- The slots of the declared fields of a level, each filled according to `R`. -/
structure Field.Filled (R : Field → Slot → Prop) (fields : List Field)
    (slots : List (String × Slot)) : Prop where
  names : slots.map Prod.fst = (Field.declared fields).map FieldOf.name
  filled : ∀ field ∈ Field.declared fields, ∀ slot, (field.name, slot) ∈ slots → R field slot

namespace Field.Filled

variable {R : Field → Slot → Prop} {fields : List Field} {slots : List (String × Slot)}

/-- Slots have distinct names if the fields have. -/
theorem nodup (h : Filled R fields slots) (hfields : (fields.map FieldOf.name).Nodup) :
    (slots.map Prod.fst).Nodup := by
  rw [h.names]
  exact Field.nodup_declared hfields

/-- No slot has the name of the flags. -/
theorem flags_not_mem (h : Filled R fields slots) : Column.flags ∉ slots.map Prod.fst := by
  rw [h.names]
  exact Field.flags_not_mem_declared fields

/-- The slots stand in the order of the declared fields. -/
theorem forall₂ (h : Filled R fields slots) :
    List.Forall₂ (fun field named => field ∈ Field.declared fields ∧ named.1 = field.name ∧
      R field named.2) (Field.declared fields) slots := by
  have hlength : (Field.declared fields).length = slots.length := by
    simpa using congrArg List.length h.names.symm
  refine List.forall₂_iff_get.mpr ⟨hlength, fun i hi hi' => ?_⟩
  have hname : (slots.get ⟨i, hi'⟩).1 = ((Field.declared fields).get ⟨i, hi⟩).name := by
    have hnames := congrArg (fun names : List String => names[i]?) h.names
    simpa [hi, hi'] using hnames
  refine ⟨List.get_mem _ _, hname, h.filled _ (List.get_mem _ _) _ ?_⟩
  rw [← hname]
  exact List.get_mem _ _

/-- Each declared field has a slot, which is filled as it has to be, and which is what is found
under its name in the record of the slots and in its flags. -/
theorem exists_slot (h : Filled R fields slots) (hfields : (fields.map FieldOf.name).Nodup)
    {field : Field} (hfield : field ∈ Field.declared fields) :
    ∃ slot, R field slot ∧ (Row.ofSlots slots).get? field.name = some slot.value ∧
      (Row.ofSlots slots).flag? field.name = some (!slot.present) := by
  have hname : field.name ∈ slots.map Prod.fst := by
    rw [h.names]
    exact List.mem_map.mpr ⟨field, hfield, rfl⟩
  obtain ⟨⟨name, slot⟩, hslot, heq⟩ := List.mem_map.mp hname
  have heq : name = field.name := heq
  subst heq
  have hlookup := lookup_of_mem (h.nodup hfields) hslot
  refine ⟨slot, h.filled field hfield slot hslot, ?_, ?_⟩
  · rw [Row.get?_ofSlots (h.nodup hfields) h.flags_not_mem (Field.mem_declared.mp hfield).2,
      hlookup]
    rfl
  · rw [Row.flag?_ofSlots (h.nodup hfields) h.flags_not_mem, hlookup]
    rfl

end Field.Filled

/-! ## Encoding meets the relation -/

namespace Document

/-- The slot that is made for one declared field of a level. -/
def fieldSlot (entries : Option Metadata) (path : String) (field : Field) : Except Error Slot :=
  match Metadata.valueIn entries field with
  | some value => do
    return ⟨← storedValue (path ++ "." ++ field.name) field.nullable value field.type, true⟩
  | none => do
    return ⟨← placeholder (path ++ "." ++ field.name) field.nullable field.type, false⟩

/-- The slots of a level are made field by field, the flags left out. -/
theorem fieldSlots_eq_mapM (entries : Option Metadata) (path : String) (fields : List Field) :
    fieldSlots entries path fields =
      (Field.declared fields).mapM fun field => do
        return (field.name, ← fieldSlot entries path field) := by
  induction fields with
  | nil => rfl
  | cons field rest ih =>
    obtain ⟨name, type, nullable, annotations⟩ := field
    unfold Field.declared at ih ⊢
    rw [fieldSlots]
    by_cases hname : name = Column.flags
    · rw [if_pos hname, ih, List.filter_cons_of_neg]
      rw [decide_eq_true_eq, not_not]
      exact hname
    · rw [if_neg hname, List.filter_cons_of_pos (by rw [decide_eq_true_eq]; exact hname),
        List.mapM_cons, ih]
      unfold fieldSlot Metadata.valueIn
      cases entries.bind fun held => held.get? name with
      | none =>
        dsimp only
        cases placeholder (path ++ "." ++ name) nullable type <;> rfl
      | some value =>
        dsimp only
        cases storedValue (path ++ "." ++ name) nullable value type <;> rfl

/-- Slots made one by one fill their fields. -/
theorem filled_of_mapM {R : Field → Slot → Prop} {fields : List Field}
    {make : Field → Except Error Slot} {slots : List (String × Slot)}
    (nodup : (fields.map FieldOf.name).Nodup)
    (hmake : ∀ field ∈ Field.declared fields, ∀ slot, make field = .ok slot → R field slot)
    (h : (Field.declared fields).mapM (fun field => do return (field.name, ← make field)) =
      .ok slots) : Field.Filled R fields slots := by
  have hall := (mapM_eq_ok_iff _ _ _).mp h
  have hsplit : ∀ (field : Field) (named : String × Slot),
      (do return (field.name, ← make field) : Except Error (String × Slot)) = .ok named →
      named.1 = field.name ∧ make field = .ok named.2 := by
    intro field named hn
    obtain ⟨slot, hslot, hn⟩ := (bind_eq_ok_iff _ _ _).mp hn
    cases hn
    exact ⟨rfl, hslot⟩
  constructor
  · have hnames : ∀ {fields : List Field} {slots : List (String × Slot)},
        List.Forall₂ (fun field named =>
          (do return (field.name, ← make field) : Except Error (String × Slot)) = .ok named)
          fields slots → slots.map Prod.fst = fields.map FieldOf.name := by
      intro fields slots hall
      induction hall with
      | nil => rfl
      | cons hn _ ih => rw [List.map_cons, List.map_cons, ih, (hsplit _ _ hn).1]
    exact hnames hall
  · intro field hfield slot hslot
    obtain ⟨field', hfield', hn⟩ := exists_related hall.flip hslot
    obtain ⟨hname, hmade⟩ := hsplit field' (field.name, slot) hn
    have heq : field = field' :=
      Field.eq_of_name_eq (Field.nodup_declared nodup) hfield hfield' hname
    subst heq
    exact hmake field hfield slot hmade

/-- What stands for a leaf's value is its encoding. -/
theorem storedValue_leaf {type : DataType} (leaf : type.members? = none) (path : String)
    (nullable : Bool) (value : MetaValue) :
    storedValue path nullable value type = Cell.ofMetaValue path type nullable value := by
  cases type <;> first | rfl | cases leaf

/-- What stands in a leaf without a value is its placeholder. -/
theorem placeholder_leaf {type : DataType} (leaf : type.members? = none) (path : String)
    (nullable : Bool) :
    placeholder path nullable type = Cell.leafPlaceholder path type nullable := by
  cases type <;> first | rfl | cases leaf

/-- A metadata leaf has no members. -/
theorem members?_eq_none {type : DataType} (h : type.isMetadataLeaf = true) :
    type.members? = none := by
  cases type <;> first | rfl | cases h

/-- A level of slots is a stored struct when each of its slots stands for the value of its field. -/
theorem stored_of_filled {fields : List Field} {nullable : Bool} {entries : Option Metadata}
    {slots : List (String × Slot)} (level : Field.HasFlags fields)
    (h : Field.Filled (fun field slot => slot.present = (Metadata.valueIn entries field).isSome ∧
      Stored field.type field.nullable (Metadata.valueIn entries field) slot.value) fields slots) :
    Stored (.struct fields) nullable (entries.map MetaValue.map) (.struct (Row.ofSlots slots)) := by
  refine .struct level ?_ ?_ ?_
  · intro field hfield
    obtain ⟨slot, ⟨hpresent, -⟩, -, hflag⟩ := h.exists_slot level.nodup hfield
    rw [hflag, hpresent, Option.not_isSome]
  · intro field hfield
    obtain ⟨slot, -, hget, -⟩ := h.exists_slot level.nodup hfield
    exact ⟨slot.value, hget⟩
  · intro field hfield cell hcell
    obtain ⟨slot, ⟨-, hstored⟩, hget, -⟩ := h.exists_slot level.nodup hfield
    rw [hget] at hcell
    cases hcell
    exact hstored

/-- A property of fields, their values and their cells holds of everything that is written for a
flagged type, if it holds of the leaves and of null structs, and of a level of slots whenever it
holds of each slot. -/
theorem encoded_induction {P : DataType → Bool → Option MetaValue → Cell → Prop}
    (leaf : ∀ {type nullable value cell}, type.isMetadataLeaf = true →
      Cell.Encodes type nullable value cell → P type nullable (some value) cell)
    (absentLeaf : ∀ {path type nullable cell}, type.isMetadataLeaf = true →
      Cell.leafPlaceholder path type nullable = .ok cell → P type nullable none cell)
    (null : ∀ {fields}, P (.struct fields) true (some .null) .null)
    (level : ∀ {fields nullable} {entries : Option Metadata} {slots}, Field.HasFlags fields →
      Field.Filled (fun field slot => slot.present = (Metadata.valueIn entries field).isSome ∧
        P field.type field.nullable (Metadata.valueIn entries field) slot.value) fields slots →
      P (.struct fields) nullable (entries.map MetaValue.map) (.struct (Row.ofSlots slots)))
    {type : DataType} (flagged : type.Flagged) :
    (∀ path nullable value cell, storedValue path nullable value type = .ok cell →
      P type nullable (some value) cell) ∧
    (∀ path nullable cell, placeholder path nullable type = .ok cell →
      P type nullable none cell) := by
  induction flagged with
  | leaf h =>
    constructor
    · intro path nullable value cell hcell
      rw [storedValue_leaf (members?_eq_none h)] at hcell
      exact leaf h (Cell.encodes_of_eq_ok hcell)
    · intro path nullable cell hcell
      rw [placeholder_leaf (members?_eq_none h)] at hcell
      exact absentLeaf h hcell
  | @struct fields hlevel below ih =>
    have hslots : ∀ (entries : Option Metadata) (path : String) (slots : List (String × Slot)),
        fieldSlots entries path fields = .ok slots → ∀ nullable,
        P (.struct fields) nullable (entries.map MetaValue.map) (.struct (Row.ofSlots slots)) := by
      intro entries path slots h nullable
      rw [fieldSlots_eq_mapM] at h
      refine level hlevel (filled_of_mapM hlevel.nodup ?_ h)
      intro field hfield slot hslot
      obtain ⟨hmem, hname⟩ := Field.mem_declared.mp hfield
      unfold fieldSlot at hslot
      split at hslot
      · next value hvalue =>
        obtain ⟨cell, hcell, hslot⟩ := (bind_eq_ok_iff _ _ _).mp hslot
        cases hslot
        exact ⟨by rw [hvalue]; rfl, hvalue ▸ (ih field hmem hname).1 _ _ _ _ hcell⟩
      · next hvalue =>
        obtain ⟨cell, hcell, hslot⟩ := (bind_eq_ok_iff _ _ _).mp hslot
        cases hslot
        exact ⟨by rw [hvalue]; rfl, hvalue ▸ (ih field hmem hname).2 _ _ _ hcell⟩
    constructor
    · intro path nullable value cell hcell
      cases value with
      | map entries =>
        rw [storedValue] at hcell
        obtain ⟨slots, h, hcell⟩ := (bind_eq_ok_iff _ _ _).mp hcell
        cases hcell
        exact hslots (some entries) path slots h nullable
      | null =>
        rw [storedValue] at hcell
        split at hcell
        · next hnull =>
          cases hcell
          rw [hnull]
          exact null
        · cases hcell
      | _ =>
        rw [storedValue] at hcell
        · cases hcell
        all_goals simp
    · intro path nullable cell hcell
      rw [placeholder] at hcell
      obtain ⟨slots, h, hcell⟩ := (bind_eq_ok_iff _ _ _).mp hcell
      cases hcell
      exact hslots none path slots h nullable

/-- In a flagged type every value that can be stored, and every placeholder, meets the relation. -/
theorem stored_of_flagged {type : DataType} (flagged : type.Flagged) :
    (∀ path nullable value cell, storedValue path nullable value type = .ok cell →
      Stored type nullable (some value) cell) ∧
    (∀ path nullable cell, placeholder path nullable type = .ok cell →
      Stored type nullable none cell) :=
  encoded_induction .leaf .absentLeaf .null stored_of_filled flagged

end Document

end DocumentStore
