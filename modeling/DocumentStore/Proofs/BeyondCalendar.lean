import DocumentStore.Proofs.CalendarEnd
import DocumentStore.Proofs.Connectives
import DocumentStore.Proofs.FilterLanguage
import DocumentStore.Proofs.StoredValues

/-!
# What a text beyond the calendar stops

Reading a text ends with an instant or is refused, unless the text names an instant after the end of
the calendar: then `Error.beyondCalendar` says that there is no result at all. Storing a document,
writing a filter as SQL and evaluating a predicate read texts, so each of them can be stopped in this
way. It is stopped exactly when it comes to such a text, everything before it having a result; each
operation has an inductive predicate that says when this is so.
-/

set_option autoImplicit false

namespace DocumentStore

/-! ## Texts -/

section Texts

variable {text : String} {invalid : Error}

/-- Reading a text is stopped exactly by what it names. -/
theorem Instant.ofText_eq_beyondCalendar_iff (hinvalid : invalid ≠ .beyondCalendar) :
    Instant.ofText text invalid = .error .beyondCalendar ↔ Time.NamesBeyond text := by
  rw [← Time.read_eq_outside_iff]
  unfold Instant.ofText
  cases Time.read text <;> simp [hinvalid]

/-- Reading a text gives an instant, refuses the text, or runs past the calendar. -/
theorem Instant.parse_cases (text : String) :
    (∃ t, Instant.parse text = .ok t) ∨
      Instant.parse text = .error (.validation (.timestamp text)) ∨
      Instant.parse text = .error .beyondCalendar := by
  unfold Instant.parse Instant.ofText
  cases Time.read text <;> simp

/-- A text that stops its reading is written with one of the last two dates and an offset west of
Greenwich. -/
theorem Instant.parse_eq_beyondCalendar_iff (text : String) :
    Instant.parse text = .error .beyondCalendar ↔
      ∃ day clock offset, (day = 30 ∨ day = 31) ∧ offset < 0 ∧
        Time.HasParts (Text.trim text.toList) ⟨9999, 12, day⟩ clock offset ∧
        (Time.lastSecond + 1) * Time.nanosPerSecond ≤
          Time.nanosAt ⟨9999, 12, day⟩ clock offset := by
  unfold Instant.parse
  rw [Instant.ofText_eq_beyondCalendar_iff (by simp)]
  constructor
  · rintro ⟨date, clock, offset, hparts, hbeyond⟩
    obtain ⟨hdate, hoffset⟩ := hparts.lastDays hbeyond
    rcases hdate with rfl | rfl
    · exact ⟨30, clock, offset, Or.inl rfl, hoffset, hparts, hbeyond⟩
    · exact ⟨31, clock, offset, Or.inr rfl, hoffset, hparts, hbeyond⟩
  · rintro ⟨day, clock, offset, -, -, hparts, hbeyond⟩
    exact ⟨_, clock, offset, hparts, hbeyond⟩

end Texts

/-! ## Documents -/

/-- Storing a value in a field of the type comes to a text that names an instant after the end of the
calendar; the fields before it have slots. -/
inductive MetaValue.ReachesBeyond : String → DataType → MetaValue → Prop
  | text {path : String} {zone : Option String} {s : String} (beyond : Time.NamesBeyond s) :
    ReachesBeyond path (.timestamp .second zone) (.string s)
  | entry {path : String} {fields before after : List Field} {field : Field} {entries : Metadata}
      {value : MetaValue} (level : Field.declared fields = before ++ field :: after)
      (earlier : ∀ other ∈ before, ∃ slot, Document.fieldSlot (some entries) path other = .ok slot)
      (held : entries.get? field.name = some value)
      (reaches : ReachesBeyond (path ++ "." ++ field.name) field.type value) :
    ReachesBeyond path (.struct fields) (.map entries)

/-- Storing a document comes to such a text in its metadata; it has an id, and the columns before the
metadata have slots. -/
structure Document.ReachesBeyond (document : Document) (schema : Schema) : Prop where
  hasId : document.id ≠ ""
  columns : ∃ width metadata before column after, schema.width = .ok width ∧
    schema.metadataFields = .ok metadata ∧
    Field.declared schema.fields = before ++ column :: after ∧
    (∀ other ∈ before, ∃ slot, document.rootSlot width metadata other = .ok slot) ∧
    column.name = Column.metadata ∧
    MetaValue.ReachesBeyond Column.metadata (.struct metadata) (.map document.metadata)

/-- Of all leaves only timestamps read texts. -/
theorem Cell.ofMetaValue_eq_beyondCalendar_iff {path : String} {type : DataType} {nullable : Bool}
    {value : MetaValue} : Cell.ofMetaValue path type nullable value = .error .beyondCalendar ↔
      ∃ zone s, type = .timestamp .second zone ∧ value = .string s ∧ Time.NamesBeyond s := by
  unfold Cell.ofMetaValue
  split
  case h_12 zone s =>
    rw [bind_eq_error_iff, Instant.ofText_eq_beyondCalendar_iff (by simp)]
    constructor
    · rintro (hbeyond | ⟨t, -, h⟩)
      · exact ⟨zone, s, rfl, rfl, hbeyond⟩
      · cases h
    · rintro ⟨_, _, ⟨⟩, ⟨⟩, hbeyond⟩
      exact Or.inl hbeyond
  case h_13 hother =>
    refine iff_of_false (by simp) ?_
    rintro ⟨zone, s, rfl, rfl, -⟩
    exact hother zone s rfl rfl
  all_goals
    refine iff_of_false ?_ ?_
    · intro h
      first | cases h | (split at h <;> cases h)
    · rintro ⟨_, _, htype, hvalue, -⟩
      cases htype <;> cases hvalue

namespace Document

/-- No placeholder is an instant, so none runs past the calendar. -/
theorem leafPlaceholder_ne_beyondCalendar (path : String) (type : DataType) (nullable : Bool) :
    Cell.leafPlaceholder path type nullable ≠ .error .beyondCalendar := by
  unfold Cell.leafPlaceholder Cell.zero
  split
  · simp
  · split <;> simp

/-- Placeholders do not read texts. -/
theorem placeholder_ne_beyondCalendar (type : DataType) : ∀ path nullable,
    placeholder path nullable type ≠ .error .beyondCalendar := by
  induction type using DataType.struct_induction with
  | leaf type hleaf =>
    intro path nullable
    rw [placeholder_leaf hleaf]
    exact leafPlaceholder_ne_beyondCalendar path type nullable
  | struct fields ih =>
    intro path nullable h
    rw [placeholder, fieldSlots_eq_mapM] at h
    rcases (bind_eq_error_iff _ _ _).mp h with h | ⟨slots, -, h⟩
    · obtain ⟨before, field, after, hlevel, -, h⟩ := (mapM_eq_error_iff _ _ _).mp h
      have hfield : field ∈ Field.declared fields := by simp [hlevel]
      rw [bind_pure_eq_map, map_eq_error_iff] at h
      rcases (bind_eq_error_iff _ _ _).mp h with h | ⟨cell, -, h⟩
      · exact ih field (Field.mem_declared.mp hfield).1 _ _ h
      · cases h
    · cases h

/-- A slot is stopped exactly when storing the value of its field is. -/
theorem fieldSlot_eq_beyondCalendar_iff (entries : Metadata) (path : String) (field : Field) :
    fieldSlot (some entries) path field = .error .beyondCalendar ↔
      ∃ value, entries.get? field.name = some value ∧
        storedValue (path ++ "." ++ field.name) field.nullable value field.type =
          .error .beyondCalendar := by
  have hentry : Metadata.valueIn (some entries) field = entries.get? field.name := rfl
  unfold fieldSlot
  rw [hentry]
  cases entries.get? field.name with
  | none =>
    dsimp only
    rw [bind_pure_eq_map, map_eq_error_iff]
    exact iff_of_false (placeholder_ne_beyondCalendar _ _ _) (by simp)
  | some value =>
    dsimp only
    rw [bind_pure_eq_map, map_eq_error_iff]
    simp

/-- Storing a value is stopped exactly when it comes to a text that names an instant after the end of
the calendar. -/
theorem storedValue_eq_beyondCalendar_iff (type : DataType) : ∀ path nullable value,
    storedValue path nullable value type = .error .beyondCalendar ↔
      MetaValue.ReachesBeyond path type value := by
  induction type using DataType.struct_induction with
  | leaf type hleaf =>
    intro path nullable value
    rw [storedValue_leaf hleaf, Cell.ofMetaValue_eq_beyondCalendar_iff]
    constructor
    · rintro ⟨zone, s, rfl, rfl, hbeyond⟩
      exact .text hbeyond
    · intro h
      cases h with
      | text beyond => exact ⟨_, _, rfl, rfl, beyond⟩
      | entry => cases hleaf
  | struct fields ih =>
    intro path nullable value
    cases value with
    | map entries =>
      have hmem : ∀ {before field after}, Field.declared fields = before ++ field :: after →
          field ∈ fields := fun hlevel =>
        (Field.mem_declared.mp (hlevel ▸ List.mem_append_right _ (List.mem_cons_self ..))).1
      rw [storedValue, bind_pure_eq_map, map_eq_error_iff, fieldSlots_eq_mapM, mapM_eq_error_iff]
      simp only [bind_pure_eq_map, map_isOk_iff, map_eq_error_iff, fieldSlot_eq_beyondCalendar_iff]
      constructor
      · rintro ⟨before, field, after, hlevel, hearlier, value, hheld, h⟩
        exact .entry hlevel hearlier hheld ((ih field (hmem hlevel) _ _ _).mp h)
      · intro h
        cases h with
        | @entry _ _ before after field _ value hlevel hearlier hheld reaches =>
          exact ⟨before, field, after, hlevel, hearlier, value, hheld,
            (ih field (hmem hlevel) _ _ _).mpr reaches⟩
    | null =>
      rw [storedValue]
      refine iff_of_false ?_ (fun h => by cases h)
      split <;> simp
    | _ =>
      rw [storedValue]
      · exact iff_of_false (by simp) (fun h => by cases h)
      all_goals simp

/-- The columns before the metadata do not read texts, nor do those after it. -/
theorem rootSlot_eq_beyondCalendar_iff (document : Document) (width : Nat) (metadata : List Field)
    (column : Field) :
    document.rootSlot width metadata column = .error .beyondCalendar ↔
      column.name = Column.metadata ∧
        MetaValue.ReachesBeyond Column.metadata (.struct metadata) (.map document.metadata) := by
  have hoptional : ∀ value, optionalSlot column value ≠ .error .beyondCalendar := by
    intro value h
    cases value with
    | some cell => cases h
    | none =>
      rcases (bind_eq_error_iff _ _ _).mp h with h | ⟨cell, -, h⟩
      · exact leafPlaceholder_ne_beyondCalendar _ _ _ h
      · cases h
  have hvector : document.vectorSlot width ≠ .error .beyondCalendar := by
    unfold vectorSlot
    split
    · split <;> simp
    · simp
  have hother : ∀ {name : String} {result : Except Error Slot}, column.name = name →
      name ≠ Column.metadata → result ≠ .error .beyondCalendar →
      (result = .error .beyondCalendar ↔ column.name = Column.metadata ∧
        MetaValue.ReachesBeyond Column.metadata (.struct metadata) (.map document.metadata)) :=
    fun hname hne hresult => iff_of_false hresult fun h => hne (hname.symm.trans h.1)
  unfold rootSlot
  split
  · next hname => exact hother hname (by decide) (by simp)
  split
  · next hname => exact hother hname (by decide) (hoptional _)
  split
  · next hname => exact hother hname (by decide) (hoptional _)
  split
  · next hname => exact hother hname (by decide) (hoptional _)
  split
  · next hname => exact hother hname (by decide) hvector
  split
  · next hname =>
    rw [← storedValue_eq_beyondCalendar_iff _ _ false, storedValue, bind_pure_eq_map,
      bind_pure_eq_map, map_eq_error_iff, map_eq_error_iff, and_iff_right hname]
  · next hname => exact iff_of_false (by simp) fun h => hname h.1

/-- Looking up the width reads no text. -/
theorem width_ne_beyondCalendar (schema : Schema) : schema.width ≠ .error .beyondCalendar := by
  unfold Schema.width
  split
  · simp
  · split
    · split
      · split <;> simp
      · simp
    · simp

/-- Looking up the metadata fields reads no text. -/
theorem metadataFields_ne_beyondCalendar (schema : Schema) :
    schema.metadataFields ≠ .error .beyondCalendar := by
  unfold Schema.metadataFields
  split
  · simp
  · split <;> simp

/-- Storing a document is stopped exactly when it comes to a text that names an instant after the end
of the calendar. -/
theorem toRow_eq_beyondCalendar_iff (document : Document) (schema : Schema) :
    document.toRow schema = .error .beyondCalendar ↔ document.ReachesBeyond schema := by
  constructor
  · intro h
    rcases (bind_eq_error_iff _ _ _).mp h with h | ⟨width, hwidth, h⟩
    · exact absurd h (width_ne_beyondCalendar schema)
    rcases (bind_eq_error_iff _ _ _).mp h with h | ⟨metadata, hmetadata, h⟩
    · exact absurd h (metadataFields_ne_beyondCalendar schema)
    split at h
    · cases h
    · next hid =>
      rw [bind_pure_eq_map, map_eq_error_iff] at h
      obtain ⟨before, column, after, hlevel, hearlier, h⟩ := (mapM_eq_error_iff _ _ _).mp h
      simp only [bind_pure_eq_map, map_isOk_iff] at hearlier
      rw [bind_pure_eq_map, map_eq_error_iff, rootSlot_eq_beyondCalendar_iff] at h
      exact ⟨hid, width, metadata, before, column, after, hwidth, hmetadata, hlevel, hearlier, h⟩
  · rintro ⟨hid, width, metadata, before, column, after, hwidth, hmetadata, hlevel, hearlier, h⟩
    rw [← rootSlot_eq_beyondCalendar_iff document width] at h
    unfold toRow
    rw [hwidth, hmetadata, ok_bind, ok_bind, if_neg hid]
    dsimp only
    rw [bind_pure_eq_map, map_eq_error_iff, mapM_eq_error_iff]
    refine ⟨before, column, after, hlevel, ?_, ?_⟩
    · simpa only [bind_pure_eq_map, map_isOk_iff] using hearlier
    · rw [h]
      rfl

end Document

/-! ## Filters -/

/-- Writing the filter as a predicate comes to a comparison by order with a text that names an instant
after the end of the calendar; the conditions before it have predicates. -/
inductive Filter.ReachesBeyond : Filter → Prop
  | comparison {field text : String} {target : FilterTarget} {comparator : Comparator}
      {operand : Operand} (hparse : FilterTarget.parse field = .ok target)
      (plain : target ≠ .vector) (ordering : comparator.isOrdering = true)
      (hscalar : operand.scalar field comparator = .ok (.string text))
      (beyond : Time.NamesBeyond text) : ReachesBeyond (.comparison field comparator operand)
  | combination {connective : Connective} {before after : List Filter} {condition : Filter}
      (earlier : ∀ other ∈ before, ∃ predicate, Predicate.ofFilter other = .ok predicate)
      (reaches : ReachesBeyond condition) :
    ReachesBeyond (.combination connective (before ++ condition :: after))

namespace Operand

variable {field : String} {comparator : Comparator}

/-- Only a text is read for a comparison by order. -/
theorem orderedScalar_eq_beyondCalendar_iff (operand : Operand) :
    operand.orderedScalar field comparator = .error .beyondCalendar ↔
      ∃ text, operand.scalar field comparator = .ok (.string text) ∧ Time.NamesBeyond text := by
  have htext : ∀ text : String, (do
      let t ← Instant.ofText text (.filter (.dateExpected field comparator.text text))
      return Scalar.timestamp t.seconds) = Except.error Error.beyondCalendar ↔
        Time.NamesBeyond text := by
    intro text
    rw [bind_pure_eq_map, map_eq_error_iff, Instant.ofText_eq_beyondCalendar_iff (by simp)]
  constructor
  · intro h
    rcases (bind_eq_error_iff _ _ _).mp h with h | ⟨literal, hliteral, h⟩
    · obtain ⟨cause, hcause⟩ := scalar_eq_error h
      cases hcause
    · split at h
      · next text => exact ⟨text, hliteral, (htext text).mp h⟩
      · cases h
  · rintro ⟨text, hscalar, hbeyond⟩
    unfold orderedScalar
    rw [hscalar]
    exact (htext text).mpr hbeyond

end Operand

namespace Filter

/-- A comparison runs past the calendar exactly when its operand does where it is read as an
instant. -/
theorem ofComparison_eq_beyondCalendar_iff (field : String) (comparator : Comparator)
    (operand : Operand) :
    Predicate.ofComparison field comparator operand = .error .beyondCalendar ↔
      (comparison field comparator operand).ReachesBeyond := by
  constructor
  · intro h
    cases hparse : FilterTarget.parse field with
    | error e =>
      obtain ⟨cause, rfl⟩ := FilterTarget.parse_eq_error hparse
      rw [Predicate.ofComparison, hparse] at h
      cases h
    | ok target =>
    have lowering := Predicate.lowering_ofComparison hparse comparator operand
    rw [h] at lowering
    generalize hresult : Except.error Error.beyondCalendar = result at lowering
    cases lowering with
    | vector | noList | absence | presence | unordered | emptyList => cases hresult
    | equality =>
      obtain ⟨cause, hcause⟩ := Operand.scalar_eq_error ((map_eq_error_iff _ _ _).mp hresult.symm)
      cases hcause
    | list =>
      obtain ⟨cause, hcause⟩ := Operand.members_eq_error ((map_eq_error_iff _ _ _).mp hresult.symm)
      cases hcause
    | ordering relation plain hnull hordering =>
      obtain ⟨text, hscalar, hbeyond⟩ := (Operand.orderedScalar_eq_beyondCalendar_iff operand).mp
        ((map_eq_error_iff _ _ _).mp hresult.symm)
      exact .comparison hparse plain hordering hscalar hbeyond
  · intro h
    cases h with
    | @comparison _ text target _ _ hparse plain hordering hscalar hbeyond =>
    have hordered := (Operand.orderedScalar_eq_beyondCalendar_iff operand).mpr
      ⟨text, hscalar, hbeyond⟩
    have lowering := Predicate.lowering_ofComparison hparse comparator operand
    generalize Predicate.ofComparison field comparator operand = result at lowering
    cases lowering with
    | vector htarget => exact absurd htarget plain
    | absence | presence | unordered => cases hscalar
    | emptyList plain hmembership | list plain hne hmembership | noList hlist hmembership =>
      rcases hmembership with rfl | rfl <;> cases hordering
    | equality relation plain hnull hequality =>
      rcases hequality with rfl | rfl <;> cases hordering
    | ordering =>
      rw [hordered]
      rfl

/-- Writing a filter as a predicate is stopped exactly when it comes to a text that names an instant
after the end of the calendar. -/
theorem ofFilter_eq_beyondCalendar_iff (filter : Filter) :
    Predicate.ofFilter filter = .error .beyondCalendar ↔ filter.ReachesBeyond := by
  induction filter using conditions_induction with
  | comparison field comparator operand =>
    rw [Predicate.ofFilter]
    exact ofComparison_eq_beyondCalendar_iff field comparator operand
  | combination connective conditions ih =>
    constructor
    · intro h
      by_cases hne : conditions = []
      · rw [hne] at h
        cases h
      · rw [Predicate.ofFilter_combination hne, map_eq_error_iff, mapM_eq_error_iff] at h
        obtain ⟨before, condition, after, rfl, hearlier, h⟩ := h
        exact .combination hearlier ((ih condition (by simp)).mp h)
    · intro h
      cases h with
      | @combination _ before after condition hearlier reaches =>
        rw [Predicate.ofFilter_combination (by simp), map_eq_error_iff, mapM_eq_error_iff]
        exact ⟨before, condition, after, rfl, hearlier, (ih condition (by simp)).mpr reaches⟩

/-- Writing a JSON value as SQL is stopped exactly when the value is a filter, and writing that as a
predicate is stopped. -/
theorem sqlOfJson_eq_beyondCalendar_iff (value : Json) :
    sqlOfJson value = .error .beyondCalendar ↔
      ∃ filter, ofJson value = .ok filter ∧ filter.ReachesBeyond := by
  constructor
  · intro h
    rcases (bind_eq_error_iff _ _ _).mp h with h | ⟨filter, hread, h⟩
    · obtain ⟨cause, hcause⟩ := ofJson_eq_error value _ h
      cases hcause
    rcases (bind_eq_error_iff _ _ _).mp h with h | ⟨predicate, hlower, h⟩
    · exact ⟨filter, hread, (ofFilter_eq_beyondCalendar_iff filter).mp h⟩
    · obtain ⟨text, htext⟩ := sql_isOk hread hlower
      rw [htext] at h
      cases h
  · rintro ⟨filter, hread, reaches⟩
    unfold sqlOfJson sql
    rw [hread, ok_bind, (ofFilter_eq_beyondCalendar_iff filter).mpr reaches]
    rfl

end Filter

/-! ## Predicates -/

/-- Evaluating the predicate on the row comes to a comparison of a stored timestamp with a text that
names an instant after the end of the calendar; nothing before it decides the value or fails. -/
inductive Predicate.ReachesBeyond (row : Row) : Predicate → Prop
  | compare {column : ColumnPath} {relation : Relation} {text : String} {seconds : Int64}
      (stored : row.valueAt column = .ok (.timestamp seconds)) (beyond : Time.NamesBeyond text) :
    ReachesBeyond row (.compare column relation (.string text))
  | inList {column : ColumnPath} {before after : List Scalar} {text : String} {negated : Bool}
      {seconds : Int64} (stored : row.valueAt column = .ok (.timestamp seconds))
      (earlier : ∀ literal ∈ before,
        ∃ order, (Cell.timestamp seconds).compareTo literal = .ok order ∧ order ≠ some .eq)
      (beyond : Time.NamesBeyond text) :
    ReachesBeyond row (.inList column (before ++ .string text :: after) negated)
  | and {before after : List Predicate} {part : Predicate}
      (earlier : ∀ other ∈ before,
        ∃ value, evaluate row other = .ok value ∧ value ≠ some false)
      (reaches : ReachesBeyond row part) : ReachesBeyond row (.and (before ++ part :: after))
  | or {before after : List Predicate} {part : Predicate}
      (earlier : ∀ other ∈ before, ∃ value, evaluate row other = .ok value ∧ value ≠ some true)
      (reaches : ReachesBeyond row part) : ReachesBeyond row (.or (before ++ part :: after))
  | not {inner : Predicate} (reaches : ReachesBeyond row inner) : ReachesBeyond row (.not inner)

namespace Cell

/-- Only a stored timestamp is compared with what a text names. -/
theorem compareTo_eq_beyondCalendar_iff (cell : Cell) (literal : Scalar) :
    cell.compareTo literal = .error .beyondCalendar ↔
      ∃ seconds text, cell = .timestamp seconds ∧ literal = .string text ∧
        Time.NamesBeyond text := by
  constructor
  · intro h
    unfold compareTo at h
    split at h
    · cases h
    · unfold compareNonNull at h
      split at h
      case h_12 =>
        rw [bind_pure_eq_map, map_eq_error_iff,
          Instant.ofText_eq_beyondCalendar_iff (by simp)] at h
        exact ⟨_, _, rfl, rfl, h⟩
      all_goals cases h
  · rintro ⟨seconds, text, rfl, rfl, hbeyond⟩
    unfold compareTo
    rw [if_neg (by simp [isNull]), compareNonNull, bind_pure_eq_map, map_eq_error_iff]
    exact (Instant.ofText_eq_beyondCalendar_iff (by simp)).mpr hbeyond

/-- Literals are compared up to the first equal one. -/
theorem isAmong_eq_error_iff (cell : Cell) (literals : List Scalar) (e : Error) :
    cell.isAmong literals = .error e ↔
      ∃ before literal after, literals = before ++ literal :: after ∧
        (∀ other ∈ before,
          ∃ order, cell.compareTo other = .ok order ∧ ¬order = some Ordering.eq) ∧
        cell.compareTo literal = .error e := by
  refine eq_error_iff_first cell.isAmong (by simp [isAmong]) ?_ literals
  intro literal rest
  rw [isAmong, bind_eq_error_iff]
  refine or_congr_right (exists_congr fun order => and_congr_right fun _ => ?_)
  by_cases heq : order = some .eq <;> simp [heq]

end Cell

namespace Predicate

variable {row : Row}

/-- Looking up a cell reads no text. -/
theorem valueAt_ne_beyondCalendar (row : Row) (column : ColumnPath) :
    row.valueAt column ≠ .error .beyondCalendar := by
  unfold Row.valueAt
  split <;> simp

/-- Evaluating a predicate is stopped exactly when it comes to a text that names an instant after the
end of the calendar. -/
theorem evaluate_eq_beyondCalendar_iff (row : Row) (predicate : Predicate) :
    predicate.evaluate row = .error .beyondCalendar ↔ predicate.ReachesBeyond row := by
  induction predicate using inner_induction with
  | step predicate ih =>
  cases predicate with
  | constant b =>
    rw [evaluate]
    exact iff_of_false (by simp) fun h => by cases h
  | isNull column | isNotNull column =>
    rw [evaluate, bind_pure_eq_map, map_eq_error_iff]
    exact iff_of_false (valueAt_ne_beyondCalendar row column) fun h => by cases h
  | not part =>
    rw [evaluate, bind_pure_eq_map, map_eq_error_iff, ih part (by simp [inner])]
    constructor
    · exact .not
    · intro h
      cases h with
      | not reaches => exact reaches
  | and parts =>
    rw [evaluate, evaluateAll_eq_error_iff]
    constructor
    · rintro ⟨before, part, after, rfl, hearlier, h⟩
      exact .and hearlier ((ih part (by simp [inner])).mp h)
    · intro h
      cases h with
      | @and before after part hearlier reaches =>
        exact ⟨before, part, after, rfl, hearlier, (ih part (by simp [inner])).mpr reaches⟩
  | or parts =>
    rw [evaluate, evaluateAny_eq_error_iff]
    constructor
    · rintro ⟨before, part, after, rfl, hearlier, h⟩
      exact .or hearlier ((ih part (by simp [inner])).mp h)
    · intro h
      cases h with
      | @or before after part hearlier reaches =>
        exact ⟨before, part, after, rfl, hearlier, (ih part (by simp [inner])).mpr reaches⟩
  | compare column relation value =>
    rw [evaluate]
    constructor
    · intro h
      rcases (bind_eq_error_iff _ _ _).mp h with h | ⟨cell, hstored, h⟩
      · exact absurd h (valueAt_ne_beyondCalendar row column)
      · rw [bind_pure_eq_map, map_eq_error_iff, Cell.compareTo_eq_beyondCalendar_iff] at h
        obtain ⟨seconds, text, rfl, rfl, hbeyond⟩ := h
        exact .compare hstored hbeyond
    · intro h
      cases h with
      | @compare _ _ text seconds hstored hbeyond =>
        rw [hstored, ok_bind, bind_pure_eq_map, map_eq_error_iff,
          Cell.compareTo_eq_beyondCalendar_iff]
        exact ⟨seconds, text, rfl, rfl, hbeyond⟩
  | inList column values negated =>
    rw [evaluate]
    constructor
    · intro h
      rcases (bind_eq_error_iff _ _ _).mp h with h | ⟨cell, hstored, h⟩
      · exact absurd h (valueAt_ne_beyondCalendar row column)
      · split at h
        · cases h
        · rw [bind_pure_eq_map, map_eq_error_iff, Cell.isAmong_eq_error_iff] at h
          obtain ⟨before, literal, after, rfl, hearlier, h⟩ := h
          obtain ⟨seconds, text, rfl, rfl, hbeyond⟩ :=
            (Cell.compareTo_eq_beyondCalendar_iff _ _).mp h
          exact .inList hstored hearlier hbeyond
    · intro h
      cases h with
      | @inList _ before after text _ seconds hstored hearlier hbeyond =>
        rw [hstored, ok_bind, if_neg (by simp [Cell.isNull]), bind_pure_eq_map, map_eq_error_iff,
          Cell.isAmong_eq_error_iff]
        exact ⟨before, .string text, after, rfl, hearlier,
          (Cell.compareTo_eq_beyondCalendar_iff _ _).mpr ⟨seconds, text, rfl, rfl, hbeyond⟩⟩

end Predicate

/-! ## All operations -/

/-- Reading a text gives an instant or refuses the text as a timestamp, unless the text is a date and
a clock time of one of the last two days with an offset west of Greenwich that together name an
instant after the end of the calendar. Storing a document, writing a JSON value as SQL and evaluating
a predicate on a row have a result as well, unless they come to such a text. -/
theorem beyondCalendar_exactly_where_reached (text : String) (document : Document)
    (schema : Schema) (value : Json) (predicate : Predicate) (row : Row) :
    ((∃ t, Instant.parse text = .ok t) ∨
      Instant.parse text = .error (.validation (.timestamp text)) ∨
      Instant.parse text = .error .beyondCalendar) ∧
    (Instant.parse text = .error .beyondCalendar ↔
      ∃ day clock offset, (day = 30 ∨ day = 31) ∧ offset < 0 ∧
        Time.HasParts (Text.trim text.toList) ⟨9999, 12, day⟩ clock offset ∧
        (Time.lastSecond + 1) * Time.nanosPerSecond ≤
          Time.nanosAt ⟨9999, 12, day⟩ clock offset) ∧
    (document.toRow schema = .error .beyondCalendar ↔ document.ReachesBeyond schema) ∧
    (Filter.sqlOfJson value = .error .beyondCalendar ↔
      ∃ filter, Filter.ofJson value = .ok filter ∧ filter.ReachesBeyond) ∧
    (predicate.evaluate row = .error .beyondCalendar ↔ predicate.ReachesBeyond row) := by
  refine ⟨Instant.parse_cases text, Instant.parse_eq_beyondCalendar_iff text, ?_, ?_, ?_⟩
  · exact Document.toRow_eq_beyondCalendar_iff document schema
  · exact Filter.sqlOfJson_eq_beyondCalendar_iff value
  · exact Predicate.evaluate_eq_beyondCalendar_iff row predicate

/-- The last second of the calendar in a place an hour west of Greenwich. -/
def lastSecondWest : String := "9999-12-31T23:59:59-01:00"

/-- A table with a single metadata field of timestamps. -/
def timestampTable : Schema :=
  ⟨[.plain Column.metadata
      (.struct [.plain "at" (.timestamp .second none) true]) false,
    .plain Column.vector (.fixedSizeList (.plain "item" .float32 true) 1) false]⟩

/-- Some texts stop each of the operations. -/
theorem parse_lastSecondWest :
    Instant.parse lastSecondWest = .error .beyondCalendar ∧
    (⟨"a", none, none, none, none, ⟨[("at", .string lastSecondWest)]⟩, none⟩ : Document).toRow
      timestampTable = .error .beyondCalendar ∧
    Filter.sqlOfJson (.object [("field", .string "meta.at"), ("operator", .string ">"),
      ("value", .string lastSecondWest)]) = .error .beyondCalendar ∧
    (Predicate.compare ["at"] .greater (.string lastSecondWest)).evaluate
      ⟨[("at", .timestamp 0)]⟩ = .error .beyondCalendar :=
  ⟨rfl, rfl, rfl, rfl⟩

end DocumentStore
