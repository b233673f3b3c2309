import DocumentStore.Document.Basic
import DocumentStore.Proofs.FlaggedLevels
import DocumentStore.Proofs.Instants

/-!
# Seconds that are stored of a document

Of a timestamp the second is stored in which it lies, whether it is a native instant or a text. A
text names an instant of the calendar, but a native instant may lie outside, and its second, though
stored, cannot be written as a text. `StoresSecond` says which seconds are stored of a value,
according to the type of its field; a key that is not declared is not stored and has none. Decoding
and storing again ask something of every stored second, and nothing else of timestamps.
-/

set_option autoImplicit false

namespace DocumentStore

namespace MetaValue

/-- The second is stored of the value in a field of the given type, or of a member below it. -/
inductive StoresSecond (second : Int64) : DataType → MetaValue → Prop
  | instant {unit : TimeUnit} {zone : Option String} {t : Instant} (h : t.seconds = second) :
      StoresSecond second (.timestamp unit zone) (.timestamp t)
  | text {unit : TimeUnit} {zone : Option String} {s : String} {t : Instant}
      (reads : Time.read s = .instant t) (h : t.seconds = second) :
      StoresSecond second (.timestamp unit zone) (.string s)
  | member {fields : List Field} {entries : Metadata} {field : Field} {value : MetaValue}
      (hfield : field ∈ Field.declared fields) (hvalue : entries.get? field.name = some value)
      (below : StoresSecond second field.type value) :
      StoresSecond second (.struct fields) (.map entries)

/-- Every second that is stored of the value in a field of the given type meets the condition. -/
def EverySecond (p : Int → Prop) (type : DataType) (value : MetaValue) : Prop :=
  ∀ second, value.StoresSecond second type → p second.toInt

variable {p : Int → Prop}

/-- Of a native instant one second is stored. -/
theorem everySecond_instant_iff (unit : TimeUnit) (zone : Option String) (t : Instant) :
    EverySecond p (.timestamp unit zone) (.timestamp t) ↔ p t.seconds.toInt := by
  constructor
  · intro h
    exact h _ (.instant rfl)
  · intro h second hsecond
    cases hsecond with
    | instant hsame => rwa [← hsame]

/-- Of a text that names an instant the second of that instant is stored. -/
theorem everySecond_text_iff (unit : TimeUnit) (zone : Option String) {s : String} {t : Instant}
    (reads : Time.read s = .instant t) :
    EverySecond p (.timestamp unit zone) (.string s) ↔ p t.seconds.toInt := by
  constructor
  · intro h
    exact h _ (.text reads rfl)
  · intro h second hsecond
    cases hsecond with
    | text hread hsame =>
      rw [reads] at hread
      cases hread
      rwa [← hsame]

/-- A text names an instant of the calendar, if any, so its second always belongs to the calendar. -/
theorem everySecond_text_inCalendar (unit : TimeUnit) (zone : Option String) (s : String) :
    EverySecond Time.InCalendar (.timestamp unit zone) (.string s) := by
  intro second hsecond
  cases hsecond with
  | text hread hsame =>
    rw [← hsame, ← Instant.inCalendar_iff]
    exact Time.inCalendar_of_read hread

/-- What is stored of a map is what is stored of its declared members. -/
theorem everySecond_struct_iff (fields : List Field) (entries : Metadata) :
    EverySecond p (.struct fields) (.map entries) ↔
      ∀ field ∈ Field.declared fields, ∀ value, entries.get? field.name = some value →
        EverySecond p field.type value := by
  constructor
  · intro h field hfield value hvalue second hsecond
    exact h second (.member hfield hvalue hsecond)
  · intro h second hsecond
    cases hsecond with
    | member hfield hvalue below => exact h _ hfield _ hvalue second below

/-- In a struct field nothing but the members of a map stands for seconds. -/
theorem everySecond_struct_of_ne_map (fields : List Field) {value : MetaValue}
    (h : ∀ entries, value ≠ .map entries) : EverySecond p (.struct fields) value := by
  intro second hsecond
  cases hsecond with
  | member => exact absurd rfl (h _)

/-- Null stands for no second, in a field of any type. -/
theorem everySecond_null (type : DataType) : EverySecond p type .null := by
  intro second h
  cases h

/-- Only leaves of timestamps store seconds themselves. -/
theorem everySecond_of_leaf {type : DataType} (leaf : type.members? = none)
    (untimed : ∀ unit zone, type ≠ .timestamp unit zone) (value : MetaValue) :
    EverySecond p type value := by
  intro second h
  cases h with
  | instant => exact absurd rfl (untimed _ _)
  | text => exact absurd rfl (untimed _ _)
  | member => cases leaf

/-- A stronger condition on stored seconds gives a weaker one. -/
theorem EverySecond.imp {q : Int → Prop} {type : DataType} {value : MetaValue}
    (h : EverySecond p type value) (himp : ∀ second, p second → q second) :
    EverySecond q type value :=
  fun second hsecond => himp _ (h second hsecond)

/-! ## Canonical fields -/

/-- The declared fields of a canonical level are the canonical forms of those it was made of. -/
theorem exists_canonicalOf {path : String} {fields children : List Field}
    (h : Schema.canonicalFields path [] fields = .ok children) :
    (∀ field ∈ Field.declared fields, ∃ child ∈ Field.declared (Schema.canonicalLevel children),
      Schema.CanonicalOf path field child) ∧
    ∀ child ∈ Field.declared (Schema.canonicalLevel children), ∃ field ∈ Field.declared fields,
      Schema.CanonicalOf path field child := by
  obtain ⟨hall, -, hnames⟩ := Schema.canonicalFields_eq_ok h
  have hflags : ∀ child ∈ children, child.name ≠ Column.flags := by
    intro child hchild
    obtain ⟨field, hfield, hcanonical⟩ := exists_related hall.flip hchild
    rw [hcanonical.name_eq]
    exact (hnames field hfield).1
  have hdeclared : ∀ child, child ∈ Field.declared (Schema.canonicalLevel children) ↔
      child ∈ children := by
    intro child
    rw [Schema.declared_canonicalLevel hflags]
    exact (Schema.sortByName_perm children).mem_iff
  simp only [hdeclared]
  refine ⟨fun field hfield => exists_related hall (Field.mem_declared.mp hfield).1,
    fun child hchild => ?_⟩
  obtain ⟨field, hfield, hcanonical⟩ := exists_related hall.flip hchild
  exact ⟨field, Field.mem_declared.mpr ⟨hfield, (hnames field hfield).1⟩, hcanonical⟩

/-- The same seconds are stored under a declared type and under its canonical form. -/
theorem everySecond_canonicalType (type : DataType) :
    ∀ (path : String) (canonical : DataType), Schema.canonicalType path type = .ok canonical →
      ∀ value : MetaValue, EverySecond p canonical value ↔ EverySecond p type value := by
  induction type using DataType.struct_induction with
  | leaf type leaf =>
    intro path canonical h
    rw [Schema.canonicalType_leaf leaf] at h
    split at h
    · cases h
      exact fun _ => Iff.rfl
    · cases h
  | struct fields ih =>
    intro path canonical h value
    rw [Schema.canonicalType] at h
    obtain ⟨children, hchildren, h⟩ := (bind_eq_ok_iff _ _ _).mp h
    cases h
    obtain ⟨hforth, hback⟩ := exists_canonicalOf hchildren
    by_cases hmap : ∃ entries, value = .map entries
    · obtain ⟨entries, rfl⟩ := hmap
      rw [everySecond_struct_iff, everySecond_struct_iff]
      constructor
      · intro hall field hfield value hvalue
        obtain ⟨child, hchild, hcanonical⟩ := hforth field hfield
        rw [← ih field (Field.mem_declared.mp hfield).1 _ _ hcanonical.type_eq]
        exact hall child hchild value (hcanonical.name_eq ▸ hvalue)
      · intro hall child hchild value hvalue
        obtain ⟨field, hfield, hcanonical⟩ := hback child hchild
        rw [ih field (Field.mem_declared.mp hfield).1 _ _ hcanonical.type_eq]
        exact hall field hfield value (hcanonical.name_eq ▸ hvalue)
    · have hne : ∀ entries, value ≠ .map entries := fun entries h => hmap ⟨entries, h⟩
      exact iff_of_true (everySecond_struct_of_ne_map _ hne) (everySecond_struct_of_ne_map _ hne)

end MetaValue

/-- Every second that is stored of the document in metadata with the given fields meets the
condition. -/
def Document.EverySecond (document : Document) (fields : List Field) (p : Int → Prop) : Prop :=
  MetaValue.EverySecond p (.struct fields) (.map document.metadata)

end DocumentStore
