import DocumentStore.Document.OfRow
import DocumentStore.Proofs.FlaggedLevels

/-!
# Reading a row part by part

A document is read from a row column by column, and a level of metadata field by field. Here reading
is written as a sequence of readers, one for each part of a document, and a level as a run over its
declared fields, so that whatever is proved of the readers is proved of the whole.
-/

set_option autoImplicit false

namespace DocumentStore

namespace Row

/-- A member is there when it is flagged present. -/
theorem isPresent_eq_ok_iff (record : Row) (name path : String) (there : Bool) :
    record.isPresent name path = .ok there ↔ record.flag? name = some (!there) := by
  unfold isPresent
  cases record.flag? name with
  | none => simp
  | some flag => cases flag <;> cases there <;> simp

/-- Whether a member is there depends on its flag alone. -/
theorem isPresent_congr {record record' : Row} {name : String}
    (h : record.flag? name = record'.flag? name) (path : String) :
    record.isPresent name path = record'.isPresent name path := by
  unfold isPresent
  rw [h]

end Row

namespace Document

/-! ## Levels of metadata -/

/-- The name of a declared field with its value in a stored struct, if it is flagged present. -/
def entryOf (record : Row) (path : String) (field : Field) :
    Except Error (String × Option MetaValue) := do
  if ← record.isPresent field.name path then
    let value ← valueOf (path ++ "." ++ field.name) (record.get? field.name) field.type
    return (field.name, some value)
  else return (field.name, none)

/-- The entries with the values of the fields that are there. -/
def presentEntries (entries : List (String × Option MetaValue)) : List (String × MetaValue) :=
  entries.filterMap fun entry => entry.2.map fun value => (entry.1, value)

/-- Adds the values of the fields that are there to the entries found so far. -/
def collect (found : Metadata) (entries : List (String × Option MetaValue)) : Metadata :=
  (presentEntries entries).foldl (fun d e => d.insert e.1 e.2) found

/-- The entries of a level are read field by field, the flags left out. -/
theorem entriesOf_eq_mapM (record : Row) (path : String) (fields : List Field) (found : Metadata) :
    entriesOf record path fields found =
      ((Field.declared fields).mapM (entryOf record path)).map (collect found) := by
  induction fields generalizing found with
  | nil => rfl
  | cons field rest ih =>
    obtain ⟨name, type, nullable, annotations⟩ := field
    unfold Field.declared at ih ⊢
    rw [entriesOf]
    by_cases hname : name = Column.flags
    · rw [if_pos hname, ih, List.filter_cons_of_neg]
      rw [decide_eq_true_eq, not_not]
      exact hname
    · rw [if_neg hname, List.filter_cons_of_pos (by rw [decide_eq_true_eq]; exact hname),
        List.mapM_cons]
      simp only [ih]
      generalize List.mapM (entryOf record path) _ = others
      unfold entryOf
      dsimp only
      cases record.isPresent name path with
      | error e => rfl
      | ok there =>
        cases there with
        | false => cases others <;> rfl
        | true =>
          rw [ok_bind, ok_bind, if_pos rfl, if_pos rfl]
          cases valueOf (path ++ "." ++ name) (record.get? name) type <;> cases others <;> rfl

/-- A struct is read as a map of its entries. -/
theorem valueOf_struct (path : String) (stored : Row) (members : List Field) :
    valueOf path (some (.struct stored)) (.struct members) =
      (entriesOf stored path members Dict.empty).map .map := by
  rw [valueOf, bind_pure_eq_map]

/-- Two records give the same entries, or fail alike, if they have the same flags and if the same is
read of every field that is flagged present. -/
theorem entriesOf_readAlike {record record' : Row} {fields : List Field}
    (flags : ∀ field ∈ Field.declared fields, record.flag? field.name = record'.flag? field.name)
    (values : ∀ field ∈ Field.declared fields, record.flag? field.name = some false → ∀ path,
      valueOf path (record.get? field.name) field.type =
        valueOf path (record'.get? field.name) field.type)
    (path : String) (found : Metadata) :
    entriesOf record path fields found = entriesOf record' path fields found := by
  rw [entriesOf_eq_mapM, entriesOf_eq_mapM]
  refine congrArg (Except.map (collect found)) (mapM_congr_mem _ _ _ fun field hfield => ?_)
  unfold entryOf
  rw [← Row.isPresent_congr (flags field hfield)]
  cases hthere : record.isPresent field.name path with
  | error e => rfl
  | ok there =>
    cases there with
    | false => rfl
    | true =>
      rw [Row.isPresent_eq_ok_iff] at hthere
      rw [values field hfield hthere]

/-! ## The parts of a document -/

/-- The id of a row. -/
def idOf (row : Row) : Except Error String :=
  match row.get? Column.id with
  | some (.utf8 id) => .ok id
  | some cell => .error (Cell.unexpected Column.id "utf8" cell)
  | none => .error (.validation (.rootColumnMissing Column.id))

/-- The bytes of a column. -/
def blobOf : Option Cell → Except Error (Option (List UInt8))
  | some (.binary bytes) => .ok (some bytes)
  | some .null | none => .ok none
  | some cell => .error (Cell.unexpected Column.blob "binary" cell)

/-- The data frame of a column. -/
def frameOf (cell : Option Cell) : Except Error (Option DataFrame) := do
  (← Cell.optionalText Column.dataframe cell).mapM DataFrame.ofCanonicalText

/-- The embedding of a column. -/
def embeddingOf : Option Cell → Except Error (Option (List Binary32))
  | some (.vector values) => .ok (some values)
  | some .null | none => .ok none
  | some cell => .error (Cell.unexpected Column.vector "vector" cell)

/-- The metadata of a column with the given fields. -/
def metadataOf (fields : List Field) : Option Cell → Except Error Metadata
  | some (.struct record) => entriesOf record Column.metadata fields Dict.empty
  | some .null | none => .ok Dict.empty
  | some cell => .error (Cell.unexpected Column.metadata "struct" cell)

/-- The score of a row that was found by a search. -/
def scoreOf (row : Row) : Option Binary64 :=
  ((row.get? Column.score).or (row.get? Column.distance)).bind Cell.number?

/-- A document is read part by part. -/
theorem ofRow_eq (row : Row) (schema : Schema) : ofRow row schema = do
    let fields ← schema.metadataFields
    let id ← idOf row
    let content ← row.presentColumn Column.content >>= Cell.optionalText Column.content
    let blob ← row.presentColumn Column.blob >>= blobOf
    let dataframe ← row.presentColumn Column.dataframe >>= frameOf
    let embedding ← row.presentColumn Column.vector >>= embeddingOf
    let metadata ← row.presentColumn Column.metadata >>= metadataOf fields
    return ⟨id, content, embedding, dataframe, blob, metadata, scoreOf row⟩ := by
  -- where the parts that follow stand below each branch, they may stand after all branches
  have hblob : ∀ (cell : Option Cell) (next next' : Option (List UInt8) → Except Error Document),
      (∀ blob, next blob = next' blob) → (match cell with
        | some (.binary bytes) => Except.ok (some bytes) >>= next
        | some .null => Except.ok none >>= next
        | none => Except.ok none >>= next
        | some cell => Except.error (Cell.unexpected Column.blob "binary" cell) >>= next) =
          blobOf cell >>= next' := by
    intro cell next next' h
    rw [funext h]
    rcases cell with _ | cell
    · rfl
    · cases cell <;> rfl
  have hembedding : ∀ (cell : Option Cell)
      (next next' : Option (List Binary32) → Except Error Document),
      (∀ embedding, next embedding = next' embedding) → (match cell with
        | some (.vector values) => Except.ok (some values) >>= next
        | some .null => Except.ok none >>= next
        | none => Except.ok none >>= next
        | some cell => Except.error (Cell.unexpected Column.vector "vector" cell) >>= next) =
          embeddingOf cell >>= next' := by
    intro cell next next' h
    rw [funext h]
    rcases cell with _ | cell
    · rfl
    · cases cell <;> rfl
  unfold ofRow
  refine bind_congr fun fields => ?_
  unfold idOf
  cases row.get? Column.id with
  | none => rfl
  | some cell =>
  cases cell with
  | utf8 id =>
    rw [ok_bind]
    dsimp only
    rw [ok_bind, bind_assoc]
    refine bind_congr fun cell => bind_congr fun content => ?_
    rw [bind_assoc]
    refine bind_congr fun cell => hblob cell _ _ fun blob => ?_
    unfold frameOf
    rw [bind_assoc]
    refine bind_congr fun cell => ?_
    rw [bind_assoc]
    refine bind_congr fun text => bind_congr fun dataframe => ?_
    rw [bind_assoc]
    refine bind_congr fun cell => hembedding cell _ _ fun embedding => ?_
    rw [bind_assoc]
    refine bind_congr fun cell => ?_
    rcases cell with _ | cell
    · rfl
    · cases cell <;> rfl
  | _ => rfl

end Document

end DocumentStore
