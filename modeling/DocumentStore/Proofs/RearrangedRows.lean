import DocumentStore.Batch.OfRows
import DocumentStore.Proofs.Agreement
import DocumentStore.Proofs.Connectives
import DocumentStore.Proofs.NormalForm
import DocumentStore.Proofs.ReadingParts

/-!
# Rearranged rows

The members of a row, and of the structs in it, may come in another order at any level, the flags
included. As no name occurs twice among them, look-ups do not notice: they find the same value, or a
struct that is rearranged itself. Reading a document from a row, evaluating a predicate on it and
building a batch of rows rely on look-ups only, so each has the same outcome for a rearranged row, and
fails with the same error if it fails.
-/

set_option autoImplicit false

namespace DocumentStore

/-! ## Cells and their look-ups -/

namespace Cell

/-- The members of structs in the cell come in another order, at any level. -/
inductive Rearranged : Cell → Cell → Prop
  | refl (cell : Cell) : Rearranged cell cell
  | perm {members members' : List (String × Cell)} (nodup : (members.map Prod.fst).Nodup)
      (h : members.Perm members') : Rearranged (.struct ⟨members⟩) (.struct ⟨members'⟩)
  | within {before after : List (String × Cell)} {name : String} {cell cell' : Cell}
      (h : Rearranged cell cell') :
    Rearranged (.struct ⟨before ++ (name, cell) :: after⟩)
      (.struct ⟨before ++ (name, cell') :: after⟩)
  | trans {first second third : Cell} (h : Rearranged first second)
      (h' : Rearranged second third) : Rearranged first third

end Cell

/-- The members of the row come in another order, or those of structs in it do. -/
def Row.Rearranged (row row' : Row) : Prop := Cell.Rearranged (.struct row) (.struct row')

namespace Cell.Rearranged

variable {cell cell' : Cell}

/-- Replacing a member by a rearranged one is seen under its name only. -/
theorem lookups_within (h : Rearranged cell cell') (before after : List (String × Cell))
    (name key : String) : Option.Rel Rearranged ((before ++ (name, cell) :: after).lookup key)
      ((before ++ (name, cell') :: after).lookup key) := by
  rw [List.lookup_append, List.lookup_append, lookup_cons_eq_ite, lookup_cons_eq_ite]
  cases before.lookup key with
  | some found => exact .some (.refl found)
  | none =>
    rw [Option.none_or, Option.none_or]
    split
    · exact .some h
    · exact optionRel_refl .refl _

/-- Rearranged cells are equal, or structs whose look-ups find rearranged cells. -/
theorem eq_or_struct (h : Rearranged cell cell') :
    cell = cell' ∨ ∃ record record', cell = .struct record ∧ cell' = .struct record' ∧
      ∀ name, Option.Rel Rearranged (record.get? name) (record'.get? name) := by
  induction h with
  | refl cell => exact Or.inl rfl
  | perm nodup h =>
    refine Or.inr ⟨_, _, rfl, rfl, fun name => ?_⟩
    unfold Record.get?
    rw [lookup_perm h nodup name]
    exact optionRel_refl .refl _
  | within h => exact Or.inr ⟨_, _, rfl, rfl, fun key => lookups_within h _ _ _ key⟩
  | trans _ _ ih ih' =>
    rcases ih with rfl | ⟨record, record', rfl, rfl, hlookups⟩
    · exact ih'
    · rcases ih' with rfl | ⟨middle, last, heq, rfl, hlookups'⟩
      · exact Or.inr ⟨_, _, rfl, rfl, hlookups⟩
      · cases heq
        exact Or.inr ⟨_, _, rfl, rfl, fun name =>
          optionRel_trans (fun _ _ _ => .trans) (hlookups name) (hlookups' name)⟩

/-- Whatever does not distinguish structs does not distinguish rearranged cells. -/
theorem apply_eq (h : Rearranged cell cell') {α : Type} {f : Cell → α}
    (structs : ∀ record record', f (.struct record) = f (.struct record')) : f cell = f cell' := by
  rcases h.eq_or_struct with rfl | ⟨record, record', rfl, rfl, -⟩
  · rfl
  · exact structs record record'

end Cell.Rearranged

namespace Row.Rearranged

variable {row row' : Row}

/-- A look-up in a rearranged row finds a rearranged cell, or nothing in either row. -/
theorem get?_cases (h : row.Rearranged row') (name : String) :
    row.get? name = none ∧ row'.get? name = none ∨
      ∃ cell cell', row.get? name = some cell ∧ row'.get? name = some cell' ∧
        cell.Rearranged cell' := by
  have hlookup : Option.Rel Cell.Rearranged (row.get? name) (row'.get? name) := by
    rcases Cell.Rearranged.eq_or_struct h with heq | ⟨_, _, ⟨⟩, ⟨⟩, hlookups⟩
    · cases heq
      exact optionRel_refl .refl _
    · exact hlookups name
  revert hlookup
  cases row.get? name <;> cases row'.get? name <;> intro hlookup <;> cases hlookup
  · exact Or.inl ⟨rfl, rfl⟩
  · next hcell => exact Or.inr ⟨_, _, rfl, rfl, hcell⟩

/-- Rearranging a row does not touch its flags. -/
theorem flag?_eq (h : row.Rearranged row') (name : String) : row.flag? name = row'.flag? name := by
  unfold Row.flag?
  rcases h.get?_cases Column.flags with ⟨hnone, hnone'⟩ | ⟨flags, flags', hflags, hflags', hcell⟩
  · rw [hnone, hnone']
  rw [hflags, hflags']
  rcases hcell.eq_or_struct with rfl | ⟨record, record', rfl, rfl, -⟩
  · rfl
  have hrecord : Row.Rearranged record record' := hcell
  simp only [Option.bind_eq_bind, Option.bind_some, Cell.members?]
  rcases hrecord.get?_cases name with ⟨hnone, hnone'⟩ | ⟨flag, flag', hflag, hflag', hcell⟩
  · rw [hnone, hnone']
  · rw [hflag, hflag', Option.bind_some, Option.bind_some]
    exact hcell.apply_eq fun _ _ => rfl

/-- Rearranging a row leaves its columns present or absent. -/
theorem isPresent_eq (h : row.Rearranged row') (name path : String) :
    row.isPresent name path = row'.isPresent name path := by
  unfold Row.isPresent
  rw [h.flag?_eq name]

end Row.Rearranged

/-! ## Reading documents -/

namespace Document

/-- The entries of a rearranged level are read as before if the values are. -/
theorem entriesOf_rearranged_of_values {fields : List Field} {record record' : Row}
    (values : ∀ field ∈ fields, ∀ {cell cell' : Cell}, cell.Rearranged cell' →
      ∀ path, valueOf path (some cell) field.type = valueOf path (some cell') field.type)
    (h : record.Rearranged record') (path : String) (found : Metadata) :
    entriesOf record path fields found = entriesOf record' path fields found := by
  rw [entriesOf_eq_mapM, entriesOf_eq_mapM]
  refine congrArg (Except.map (collect found)) (mapM_congr_mem _ _ _ fun field hfield => ?_)
  unfold entryOf
  rw [h.isPresent_eq]
  rcases h.get?_cases field.name with ⟨hnone, hnone'⟩ | ⟨cell, cell', hcell, hcell', hrel⟩
  · rw [hnone, hnone']
  · rw [hcell, hcell', values field (Field.mem_declared.mp hfield).1 hrel]

/-- The value of a rearranged cell is read as before. -/
theorem valueOf_rearranged (type : DataType) : ∀ {cell cell' : Cell}, cell.Rearranged cell' →
    ∀ path, valueOf path (some cell) type = valueOf path (some cell') type := by
  induction type using DataType.struct_induction with
  | leaf type hleaf =>
    intro cell cell' h path
    rw [valueOf_leaf hleaf, valueOf_leaf hleaf]
    exact h.apply_eq fun _ _ => rfl
  | struct fields ih =>
    intro cell cell' h path
    rcases h.eq_or_struct with rfl | ⟨record, record', rfl, rfl, -⟩
    · rfl
    · rw [valueOf, valueOf, entriesOf_rearranged_of_values (fun field hfield => ih field hfield) h]

/-- The column of a rearranged row that is flagged present holds a rearranged cell. -/
theorem presentColumn_rearranged {row row' : Row} (h : row.Rearranged row') (name : String) :
    Agree (Option.Rel Cell.Rearranged) (row.presentColumn name) (row'.presentColumn name) := by
  unfold Row.presentColumn
  rw [h.isPresent_eq name]
  rcases h.get?_cases Column.flags with ⟨hnone, hnone'⟩ | ⟨flags, flags', hflags, hflags', -⟩
  · rw [hnone, hnone']
    exact .error _
  rw [hflags, hflags']
  dsimp only
  cases row'.isPresent name "<root>" with
  | error e => exact .error e
  | ok there =>
    rw [ok_bind, ok_bind]
    split
    · rcases h.get?_cases name with ⟨hnone, hnone'⟩ | ⟨cell, cell', hcell, hcell', hrel⟩
      · rw [hnone, hnone']
        exact .error _
      · rw [hcell, hcell']
        exact .ok (.some hrel)
    · exact .ok .none

/-- Rearranged records have the same entries. -/
theorem entriesOf_rearranged {record record' : Row} (h : record.Rearranged record') (path : String)
    (fields : List Field) (found : Metadata) :
    entriesOf record path fields found = entriesOf record' path fields found :=
  entriesOf_rearranged_of_values (fun field _ => valueOf_rearranged field.type) h path found

/-- Rearranged rows have the same id. -/
theorem idOf_rearranged {row row' : Row} (h : row.Rearranged row') : idOf row = idOf row' := by
  unfold idOf
  rcases h.get?_cases Column.id with ⟨hnone, hnone'⟩ | ⟨cell, cell', hcell, hcell', hrel⟩
  · rw [hnone, hnone']
  · rw [hcell, hcell']
    rcases hrel.eq_or_struct with rfl | ⟨record, record', rfl, rfl, -⟩ <;> rfl

/-- Rearranged rows have the same score. -/
theorem scoreOf_rearranged {row row' : Row} (h : row.Rearranged row') :
    scoreOf row = scoreOf row' := by
  have hnumber : ∀ {cell cell' : Cell}, cell.Rearranged cell' → cell.number? = cell'.number? :=
    fun hrel => hrel.apply_eq fun _ _ => rfl
  unfold scoreOf
  rcases h.get?_cases Column.score with ⟨hnone, hnone'⟩ | ⟨cell, cell', hcell, hcell', hrel⟩
  · rw [hnone, hnone', Option.none_or, Option.none_or]
    rcases h.get?_cases Column.distance with ⟨hnone, hnone'⟩ | ⟨cell, cell', hcell, hcell', hrel⟩
    · rw [hnone, hnone']
    · rw [hcell, hcell']
      exact hnumber hrel
  · rw [hcell, hcell']
    exact hnumber hrel

/-- Rearranged values are read as the same metadata. -/
theorem metadataOf_rearranged {cell cell' : Cell} (h : cell.Rearranged cell') (fields : List Field) :
    metadataOf fields (some cell) = metadataOf fields (some cell') := by
  rcases h.eq_or_struct with rfl | ⟨record, record', rfl, rfl, -⟩
  · rfl
  · exact entriesOf_rearranged h Column.metadata fields Dict.empty

/-- A document is read from a rearranged row as before. -/
theorem ofRow_rearranged {row row' : Row} (h : row.Rearranged row') (schema : Schema) :
    ofRow row schema = ofRow row' schema := by
  have hcolumn : ∀ (name : String) {α : Type} (read : Option Cell → Except Error α),
      (∀ cell cell', cell.Rearranged cell' → read (some cell) = read (some cell')) →
        (row.presentColumn name >>= read) = (row'.presentColumn name >>= read) := by
    intro name α read hread
    refine (presentColumn_rearranged h name).bind_eq ?_
    rintro _ _ (hrel | _)
    · exact hread _ _ hrel
    · rfl
  rw [ofRow_eq, ofRow_eq, idOf_rearranged h, scoreOf_rearranged h]
  refine bind_congr fun fields => bind_congr fun id => ?_
  rw [hcolumn Column.content (Cell.optionalText Column.content) ?_, hcolumn Column.blob blobOf ?_,
    hcolumn Column.dataframe frameOf ?_, hcolumn Column.vector embeddingOf ?_,
    hcolumn Column.metadata (metadataOf fields) fun _ _ hrel => metadataOf_rearranged hrel fields]
  all_goals
    intro cell cell' hrel
    rcases hrel.eq_or_struct with rfl | ⟨record, record', rfl, rfl, -⟩ <;> rfl

end Document

/-! ## Evaluating predicates -/

namespace Cell.Rearranged

variable {cell cell' : Cell}

/-- A path leads to rearranged cells, or to nothing in either. -/
theorem path? (names : List String) : ∀ {cell cell' : Cell}, cell.Rearranged cell' →
    Option.Rel Rearranged (cell.path? names) (cell'.path? names) := by
  induction names with
  | nil =>
    intro cell cell' h
    rw [Cell.path?, Cell.path?]
    exact .some h
  | cons name rest ih =>
    intro cell cell' h
    rcases h.eq_or_struct with rfl | ⟨record, record', rfl, rfl, -⟩
    · exact optionRel_refl .refl _
    have hrecord : Row.Rearranged record record' := h
    rw [Cell.path?, Cell.path?]
    rcases hrecord.get?_cases name with ⟨hnone, hnone'⟩ | ⟨found, found', hfound, hfound', hrel⟩
    · rw [hnone, hnone']
      exact .none
    · rw [hfound, hfound']
      exact ih hrel

/-- Rearranging a cell does not make it null. -/
theorem isNull_eq (h : cell.Rearranged cell') : cell.isNull = cell'.isNull :=
  h.apply_eq fun _ _ => rfl

/-- Rearranged cells compare alike. -/
theorem compareTo_eq (h : cell.Rearranged cell') (literal : Scalar) :
    cell.compareTo literal = cell'.compareTo literal := by
  rcases h.eq_or_struct with rfl | ⟨record, record', rfl, rfl, -⟩
  · rfl
  · cases literal <;> rfl

/-- Rearranged cells are among the same literals. -/
theorem isAmong_eq (h : cell.Rearranged cell') (literals : List Scalar) :
    cell.isAmong literals = cell'.isAmong literals := by
  induction literals with
  | nil => rfl
  | cons literal rest ih => rw [isAmong, isAmong, h.compareTo_eq, ih]

end Cell.Rearranged

namespace Predicate

variable {row row' : Row}

/-- In rearranged rows the same is found at a path, up to rearrangement, or the same error. -/
theorem valueAt_rearranged (h : row.Rearranged row') (column : ColumnPath) :
    Agree Cell.Rearranged (row.valueAt column) (row'.valueAt column) := by
  have hpath : Option.Rel Cell.Rearranged (row.path? column) (row'.path? column) := by
    cases column with
    | nil => exact .none
    | cons name rest =>
      rw [Row.path?, Row.path?]
      rcases h.get?_cases name with ⟨hnone, hnone'⟩ | ⟨cell, cell', hcell, hcell', hrel⟩
      · rw [hnone, hnone']
        exact .none
      · rw [hcell, hcell']
        exact hrel.path? rest
  unfold Row.valueAt
  revert hpath
  cases row.path? column <;> cases row'.path? column <;> intro hpath <;> cases hpath
  · exact .error _
  · next hrel => exact .ok hrel

/-- A predicate has the value on a rearranged row that it has on the row. -/
theorem evaluate_rearranged (h : row.Rearranged row') (predicate : Predicate) :
    predicate.evaluate row = predicate.evaluate row' := by
  induction predicate using inner_induction with
  | step predicate ih =>
  cases predicate with
  | constant b => rw [evaluate, evaluate]
  | and parts =>
    rw [evaluate, evaluate]
    exact evaluateAll_congr (List.forall₂_same.mpr ih)
  | or parts =>
    rw [evaluate, evaluate]
    exact evaluateAny_congr (List.forall₂_same.mpr ih)
  | not part => rw [evaluate, evaluate, ih part (List.mem_singleton_self part)]
  | isNull column | isNotNull column =>
    rw [evaluate, evaluate]
    exact (valueAt_rearranged h column).bind_eq fun _ _ hrel => by rw [hrel.isNull_eq]
  | compare column relation value =>
    rw [evaluate, evaluate]
    exact (valueAt_rearranged h column).bind_eq fun _ _ hrel => by rw [hrel.compareTo_eq]
  | inList column values negated =>
    rw [evaluate, evaluate]
    exact (valueAt_rearranged h column).bind_eq fun _ _ hrel => by
      rw [hrel.isNull_eq, hrel.isAmong_eq]

end Predicate

/-! ## Building batches -/

namespace ColumnData

variable {cells cells' : List Cell}

/-- Leaf columns take rearranged cells only if they are the same cells. -/
theorem checkLeaves_bind_rearranged {type : DataType} (h : List.Forall₂ Cell.Rearranged cells cells')
    (name : String) {α : Type} (f : List Cell → Except Error α) :
    (checkLeaves name type cells >>= fun _ => f cells) =
      (checkLeaves name type cells' >>= fun _ => f cells') := by
  induction h generalizing f with
  | nil => rfl
  | @cons cell cell' cells cells' hcell _ ih =>
    rcases hcell.eq_or_struct with rfl | ⟨record, record', rfl, rfl, -⟩
    · rw [checkLeaves, checkLeaves]
      split
      · exact ih fun cells => f (cell :: cells)
      · rfl
    · cases type <;> rfl

/-- Rearranged vectors are flattened alike. -/
theorem flatten_rearranged (h : List.Forall₂ Cell.Rearranged cells cells') (name : String)
    (type : DataType) (width : Nat) : flatten name type width cells = flatten name type width cells' := by
  induction h with
  | nil => rfl
  | @cons cell cell' cells cells' hcell _ ih =>
    rcases hcell.eq_or_struct with rfl | ⟨record, record', rfl, rfl, -⟩
    · cases cell <;> simp only [flatten, ih]
    · -- a struct among vectors is refused, whatever is in it
      rfl

/-- Rearranged structs have the same validity. -/
theorem structValidity_rearranged (h : List.Forall₂ Cell.Rearranged cells cells') (name : String)
    (type : DataType) : structValidity name type cells = structValidity name type cells' := by
  induction h with
  | nil => rfl
  | @cons cell cell' cells cells' hcell _ ih =>
    rcases hcell.eq_or_struct with rfl | ⟨record, record', rfl, rfl, -⟩
    · cases cell <;> simp only [structValidity, ih]
    · simp only [structValidity, ih]

/-- Rearranged structs have the same members, up to rearrangement. -/
theorem memberCells_rearranged (h : List.Forall₂ Cell.Rearranged cells cells')
    (column member : String) : Agree (List.Forall₂ Cell.Rearranged)
      (memberCells column member cells) (memberCells column member cells') := by
  induction h with
  | nil => exact .ok .nil
  | @cons cell cell' cells cells' hcell _ ih =>
    have hstruct : ∀ {record record' : Row}, record.Rearranged record' →
        Agree (List.Forall₂ Cell.Rearranged) (memberCells column member (.struct record :: cells))
          (memberCells column member (.struct record' :: cells')) := by
      intro record record' hrecord
      rw [memberCells, memberCells]
      rcases hrecord.get?_cases member with ⟨hnone, hnone'⟩ | ⟨found, found', hfound, hfound', hrel⟩
      · rw [hnone, hnone']
        exact .error _
      · rw [hfound, hfound']
        exact ih.bind fun _ _ hrest => .ok (.cons hrel hrest)
    rcases hcell.eq_or_struct with rfl | ⟨record, record', rfl, rfl, -⟩
    · cases cell with
      | struct record => exact hstruct hcell
      | _ => exact ih.bind fun _ _ hrest => .ok (.cons (.refl _) hrest)
    · exact hstruct hcell

/-- The data of a column does not depend on the order of members in its cells. -/
theorem ofCells_rearranged (type : DataType) : ∀ {cells cells' : List Cell},
    List.Forall₂ Cell.Rearranged cells cells' → ∀ name,
      ofCells name cells type = ofCells name cells' type := by
  induction type using DataType.struct_induction with
  | leaf type hleaf =>
    intro cells cells' h name
    cases type with
    | struct fields => cases hleaf
    | fixedSizeList item size => rw [ofCells, ofCells, flatten_rearranged h]
    | _ =>
      simp only [ofCells]
      split
      · exact checkLeaves_bind_rearranged h name fun cells => pure (leaf _ cells)
      · rfl
  | struct fields ih =>
    intro cells cells' h name
    have hmembers : ofMemberCells name cells fields = ofMemberCells name cells' fields := by
      induction fields with
      | nil => rfl
      | cons field rest ihrest =>
        obtain ⟨hfield, hrest⟩ := List.forall_mem_cons.mp ih
        rw [ofMemberCells, ofMemberCells, ihrest hrest]
        exact (memberCells_rearranged h name field.name).bind_eq fun _ _ hcells => by
          rw [hfield hcells]
    rw [ofCells, ofCells, structValidity_rearranged h, hmembers, h.length_eq]

end ColumnData

namespace Batch

variable {rows rows' : List Row}

/-- Rearranged rows have the same columns, up to rearrangement. -/
theorem columnCells_rearranged (h : List.Forall₂ Row.Rearranged rows rows') (name : String) :
    Agree (List.Forall₂ Cell.Rearranged) (columnCells name rows) (columnCells name rows') := by
  induction h with
  | nil => exact .ok .nil
  | cons hrow _ ih =>
    rw [columnCells, columnCells]
    rcases hrow.get?_cases name with ⟨hnone, hnone'⟩ | ⟨cell, cell', hcell, hcell', hrel⟩
    · rw [hnone, hnone']
      exact .error _
    · rw [hcell, hcell']
      exact ih.bind fun _ _ hrest => .ok (.cons hrel hrest)

/-- Rearranged rows make the same batch. -/
theorem ofRows_rearranged (h : List.Forall₂ Row.Rearranged rows rows') (schema : Schema) :
    ofRows schema rows = ofRows schema rows' := by
  have hcolumns : ∀ fields, columnsOfRows rows fields = columnsOfRows rows' fields := by
    intro fields
    induction fields with
    | nil => rfl
    | cons field rest ih =>
      rw [columnsOfRows, columnsOfRows, ih]
      exact (columnCells_rearranged h field.name).bind_eq fun _ _ hcells => by
        rw [ColumnData.ofCells_rearranged field.type hcells]
  rw [ofRows, ofRows, hcolumns]

end Batch

end DocumentStore
