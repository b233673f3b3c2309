import DocumentStore.Proofs.Columns

/-!
# Batches of fitting rows

A row fits a schema when it has a cell for each column, of its type, and no null where there must
not be one. Fitting rows always form a batch, and the batch gives them back in their order, each
with its columns and the members of its structs as the schema lists them.
-/

set_option autoImplicit false

namespace DocumentStore

/-- The row with its columns, and the members of its structs, as the fields list them. -/
def Row.arranged (fields : List Field) (row : Row) : Row :=
  Record.ofList (Cell.arrangedMembers (.struct row) fields)

namespace Batch

open ColumnData (HoldMembers)

variable {rows : List Row} {fields : List Field} {columns : List ColumnData}

/-- The cells of a column are those that the rows have under its name. -/
theorem columnCells_eq_ok (fits : ∀ row ∈ rows, Cell.Fits (.struct fields) (.struct row))
    {field : Field} (hfield : field ∈ fields) :
    columnCells field.name rows = .ok ((rows.map Cell.struct).map (Cell.member field.name)) := by
  induction rows with
  | nil => rfl
  | cons row rest ih =>
    have hrest := ih fun other hother => fits other (List.mem_cons_of_mem _ hother)
    have hrow := fits row (List.mem_cons_self ..)
    cases hrow with
    | leaf h => cases h
    | struct there =>
      obtain ⟨cell, hcell, -⟩ := there field hfield
      rw [columnCells, hcell, hrest, List.map_cons, List.map_cons, Cell.member, hcell]
      rfl

/-- Columns are built when each of them can be. -/
theorem exists_columnsOfRows
    (h : ∀ field ∈ fields,
      columnCells field.name rows = .ok ((rows.map Cell.struct).map (Cell.member field.name)) ∧
      ∀ name, ∃ data, ColumnData.ofCells name ((rows.map Cell.struct).map (Cell.member field.name))
          field.type = .ok data ∧
        data.Holds field.type ((rows.map Cell.struct).map (Cell.member field.name))) :
    ∃ columns, columnsOfRows rows fields = .ok columns ∧
      HoldMembers (rows.map Cell.struct) fields columns := by
  induction fields with
  | nil => exact ⟨[], rfl, .nil⟩
  | cons field rest ih =>
    obtain ⟨hcells, hdata⟩ := h field (List.mem_cons_self ..)
    obtain ⟨data, hdata, hholds⟩ := hdata field.name
    obtain ⟨columns, hcolumns, hrest⟩ :=
      ih fun other hother => h other (List.mem_cons_of_mem _ hother)
    refine ⟨data :: columns, ?_, .cons hholds hrest⟩
    rw [columnsOfRows, hcells, ok_bind, hdata, ok_bind, hcolumns]
    rfl

/-- The check of nulls passes when no required column has one. -/
theorem checkNulls_eq_ok (hcolumns : HoldMembers (rows.map Cell.struct) fields columns)
    (hnulls : ∀ field ∈ fields, field.nullable = false → ∀ row ∈ rows,
      (Cell.member field.name (.struct row)).isNull = false) :
    checkNulls fields columns = .ok () := by
  induction hcolumns with
  | nil => rfl
  | @cons field data fields columns hholds _ ih =>
    have hcount : ¬ (!field.nullable && decide (0 < data.nullCount)) = true := by
      intro h
      rw [Bool.and_eq_true, decide_eq_true_eq, hholds.nullCount_eq, List.countP_pos_iff] at h
      obtain ⟨hnullable, cell, hcell, hnull⟩ := h
      rw [List.map_map] at hcell
      obtain ⟨row, hrow, rfl⟩ := List.mem_map.mp hcell
      have hthere := hnulls field (List.mem_cons_self ..) (Bool.not_eq_true' _ |>.mp hnullable)
        row hrow
      rw [Function.comp_apply, hthere] at hnull
      cases hnull
    rw [checkNulls, if_neg hcount]
    exact ih fun other hother => hnulls other (List.mem_cons_of_mem _ hother)

/-- A column has as many cells as there are rows. -/
theorem length_of_holdMembers (hcolumns : HoldMembers (rows.map Cell.struct) fields columns)
    {column : ColumnData} (h : column ∈ columns) : column.length = rows.length := by
  obtain ⟨field, -, hholds⟩ := exists_related hcolumns.flip h
  have hlength := hholds.length_eq
  rwa [List.length_map, List.length_map] at hlength

/-- Fitting rows form a batch, whose columns hold what the rows have in them. -/
theorem exists_ofRows {schema : Schema} (storable : (DataType.struct schema.fields).Storable)
    (hne : schema.fields ≠ [])
    (fits : ∀ row ∈ rows, Cell.Fits (.struct schema.fields) (.struct row)) :
    ∃ columns, ofRows schema rows = .ok ⟨schema, columns⟩ ∧
      HoldMembers (rows.map Cell.struct) schema.fields columns := by
  have hcells : ∀ cell ∈ rows.map Cell.struct, cell.Fits (.struct schema.fields) := by
    intro cell hcell
    obtain ⟨row, hrow, rfl⟩ := List.mem_map.mp hcell
    exact fits row hrow
  obtain ⟨columns, hcolumns, hmembers⟩ := @exists_columnsOfRows rows schema.fields (by
    intro field hfield
    refine ⟨columnCells_eq_ok fits hfield, fun name => ?_⟩
    apply ColumnData.exists_ofCells (storable.members field hfield) name
    intro member hmember
    obtain ⟨cell, hcell, rfl⟩ := List.mem_map.mp hmember
    exact ColumnData.fits_member (hcells cell hcell) hfield)
  refine ⟨columns, ?_, hmembers⟩
  have hcheck : checkNulls schema.fields columns = .ok () := by
    apply checkNulls_eq_ok hmembers
    intro field hfield hnullable row hrow
    by_contra h
    have hnull := ColumnData.isNull_of_member_isNull (fits row hrow) hfield hnullable
      ((Bool.not_eq_false _).mp h)
    cases hnull
  rw [ofRows, hcolumns, ok_bind]
  cases columns with
  | nil =>
    cases hfields : schema.fields with
    | nil => exact absurd hfields hne
    | cons field rest =>
      rw [hfields] at hmembers
      cases hmembers
  | cons first others =>
    have huneven : ¬ ((first :: others).any fun column => decide (column.length ≠ first.length)) =
        true := by
      intro h
      obtain ⟨column, hcolumn, h⟩ := List.any_eq_true.mp h
      rw [decide_eq_true_eq, length_of_holdMembers hmembers hcolumn,
        length_of_holdMembers hmembers (List.mem_cons_self ..)] at h
      exact h rfl
    rw [ofColumns, hcheck, ok_bind, if_neg huneven]

/-- What holds of the values at all positions of a list holds of a run over the positions. -/
theorem mapM_range_eq_ok {ε α β : Type} {f : Nat → Except ε β} {g : α → β} {items : List α}
    (h : ∀ (i : Nat) (item : α), items[i]? = some item → f i = .ok (g item)) :
    (List.range items.length).mapM f = .ok (items.map g) := by
  rw [mapM_eq_ok_iff, List.forall₂_map_right_iff, List.forall₂_iff_get]
  refine ⟨List.length_range, fun i hi hitem => ?_⟩
  rw [List.get_eq_getElem, List.get_eq_getElem, List.getElem_range]
  exact h i _ (List.getElem?_eq_getElem hitem)

/-- A batch gives back the rows that it was built from. -/
theorem toRows_of_holdMembers {schema : Schema} (hne : schema.fields ≠ [])
    (hcolumns : HoldMembers (rows.map Cell.struct) schema.fields columns) :
    toRows ⟨schema, columns⟩ = .ok (rows.map (Row.arranged schema.fields)) := by
  have hcount : rowCount ⟨schema, columns⟩ = rows.length := by
    cases columns with
    | nil =>
      cases hfields : schema.fields with
      | nil => exact absurd hfields hne
      | cons field rest =>
        rw [hfields] at hcolumns
        cases hcolumns
    | cons first others =>
      exact length_of_holdMembers hcolumns (List.mem_cons_self ..)
  unfold toRows
  rw [hcount]
  apply mapM_range_eq_ok
  intro i row hrow
  have hcell : (rows.map Cell.struct)[i]? = some (.struct row) := by
    rw [List.getElem?_map, hrow, Option.map_some]
  unfold rowAt Row.arranged
  dsimp only
  rw [ColumnData.cellsAt_eq_ok hcolumns hcell, ok_bind, Cell.arrangedMembers_eq_map, List.zip_map']
  rfl

/-- Rows that fit a schema form a batch, which gives them back. -/
theorem toRows_ofRows {schema : Schema} (storable : (DataType.struct schema.fields).Storable)
    (hne : schema.fields ≠ [])
    (fits : ∀ row ∈ rows, Cell.Fits (.struct schema.fields) (.struct row)) :
    ∃ batch, ofRows schema rows = .ok batch ∧
      batch.toRows = .ok (rows.map (Row.arranged schema.fields)) := by
  obtain ⟨columns, hbatch, hcolumns⟩ := exists_ofRows storable hne fits
  exact ⟨_, hbatch, toRows_of_holdMembers hne hcolumns⟩

end Batch

end DocumentStore
