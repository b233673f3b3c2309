import DocumentStore.Proofs.BatchRows
import DocumentStore.Proofs.FlaggedLevels

/-!
# Batches give back any rows

A column that has been built shows what it was built from: its type can be stored, each cell fits
the type, and where a member must not be null no struct has a null for it. So only fitting rows form
a batch, whatever their schema, and the batch gives them back, each restricted to the columns and
members that the schema lists. Vectors of width zero are the exception: without a null among them
they leave nothing that could be counted.
-/

set_option autoImplicit false

namespace DocumentStore

/-- There are vectors of width zero at some level of the type. -/
inductive DataType.HasEmptyVectors : DataType → Prop
  | column {item : Field} : HasEmptyVectors (.fixedSizeList item 0)
  | member {fields : List Field} {field : Field} (hfield : field ∈ fields)
      (h : HasEmptyVectors field.type) : HasEmptyVectors (.struct fields)

namespace ColumnData

variable {name : String} {type : DataType} {cells : List Cell} {data : ColumnData}

/-! ## Leaves and vectors -/

/-- Cells that pass the check of a leaf column fit its type. -/
theorem fits_of_checkLeaves (h : checkLeaves name type cells = .ok ()) :
    ∀ cell ∈ cells, cell.Fits type := by
  induction cells with
  | nil => simp
  | cons cell rest ih =>
    rw [checkLeaves] at h
    split at h
    · next hcell =>
      rw [List.forall_mem_cons]
      refine ⟨?_, ih h⟩
      rcases Bool.or_eq_true _ _ |>.mp hcell with hnull | hleaf
      · cases cell with
        | null => exact .null
        | _ => cases hnull
      · exact .leaf hleaf
    · cases h

/-- A column of a type without members and items is one of a type that can be stored. -/
theorem isStorageLeaf_of_ofCells (leaf : type.members? = none)
    (plain : ∀ item size, type ≠ .fixedSizeList item size)
    (h : ofCells name cells type = .ok data) : type.isStorageLeaf = true := by
  by_contra hleaf
  cases type with
  | struct => cases leaf
  | fixedSizeList item size => exact plain item size rfl
  | _ => simp [ofCells, hleaf] at h

/-- Vectors that are flattened without an error fit the type of their column. -/
theorem fits_of_flatten {item : Field} {size : Int32} {flat : List Binary32 × List Bool}
    (h : flatten name (.fixedSizeList item size) size.toInt.toNat cells = .ok flat) :
    ∀ cell ∈ cells, cell.Fits (.fixedSizeList item size) := by
  induction cells generalizing flat with
  | nil => simp
  | cons cell rest ih =>
    rw [List.forall_mem_cons]
    cases cell with
    | vector values =>
      rw [flatten] at h
      split at h
      · next hlength =>
        obtain ⟨others, hothers, -⟩ := (bind_eq_ok_iff _ _ _).mp h
        exact ⟨.vector hlength, ih hothers⟩
      · cases h
    | null =>
      rw [flatten] at h
      obtain ⟨others, hothers, -⟩ := (bind_eq_ok_iff _ _ _).mp h
      exact ⟨.null, ih hothers⟩
    | _ => cases h

/-- Where vectors have a width, a vector column is built only of a storable type and cells that fit
it. -/
theorem fits_of_ofCells_vector {item : Field} {size : Int32}
    (vectors : ¬ (DataType.fixedSizeList item size).HasEmptyVectors)
    (h : ofCells name cells (.fixedSizeList item size) = .ok data) :
    (DataType.fixedSizeList item size).Storable ∧
      ∀ cell ∈ cells, cell.Fits (.fixedSizeList item size) := by
  rw [ofCells] at h
  split at h
  · cases h
  next hsize =>
  obtain ⟨⟨values, validity⟩, hflat, h⟩ := (bind_eq_ok_iff _ _ _).mp h
  dsimp only at h
  split at h
  · next hitem =>
    refine ⟨.vector hitem ?_, fits_of_flatten hflat⟩
    have hne : size.toInt ≠ 0 := by
      intro hzero
      have hsize : size = 0 := Int32.toInt_inj.mp hzero
      exact vectors (hsize ▸ .column)
    omega
  · cases h

/-! ## Structs -/

section Structs

variable {fields : List Field}

/-- The cells of a struct column are structs and nulls, and its mask tells which is which. -/
theorem structValidity_of_eq_ok {validity : List Bool}
    (h : structValidity name type cells = .ok validity) :
    validity = (cells.map fun cell => !cell.isNull) ∧
      ∀ cell ∈ cells, cell = .null ∨ ∃ record, cell = .struct record := by
  induction cells generalizing validity with
  | nil =>
    cases h
    simp
  | cons cell rest ih =>
    rw [List.forall_mem_cons]
    cases cell with
    | null =>
      rw [structValidity] at h
      obtain ⟨others, hothers, h⟩ := (bind_eq_ok_iff _ _ _).mp h
      cases h
      obtain ⟨rfl, hrest⟩ := ih hothers
      exact ⟨rfl, .inl rfl, hrest⟩
    | struct record =>
      rw [structValidity] at h
      obtain ⟨others, hothers, h⟩ := (bind_eq_ok_iff _ _ _).mp h
      cases h
      obtain ⟨rfl, hrest⟩ := ih hothers
      exact ⟨rfl, .inr ⟨record, rfl⟩, hrest⟩
    | _ => cases h

/-- The cells of a member are what the structs have under its name, which each of them has. -/
theorem memberCells_of_eq_ok {column member : String} {members : List Cell}
    (h : memberCells column member cells = .ok members) :
    members = cells.map (Cell.member member) ∧
      ∀ record, .struct record ∈ cells → ∃ cell, record.get? member = some cell := by
  induction cells generalizing members with
  | nil =>
    cases h
    simp
  | cons cell rest ih =>
    cases cell with
    | struct record =>
      rw [memberCells] at h
      split at h
      · next held hheld =>
        obtain ⟨others, hothers, h⟩ := (bind_eq_ok_iff _ _ _).mp h
        cases h
        obtain ⟨rfl, hthere⟩ := ih hothers
        constructor
        · simp [Cell.member, hheld]
        · intro other hother
          rcases List.mem_cons.mp hother with heq | hother
          · cases heq
            exact ⟨held, hheld⟩
          · exact hthere other hother
      · cases h
    | _ =>
      rw [memberCells] at h
      · obtain ⟨others, hothers, h⟩ := (bind_eq_ok_iff _ _ _).mp h
        cases h
        obtain ⟨rfl, hthere⟩ := ih hothers
        refine ⟨rfl, fun other hother => hthere other ?_⟩
        simpa using hother
      · simp

/-- Member columns are built one for each field, each of the cells of its member. -/
theorem ofMemberCells_of_eq_ok {column : String} {columns : List ColumnData}
    (h : ofMemberCells column cells fields = .ok columns) :
    List.Forall₂ (fun field data => ∃ members,
      memberCells column field.name cells = .ok members ∧
        ofCells field.name members field.type = .ok data) fields columns := by
  induction fields generalizing columns with
  | nil =>
    cases h
    exact .nil
  | cons field rest ih =>
    rw [ofMemberCells] at h
    obtain ⟨members, hmembers, h⟩ := (bind_eq_ok_iff _ _ _).mp h
    obtain ⟨data, hdata, h⟩ := (bind_eq_ok_iff _ _ _).mp h
    obtain ⟨others, hothers, h⟩ := (bind_eq_ok_iff _ _ _).mp h
    cases h
    exact .cons ⟨members, hmembers, hdata⟩ (ih hothers)

/-- The nulls of members that must not be null have been found to be masked. -/
theorem masked_of_checkMembers {columns : List ColumnData}
    (hcolumns : HoldMembers cells fields columns)
    (h : checkMembers (Mask.ofValidity (cells.map fun cell => !cell.isNull)) cells.length fields
      columns = .ok ()) :
    ∀ field ∈ fields, field.nullable = false → ∀ cell ∈ cells,
      (cell.member field.name).isNull = true → cell.isNull = true := by
  induction hcolumns with
  | nil => simp
  | @cons field data fields columns hholds _ ih =>
    rw [checkMembers] at h
    split at h
    · cases h
    split at h
    · cases h
    next hnulls =>
    rw [List.forall_mem_cons]
    refine ⟨?_, ih h⟩
    intro hnullable cell hcell hnull
    obtain ⟨row, hrow⟩ := List.mem_iff_getElem?.mp hcell
    have hlt : row < cells.length := (List.getElem?_eq_some_iff.mp hrow).1
    have hmember : (cells.map (Cell.member field.name))[row]? = some (cell.member field.name) := by
      simp [hrow]
    by_contra hvalid
    apply hnulls
    rw [hnullable, Bool.not_false, Bool.true_and, List.any_eq_true]
    refine ⟨row, List.mem_range.mpr hlt, ?_⟩
    rw [hholds.isNullAt_eq row _ hmember, Mask.isNullAt_ofValidity hrow, hnull]
    simpa using hvalid

/-- The member columns that a struct column is built of passed the check of nulls. -/
theorem checkMembers_of_ofMembers {columns : List ColumnData}
    (hcolumns : HoldMembers cells fields columns) {mask : Mask}
    (h : ofMembers fields columns cells.length mask = .ok data) :
    checkMembers mask cells.length fields columns = .ok () := by
  cases hcolumns with
  | nil => rfl
  | @cons field first fields columns hholds _ =>
    have hlength : first.length = cells.length := by
      rw [hholds.length_eq, List.length_map]
    unfold ofMembers at h
    dsimp only at h
    rw [hlength] at h
    split at h
    · split at h
      · cases h
      · obtain ⟨_, hcheck, -⟩ := (bind_eq_ok_iff _ _ _).mp h
        exact hcheck
    · obtain ⟨_, hcheck, -⟩ := (bind_eq_ok_iff _ _ _).mp h
      exact hcheck

/-- The column shows a member that all of the structs have, and its type can be stored. -/
structure ShowsMember (cells : List Cell) (field : Field) (data : ColumnData) : Prop where
  storable : field.type.Storable
  there : ∀ record, .struct record ∈ cells → ∃ cell, record.get? field.name = some cell
  fits : ∀ cell ∈ cells, (cell.member field.name).Fits field.type
  holds : data.Holds field.type (cells.map (Cell.member field.name))

/-- A column that was built from the members of structs shows that member, if columns of its type
are built from fitting cells only. -/
theorem showsMember_of_ofCells {field : Field}
    (htype : ∀ name cells data, ofCells name cells field.type = .ok data →
      field.type.Storable ∧ ∀ cell ∈ cells, cell.Fits field.type)
    (there : ∀ record, .struct record ∈ cells → ∃ cell, record.get? field.name = some cell)
    (h : ofCells name (cells.map (Cell.member field.name)) field.type = .ok data) :
    ShowsMember cells field data := by
  obtain ⟨storable, fits⟩ := htype _ _ _ h
  obtain ⟨built, hbuilt, hholds⟩ := exists_ofCells storable name fits
  rw [h] at hbuilt
  cases hbuilt
  exact ⟨storable, there, by simpa using fits, hholds⟩

/-- Structs fit when all of their members are shown, and null only where they may be. -/
theorem fits_of_showsMember {columns : List ColumnData}
    (hcolumns : List.Forall₂ (ShowsMember cells) fields columns)
    (hnulls : ∀ field ∈ fields, field.nullable = false → ∀ cell ∈ cells,
      (cell.member field.name).isNull = true → cell.isNull = true)
    {record : Row} (hrecord : .struct record ∈ cells) :
    Cell.Fits (.struct fields) (.struct record) := by
  refine .struct ?_ ?_
  · intro field hfield
    obtain ⟨data, -, shows⟩ := exists_related hcolumns hfield
    obtain ⟨cell, hcell⟩ := shows.there record hrecord
    refine ⟨cell, hcell, fun hnullable => ?_⟩
    have hmember := hnulls field hfield hnullable _ hrecord
    rw [Cell.member, hcell, Option.getD_some] at hmember
    simpa using mt hmember Bool.false_ne_true
  · intro field hfield cell hcell
    obtain ⟨data, -, shows⟩ := exists_related hcolumns hfield
    have hfits := shows.fits _ hrecord
    rwa [Cell.member, hcell, Option.getD_some] at hfits

/-- A struct is storable when each of its members shows in a column. -/
theorem storable_of_showsMember {columns : List ColumnData}
    (hcolumns : List.Forall₂ (ShowsMember cells) fields columns) :
    (DataType.struct fields).Storable := by
  refine .struct fun field hfield => ?_
  obtain ⟨data, -, shows⟩ := exists_related hcolumns hfield
  exact shows.storable

/-- What a column of structs was built from fits when what its members were built from does. -/
theorem fits_of_ofCells_struct
    (members : ∀ field ∈ fields, ∀ name cells data, ofCells name cells field.type = .ok data →
      field.type.Storable ∧ ∀ cell ∈ cells, cell.Fits field.type)
    (h : ofCells name cells (.struct fields) = .ok data) :
    (DataType.struct fields).Storable ∧ ∀ cell ∈ cells, cell.Fits (.struct fields) := by
  rw [ofCells] at h
  obtain ⟨validity, hvalidity, h⟩ := (bind_eq_ok_iff _ _ _).mp h
  obtain ⟨columns, hcolumns, h⟩ := (bind_eq_ok_iff _ _ _).mp h
  obtain ⟨rfl, hstructs⟩ := structValidity_of_eq_ok hvalidity
  have hshows : List.Forall₂ (ShowsMember cells) fields columns := by
    have hboth := (List.forall₂_and_left fields columns).mpr
      ⟨members, ofMemberCells_of_eq_ok hcolumns⟩
    apply hboth.imp
    rintro field data ⟨htype, found, hfound, hdata⟩
    obtain ⟨rfl, there⟩ := memberCells_of_eq_ok hfound
    exact showsMember_of_ofCells htype there hdata
  have hholds : HoldMembers cells fields columns := hshows.imp fun _ _ shows => shows.holds
  have hmasked := masked_of_checkMembers hholds (checkMembers_of_ofMembers hholds h)
  refine ⟨storable_of_showsMember hshows, fun cell hcell => ?_⟩
  obtain rfl | ⟨record, rfl⟩ := hstructs cell hcell
  · exact .null
  · exact fits_of_showsMember hshows hmasked hcell

end Structs

/-! ## All columns -/

/-- Only from cells that fit its type can a column be built. -/
theorem fits_of_ofCells (type : DataType) (vectors : ¬ type.HasEmptyVectors) :
    ∀ name cells data, ofCells name cells type = .ok data →
      type.Storable ∧ ∀ cell ∈ cells, cell.Fits type := by
  induction type using DataType.struct_induction with
  | leaf type leaf =>
    intro name cells data h
    by_cases hvector : ∃ item size, type = .fixedSizeList item size
    · obtain ⟨item, size, rfl⟩ := hvector
      exact fits_of_ofCells_vector vectors h
    · have hleaf := isStorageLeaf_of_ofCells leaf
        (fun item size htype => hvector ⟨item, size, htype⟩) h
      rw [ofCells_leaf hleaf] at h
      obtain ⟨_, hcheck, -⟩ := (bind_eq_ok_iff _ _ _).mp h
      exact ⟨.leaf hleaf, fits_of_checkLeaves hcheck⟩
  | struct fields ih =>
    intro name cells data h
    exact fits_of_ofCells_struct (fun field hfield => ih field hfield fun hempty =>
      vectors (.member hfield hempty)) h

end ColumnData

/-! ## Batches -/

namespace Batch

open ColumnData (HoldMembers ShowsMember)

variable {schema : Schema} {rows : List Row} {batch : Batch}

/-- The cells of a column are what the rows have under its name, which each of them has. -/
theorem columnCells_of_eq_ok {name : String} {cells : List Cell}
    (h : columnCells name rows = .ok cells) :
    cells = (rows.map Cell.struct).map (Cell.member name) ∧
      ∀ row ∈ rows, ∃ cell, row.get? name = some cell := by
  induction rows generalizing cells with
  | nil =>
    cases h
    simp
  | cons row rest ih =>
    rw [columnCells] at h
    split at h
    · next held hheld =>
      obtain ⟨others, hothers, h⟩ := (bind_eq_ok_iff _ _ _).mp h
      cases h
      obtain ⟨rfl, hthere⟩ := ih hothers
      rw [List.forall_mem_cons]
      exact ⟨by simp [Cell.member, hheld], ⟨held, hheld⟩, hthere⟩
    · cases h

/-- Columns of rows are built one for each field, each of the cells of its column. -/
theorem columnsOfRows_of_eq_ok {fields : List Field} {columns : List ColumnData}
    (h : columnsOfRows rows fields = .ok columns) :
    List.Forall₂ (fun field data => ∃ cells, columnCells field.name rows = .ok cells ∧
      ColumnData.ofCells field.name cells field.type = .ok data) fields columns := by
  induction fields generalizing columns with
  | nil =>
    cases h
    exact .nil
  | cons field rest ih =>
    rw [columnsOfRows] at h
    obtain ⟨cells, hcells, h⟩ := (bind_eq_ok_iff _ _ _).mp h
    obtain ⟨data, hdata, h⟩ := (bind_eq_ok_iff _ _ _).mp h
    obtain ⟨others, hothers, h⟩ := (bind_eq_ok_iff _ _ _).mp h
    cases h
    exact .cons ⟨cells, hcells, hdata⟩ (ih hothers)

/-- No column that must not be null has been found to have a null. -/
theorem not_isNull_of_checkNulls {fields : List Field} {columns : List ColumnData}
    (hcolumns : HoldMembers (rows.map Cell.struct) fields columns)
    (h : checkNulls fields columns = .ok ()) :
    ∀ field ∈ fields, field.nullable = false → ∀ cell ∈ rows.map Cell.struct,
      ¬ (cell.member field.name).isNull = true := by
  induction hcolumns with
  | nil => simp
  | @cons field data fields columns hholds _ ih =>
    rw [checkNulls] at h
    split at h
    · cases h
    next hcount =>
    rw [List.forall_mem_cons]
    refine ⟨fun hnullable cell hcell hnull => ?_, ih h⟩
    apply hcount
    rw [hnullable, hholds.nullCount_eq, Bool.not_false, Bool.true_and, decide_eq_true_eq,
      List.countP_pos_iff]
    exact ⟨_, List.mem_map_of_mem hcell, hnull⟩

/-- Only fitting rows form a batch. -/
theorem fits_of_ofRows (vectors : ¬ (DataType.struct schema.fields).HasEmptyVectors)
    (h : ofRows schema rows = .ok batch) :
    (DataType.struct schema.fields).Storable ∧ schema.fields ≠ [] ∧
      ∀ row ∈ rows, Cell.Fits (.struct schema.fields) (.struct row) := by
  obtain ⟨columns, hcolumns, h⟩ := (bind_eq_ok_iff _ _ _).mp h
  have htypes : ∀ field ∈ schema.fields, ∀ name cells data,
      ColumnData.ofCells name cells field.type = .ok data →
        field.type.Storable ∧ ∀ cell ∈ cells, cell.Fits field.type :=
    fun field hfield => ColumnData.fits_of_ofCells field.type fun hempty =>
      vectors (.member hfield hempty)
  have hshows : List.Forall₂ (ShowsMember (rows.map Cell.struct)) schema.fields columns := by
    have hboth := (List.forall₂_and_left _ _).mpr ⟨htypes, columnsOfRows_of_eq_ok hcolumns⟩
    apply hboth.imp
    rintro field data ⟨htype, cells, hcells, hdata⟩
    obtain ⟨rfl, there⟩ := columnCells_of_eq_ok hcells
    refine ColumnData.showsMember_of_ofCells htype ?_ hdata
    simpa using there
  have hholds : HoldMembers (rows.map Cell.struct) schema.fields columns :=
    hshows.imp fun _ _ shows => shows.holds
  unfold ofColumns at h
  split at h
  · cases h
  next first others =>
  obtain ⟨_, hcheck, -⟩ := (bind_eq_ok_iff _ _ _).mp h
  have hnulls := not_isNull_of_checkNulls hholds hcheck
  refine ⟨ColumnData.storable_of_showsMember hshows, ?_, fun row hrow => ?_⟩
  · intro hnil
    rw [hnil] at hholds
    cases hholds
  · exact ColumnData.fits_of_showsMember hshows
      (fun field hfield hnullable cell hcell hnull =>
        absurd hnull (hnulls field hfield hnullable cell hcell)) (List.mem_map_of_mem hrow)

/-- A batch of rows gives them back in their order, each with its declared columns, and the declared
members of its structs at every level, in the order of the schema. Everything that is given back was
there: the rows have all columns and members, with values of their types, and are null only where
they may be. -/
theorem toRows_eq_arranged (vectors : ¬ (DataType.struct schema.fields).HasEmptyVectors)
    (h : ofRows schema rows = .ok batch) :
    batch.toRows = .ok (rows.map (Row.arranged schema.fields)) ∧
      ∀ row ∈ rows, Cell.Fits (.struct schema.fields) (.struct row) := by
  obtain ⟨storable, hne, fits⟩ := fits_of_ofRows vectors h
  obtain ⟨built, hbuilt, hrows⟩ := toRows_ofRows storable hne fits
  rw [h] at hbuilt
  cases hbuilt
  exact ⟨hrows, fits⟩

/-- A row with an undeclared column, whose struct has an undeclared member and a vector, and a row
with a null above a member that must not be null. -/
theorem toRows_eq_arranged_nullStruct :
    ¬ (DataType.struct [.plain "s" (.struct [.plain "flag" .boolean false,
      .plain "v" (.fixedSizeList (.plain "item" .float32 true) 1) true]) true]).HasEmptyVectors ∧
    ∃ batch, ofRows ⟨[.plain "s" (.struct [.plain "flag" .boolean false,
        .plain "v" (.fixedSizeList (.plain "item" .float32 true) 1) true]) true]⟩
      [⟨[("x", .null), ("s", .struct ⟨[("v", .vector [Floating.zero]), ("y", .int32 1),
        ("flag", .boolean true)]⟩)]⟩, ⟨[("s", .null)]⟩] = .ok batch ∧
    batch.toRows = .ok [⟨[("s", .struct ⟨[("flag", .boolean true),
      ("v", .vector [Floating.zero])]⟩)]⟩, ⟨[("s", .null)]⟩] := by
  have vectors : ¬ (DataType.struct [.plain "s" (.struct [.plain "flag" .boolean false,
      .plain "v" (.fixedSizeList (.plain "item" .float32 true) 1) true]) true]).HasEmptyVectors := by
    rintro (_ | ⟨hfield, h⟩)
    cases List.mem_singleton.mp hfield
    obtain _ | ⟨hfield, h⟩ := h
    simp only [List.mem_cons, List.not_mem_nil, or_false] at hfield
    rcases hfield with rfl | rfl <;> cases h
  obtain ⟨batch, hbatch⟩ : ∃ batch, ofRows ⟨[.plain "s" (.struct [.plain "flag" .boolean false,
      .plain "v" (.fixedSizeList (.plain "item" .float32 true) 1) true]) true]⟩
    [⟨[("x", .null), ("s", .struct ⟨[("v", .vector [Floating.zero]), ("y", .int32 1),
      ("flag", .boolean true)]⟩)]⟩, ⟨[("s", .null)]⟩] = .ok batch := ⟨_, rfl⟩
  exact ⟨vectors, batch, hbatch, (toRows_eq_arranged vectors hbatch).1⟩

end Batch

end DocumentStore
