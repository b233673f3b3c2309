import DocumentStore.Proofs.FrameColumns
import DocumentStore.Proofs.JsonText

/-!
# Data frames read back

The text of a data frame is an object of columns, the columns objects of numbered rows. Cells that
are objects ascend by name, and there are no more rows than 64 bits count; these are the frames
that can be built. The text of such a frame is read as the frame in which every number is what is
read of its own text, as long as no cell is nested too deep, and cannot be read if some cell is.
-/

set_option autoImplicit false

namespace DocumentStore.DataFrame

/-- The rows of the frame can be numbered and the objects in its cells ascend. -/
structure Lawful (frame : DataFrame) : Prop where
  rows_le : frame.rowCount ≤ UInt64.size
  canonical : ∀ column ∈ frame.columns.entries, ∀ cell ∈ column.2, cell.Canonical

/-- No cell of the frame is nested deeper than `limit`. -/
def DepthWithin (frame : DataFrame) (limit : Nat) : Prop :=
  ∀ column ∈ frame.columns.entries, ∀ cell ∈ column.2, cell.depth ≤ limit

/-- What is read of the text of a frame: each number as its own text is read. -/
def reread (frame : DataFrame) : DataFrame where
  columns := ⟨frame.columns.entries.map fun column => (column.1, column.2.map Json.reread)⟩
  sorted := by
    unfold Dict.Sorted
    rw [List.pairwise_map]
    exact frame.sorted
  even := by
    rintro _ hread _ hreads
    obtain ⟨column, hcolumn, rfl⟩ := List.mem_map.mp hread
    obtain ⟨other, hother, rfl⟩ := List.mem_map.mp hreads
    rw [List.length_map, List.length_map]
    exact frame.even column hcolumn other hother

/-! ## Names of rows -/

/-- The name of a row is its number in digits. -/
theorem toList_rowName (row : Nat) : (rowName row).toList = Decimal.naturalText row :=
  String.toList_ofList

/-- Different rows have different names. -/
theorem rowName_injective {row row' : Nat} (h : rowName row = rowName row') : row = row' := by
  have htext : Decimal.naturalText row = Decimal.naturalText row' := by
    rw [← toList_rowName, h, toList_rowName]
  rw [← Decimal.ofDigitChars_naturalText row, htext, Decimal.ofDigitChars_naturalText]

/-- The name of a row is a number of it. -/
theorem namesRow_rowName {row : Nat} (h : row < UInt64.size) : NamesRow (rowName row) row :=
  ⟨h, [], 0, Or.inl rfl, toList_rowName row⟩

/-! ## Columns -/

/-- The members of a column object, one for each row. -/
def columnMembers (start : Nat) (cells : List Json) : List (String × Json) :=
  (cells.zipIdx start).map fun cell => (rowName cell.2, cell.1)

/-- The members are named by the rows in order. -/
theorem names_columnMembers (start : Nat) (cells : List Json) :
    (columnMembers start cells).map Prod.fst = (List.range' start cells.length).map rowName := by
  unfold columnMembers
  rw [List.map_map, ← List.zipIdx_map_snd, List.map_map]
  rfl

/-- No two members have the same name. -/
theorem nodup_columnMembers (start : Nat) (cells : List Json) :
    ((columnMembers start cells).map Prod.fst).Nodup := by
  rw [names_columnMembers]
  exact List.Nodup.map (fun _ _ h => rowName_injective h) List.nodup_range'

/-- The member of a name is the cell in the row of that name. -/
theorem mem_columnMembers_iff (cells : List Json) (name : String) (cell : Json) :
    (name, cell) ∈ columnMembers 0 cells ↔ ∃ row, rowName row = name ∧ cells[row]? = some cell := by
  unfold columnMembers
  rw [List.mem_map]
  constructor
  · rintro ⟨⟨cell, row⟩, hmem, ⟨⟩⟩
    exact ⟨row, rfl, List.mk_mem_zipIdx_iff_getElem?.mp hmem⟩
  · rintro ⟨row, rfl, hcell⟩
    exact ⟨(cell, row), List.mk_mem_zipIdx_iff_getElem?.mpr hcell, rfl⟩

/-- The members of a column object name the rows. -/
theorem nameRows_columnJson {cells : List Json} (h : cells.length ≤ UInt64.size) :
    NameRows (Dict.ofList (columnMembers 0 cells)).entries := by
  have hperm := Dict.entries_ofList_perm (nodup_columnMembers 0 cells)
  have hmade : List.Forall₂ (fun (member : String × Json) row => NamesRow member.1 row)
      (columnMembers 0 cells) (cells.zipIdx.map Prod.snd) := by
    unfold columnMembers
    rw [List.forall₂_map_left_iff, List.forall₂_map_right_iff, List.forall₂_same]
    rintro ⟨cell, row⟩ hmem
    have hlt := (List.getElem?_eq_some_iff.mp (List.mk_mem_zipIdx_iff_getElem?.mp hmem)).1
    exact namesRow_rowName (Nat.lt_of_lt_of_le hlt h)
  obtain ⟨rows, hrows, hrowsPerm⟩ := List.perm_comp_forall₂ hperm hmade
  refine ⟨rows, hrows, ?_⟩
  have hlength : (Dict.ofList (columnMembers 0 cells)).entries.length = cells.length := by
    rw [hperm.length_eq]
    unfold columnMembers
    rw [List.length_map, List.length_zipIdx]
  rwa [List.zipIdx_map_snd, ← List.range_eq_range', ← hlength] at hrowsPerm

/-- A column object is read as the cells it was made of. -/
theorem columnOfJson_columnJson (name : String) {cells : List Json}
    (h : cells.length ≤ UInt64.size) : columnOfJson name (columnJson cells) = .ok cells := by
  have hperm := Dict.entries_ofList_perm (nodup_columnMembers 0 cells)
  obtain ⟨read, hread⟩ := exists_columnOfJson name (nameRows_columnJson h)
  obtain ⟨_, ⟨⟩, -, hold⟩ := holdMembers_of_columnOfJson hread
  have hcells : read = cells := by
    refine List.ext_getElem? fun row => Option.ext fun cell => ?_
    rw [hold.cell_iff]
    constructor
    · rintro ⟨key, hmem, hname⟩
      obtain ⟨other, rfl, hcell⟩ :=
        (mem_columnMembers_iff cells key cell).mp (hperm.mem_iff.mp hmem)
      have hlt := (List.getElem?_eq_some_iff.mp hcell).1
      rwa [hname.unique (namesRow_rowName (Nat.lt_of_lt_of_le hlt h))]
    · intro hcell
      have hlt := (List.getElem?_eq_some_iff.mp hcell).1
      refine ⟨rowName row, hperm.mem_iff.mpr ?_, namesRow_rowName (Nat.lt_of_lt_of_le hlt h)⟩
      exact (mem_columnMembers_iff cells _ cell).mpr ⟨row, rfl, hcell⟩
  rw [hcells] at hread
  exact hread

/-- The values of a column object are the cells of the column. -/
theorem mem_cells_of_mem_columnJson {cells : List Json} {member : String × Json}
    (h : member ∈ (Dict.ofList (columnMembers 0 cells)).entries) : member.2 ∈ cells := by
  rw [(Dict.entries_ofList_perm (nodup_columnMembers 0 cells)).mem_iff] at h
  obtain ⟨⟨cell, row⟩, hcell, rfl⟩ := List.mem_map.mp h
  exact List.fst_mem_of_mem_zipIdx hcell

/-- Every cell of a column is a value of its object. -/
theorem exists_mem_columnJson {cells : List Json} {cell : Json} (h : cell ∈ cells) :
    ∃ name, (name, cell) ∈ (Dict.ofList (columnMembers 0 cells)).entries := by
  obtain ⟨row, hrow⟩ := List.getElem?_of_mem h
  refine ⟨rowName row, ?_⟩
  rw [(Dict.entries_ofList_perm (nodup_columnMembers 0 cells)).mem_iff]
  exact (mem_columnMembers_iff cells _ _).mpr ⟨row, rfl, hrow⟩

/-- Members ascend within exactly when each of their values does. -/
theorem membersCanonical_iff (members : List (String × Json)) :
    Json.membersCanonical members ↔ ∀ member ∈ members, member.2.Canonical := by
  induction members with
  | nil => exact iff_of_true trivial fun member h => absurd h List.not_mem_nil
  | cons member rest ih => rw [Json.membersCanonical, ih, List.forall_mem_cons]

/-- The object of a column ascends if its cells do. -/
theorem canonical_columnJson {cells : List Json} (h : ∀ cell ∈ cells, cell.Canonical) :
    (columnJson cells).Canonical := by
  refine ⟨Dict.sorted_ofList _, (membersCanonical_iff _).mpr fun member hmember => ?_⟩
  exact h _ (mem_cells_of_mem_columnJson hmember)

/-- The object of a column is one level deeper than the deepest cell. -/
theorem depth_columnJson_le_iff (cells : List Json) (limit : Nat) :
    (columnJson cells).depth ≤ limit + 1 ↔ ∀ cell ∈ cells, cell.depth ≤ limit := by
  have hdepth : (columnJson cells).depth ≤ limit + 1 ↔
      ∀ member ∈ (Dict.ofList (columnMembers 0 cells)).entries, member.2.depth ≤ limit :=
    Nat.succ_le_succ_iff.trans (Json.memberDepth_le_iff _ _)
  rw [hdepth]
  constructor
  · intro h cell hcell
    obtain ⟨name, hmember⟩ := exists_mem_columnJson hcell
    exact h _ hmember
  · exact fun h member hmember => h _ (mem_cells_of_mem_columnJson hmember)

/-- What is read of the object of a column is the object of what is read of the cells. -/
theorem columnJson_map_reread (cells : List Json) :
    columnJson (cells.map Json.reread) = (columnJson cells).reread := by
  have hmembers : columnMembers 0 (cells.map Json.reread) =
      (columnMembers 0 cells).map fun member => (member.1, member.2.reread) := by
    unfold columnMembers
    rw [List.zipIdx_map, List.map_map, List.map_map]
    rfl
  have hentries := Dict.entries_ofList_map Json.reread (columnMembers 0 cells)
  rw [← hmembers, ← Json.rereadMembers_eq_map] at hentries
  exact congrArg Json.object hentries

/-! ## Frames -/

/-- The columns of a frame make the frame. -/
theorem ofColumns_columns (frame : DataFrame) :
    ofColumns frame.columns.entries = .ok frame := by
  rw [ofColumns_eq_ok_iff, Dict.ofList_of_sorted frame.sorted]
  exact ⟨Dict.nodup_of_sorted frame.sorted,
    ⟨frame.rowCount, fun column hcolumn => length_eq_rowCount hcolumn⟩, rfl⟩

/-- The object of a frame ascends. -/
theorem canonical_toJson {frame : DataFrame} (h : frame.Lawful) : frame.toJson.Canonical := by
  constructor
  · rw [List.pairwise_map]
    exact frame.sorted
  · rw [membersCanonical_iff]
    intro member hmember
    obtain ⟨column, hcolumn, rfl⟩ := List.mem_map.mp hmember
    exact canonical_columnJson (h.canonical column hcolumn)

/-- The object of a frame is two levels deeper than the deepest cell. -/
theorem depth_toJson_le_iff (frame : DataFrame) (limit : Nat) :
    frame.toJson.depth ≤ limit + 2 ↔ frame.DepthWithin limit := by
  have hdepth : frame.toJson.depth ≤ limit + 2 ↔ ∀ member ∈ frame.columns.entries.map
      (fun column => (column.1, columnJson column.2)), member.2.depth ≤ limit + 1 :=
    Nat.succ_le_succ_iff.trans (Json.memberDepth_le_iff _ _)
  rw [hdepth, List.forall_mem_map]
  exact forall₂_congr fun column _ => depth_columnJson_le_iff column.2 limit

/-- What is read of the object of a frame is the object of what is read of the frame. -/
theorem toJson_reread (frame : DataFrame) : frame.reread.toJson = frame.toJson.reread := by
  unfold toJson reread
  rw [Json.reread, Json.rereadMembers_eq_map, List.map_map, List.map_map]
  refine congrArg Json.object (List.map_congr_left fun column _ => ?_)
  exact congrArg (Prod.mk column.1) (columnJson_map_reread column.2)

/-- A frame keeps its number of rows and the order within its cells when it is read. -/
theorem Lawful.reread {frame : DataFrame} (h : frame.Lawful) : frame.reread.Lawful := by
  constructor
  · have hrows : frame.reread.rowCount = frame.rowCount := by
      unfold rowCount rowCount? DataFrame.reread
      rw [List.head?_map, Option.map_map]
      simp only [Function.comp_def, List.length_map]
    rw [hrows]
    exact h.rows_le
  · rintro _ hread _ hcells
    obtain ⟨column, hcolumn, rfl⟩ := List.mem_map.mp hread
    obtain ⟨cell, hcell, rfl⟩ := List.mem_map.mp hcells
    exact (h.canonical column hcolumn cell hcell).reread

/-- The object of a frame is read as the frame. -/
theorem ofJson_toJson {frame : DataFrame} (h : frame.Lawful) :
    ofJson frame.toJson = .ok frame := by
  have hcolumns : (frame.columns.entries.map fun column => (column.1, columnJson column.2)).mapM
      (fun member => do return (member.1, ← columnOfJson member.1 member.2)) =
        .ok frame.columns.entries := by
    rw [mapM_eq_ok_iff, List.forall₂_map_left_iff]
    refine List.forall₂_same.mpr fun column hcolumn => ?_
    have hrows : column.2.length ≤ UInt64.size := by
      rw [length_eq_rowCount hcolumn]
      exact h.rows_le
    dsimp only
    rw [columnOfJson_columnJson column.1 hrows]
    rfl
  unfold ofJson toJson
  dsimp only
  rw [hcolumns, ok_bind, ofColumns_columns frame]

/-! ## Texts -/

/-- How deep the cells of a frame may be nested for its text to be read: the frame and the column
add a level each. -/
def cellDepthLimit : Nat := 125

/-- What is read of the text of a frame whose cells are not nested too deep. -/
theorem ofCanonicalText_canonicalText {frame : DataFrame} (h : frame.Lawful)
    (depth : frame.DepthWithin cellDepthLimit) :
    ofCanonicalText frame.canonicalText = .ok frame.reread := by
  unfold ofCanonicalText canonicalText
  rw [Json.parse_text (canonical_toJson h) ((depth_toJson_le_iff frame _).mpr depth)]
  dsimp only
  rw [← toJson_reread, ofJson_toJson h.reread]

/-- The text of a frame with a cell that is nested too deep is no JSON that can be read. -/
theorem ofCanonicalText_eq_error {frame : DataFrame} (h : frame.Lawful)
    (deep : ¬ frame.DepthWithin cellDepthLimit) :
    ofCanonicalText frame.canonicalText = .error (.json .malformed) := by
  have hdeep : Json.depthLimit < frame.toJson.depth := by
    by_contra hle
    exact deep ((depth_toJson_le_iff frame _).mp (Nat.not_lt.mp hle))
  unfold ofCanonicalText canonicalText
  rw [Json.parse_text_eq (canonical_toJson h), Json.within_of_lt hdeep]

/-- Frames of one text are the same. -/
theorem canonicalText_injective {frame other : DataFrame} (hframe : frame.Lawful)
    (hother : other.Lawful) (h : frame.canonicalText = other.canonicalText) : frame = other := by
  have hjson := ofJson_toJson hframe
  rw [Json.text_injective h, ofJson_toJson hother] at hjson
  exact (Except.ok.inj hjson).symm

end DocumentStore.DataFrame
