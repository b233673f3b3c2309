import DocumentStore.Batch.OfRows
import DocumentStore.Batch.ToRows
import DocumentStore.Proofs.NamedValues
import DocumentStore.Proofs.Outcome

/-!
# Columns of fitting cells

A cell fits a type when it is null or a value of the type, a struct having all of its members and no
null where a member must not be null. From cells that fit its type a column is always built, and it
holds what it was built from: as many entries, nulls where the cells are null, and each cell with
the members of its structs in the order of the type. A null struct leaves nulls in all of its
members, which its mask covers, so they do no harm.
-/

set_option autoImplicit false

namespace DocumentStore

/-- A type that columns can be built with and read with. -/
inductive DataType.Storable : DataType → Prop
  | leaf {type : DataType} (h : type.isStorageLeaf = true) : Storable type
  | vector {item : Field} {size : Int32} (item_eq : item.type = .float32)
      (size_pos : 0 < size.toInt) : Storable (.fixedSizeList item size)
  | struct {fields : List Field} (below : ∀ field ∈ fields, Storable field.type) :
      Storable (.struct fields)

/-- The members of a storable struct are storable. -/
theorem DataType.Storable.members {fields : List Field} (storable : (DataType.struct fields).Storable) :
    ∀ field ∈ fields, field.type.Storable := by
  cases storable with
  | leaf h => cases h
  | struct below => exact below

namespace Cell

/-- The cell is null or a value of the type. -/
inductive Fits : DataType → Cell → Prop
  | null {type : DataType} : Fits type .null
  | leaf {type : DataType} {cell : Cell} (h : cell.hasLeafType type = true) : Fits type cell
  | vector {item : Field} {size : Int32} {values : List Binary32}
      (h : values.length = size.toInt.toNat) : Fits (.fixedSizeList item size) (.vector values)
  | struct {fields : List Field} {record : Row}
      (there : ∀ field ∈ fields, ∃ cell, record.get? field.name = some cell ∧
        (field.nullable = false → cell.isNull = false))
      (below : ∀ field ∈ fields, ∀ cell, record.get? field.name = some cell →
        Fits field.type cell) : Fits (.struct fields) (.struct record)

/-- The member of a struct; null where there is none. -/
def member (name : String) : Cell → Cell
  | .struct record => (record.get? name).getD .null
  | _ => .null

mutual

/-- The cell with the members of its structs as the type lists them. -/
def arranged : DataType → Cell → Cell
  | .struct fields, .struct record =>
    .struct (Record.ofList (arrangedMembers (.struct record) fields))
  | _, cell => cell

/-- The members of a struct that is arranged by some fields. -/
def arrangedMembers (cell : Cell) : List (FieldOf DataType) → List (String × Cell)
  | [] => []
  | ⟨name, type, _, _⟩ :: rest =>
    (name, arranged type (cell.member name)) :: arrangedMembers cell rest

end

/-- The arranged members are the fields with their values, arranged by their types. -/
theorem arrangedMembers_eq_map (cell : Cell) (fields : List Field) :
    arrangedMembers cell fields =
      fields.map fun field => (field.name, arranged field.type (cell.member field.name)) := by
  induction fields with
  | nil => rfl
  | cons field rest ih => rw [arrangedMembers, List.map_cons, ih]

/-- A value without members is arranged already. -/
theorem arranged_leaf {type : DataType} (leaf : type.members? = none) (cell : Cell) :
    arranged type cell = cell := by
  cases type <;> first | rfl | cases leaf

end Cell

/-! ## Masks -/

namespace Mask

/-- The validity of a column tells which of its cells are null. -/
theorem isNullAt_ofValidity {cells : List Cell} {row : Nat} {cell : Cell}
    (h : cells[row]? = some cell) :
    isNullAt (ofValidity (cells.map fun cell => !cell.isNull)) row = cell.isNull := by
  unfold ofValidity
  split
  · next hall =>
    rw [List.all_map, List.all_eq_true] at hall
    have hvalid := hall cell (List.mem_of_getElem? h)
    exact (Bool.not_eq_true' _ |>.mp hvalid).symm
  · unfold isNullAt
    dsimp only
    rw [List.getElem?_map, h, Option.map_some]
    cases cell.isNull <;> rfl

/-- The validity of a column counts its null cells. -/
theorem nullCount_ofValidity (cells : List Cell) :
    nullCount (ofValidity (cells.map fun cell => !cell.isNull)) = cells.countP Cell.isNull := by
  unfold ofValidity
  split
  · next hall =>
    rw [List.all_map, List.all_eq_true] at hall
    symm
    rw [nullCount, List.countP_eq_zero]
    intro cell hcell hnull
    have hvalid := hall cell hcell
    rw [Function.comp_apply, hnull] at hvalid
    cases hvalid
  · unfold nullCount
    dsimp only
    rw [List.countP_map]
    apply List.countP_congr
    intro cell _
    rw [Function.comp_apply, Bool.not_not]

/-- A validity buffer that is there is the validity it was made of. -/
theorem length_of_ofValidity {validity mask : List Bool} (h : ofValidity validity = some mask) :
    mask = validity := by
  unfold ofValidity at h
  split at h
  · cases h
  · cases h
    rfl

end Mask

namespace ColumnData

/-- The column holds the cells. -/
structure Holds (data : ColumnData) (type : DataType) (cells : List Cell) : Prop where
  length_eq : data.length = cells.length
  nullCount_eq : data.nullCount = cells.countP Cell.isNull
  isNullAt_eq : ∀ (row : Nat) (cell : Cell), cells[row]? = some cell →
    data.isNullAt row = cell.isNull
  cellAt_eq : ∀ (row : Nat) (cell : Cell), cells[row]? = some cell →
    data.cellAt row = .ok (Cell.arranged type cell)

variable {name : String} {type : DataType} {cells : List Cell}

/-! ## Leaves -/

/-- A cell that fits a leaf is null or has its type. -/
theorem isNull_or_hasLeafType {cell : Cell} (h : type.isStorageLeaf = true)
    (fits : cell.Fits type) : (cell.isNull || cell.hasLeafType type) = true := by
  cases fits with
  | null => rfl
  | leaf hcell => rw [hcell, Bool.or_true]
  | vector | struct => cases h

/-- Cells that fit a leaf pass the check of its column. -/
theorem checkLeaves_eq_ok (h : type.isStorageLeaf = true) (fits : ∀ cell ∈ cells, cell.Fits type) :
    checkLeaves name type cells = .ok () := by
  induction cells with
  | nil => rfl
  | cons cell rest ih =>
    rw [checkLeaves, if_pos (isNull_or_hasLeafType h (fits cell (List.mem_cons_self ..)))]
    exact ih fun other hother => fits other (List.mem_cons_of_mem _ hother)

/-- A leaf has no members. -/
theorem members?_eq_none (h : type.isStorageLeaf = true) : type.members? = none := by
  cases type <;> first | rfl | cases h

/-- A leaf column tells which of its cells are null. -/
theorem isNullAt_leaf (h : type.isStorageLeaf = true) {row : Nat} {cell : Cell}
    (hcell : cells[row]? = some cell) : (leaf type cells).isNullAt row = cell.isNull := by
  cases type with
  | null => cases h
  | _ => simp only [isNullAt, hcell]

/-- A leaf column holds the cells that it is built of. -/
theorem holds_leaf (h : type.isStorageLeaf = true) : (leaf type cells).Holds type cells where
  length_eq := rfl
  nullCount_eq := by
    cases type with
    | null => cases h
    | _ => rfl
  isNullAt_eq := fun row cell hcell => isNullAt_leaf h hcell
  cellAt_eq := by
    intro row cell hcell
    have hreadable : type.isReadableLeaf = true := by
      cases type with
      | timestamp unit zone => cases unit <;> first | rfl | cases h
      | _ => first | rfl | cases h
    rw [cellAt, isNullAt_leaf h hcell, Cell.arranged_leaf (members?_eq_none h)]
    by_cases hnull : cell.isNull = true
    · rw [if_pos hnull]
      cases cell with
      | null => rfl
      | _ => cases hnull
    · rw [if_neg hnull, if_pos hreadable, hcell, Option.getD_some]

/-- Building a leaf column is checking its cells. -/
theorem ofCells_leaf (h : type.isStorageLeaf = true) :
    ofCells name cells type = (do
      checkLeaves name type cells
      return .leaf type cells) := by
  cases type with
  | struct | fixedSizeList => cases h
  | _ => rw [ofCells, if_pos h] <;> simp

/-- Cells that fit a leaf form a column that holds them. -/
theorem exists_ofCells_leaf (h : type.isStorageLeaf = true)
    (fits : ∀ cell ∈ cells, cell.Fits type) :
    ∃ data, ofCells name cells type = .ok data ∧ data.Holds type cells := by
  refine ⟨.leaf type cells, ?_, holds_leaf h⟩
  rw [ofCells_leaf h, checkLeaves_eq_ok h fits]
  rfl

/-! ## Vectors -/

/-- The numbers that a cell puts into a vector column; zeros for a null. -/
def numbersOf (width : Nat) : Cell → List Binary32
  | .vector values => values
  | _ => List.replicate width Floating.zero

/-- A vector that fits has the width of its column. -/
theorem length_numbersOf {item : Field} {size : Int32} {cell : Cell}
    (fits : cell.Fits (.fixedSizeList item size)) :
    (numbersOf size.toInt.toNat cell).length = size.toInt.toNat := by
  cases fits with
  | null => exact List.length_replicate
  | leaf h => cases cell <;> cases h
  | vector h => exact h

/-- Vectors that fit are flattened, null ones as placeholders, beside their validity. -/
theorem flatten_eq_ok {item : Field} {size : Int32}
    (fits : ∀ cell ∈ cells, cell.Fits (.fixedSizeList item size)) :
    flatten name (.fixedSizeList item size) size.toInt.toNat cells =
      .ok (cells.flatMap (numbersOf size.toInt.toNat), cells.map fun cell => !cell.isNull) := by
  induction cells with
  | nil => rfl
  | cons cell rest ih =>
    have hrest := ih fun other hother => fits other (List.mem_cons_of_mem _ hother)
    have hcell := fits cell (List.mem_cons_self ..)
    cases hcell with
    | null =>
      rw [flatten, hrest]
      rfl
    | leaf h => cases cell <;> cases h
    | vector h =>
      rw [flatten, if_pos h, hrest]
      rfl

/-- Blocks of one width lie one after the other. -/
theorem take_drop_flatMap {α β : Type} {f : α → List β} {width : Nat} {items : List α}
    (hwidth : ∀ item ∈ items, (f item).length = width) {position : Nat} {item : α}
    (h : items[position]? = some item) :
    ((items.flatMap f).drop (position * width)).take width = f item := by
  induction items generalizing position with
  | nil => cases h
  | cons first rest ih =>
    have hfirst := hwidth first (List.mem_cons_self ..)
    cases position with
    | zero =>
      cases h
      rw [Nat.zero_mul, List.drop_zero, List.flatMap_cons, List.take_left' hfirst]
    | succ position =>
      have hdrop : (position + 1) * width = (f first).length + position * width := by
        rw [hfirst, Nat.succ_mul, Nat.add_comm]
      rw [List.flatMap_cons, hdrop, List.drop_append, List.drop_of_length_le (by omega),
        List.nil_append, Nat.add_sub_cancel_left]
      exact ih (fun other hother => hwidth other (List.mem_cons_of_mem _ hother)) h

/-- Lists of one length are as long together as their number times that length. -/
theorem length_flatMap_const {α β : Type} {f : α → List β} {width : Nat} {items : List α}
    (hwidth : ∀ item ∈ items, (f item).length = width) :
    (items.flatMap f).length = items.length * width := by
  induction items with
  | nil => rw [List.flatMap_nil, List.length_nil, List.length_nil, Nat.zero_mul]
  | cons first rest ih =>
    rw [List.flatMap_cons, List.length_append, hwidth first (List.mem_cons_self ..),
      ih fun other hother => hwidth other (List.mem_cons_of_mem _ hother), List.length_cons,
      Nat.succ_mul, Nat.add_comm]

/-- A vector column holds the cells that it is built of. -/
theorem holds_vectors {item : Field} {size : Int32} (hitem : item.type = .float32)
    (hsize : 0 < size.toInt) (fits : ∀ cell ∈ cells, cell.Fits (.fixedSizeList item size)) :
    (vectors item size (cells.flatMap (numbersOf size.toInt.toNat))
      (Mask.ofValidity (cells.map fun cell => !cell.isNull))).Holds
        (.fixedSizeList item size) cells where
  length_eq := by
    rw [length, if_neg (by omega), length_flatMap_const fun cell hcell =>
      length_numbersOf (fits cell hcell)]
    exact Nat.mul_div_cancel _ (by omega)
  nullCount_eq := Mask.nullCount_ofValidity cells
  isNullAt_eq := fun row cell hcell => Mask.isNullAt_ofValidity hcell
  cellAt_eq := by
    intro row cell hcell
    have hfits := fits cell (List.mem_of_getElem? hcell)
    rw [cellAt, Mask.isNullAt_ofValidity hcell]
    cases hfits with
    | null => rfl
    | leaf h => cases cell <;> cases h
    | @vector _ _ values h =>
      have hnull : ¬ (Cell.vector values).isNull = true := Bool.false_ne_true
      rw [if_neg hnull, if_pos hitem]
      dsimp only
      rw [take_drop_flatMap (fun cell hcell => length_numbersOf (fits cell hcell)) hcell]
      rfl

/-- Cells that fit a vector type form a column that holds them. -/
theorem exists_ofCells_vector {item : Field} {size : Int32} (hitem : item.type = .float32)
    (hsize : 0 < size.toInt) (fits : ∀ cell ∈ cells, cell.Fits (.fixedSizeList item size)) :
    ∃ data, ofCells name cells (.fixedSizeList item size) = .ok data ∧
      data.Holds (.fixedSizeList item size) cells := by
  refine ⟨_, ?_, holds_vectors hitem hsize fits⟩
  rw [ofCells, if_neg (by omega), flatten_eq_ok fits, ok_bind]
  dsimp only
  rw [if_pos hitem]
  rfl

/-! ## Structs -/

section Structs

variable {fields : List Field}

/-- Cells that fit a struct have its validity. -/
theorem structValidity_eq_ok (fits : ∀ cell ∈ cells, cell.Fits (.struct fields)) :
    structValidity name (.struct fields) cells = .ok (cells.map fun cell => !cell.isNull) := by
  induction cells with
  | nil => rfl
  | cons cell rest ih =>
    have hrest := ih fun other hother => fits other (List.mem_cons_of_mem _ hother)
    have hcell := fits cell (List.mem_cons_self ..)
    cases hcell with
    | null | struct =>
      rw [structValidity, hrest]
      rfl
    | leaf h => cases cell <;> cases h

/-- Cells that fit a struct have its members. -/
theorem memberCells_eq_ok {column : String} (fits : ∀ cell ∈ cells, cell.Fits (.struct fields))
    {field : Field} (hfield : field ∈ fields) :
    memberCells column field.name cells = .ok (cells.map (Cell.member field.name)) := by
  induction cells with
  | nil => rfl
  | cons cell rest ih =>
    have hrest := ih fun other hother => fits other (List.mem_cons_of_mem _ hother)
    have hcell := fits cell (List.mem_cons_self ..)
    cases hcell with
    | null =>
      rw [memberCells, hrest]
      · rfl
      · rintro record ⟨⟩
    | leaf h => cases cell <;> cases h
    | struct there =>
      obtain ⟨held, hheld, -⟩ := there field hfield
      rw [memberCells, hheld, hrest, List.map_cons, Cell.member, hheld]
      rfl

/-- The member of a cell that fits a struct fits its field. -/
theorem fits_member {cell : Cell} (fits : cell.Fits (.struct fields)) {field : Field}
    (hfield : field ∈ fields) : (cell.member field.name).Fits field.type := by
  cases fits with
  | null => exact .null
  | leaf h => cases cell <;> cases h
  | struct there below =>
    obtain ⟨held, hheld, -⟩ := there field hfield
    rw [Cell.member, hheld, Option.getD_some]
    exact below field hfield held hheld

/-- Only below a null struct can a member that must not be null be one. -/
theorem isNull_of_member_isNull {cell : Cell} (fits : cell.Fits (.struct fields)) {field : Field}
    (hfield : field ∈ fields) (hnullable : field.nullable = false)
    (h : (cell.member field.name).isNull = true) : cell.isNull = true := by
  cases fits with
  | null => rfl
  | leaf h => cases cell <;> cases h
  | struct there =>
    obtain ⟨held, hheld, hnull⟩ := there field hfield
    rw [Cell.member, hheld, Option.getD_some, hnull hnullable] at h
    cases h

/-- The columns hold the members of the cells. -/
abbrev HoldMembers (cells : List Cell) (fields : List Field) (columns : List ColumnData) : Prop :=
  List.Forall₂ (fun field data => Holds data field.type (cells.map (Cell.member field.name)))
    fields columns

/-- Member columns are built when each of them can be. -/
theorem exists_ofMemberCells {column : String}
    (h : ∀ field ∈ fields,
      memberCells column field.name cells = .ok (cells.map (Cell.member field.name)) ∧
      ∃ data, ofCells field.name (cells.map (Cell.member field.name)) field.type = .ok data ∧
        data.Holds field.type (cells.map (Cell.member field.name))) :
    ∃ columns, ofMemberCells column cells fields = .ok columns ∧
      HoldMembers cells fields columns := by
  induction fields with
  | nil => exact ⟨[], rfl, .nil⟩
  | cons field rest ih =>
    obtain ⟨hcells, data, hdata, hholds⟩ := h field (List.mem_cons_self ..)
    obtain ⟨columns, hcolumns, hrest⟩ :=
      ih fun other hother => h other (List.mem_cons_of_mem _ hother)
    refine ⟨data :: columns, ?_, .cons hholds hrest⟩
    rw [ofMemberCells, hcells, ok_bind, hdata, ok_bind, hcolumns]
    rfl

/-- The nulls of members that must not be null are masked. -/
theorem checkMembers_eq_ok {columns : List ColumnData} (hcolumns : HoldMembers cells fields columns)
    (hmasked : ∀ field ∈ fields, field.nullable = false → ∀ cell ∈ cells,
      (cell.member field.name).isNull = true → cell.isNull = true) :
    checkMembers (Mask.ofValidity (cells.map fun cell => !cell.isNull)) cells.length fields
      columns = .ok () := by
  induction hcolumns with
  | nil => rfl
  | @cons field data fields columns hholds _ ih =>
    have hlength : data.length = cells.length := by
      rw [hholds.length_eq, List.length_map]
    have hnulls : ¬ (!field.nullable && (List.range cells.length).any fun row =>
        data.isNullAt row &&
          !(Mask.ofValidity (cells.map fun cell => !cell.isNull)).isNullAt row) = true := by
      intro h
      rw [Bool.and_eq_true, List.any_eq_true] at h
      obtain ⟨hnullable, row, hrow, h⟩ := h
      rw [Bool.and_eq_true] at h
      have hlt : row < cells.length := List.mem_range.mp hrow
      obtain ⟨cell, hcell⟩ : ∃ cell, cells[row]? = some cell :=
        ⟨cells[row], List.getElem?_eq_getElem hlt⟩
      have hmember : (cells.map (Cell.member field.name))[row]? =
          some (cell.member field.name) := by
        rw [List.getElem?_map, hcell, Option.map_some]
      rw [hholds.isNullAt_eq row _ hmember, Mask.isNullAt_ofValidity hcell] at h
      have hnull := hmasked field (List.mem_cons_self ..) (Bool.not_eq_true' _ |>.mp hnullable)
        cell (List.mem_of_getElem? hcell) h.1
      rw [hnull] at h
      cases h.2
    rw [checkMembers, if_neg (not_not_intro hlength), if_neg hnulls]
    exact ih fun other hother => hmasked other (List.mem_cons_of_mem _ hother)

/-- A struct column is built when its members pass the check of nulls. -/
theorem ofMembers_eq_ok {columns : List ColumnData} (hcolumns : HoldMembers cells fields columns)
    (hcheck : checkMembers (Mask.ofValidity (cells.map fun cell => !cell.isNull)) cells.length
      fields columns = .ok ()) :
    ofMembers fields columns cells.length (Mask.ofValidity (cells.map fun cell => !cell.isNull)) =
      .ok (.struct fields columns cells.length
        (Mask.ofValidity (cells.map fun cell => !cell.isNull))) := by
  cases hcolumns with
  | nil => rfl
  | @cons field first fields columns hholds _ =>
    have hlength : first.length = cells.length := by
      rw [hholds.length_eq, List.length_map]
    unfold ofMembers
    dsimp only
    rw [hlength]
    split
    · next validity hmask =>
      have hvalidity : validity.length = cells.length := by
        rw [Mask.length_of_ofValidity hmask, List.length_map]
      rw [if_neg (not_not_intro hvalidity), hcheck]
      rfl
    · rw [hcheck]
      rfl

/-- A row of member columns is the arranged member of the cell of that row. -/
theorem cellsAt_eq_ok {columns : List ColumnData} (hcolumns : HoldMembers cells fields columns)
    {row : Nat} {cell : Cell} (hcell : cells[row]? = some cell) :
    cellsAt row columns =
      .ok (fields.map fun field => Cell.arranged field.type (cell.member field.name)) := by
  induction hcolumns with
  | nil => rfl
  | @cons field data fields columns hholds _ ih =>
    have hmember : (cells.map (Cell.member field.name))[row]? = some (cell.member field.name) := by
      rw [List.getElem?_map, hcell, Option.map_some]
    rw [cellsAt, hholds.cellAt_eq row _ hmember, ok_bind, ih]
    rfl

/-- A struct column holds the cells that its members are built of. -/
theorem holds_struct {columns : List ColumnData} (hcolumns : HoldMembers cells fields columns)
    (fits : ∀ cell ∈ cells, cell.Fits (.struct fields)) :
    (struct fields columns cells.length
      (Mask.ofValidity (cells.map fun cell => !cell.isNull))).Holds (.struct fields) cells where
  length_eq := rfl
  nullCount_eq := Mask.nullCount_ofValidity cells
  isNullAt_eq := fun row cell hcell => Mask.isNullAt_ofValidity hcell
  cellAt_eq := by
    intro row cell hcell
    have hfits := fits cell (List.mem_of_getElem? hcell)
    rw [cellAt, Mask.isNullAt_ofValidity hcell]
    cases hfits with
    | null => rfl
    | leaf h => cases cell <;> cases h
    | @struct _ record =>
      have hnull : ¬ (Cell.struct record).isNull = true := Bool.false_ne_true
      rw [if_neg hnull, cellsAt_eq_ok hcolumns hcell, ok_bind, Cell.arranged,
        Cell.arrangedMembers_eq_map, List.zip_map']
      rfl

end Structs

/-! ## All columns -/

/-- From cells that fit its type a column can be built, and it holds them. -/
theorem exists_ofCells (storable : type.Storable) (name : String)
    (fits : ∀ cell ∈ cells, cell.Fits type) :
    ∃ data, ofCells name cells type = .ok data ∧ data.Holds type cells := by
  induction storable generalizing name cells with
  | leaf h => exact exists_ofCells_leaf h fits
  | vector hitem hsize => exact exists_ofCells_vector hitem hsize fits
  | @struct fields _ ih =>
    obtain ⟨columns, hcolumns, hmembers⟩ := @exists_ofMemberCells cells fields name (by
      intro field hfield
      refine ⟨memberCells_eq_ok fits hfield, ih field hfield field.name ?_⟩
      intro member hmember
      obtain ⟨cell, hcell, rfl⟩ := List.mem_map.mp hmember
      exact fits_member (fits cell hcell) hfield)
    have hcheck := checkMembers_eq_ok hmembers fun field hfield hnullable cell hcell =>
      isNull_of_member_isNull (fits cell hcell) hfield hnullable
    refine ⟨_, ?_, holds_struct hmembers fits⟩
    rw [ofCells, structValidity_eq_ok fits, ok_bind, hcolumns, ok_bind,
      ofMembers_eq_ok hmembers hcheck]

end ColumnData

end DocumentStore
