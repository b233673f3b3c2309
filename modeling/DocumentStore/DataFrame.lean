import DocumentStore.Error
import DocumentStore.Json.Reader

/-!
# Data frames

A data frame is a table of JSON values, its columns sorted by name and equally long. It is stored
as one text, a JSON object of columns, each an object whose members are named by row number. Equal
frames have equal texts.
-/

set_option autoImplicit false

namespace DocumentStore

/-- A table of JSON values by column. The columns ascend by name and are equally long. -/
structure DataFrame where
  columns : Dict (List Json)
  sorted : columns.Sorted
  even : ∀ column ∈ columns.entries, ∀ other ∈ columns.entries, column.2.length = other.2.length

namespace DataFrame

/-- The frame without columns. -/
def empty : DataFrame where
  columns := Dict.empty
  sorted := .nil
  even := by simp [Dict.empty]

/-- The common length of the columns, if there are any. -/
def rowCount? (frame : DataFrame) : Option Nat :=
  frame.columns.entries.head?.map fun column => column.2.length

/-- The number of rows: the length of any column. -/
def rowCount (frame : DataFrame) : Nat := frame.rowCount?.getD 0

/-- The number of columns. -/
def columnCount (frame : DataFrame) : Nat := frame.columns.size

/-- The cells of a column. -/
def column? (frame : DataFrame) (name : String) : Option (List Json) := frame.columns.get? name

/-- Every column is as long as the first one. -/
theorem length_eq {frame : DataFrame} {column : String × List Json}
    (h : column ∈ frame.columns.entries) : frame.rowCount? = some column.2.length := by
  unfold rowCount?
  cases hentries : frame.columns.entries with
  | nil => simp [hentries] at h
  | cons first rest =>
    have hfirst := frame.even first (hentries ▸ List.mem_cons_self ..) column h
    simp [hfirst]

/-- Adds a column, which must be as long as those before it and have a name of its own. -/
def addColumn (frame : DataFrame) (name : String) (cells : List Json) : Except Error DataFrame :=
  if hrows : frame.rowCount? = none ∨ frame.rowCount? = some cells.length then
    if (frame.column? name).isSome then .error (.validation (.repeatedColumn name))
    else
      .ok
        { columns := frame.columns.insert name cells
          sorted := Dict.sorted_insert _ frame.sorted name cells
          even := by
            have hlength : ∀ column ∈ (frame.columns.insert name cells).entries,
                column.2.length = cells.length := by
              intro column hcolumn
              rcases Dict.mem_insertEntry hcolumn with rfl | hheld
              · rfl
              · simpa [length_eq hheld] using hrows
            intro column hcolumn other hother
            rw [hlength column hcolumn, hlength other hother] }
  else .error (.validation (.raggedColumn name cells.length frame.rowCount))

/-- The frame of the given columns, which must be equally long and differ in their names. -/
def ofColumns (columns : List (String × List Json)) : Except Error DataFrame :=
  columns.foldlM (fun frame column => frame.addColumn column.1 column.2) empty

/-- The name of a row in the stored text. -/
def rowName (row : Nat) : String := String.ofList (Decimal.naturalText row)

/-- A column as an object with one member for each row. -/
def columnJson (cells : List Json) : Json :=
  Json.ofMembers (cells.zipIdx.map fun cell => (rowName cell.2, cell.1))

/-- The frame as one object of columns. -/
def toJson (frame : DataFrame) : Json :=
  .object (frame.columns.entries.map fun column => (column.1, columnJson column.2))

/-- The stored text of a frame. -/
def canonicalText (frame : DataFrame) : String := frame.toJson.text

/-- The row that a member name stands for: decimal digits, perhaps after a plus sign, of a number
that fits 64 bits. -/
def rowOfName? (name : String) : Option Nat :=
  let digits :=
    match name.toList with
    | '+' :: digits => digits
    | digits => digits
  if digits.isEmpty || !digits.all (fun c => '0' ≤ c && c ≤ '9') then none
  else
    let row := digits.foldl (fun n c => 10 * n + (c.toNat - '0'.toNat)) 0
    if row < UInt64.size then some row else none

/-- Puts the members of a column object into their rows. -/
def fillRows (name : String) (slots : List (Option Json)) :
    List (String × Json) → Except Error (List (Option Json))
  | [] => .ok slots
  | (key, cell) :: rest =>
    match rowOfName? key with
    | none => .error (.validation (.rowKeyNotNumeric name key))
    | some row =>
      match slots[row]? with
      | some none => fillRows name (slots.set row (some cell)) rest
      | _ => .error (.validation (.rowKeyNotDense name key))

/-- The cells of a column object: its members are named by the numbers of the rows from zero on,
each once. -/
def columnOfJson (name : String) : Json → Except Error (List Json)
  | .object members => do
    let slots ← fillRows name (List.replicate members.length none) members
    return slots.map fun slot => slot.getD .null
  | _ => .error (.validation (.columnNotObject name))

/-- The frame of an object of columns. -/
def ofJson : Json → Except Error DataFrame
  | .object members => do
    let columns ← members.mapM fun member => do
      return (member.1, ← columnOfJson member.1 member.2)
    ofColumns columns
  | _ => .error (.validation .frameNotObject)

/-- Reads the stored text of a frame. -/
def ofCanonicalText (text : String) : Except Error DataFrame :=
  match Json.parse text with
  | .ok value => ofJson value
  | .error failure => .error (.json failure)

/-- Whether two frames have equal columns, numbers compared by value. -/
def numericEq (a b : DataFrame) : Bool :=
  Json.membersEq (a.columns.entries.map fun column => (column.1, .array column.2))
    (b.columns.entries.map fun column => (column.1, .array column.2))

end DataFrame

end DocumentStore
