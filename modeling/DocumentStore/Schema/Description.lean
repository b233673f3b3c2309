import DocumentStore.Json.Reader
import DocumentStore.Schema.Canonical

/-!
# Schema descriptions

The declared metadata fields of a store are described by plain data: a name, the name of a type,
nullability, annotations, and the children of a struct. Flags are never described. A description
is written as JSON text and read back from it; an empty map of annotations reads as none.
-/

set_option autoImplicit false

namespace DocumentStore

/-- The description of a field. -/
inductive FieldDescription where
  | mk (name type : String) (nullable : Bool) (annotations : Option (Dict String))
    (children : Option (List FieldDescription))

/-- The description of a struct of fields. -/
structure SchemaDescription where
  kind : String
  children : List FieldDescription

mutual

/-- Whether two field descriptions are the same. -/
def FieldDescription.same : FieldDescription → FieldDescription → Bool
  | .mk name type nullable annotations children, .mk name' type' nullable' annotations' children' =>
    name = name' && type = type' && nullable = nullable' && annotations = annotations' &&
      FieldDescription.sameChildren children children'

/-- Whether the children of two field descriptions are the same. -/
def FieldDescription.sameChildren :
    Option (List FieldDescription) → Option (List FieldDescription) → Bool
  | none, none => true
  | some children, some children' => FieldDescription.allSame children children'
  | _, _ => false

/-- Whether two lists of field descriptions agree position by position. -/
def FieldDescription.allSame : List FieldDescription → List FieldDescription → Bool
  | [], [] => true
  | d :: rest, d' :: rest' => FieldDescription.same d d' && FieldDescription.allSame rest rest'
  | _, _ => false

end

mutual

/-- Two field descriptions are found the same exactly when they are equal. -/
theorem FieldDescription.same_iff :
    ∀ d e : FieldDescription, FieldDescription.same d e = true ↔ d = e
  | .mk name type nullable annotations children,
      .mk name' type' nullable' annotations' children' => by
    simp [FieldDescription.same, FieldDescription.sameChildren_iff children, and_assoc]

/-- The test of two optional lists of children decides equality. -/
theorem FieldDescription.sameChildren_iff :
    ∀ c d : Option (List FieldDescription), FieldDescription.sameChildren c d = true ↔ c = d
  | none, d => by cases d <;> simp [FieldDescription.sameChildren]
  | some children, d => by
    cases d <;> simp [FieldDescription.sameChildren, FieldDescription.allSame_iff children]

/-- The test of two lists of descriptions decides equality. -/
theorem FieldDescription.allSame_iff :
    ∀ ds es : List FieldDescription, FieldDescription.allSame ds es = true ↔ ds = es
  | [], es => by cases es <;> simp [FieldDescription.allSame]
  | d :: ds, [] => by simp [FieldDescription.allSame]
  | d :: ds, e :: es => by
    simp [FieldDescription.allSame, FieldDescription.same_iff d, FieldDescription.allSame_iff ds]

end

instance : DecidableEq FieldDescription := fun d e =>
  decidable_of_iff _ (FieldDescription.same_iff d e)

instance : DecidableEq SchemaDescription := fun d e =>
  decidable_of_iff (d.kind = e.kind ∧ d.children = e.children) (by cases d; cases e; simp)

/-- The type name of structs. -/
def structName : String := "struct"

/-- The name of a leaf type, if it has one in descriptions. -/
def DataType.name? : DataType → Option String
  | .utf8 => some "string"
  | .int32 => some "int32"
  | .int64 => some "int64"
  | .float32 => some "float"
  | .float64 => some "double"
  | .boolean => some "bool"
  | .binary => some "binary"
  | .timestamp .second none => some "timestamp[s]"
  | _ => none

/-- The leaf type with a name. -/
def DataType.ofName? : String → Option DataType
  | "string" => some .utf8
  | "int32" => some .int32
  | "int64" => some .int64
  | "float" => some .float32
  | "double" => some .float64
  | "bool" => some .boolean
  | "binary" => some .binary
  | "timestamp[s]" => some (.timestamp .second none)
  | _ => none

mutual

/-- The description of a field. -/
def FieldDescription.ofField : FieldOf DataType → Except Error FieldDescription
  | ⟨name, type, nullable, annotations⟩ => do
    let (typeName, children) ← FieldDescription.ofType name type
    let annotations := if annotations.isEmpty then none else some annotations
    return .mk name typeName nullable annotations children

/-- The type name and children that describe the type of the field `name`. -/
def FieldDescription.ofType (name : String) :
    DataType → Except Error (String × Option (List FieldDescription))
  | .struct fields => do
    let children ← FieldDescription.ofFields fields
    return (structName, some children)
  | type =>
    match type.name? with
    | some typeName => .ok (typeName, none)
    | none => .error (.configuration (.undescribedType name type))

/-- The descriptions of fields, flags left out. -/
def FieldDescription.ofFields :
    List (FieldOf DataType) → Except Error (List FieldDescription)
  | [] => .ok []
  | field :: rest =>
    if field.name = Column.flags then FieldDescription.ofFields rest
    else do
      let description ← FieldDescription.ofField field
      return description :: (← FieldDescription.ofFields rest)

end

mutual

/-- The described field. -/
def FieldDescription.toField : FieldDescription → Except Error Field
  | .mk name typeName nullable annotations children => do
    let type ← FieldDescription.toType name typeName children
    return ⟨name, type, nullable, annotations.getD Dict.empty⟩

/-- The described type of the field `name`. -/
def FieldDescription.toType (name typeName : String) :
    Option (List FieldDescription) → Except Error DataType
  | none =>
    if typeName = structName then .error (.configuration (.structWithoutChildren name))
    else
      match DataType.ofName? typeName with
      | some type => .ok type
      | none => .error (.configuration (.unknownType typeName name))
  | some children =>
    if typeName = structName then do
      let fields ← FieldDescription.toFields children
      return .struct fields
    else .error (.configuration (.leafWithChildren name typeName))

/-- The described fields. -/
def FieldDescription.toFields : List FieldDescription → Except Error (List Field)
  | [] => .ok []
  | description :: rest => do
    let field ← FieldDescription.toField description
    return field :: (← FieldDescription.toFields rest)

end

namespace SchemaDescription

/-- The description of some fields, flags left out. -/
def ofFields (fields : List Field) : Except Error SchemaDescription := do
  let children ← FieldDescription.ofFields fields
  return ⟨structName, children⟩

/-- The described fields. -/
def toFields (description : SchemaDescription) : Except Error (List Field) :=
  if description.kind = structName then FieldDescription.toFields description.children
  else .error (.configuration (.descriptionNotStruct description.kind))

/-- The described struct type. -/
def toType (description : SchemaDescription) : Except Error DataType := do
  return .struct (← description.toFields)

end SchemaDescription

/-- Text entries as an object. -/
def Json.ofStrings (entries : Dict String) : Json :=
  .object (entries.entries.map fun entry => (entry.1, .string entry.2))

mutual

/-- The JSON form of a field description; children are written for structs only. -/
def FieldDescription.toJson : FieldDescription → Json
  | .mk name typeName nullable annotations children =>
    .object <|
      [("name", .string name), ("type", .string typeName), ("nullable", .bool nullable),
        ("metadata", (annotations.map Json.ofStrings).getD .null)] ++
      FieldDescription.childrenJson children

/-- The member that holds the children, if there is one. -/
def FieldDescription.childrenJson : Option (List FieldDescription) → List (String × Json)
  | none => []
  | some children => [("children", .array (FieldDescription.listJson children))]

/-- The JSON forms of field descriptions. -/
def FieldDescription.listJson : List FieldDescription → List Json
  | [] => []
  | description :: rest =>
    FieldDescription.toJson description :: FieldDescription.listJson rest

end

/-- The JSON form of a schema description. -/
def SchemaDescription.toJson (description : SchemaDescription) : Json :=
  .object
    [("type", .string description.kind),
      ("children", .array (FieldDescription.listJson description.children))]

/-- A field description of which some members have been read. -/
structure FieldDescription.Partial where
  name : String
  type : String
  nullable : Bool
  annotations : Option (Dict String)
  children : Option (List FieldDescription)

namespace FieldDescription

/-- The field description that has been read. -/
def Partial.complete (p : Partial) : FieldDescription :=
  .mk p.name p.type p.nullable p.annotations p.children

/-- How the members of a field description are read, with `room` containers to be nested in them and
`children` to read its children. -/
def shape (room : Nat) (children : Json.Tree → Except Json.Failure (List FieldDescription)) :
    Json.Shape Partial where
  names := ["name", "type", "nullable", "metadata", "children"]
  optional := ["metadata", "children"]
  put name tree p :=
    match name with
    | "name" => do return { p with name := ← tree.readString }
    | "type" => do return { p with type := ← tree.readString }
    | "nullable" => do return { p with nullable := ← tree.readBool }
    | "metadata" => do
      let entries ← tree.readOptional (Json.Tree.readStrings room)
      return { p with annotations := entries.filter fun d => !d.isEmpty }
    | _ => do return { p with children := ← tree.readOptional children }

/-- Reads a field description in which `room` containers may be nested in one another. -/
def ofTree : Nat → Json.Tree → Except Json.Failure FieldDescription
  | 0, tree => .error (match tree with
    | .object _ _ | .array _ _ => .malformed
    | tree => tree.unwanted)
  | 1, tree => do
    let p ← (shape 0 (Json.Tree.readList 0 fun _ => .error .malformed)).read 1
      ⟨"", "", false, none, none⟩ tree
    return p.complete
  | room + 2, tree => do
    let p ← (shape (room + 1) (Json.Tree.readList (room + 1) (ofTree room))).read (room + 2)
      ⟨"", "", false, none, none⟩ tree
    return p.complete

end FieldDescription

namespace SchemaDescription

/-- How the members of a schema description are read. -/
def shape (room : Nat) : Json.Shape SchemaDescription where
  names := ["type", "children"]
  optional := []
  put name tree description :=
    match name with
    | "type" => do return { description with kind := ← tree.readString }
    | _ => do
      let read := FieldDescription.ofTree (room - 1)
      return { description with children := ← tree.readList room read }

/-- Reads a schema description in which `room` containers may be nested in one another. -/
def ofTree (room : Nat) (tree : Json.Tree) : Except Json.Failure SchemaDescription :=
  (shape (room - 1)).read room ⟨"", []⟩ tree

/-- Reads the JSON text of a schema description. -/
def parse (text : String) : Except Error SchemaDescription :=
  match Json.readText ofTree text with
  | .ok description => .ok description
  | .error failure => .error (.json failure)

/-- The JSON text of a schema description. -/
def text (description : SchemaDescription) : String := description.toJson.text

end SchemaDescription

end DocumentStore
