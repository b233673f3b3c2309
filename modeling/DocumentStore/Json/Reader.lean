import DocumentStore.Json.Number
import DocumentStore.Json.Tree

/-!
# Reading JSON

A text is read by walking its tree from left to right; the first fault met decides the failure.
Arrays and objects may be nested in one another `127` deep. Besides the reader of arbitrary values
there are readers of wanted kinds, out of which readers of structures are made: a structure is
written as an object whose members may stand in any order, unknown ones being passed over, or as a
list of the members in their declared order.
-/

set_option autoImplicit false

namespace DocumentStore.Json

/-- How deep arrays and objects may be nested in one another. -/
def depthLimit : Nat := 127

/-- The failure at the end of a container's members, if they do not end properly. -/
def Close.check : Close → Except Failure Unit
  | .proper => .ok ()
  | .improper f => .error f
  | .afterComma f => .error f
  | .afterName name f => do
    discard name.value
    .error f

mutual

/-- The value of a tree in which `room` containers may still be nested in one another. -/
def Tree.value (room : Nat) : Tree → Except Failure Json
  | .null => .ok .null
  | .bool b => .ok (.bool b)
  | .brokenWord f => .error f
  | .number n => n.value.map .number
  | .brokenNumber f => .error f
  | .string s => s.value.map .string
  | .array items close =>
    if room = 0 then .error .malformed
    else do
      let values ← Tree.values (room - 1) items
      close.check
      return .array values
  | .object members close =>
    if room = 0 then .error .malformed
    else do
      let values ← Tree.memberValues (room - 1) members
      close.check
      return Json.ofMembers values
  | .broken f => .error f

/-- The values of the items of an array. -/
def Tree.values (room : Nat) : List Tree → Except Failure (List Json)
  | [] => .ok []
  | item :: rest => do
    let value ← item.value room
    return value :: (← Tree.values room rest)

/-- The named values of the members of an object. -/
def Tree.memberValues (room : Nat) :
    List (StringToken × Tree) → Except Failure (List (String × Json))
  | [] => .ok []
  | (token, member) :: rest => do
    let name ← token.value
    let value ← member.value room
    return (name, value) :: (← Tree.memberValues room rest)

end

/-- The value of a text that holds nothing besides it. -/
def parse (text : String) : Except Failure Json := do
  let reading := readingOf text
  let value ← reading.tree.value depthLimit
  if reading.trailing then .error .malformed else .ok value

/-- The failure of a string that is passed over: escaped code units need not be paired. -/
def StringToken.skip (s : StringToken) : Except Failure Unit :=
  match s.fault with
  | none => .ok ()
  | some f => .error f

/-- The failure at the end of a container that is passed over. -/
def Close.skip : Close → Except Failure Unit
  | .proper => .ok ()
  | .improper f => .error f
  | .afterComma f => .error f
  | .afterName name f => do
    name.skip
    .error f

mutual

/-- Passes over a value, nested to any depth. -/
def Tree.skip : Tree → Except Failure Unit
  | .null | .bool _ | .number _ => .ok ()
  | .brokenWord f => .error f
  | .brokenNumber _ => .error .malformed
  | .string s => s.skip
  | .array items close => do
    Tree.skipAll items
    close.skip
  | .object members close => do
    Tree.skipMembers members
    close.skip
  | .broken f => .error f

/-- Passes over the items of an array. -/
def Tree.skipAll : List Tree → Except Failure Unit
  | [] => .ok ()
  | item :: rest => do
    item.skip
    Tree.skipAll rest

/-- Passes over the members of an object. -/
def Tree.skipMembers : List (StringToken × Tree) → Except Failure Unit
  | [] => .ok ()
  | (name, member) :: rest => do
    name.skip
    member.skip
    Tree.skipMembers rest

end

/-- The failure of a reader that wants another kind of value: a fault of a leaf comes first, the
inside of a container is not looked at. -/
def Tree.unwanted : Tree → Failure
  | .null | .bool _ | .array _ _ | .object _ _ => .unsuitable
  | .brokenWord f => f
  | .number n =>
    match n.value with
    | .ok _ => .unsuitable
    | .error f => f
  | .brokenNumber f => f
  | .string s =>
    match s.value with
    | .ok _ => .unsuitable
    | .error f => f
  | .broken f => f

/-- Reads a string. -/
def Tree.readString : Tree → Except Failure String
  | .string s => s.value
  | tree => .error tree.unwanted

/-- Reads a truth value. -/
def Tree.readBool : Tree → Except Failure Bool
  | .bool b => .ok b
  | tree => .error tree.unwanted

/-- Reads a whole number that fits a signed 64-bit integer. -/
def Tree.readInt64 : Tree → Except Failure Int64
  | .number n =>
    match n.value with
    | .ok (.integer i _) =>
      if i ≤ Int64.maxValue.toInt then .ok (Int64.ofInt i) else .error .unsuitable
    | .ok (.float _ _) => .error .unsuitable
    | .error f => .error f
  | tree => .error tree.unwanted

/-- Reads null as nothing and anything else with `read`. -/
def Tree.readOptional {α : Type} (read : Tree → Except Failure α) :
    Tree → Except Failure (Option α)
  | .null => .ok none
  | tree => (read tree).map some

/-- Reads a list with `read` for its items. -/
def Tree.readList {α : Type} (room : Nat) (read : Tree → Except Failure α) :
    Tree → Except Failure (List α)
  | .array items close =>
    if room = 0 then .error .malformed
    else do
      let values ← items.mapM read
      close.check
      return values
  | tree => .error tree.unwanted

/-- Reads an object whose members are all strings. -/
def Tree.readStrings (room : Nat) : Tree → Except Failure (Dict String)
  | .object members close =>
    if room = 0 then .error .malformed
    else do
      let values ← members.mapM fun m => do
        let name ← m.1.value
        return (name, ← m.2.readString)
      close.check
      return Dict.ofList values
  | tree => .error tree.unwanted

/-- A structure to be read into a value of type `σ`: the names of its members in declared order, the
ones among them that may be missing, and how a member is read into the structure. -/
structure Shape (σ : Type) where
  names : List String
  optional : List String
  put : String → Tree → σ → Except Failure σ

/-- Reads the members of an object from left to right. A declared member may occur once; any other
one is passed over. The members found are returned with the structure. -/
def Shape.readMembers {σ : Type} (shape : Shape σ) :
    List (StringToken × Tree) → List String → σ → Except Failure (List String × σ)
  | [], found, state => .ok (found, state)
  | (token, member) :: rest, found, state => do
    let name ← token.value
    if name ∈ found then .error .unsuitable
    else if name ∈ shape.names then
      let state ← shape.put name member state
      shape.readMembers rest (name :: found) state
    else
      member.skip
      shape.readMembers rest found state

/-- Reads list items as the members with the given names, as far as there are items; the names and
items left over are returned with the structure. -/
def Shape.readItems {σ : Type} (shape : Shape σ) :
    List String → List Tree → σ → Except Failure (List String × List Tree × σ)
  | name :: names, item :: items, state => do
    let state ← shape.put name item state
    shape.readItems names items state
  | names, items, state => .ok (names, items, state)

/-- Reads a structure that starts as `state`. In an object every member that may not be missing has
to occur; in a list only members at the end may be missing, and nothing may follow the last one. -/
def Shape.read {σ : Type} (shape : Shape σ) (room : Nat) (state : σ) : Tree → Except Failure σ
  | .object members close =>
    if room = 0 then .error .malformed
    else do
      let (found, state) ← shape.readMembers members [] state
      match close with
      | .afterName token f =>
        let name ← token.value
        .error (if name ∈ found then .unsuitable else f)
      | close =>
        close.check
        if shape.names.all fun name => name ∈ found || name ∈ shape.optional then .ok state
        else .error .unsuitable
  | .array items close =>
    if room = 0 then .error .malformed
    else do
      let (missing, extra, state) ← shape.readItems shape.names items state
      match missing, extra with
      | _, _ :: _ => .error .malformed
      | [], [] =>
        match close with
        | .afterComma _ => .error .malformed
        | close => do
          close.check
          .ok state
      | missing, [] => do
        close.check
        if missing.all fun name => name ∈ shape.optional then .ok state else .error .unsuitable
  | tree => .error tree.unwanted

/-- Reads a whole text with `read`, which is told how many containers may be nested. -/
def readText {α : Type} (read : Nat → Tree → Except Failure α) (text : String) :
    Except Failure α := do
  let reading := readingOf text
  let value ← read depthLimit reading.tree
  if reading.trailing then .error .malformed else .ok value

end DocumentStore.Json
