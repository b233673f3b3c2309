import DocumentStore.Proofs.JsonText
import DocumentStore.Schema.Description

/-!
# Reading written structures

A reader finds something in a value when it reads it from whatever tree spells the value. What the
readers of wanted kinds find in the values of that kind is said once for each of them. A reader of a
structure puts one member after the other into it, so what it finds follows from what each member
changes, if the object has the members that the structure wants, each of them once.
-/

set_option autoImplicit false

namespace DocumentStore.Json

variable {α β σ : Type}

/-- The reader finds the result in every tree that spells the value. -/
def Finds (read : Tree → Except Failure α) (value : Json) (result : α) : Prop :=
  ∀ tree : Tree, tree.Spells value → read tree = .ok result

/-- What is found in a value is read from its text. -/
theorem readText_of_finds {read : Nat → Tree → Except Failure α} {value : Json} {result : α}
    (h : Finds (read depthLimit) value result) : readText read value.text = .ok result := by
  obtain ⟨tree, hreading, hspells⟩ := exists_readingOf value
  unfold readText
  rw [hreading]
  dsimp only
  rw [h tree hspells]
  rfl

/-- A reader that makes something of what another one reads. -/
theorem Finds.map {read : Tree → Except Failure α} {value : Json} {a : α}
    (h : Finds read value a) (f : α → β) :
    Finds (fun tree => do return f (← read tree)) value (f a) := by
  intro tree hspells
  dsimp only
  rw [h tree hspells]
  rfl

/-! ## Leaves -/

/-- A string is found. -/
theorem finds_string (s : String) : Finds Tree.readString (.string s) s := by
  rintro tree ⟨⟩
  assumption

/-- A truth value is found. -/
theorem finds_bool (b : Bool) : Finds Tree.readBool (.bool b) b := by
  rintro tree ⟨⟩
  rfl

/-- A 64-bit integer is found. -/
theorem finds_int64 (n : Int64) : Finds Tree.readInt64 (ofInt64 n) n := by
  rintro tree ⟨⟩
  next token h =>
  rw [Tree.readInt64, (value_of_writes_integer h).2]
  dsimp only
  rw [if_pos n.toInt_le, Int64.ofInt_toInt]

/-- Where there is no null, an optional value is read as a value. -/
theorem readOptional_of_ne_null (read : Tree → Except Failure α) {tree : Tree}
    (h : tree ≠ .null) : tree.readOptional read = (read tree).map some := by
  cases tree with
  | null => exact absurd rfl h
  | _ => rfl

/-- Null is found as no value. -/
theorem finds_null (read : Tree → Except Failure α) :
    Finds (Tree.readOptional read) .null none := by
  rintro tree ⟨⟩
  rfl

/-- A value that is there is found by its own reader. -/
theorem Finds.optional {read : Tree → Except Failure α} {value : Json} {a : α}
    (h : Finds read value a) (present : value ≠ .null) :
    Finds (Tree.readOptional read) value (some a) := by
  intro tree hspells
  have hnull : tree ≠ .null := by
    rintro rfl
    cases hspells
    exact present rfl
  rw [readOptional_of_ne_null read hnull, h tree hspells]
  rfl

/-- Null stands for nothing, and what is there is found by its own reader. -/
theorem finds_optional {read : Tree → Except Failure β} {toJson : α → Json} {result : α → β}
    (x : Option α) (present : ∀ a ∈ x, toJson a ≠ .null)
    (h : ∀ a ∈ x, Finds read (toJson a) (result a)) :
    Finds (Tree.readOptional read) ((x.map toJson).getD .null) (x.map result) := by
  cases x with
  | none => exact finds_null read
  | some a => exact (h a rfl).optional (present a rfl)

/-! ## Lists and maps -/

/-- A reader of items finds their results one by one. -/
theorem mapM_of_spellItems {read : Tree → Except Failure α} {items : List Json}
    {results : List α} (h : List.Forall₂ (Finds read) items results) {trees : List Tree}
    (hspell : Tree.SpellItems trees items) : trees.mapM read = .ok results := by
  rw [mapM_eq_ok_iff]
  induction h generalizing trees with
  | nil =>
    cases hspell
    exact .nil
  | cons hitem _ ih =>
    obtain _ | ⟨hspells, hrest⟩ := hspell
    exact .cons (hitem _ hspells) (ih hrest)

/-- A list is found, where there is room, when its items are. -/
theorem finds_list {read : Tree → Except Failure α} {room : Nat} (hroom : room ≠ 0)
    {items : List Json} {results : List α} (h : List.Forall₂ (Finds read) items results) :
    Finds (Tree.readList room read) (.array items) results := by
  rintro tree ⟨⟩
  next trees hspell =>
  rw [Tree.readList, if_neg hroom, mapM_of_spellItems h hspell]
  rfl

/-- The reader of named strings finds the entries that are written. -/
theorem mapM_of_spellMembers {entries : List (String × String)}
    {reads : List (StringToken × Tree)}
    (hspell : Tree.SpellMembers reads (entries.map fun entry => (entry.1, .string entry.2))) :
    (reads.mapM fun m => do
      let name ← m.1.value
      return (name, ← m.2.readString)) = .ok entries := by
  rw [mapM_eq_ok_iff]
  induction entries generalizing reads with
  | nil =>
    cases hspell
    exact .nil
  | cons entry rest ih =>
    obtain _ | ⟨hname, hvalue, hrest⟩ := hspell
    refine .cons ?_ (ih hrest)
    dsimp only
    rw [hname, ok_bind, finds_string _ _ hvalue]
    rfl

/-- Annotations are found where there is room. -/
theorem finds_strings {room : Nat} (hroom : room ≠ 0) {entries : Dict String}
    (sorted : entries.Sorted) :
    Finds (Tree.readStrings room) (ofStrings entries) entries := by
  rintro tree ⟨⟩
  next reads hspell =>
  rw [Tree.readStrings, if_neg hroom, mapM_of_spellMembers hspell, ok_bind]
  show Except.ok (Dict.ofList entries.entries) = .ok entries
  rw [Dict.ofList_of_sorted sorted]

/-! ## Structures -/

variable {shape : Shape σ}

/-- The members put into a structure one after the other, from the first state to the last. -/
inductive Shape.Puts (shape : Shape σ) : List (String × Json) → σ → σ → Prop
  | nil {state : σ} : Puts shape [] state state
  | cons {name : String} {value : Json} {members : List (String × Json)} {state next last : σ}
      (hput : Finds (fun tree => shape.put name tree state) value next)
      (hrest : Puts shape members next last) : Puts shape ((name, value) :: members) state last

/-- An object with these names has the members that the structure wants, each of them once. -/
structure Shape.Fits (shape : Shape σ) (names : List String) : Prop where
  nodup : names.Nodup
  declared : ∀ name ∈ names, name ∈ shape.names
  complete : ∀ name ∈ shape.names, name ∈ names ∨ name ∈ shape.optional

/-- Members that have not been found before are put into the structure. -/
theorem Shape.readMembers_of_puts {members : List (String × Json)} {state last : σ}
    (h : shape.Puts members state last) (nodup : (members.map Prod.fst).Nodup)
    (declared : ∀ name ∈ members.map Prod.fst, name ∈ shape.names) {found : List String}
    (new : ∀ name ∈ members.map Prod.fst, name ∉ found) {reads : List (StringToken × Tree)}
    (hspell : Tree.SpellMembers reads members) :
    shape.readMembers reads found state =
      .ok ((members.map Prod.fst).reverse ++ found, last) := by
  induction h generalizing found reads with
  | nil =>
    cases hspell
    rfl
  | @cons name value members state next last hput _ ih =>
    obtain _ | ⟨hname, hvalue, hrest⟩ := hspell
    rw [List.map_cons, List.forall_mem_cons] at declared new
    obtain ⟨hnew, nodup⟩ := List.nodup_cons.mp nodup
    have hfound : ∀ other ∈ members.map Prod.fst, other ∉ name :: found := by
      intro other hother hmem
      rcases List.mem_cons.mp hmem with rfl | hmem
      · exact hnew hother
      · exact new.2 other hother hmem
    have hnext : shape.put name _ state = .ok next := hput _ hvalue
    rw [Shape.readMembers, hname, ok_bind, if_neg new.1, if_pos declared.1, hnext, ok_bind,
      ih nodup declared.2 hfound hrest, List.map_cons, List.reverse_cons, List.append_assoc]
    rfl

/-- An object with the wanted members is read as the structure that they are put into. -/
theorem Shape.finds {members : List (String × Json)} {state last : σ}
    (h : shape.Puts members state last) (fits : shape.Fits (members.map Prod.fst)) {room : Nat}
    (hroom : room ≠ 0) : Finds (shape.read room state) (.object members) last := by
  rintro tree ⟨⟩
  next reads hspell =>
  have hmembers := readMembers_of_puts h fits.nodup fits.declared (fun _ _ => List.not_mem_nil)
    hspell
  have hall : (shape.names.all fun name =>
      name ∈ (members.map Prod.fst).reverse ++ [] || name ∈ shape.optional) = true := by
    simpa using fits.complete
  rw [Shape.read, if_neg hroom, hmembers, ok_bind]
  dsimp only
  rw [if_pos hall]
  rfl

end DocumentStore.Json
