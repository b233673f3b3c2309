import DocumentStore.Proofs.DescriptionText

/-!
# What has been read is read back

A reader reads back when it finds whatever it reads, from any tree, in what is written of it. The
readers of leaves do, readers of lists do when those of their items do, and a reader of a structure
does when every member it puts into the structure keeps what is needed for that. So a description
that comes from any text at all is read from its own text as it is, and one that has been written
and read changes no more.
-/

set_option autoImplicit false

namespace DocumentStore

namespace Json

variable {α σ : Type} {room : Nat}

/-- Whatever the reader reads is found in its JSON form. -/
def ReadsBack (read : Tree → Except Failure α) (toJson : α → Json) : Prop :=
  ∀ tree a, read tree = .ok a → Finds read (toJson a) a

/-- What is read from a text is read from a tree. -/
theorem exists_tree_of_readText {read : Nat → Tree → Except Failure α} {text : String} {a : α}
    (h : readText read text = .ok a) : ∃ tree, read depthLimit tree = .ok a := by
  obtain ⟨found, hfound, h⟩ := (bind_eq_ok_iff _ _ _).mp h
  split at h
  · cases h
  · cases h
    exact ⟨_, hfound⟩

/-! ## Readers of wanted kinds -/

variable {read : Tree → Except Failure α} {toJson : α → Json}

/-- A value that is there is read as without the choice. -/
theorem readOptional_eq_some {tree : Tree} {a : α} (h : tree.readOptional read = .ok (some a)) :
    read tree = .ok a := by
  by_cases hnull : tree = .null
  · subst hnull
    cases h
  · rw [readOptional_of_ne_null read hnull] at h
    obtain ⟨found, hfound, ⟨⟩⟩ := (map_eq_ok_iff _ _ _).mp h
    exact hfound

/-- Optional values are read back if the values are and none of them is written as null. -/
theorem ReadsBack.optional (h : ReadsBack read toJson) (present : ∀ a, toJson a ≠ .null) :
    ReadsBack (Tree.readOptional read) fun x => (x.map toJson).getD .null := by
  intro tree x hread
  have hfinds := finds_optional x (fun a _ => present a) fun a ha =>
    h tree a (readOptional_eq_some (ha ▸ hread))
  rwa [Option.map_id'] at hfinds

/-- Only where there is room a list is read, and its items have been read one by one. -/
theorem readList_eq_ok {tree : Tree} {results : List α}
    (h : tree.readList room read = .ok results) :
    room ≠ 0 ∧ ∀ a ∈ results, ∃ item, read item = .ok a := by
  unfold Tree.readList at h
  split at h
  · next items close =>
    split at h
    · cases h
    next hroom =>
    obtain ⟨found, hfound, h⟩ := (bind_eq_ok_iff _ _ _).mp h
    obtain ⟨-, -, ⟨⟩⟩ := (bind_eq_ok_iff _ _ _).mp h
    refine ⟨hroom, fun a ha => ?_⟩
    obtain ⟨item, -, hitem⟩ := exists_related ((mapM_eq_ok_iff _ _ _).mp hfound).flip ha
    exact ⟨item, hitem⟩
  · cases h

/-- Lists are read back if their items are. -/
theorem ReadsBack.list (h : ReadsBack read toJson) :
    ReadsBack (Tree.readList room read) fun results => .array (results.map toJson) := by
  intro tree results hread
  obtain ⟨hroom, hitems⟩ := readList_eq_ok hread
  refine finds_list hroom ?_
  rw [List.forall₂_map_left_iff, List.forall₂_same]
  intro a ha
  obtain ⟨item, hitem⟩ := hitems a ha
  exact h item a hitem

/-- Annotations are read back. -/
theorem readsBack_strings : ReadsBack (Tree.readStrings room) ofStrings := by
  intro tree entries h
  unfold Tree.readStrings at h
  split at h
  · split at h
    · cases h
    next hroom =>
    obtain ⟨found, -, h⟩ := (bind_eq_ok_iff _ _ _).mp h
    obtain ⟨-, -, ⟨⟩⟩ := (bind_eq_ok_iff _ _ _).mp h
    exact finds_strings hroom (Dict.sorted_ofList found)
  · cases h

/-! ## Readers of structures -/

section Run

variable {shape : Shape σ} {P : List String → σ → Prop}
  (step : ∀ {found name tree state next}, P found state → shape.put name tree state = .ok next →
    P (name :: found) next)

include step

/-- What every member keeps, of the names found so far and the structure, holds at the end. -/
theorem Shape.readMembers_run {reads : List (StringToken × Tree)} {found : List String} {state : σ}
    {result : List String × σ} (h : P found state)
    (hread : shape.readMembers reads found state = .ok result) : P result.1 result.2 := by
  induction reads generalizing found state with
  | nil =>
    cases hread
    exact h
  | cons member rest ih =>
    obtain ⟨token, tree⟩ := member
    rw [Shape.readMembers] at hread
    obtain ⟨name, -, hread⟩ := (bind_eq_ok_iff _ _ _).mp hread
    split at hread
    · cases hread
    split at hread
    · obtain ⟨next, hput, hread⟩ := (bind_eq_ok_iff _ _ _).mp hread
      exact ih (step h hput) hread
    · obtain ⟨-, -, hread⟩ := (bind_eq_ok_iff _ _ _).mp hread
      exact ih h hread

/-- The same for items, after which each name has been found or is left over. -/
theorem Shape.readItems_run {names : List String} {items : List Tree} {found : List String}
    {state : σ} {result : List String × List Tree × σ} (h : P found state)
    (hread : shape.readItems names items state = .ok result) :
    ∃ all, P all result.2.2 ∧ found ⊆ all ∧ ∀ name ∈ names, name ∈ all ∨ name ∈ result.1 := by
  induction names generalizing items found state with
  | nil =>
    cases hread
    exact ⟨found, h, List.Subset.refl _, fun name hname => absurd hname List.not_mem_nil⟩
  | cons first names ih =>
    cases items with
    | nil =>
      cases hread
      exact ⟨found, h, List.Subset.refl _, fun name hname => Or.inr hname⟩
    | cons item items =>
      rw [Shape.readItems] at hread
      obtain ⟨next, hput, hread⟩ := (bind_eq_ok_iff _ _ _).mp hread
      obtain ⟨all, hall, hsub, hnames⟩ := ih (step h hput) hread
      refine ⟨all, hall, fun name hname => hsub (List.mem_cons_of_mem _ hname), ?_⟩
      exact List.forall_mem_cons.mpr ⟨Or.inl (hsub (List.mem_cons_self ..)), hnames⟩

/-- A structure is read where there is room, and with all the members that may not be missing. -/
theorem Shape.read_run {state last : σ} {tree : Tree} (h : P [] state)
    (hread : shape.read room state tree = .ok last) :
    room ≠ 0 ∧ ∃ found, P found last ∧
      ∀ name ∈ shape.names, name ∈ found ∨ name ∈ shape.optional := by
  unfold Shape.read at hread
  split at hread
  · split at hread
    · cases hread
    next hroom =>
    obtain ⟨⟨found, read⟩, hmembers, hread⟩ := (bind_eq_ok_iff _ _ _).mp hread
    have hrun := readMembers_run step h hmembers
    dsimp only at hread
    split at hread
    · obtain ⟨name, -, hname⟩ := (bind_eq_ok_iff _ _ _).mp hread
      cases hname
    · obtain ⟨-, -, hread⟩ := (bind_eq_ok_iff _ _ _).mp hread
      split at hread
      · next hall =>
        cases hread
        exact ⟨hroom, found, hrun, by simpa using hall⟩
      · cases hread
  · split at hread
    · cases hread
    next hroom =>
    obtain ⟨⟨missing, extra, read⟩, hitems, hread⟩ := (bind_eq_ok_iff _ _ _).mp hread
    obtain ⟨found, hrun, -, hnames⟩ := readItems_run step h hitems
    dsimp only at hread hnames
    refine ⟨hroom, found, ?_⟩
    split at hread
    · cases hread
    · split at hread
      · cases hread
      · obtain ⟨-, -, ⟨⟩⟩ := (bind_eq_ok_iff _ _ _).mp hread
        exact ⟨hrun, fun name hname => Or.inl ((hnames name hname).resolve_right List.not_mem_nil)⟩
    · obtain ⟨-, -, hread⟩ := (bind_eq_ok_iff _ _ _).mp hread
      split at hread
      · next hall =>
        cases hread
        have hoptional : ∀ name ∈ missing, name ∈ shape.optional := by simpa using hall
        exact ⟨hrun, fun name hname => (hnames name hname).imp_right (hoptional name)⟩
      · cases hread
  · cases hread

end Run

end Json

/-! ## Fields -/

namespace FieldDescription

variable {room : Nat} {read : Json.Tree → Except Json.Failure (List FieldDescription)}

/-- The annotations and the children that have been read so far are found in what is written of
them, and the annotations are some. -/
structure Partial.Found (room : Nat)
    (read : Json.Tree → Except Json.Failure (List FieldDescription)) (p : Partial) : Prop where
  annotations : Json.Finds (Json.Tree.readOptional (Json.Tree.readStrings room))
    ((p.annotations.map Json.ofStrings).getD .null) p.annotations
  some_entries : (p.annotations.filter fun entries => !entries.isEmpty) = p.annotations
  children : ∀ children ∈ p.children, Json.Finds read (.array (listJson children)) children

/-- Annotations that are found stay so when an empty dictionary is dropped. -/
theorem Partial.Found.filter {p : Partial} {annotations : Option (Dict String)}
    (h : p.Found room read)
    (hannotations : Json.Finds (Json.Tree.readOptional (Json.Tree.readStrings room))
      ((annotations.map Json.ofStrings).getD .null) annotations) :
    Partial.Found room read
      { p with annotations := annotations.filter fun entries => !entries.isEmpty } := by
  refine ⟨?_, by simp [Option.filter_filter], h.children⟩
  cases annotations with
  | none => exact hannotations
  | some entries =>
    rw [Option.filter_some]
    split
    · exact hannotations
    · exact Json.finds_null _

/-- Every member that is put into a field keeps what has been found. -/
theorem Partial.Found.put
    (hread : Json.ReadsBack read fun children => .array (listJson children)) {name : String}
    {tree : Json.Tree} {p next : Partial} (h : p.Found room read)
    (hput : (shape room read).put name tree p = .ok next) : next.Found room read := by
  unfold shape at hput
  dsimp only at hput
  split at hput
  · obtain ⟨_, -, ⟨⟩⟩ := (bind_eq_ok_iff _ _ _).mp hput
    exact ⟨h.annotations, h.some_entries, h.children⟩
  · obtain ⟨_, -, ⟨⟩⟩ := (bind_eq_ok_iff _ _ _).mp hput
    exact ⟨h.annotations, h.some_entries, h.children⟩
  · obtain ⟨_, -, ⟨⟩⟩ := (bind_eq_ok_iff _ _ _).mp hput
    exact ⟨h.annotations, h.some_entries, h.children⟩
  · obtain ⟨entries, hentries, ⟨⟩⟩ := (bind_eq_ok_iff _ _ _).mp hput
    exact h.filter (Json.readsBack_strings.optional (fun _ => Json.noConfusion) _ _ hentries)
  · obtain ⟨children, hchildren, ⟨⟩⟩ := (bind_eq_ok_iff _ _ _).mp hput
    refine ⟨h.annotations, h.some_entries, ?_⟩
    rintro found rfl
    exact hread _ _ (Json.readOptional_eq_some hchildren)

/-- A field of which everything has been found is found. -/
theorem Partial.Found.complete {p : Partial}
    (h : p.Found room (Json.Tree.readList room (ofTree (room - 1)))) :
    Json.Finds (ofTree (room + 1)) p.complete.toJson p.complete := by
  obtain ⟨name, type, nullable, annotations, children⟩ := p
  have hfinds : Json.Finds (ofTree (room + 1))
      (toJson (.mk name type nullable annotations children))
      (.mk name type nullable (annotations.filter fun entries => !entries.isEmpty) children) := by
    cases children with
    | none => exact finds_leaf h.annotations
    | some children => exact finds_struct h.annotations (h.children children rfl)
  have hfilter := h.some_entries
  dsimp only at hfilter
  rwa [hfilter] at hfinds

/-- Children that have been read are found in what is written of them. -/
theorem readsBack_children (h : Json.ReadsBack (ofTree (room - 1)) toJson) :
    Json.ReadsBack (Json.Tree.readList room (ofTree (room - 1)))
      fun children => .array (listJson children) := by
  simpa only [listJson_eq_map] using h.list

/-- Whatever is read as a field is read back. -/
theorem readsBack_ofTree (room : Nat) : Json.ReadsBack (ofTree room) toJson := by
  induction room using Nat.strongRecOn with
  | ind room ih =>
    intro tree description h
    cases room with
    | zero => cases h
    | succ room =>
      have hread := readsBack_children (ih (room - 1) (by omega))
      rw [ofTree_succ] at h
      obtain ⟨p, hp, rfl⟩ := (map_eq_ok_iff _ _ _).mp h
      have hnone : Partial.Found room (Json.Tree.readList room (ofTree (room - 1)))
          ⟨"", "", false, none, none⟩ :=
        ⟨Json.finds_null _, rfl, fun children h => absurd h (Option.not_mem_none children)⟩
      obtain ⟨-, -, hfound, -⟩ := Json.Shape.read_run
        (P := fun _ p => p.Found room (Json.Tree.readList room (ofTree (room - 1))))
        (fun h hput => h.put hread hput) hnone hp
      exact hfound.complete

end FieldDescription

/-! ## Schemas and stores -/

namespace SchemaDescription

/-- A member of a schema description is its kind, which leaves the children, or its children. -/
theorem children_of_put {room : Nat} {name : String} {tree : Json.Tree}
    {description next : SchemaDescription} (h : (shape room).put name tree description = .ok next) :
    name = "type" ∧ next.children = description.children ∨
      tree.readList room (FieldDescription.ofTree (room - 1)) = .ok next.children := by
  unfold shape at h
  dsimp only at h
  split at h
  · obtain ⟨kind, -, ⟨⟩⟩ := (bind_eq_ok_iff _ _ _).mp h
    exact Or.inl ⟨rfl, rfl⟩
  · obtain ⟨children, hchildren, ⟨⟩⟩ := (bind_eq_ok_iff _ _ _).mp h
    exact Or.inr hchildren

/-- Whatever is read as a schema description is read back. -/
theorem readsBack_ofTree (room : Nat) : Json.ReadsBack (ofTree room) toJson := by
  intro tree description h
  have hread := FieldDescription.readsBack_children
    (FieldDescription.readsBack_ofTree (room - 1 - 1))
  -- before the children have been read there is nothing of them to be found
  obtain ⟨hroom, found, hchildren, hnames⟩ := Json.Shape.read_run
    (P := fun found description => "children" ∈ found →
      Json.Finds (Json.Tree.readList (room - 1) (FieldDescription.ofTree (room - 1 - 1)))
        (.array (FieldDescription.listJson description.children)) description.children)
    (fun h hput => by
      rcases children_of_put hput with ⟨rfl, hsame⟩ | hlist
      · rw [hsame]
        exact fun hmem => h (by simpa using hmem)
      · exact fun _ => hread _ _ hlist)
    (fun h => absurd h List.not_mem_nil) h
  have hmem := (hnames "children" (by simp [shape])).resolve_right (by simp [shape])
  exact finds_of_children hroom (hchildren hmem)

/-- A schema description that has been read is read from its own text. -/
theorem parse_text_of_parse {text : String} {description : SchemaDescription}
    (h : parse text = .ok description) : parse description.text = .ok description := by
  unfold parse at h
  split at h
  · next hread =>
    cases h
    obtain ⟨tree, htree⟩ := Json.exists_tree_of_readText hread
    unfold parse SchemaDescription.text
    rw [Json.readText_of_finds (readsBack_ofTree _ tree _ htree)]
  · cases h

end SchemaDescription

namespace StoreConfig

/-- A member of a store description leaves the metadata schema or is the metadata schema. -/
theorem metadataSchema_of_put {room : Nat} {name : String} {tree : Json.Tree}
    {config next : StoreConfig} (h : (shape room).put name tree config = .ok next) :
    next.metadataSchema = config.metadataSchema ∨
      tree.readOptional (SchemaDescription.ofTree room) = .ok next.metadataSchema := by
  unfold shape at h
  dsimp only at h
  split at h
  · obtain ⟨database, -, ⟨⟩⟩ := (bind_eq_ok_iff _ _ _).mp h
    exact Or.inl rfl
  · obtain ⟨tableName, -, ⟨⟩⟩ := (bind_eq_ok_iff _ _ _).mp h
    exact Or.inl rfl
  · obtain ⟨schema, hschema, ⟨⟩⟩ := (bind_eq_ok_iff _ _ _).mp h
    exact Or.inr hschema
  · obtain ⟨width, -, ⟨⟩⟩ := (bind_eq_ok_iff _ _ _).mp h
    exact Or.inl rfl
  · obtain ⟨policy, -, ⟨⟩⟩ := (bind_eq_ok_iff _ _ _).mp h
    exact Or.inl rfl

/-- Whatever is read as a store description is read back. -/
theorem readsBack_ofTree (room : Nat) : Json.ReadsBack (ofTree room) toJson := by
  intro tree config h
  have hread := (SchemaDescription.readsBack_ofTree (room - 1)).optional
    fun _ => Json.noConfusion
  obtain ⟨hroom, -, hschema, -⟩ := Json.Shape.read_run
    (P := fun _ config =>
      Json.Finds (Json.Tree.readOptional (SchemaDescription.ofTree (room - 1)))
        ((config.metadataSchema.map SchemaDescription.toJson).getD .null) config.metadataSchema)
    (fun h hput => by
      rcases metadataSchema_of_put hput with hsame | hschema
      · rwa [hsame]
      · exact hread _ _ hschema)
    (Json.finds_null _) h
  exact finds_of_metadataSchema hroom hschema

/-- A store description that has been read, from whatever text, is read from its own text. -/
theorem parse_text_of_parse {text : String} {config : StoreConfig}
    (h : parse text = .ok config) : parse config.text = .ok config := by
  unfold parse at h
  split at h
  · next found hread =>
    split at h
    · cases h
    next hnamed =>
    cases h
    obtain ⟨tree, htree⟩ := Json.exists_tree_of_readText hread
    unfold parse StoreConfig.text
    rw [Json.readText_of_finds (readsBack_ofTree _ tree _ htree)]
    exact if_neg hnamed
  · cases h

/-- A store description with a table name, whose annotations ascend as those of every map do and
whose text is nested at most 127 levels deep, is read from that text as the same description without
the annotations that have no entry, at any depth of the metadata schema; and what has been read is
written and read once more without any change. -/
theorem parse_text_withoutEmptyAnnotations (config : StoreConfig) (named : config.tableName ≠ "")
    (sorted : config.SortedAnnotations) (depth : config.toJson.depth ≤ 127) :
    parse config.text = .ok config.withoutEmptyAnnotations ∧
      parse config.withoutEmptyAnnotations.text = .ok config.withoutEmptyAnnotations := by
  have hread : parse config.text = .ok config.withoutEmptyAnnotations :=
    (parse_text_eq sorted depth).trans (if_neg named)
  exact ⟨hread, parse_text_of_parse hread⟩

/-- A struct with empty annotations above a leaf with an annotation and a struct without members,
and a width that no table could have. -/
theorem parse_text_withoutEmptyAnnotations_nested :
    let kind : FieldDescription := .mk "kind" "string" false (some ⟨[("unit", "s")]⟩) none
    let bare : FieldDescription := .mk "bare" structName false (some Dict.empty) (some [])
    let config : StoreConfig := ⟨"data", "docs", some ⟨structName,
      [.mk "tags" structName true (some Dict.empty) (some [kind, bare])]⟩, some (-1), .fail⟩
    config.tableName ≠ "" ∧ config.SortedAnnotations ∧ config.toJson.depth ≤ 127 ∧
      parse config.text = .ok ⟨"data", "docs", some ⟨structName, [.mk "tags" structName true none
        (some [kind, .mk "bare" structName false none (some [])])]⟩, some (-1), .fail⟩ := by
  intro kind bare config
  have hempty : ∀ entries ∈ some (Dict.empty : Dict String), entries.Sorted := by
    rintro entries ⟨⟩
    exact .nil
  have hkind : kind.SortedAnnotations := by
    refine .leaf ?_
    rintro entries ⟨⟩
    exact List.pairwise_singleton _ _
  have hbare : bare.SortedAnnotations := .struct hempty (by simp)
  have sorted : config.SortedAnnotations := by
    rintro description ⟨⟩ child hchild
    rw [List.mem_singleton.mp hchild]
    exact .struct hempty (by simp [hkind, hbare])
  have named : config.tableName ≠ "" := by decide
  have depth : config.toJson.depth ≤ 127 := by decide
  exact ⟨named, sorted, depth, (parse_text_withoutEmptyAnnotations config named sorted depth).1⟩

end StoreConfig

end DocumentStore
