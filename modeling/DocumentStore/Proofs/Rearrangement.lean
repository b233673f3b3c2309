import DocumentStore.Proofs.TableSchema

/-!
# Rearranged schemas

Columns and the members of structs may be put in another order at any level. A table that has been
rearranged is a document table again, with rearranged metadata: names are the same at each level,
and flags have no levels below them that could change.
-/

set_option autoImplicit false

namespace DocumentStore

namespace Field

/-- The fields come in another order, or those of structs below them do. -/
inductive Rearranged : List Field → List Field → Prop
  | perm {fields fields' : List Field} (h : fields.Perm fields') : Rearranged fields fields'
  | within {before after members members' : List Field} {name : String} {nullable : Bool}
      {annotations : Dict String} (h : Rearranged members members') :
      Rearranged (before ++ ⟨name, .struct members, nullable, annotations⟩ :: after)
        (before ++ ⟨name, .struct members', nullable, annotations⟩ :: after)
  | trans {first second third : List Field} (h : Rearranged first second)
      (h' : Rearranged second third) : Rearranged first third

/-- What holds of all fields still does when one of them is replaced by another it holds of. -/
theorem forall_mem_replaced {P : Field → Prop} {before after : List Field} {field field' : Field}
    (h : ∀ other ∈ before ++ field :: after, P other) (hfield : P field') :
    ∀ other ∈ before ++ field' :: after, P other := by
  rw [List.forall_mem_append, List.forall_mem_cons] at h ⊢
  exact ⟨h.1, hfield, h.2.2⟩

/-- A field between others is declared between those declared. -/
theorem declared_append_cons {before after : List Field} {field : Field}
    (h : field.name ≠ Column.flags) :
    declared (before ++ field :: after) = declared before ++ field :: declared after := by
  unfold declared
  rw [List.filter_append, List.filter_cons_of_pos]
  exact decide_eq_true h

/-- The flags between fields are not declared. -/
theorem declared_append_flags {before after : List Field} {field : Field}
    (h : field.name = Column.flags) :
    declared (before ++ field :: after) = declared before ++ declared after := by
  unfold declared
  rw [List.filter_append, List.filter_cons_of_neg (by simp [h])]

/-- The flags of a level depend on its names only. -/
theorem flagsOf_declared_perm {fields fields' : List Field}
    (h : (fields.map FieldOf.name).Perm (fields'.map FieldOf.name)) :
    (flagsOf (declared fields)).Perm (flagsOf (declared fields')) := by
  have hflags : ∀ fields : List Field, flagsOf (declared fields) =
      ((fields.map FieldOf.name).filter fun name => name ≠ Column.flags).map
        fun name => .plain name .boolean false := by
    intro fields
    unfold flagsOf declared
    rw [List.filter_map, List.map_map]
    rfl
  rw [hflags, hflags]
  exact (h.filter _).map _

/-- A level with the same names is flagged if it still has the flags of the level. -/
theorem HasFlags.of_names {fields fields' : List Field} (level : HasFlags fields)
    (hnames : (fields.map FieldOf.name).Perm (fields'.map FieldOf.name))
    (hflags : ∀ (flags : List Field) (annotations : Dict String),
      (⟨Column.flags, .struct flags, false, annotations⟩ : Field) ∈ fields →
      ∃ flags' : List Field, flags.Perm flags' ∧
        (⟨Column.flags, .struct flags', false, annotations⟩ : Field) ∈ fields') :
    HasFlags fields' := by
  obtain ⟨flags, annotations, hmem, hperm⟩ := level.flags
  obtain ⟨flags', hsame, hmem'⟩ := hflags flags annotations hmem
  exact ⟨hnames.nodup_iff.mp level.nodup, flags', annotations, hmem',
    hsame.symm.trans (hperm.trans (flagsOf_declared_perm hnames))⟩

/-- Fields without structs among them can only change their places. -/
theorem Rearranged.perm_of_leaves {fields fields' : List Field} (h : Rearranged fields fields')
    (leaves : ∀ field ∈ fields, field.type.members? = none) : fields.Perm fields' := by
  induction h with
  | perm h => exact h
  | within =>
    have hleaf := leaves _ (List.mem_append_right _ (List.mem_cons_self ..))
    cases hleaf
  | trans _ _ ih ih' =>
    have hperm := ih leaves
    exact hperm.trans (ih' fun field hfield => leaves field (hperm.mem_iff.mpr hfield))

section Within

variable {before after members members' : List Field} {name : String} {nullable : Bool}
  {annotations : Dict String}

/-- The type of a field has no part in the names of its level. -/
theorem map_name_within :
    (before ++ (⟨name, .struct members, nullable, annotations⟩ : Field) :: after).map FieldOf.name =
      (before ++ (⟨name, .struct members', nullable, annotations⟩ : Field) :: after).map
        FieldOf.name := by
  rw [List.map_append, List.map_append, List.map_cons, List.map_cons]

/-- The flags of a level are booleans, so rearranging them only changes their places. -/
theorem HasFlags.perm_within {fields : List Field} (level : HasFlags fields)
    (hmem : (⟨Column.flags, .struct members, nullable, annotations⟩ : Field) ∈ fields)
    (h : Rearranged members members') : members.Perm members' := by
  apply h.perm_of_leaves
  intro flag hflag
  obtain ⟨flags, annotations', hflags, hperm⟩ := level.flags
  have hsame := eq_of_name_eq level.nodup hmem hflags rfl
  cases hsame
  obtain ⟨field, -, rfl⟩ := List.mem_map.mp (hperm.mem_iff.mp hflag)
  rfl

/-- A level keeps its flags when the members of one field are rearranged. -/
theorem HasFlags.within
    (level : HasFlags (before ++ ⟨name, .struct members, nullable, annotations⟩ :: after))
    (h : Rearranged members members') :
    HasFlags (before ++ ⟨name, .struct members', nullable, annotations⟩ :: after) := by
  refine level.of_names (by rw [map_name_within]) ?_
  intro flags annotations' hmem
  rcases List.mem_append.mp hmem with hmem | hmem
  · exact ⟨flags, List.Perm.refl _, List.mem_append_left _ hmem⟩
  · rcases List.mem_cons.mp hmem with heq | hmem
    · cases heq
      exact ⟨members', level.perm_within (List.mem_append_right _ (List.mem_cons_self ..)) h,
        List.mem_append_right _ (List.mem_cons_self ..)⟩
    · exact ⟨flags, List.Perm.refl _, List.mem_append_right _ (List.mem_cons_of_mem _ hmem)⟩

end Within

/-- A level keeps its flags in another order. -/
theorem HasFlags.perm {fields fields' : List Field} (level : HasFlags fields)
    (h : fields.Perm fields') : HasFlags fields' :=
  level.of_names (h.map _) fun flags _ hmem => ⟨flags, List.Perm.refl _, h.mem_iff.mp hmem⟩

end Field

/-- A flagged struct has its flags, and so have its members. -/
theorem DataType.Flagged.level_and_below {fields : List Field}
    (flagged : (DataType.struct fields).Flagged) :
    Field.HasFlags fields ∧
      ∀ field ∈ fields, field.name ≠ Column.flags → field.type.Flagged := by
  cases flagged with
  | leaf h => cases h
  | struct level below => exact ⟨level, below⟩

/-- A flagged struct stays flagged when it is rearranged. -/
theorem DataType.Flagged.rearranged {fields fields' : List Field}
    (h : Field.Rearranged fields fields') (flagged : (DataType.struct fields).Flagged) :
    (DataType.struct fields').Flagged := by
  induction h with
  | perm h =>
    obtain ⟨level, below⟩ := flagged.level_and_below
    exact .struct (level.perm h) fun field hfield => below field (h.mem_iff.mpr hfield)
  | @within before after members members' name nullable annotations h ih =>
    obtain ⟨level, below⟩ := flagged.level_and_below
    refine .struct (level.within h) (Field.forall_mem_replaced below fun hname => ?_)
    exact ih (below _ (List.mem_append_right _ (List.mem_cons_self ..)) hname)
  | trans _ _ ih ih' => exact ih' (ih flagged)

namespace Schema.IsTable

variable {metadata : List Field} {size : Int32}

/-- The metadata column is the only struct among the document columns, and may be another struct. -/
theorem documentColumns_within {before after members members' : List Field} {name : String}
    {nullable : Bool} {annotations : Dict String}
    (h : (before ++ (⟨name, .struct members, nullable, annotations⟩ : Field) :: after).Perm
      (documentColumns metadata size)) :
    name = Column.metadata ∧ members = metadata ∧
      (before ++ (⟨name, .struct members', nullable, annotations⟩ : Field) :: after).Perm
        (documentColumns members' size) := by
  have hmem := h.mem_iff.mp (List.mem_append_right _ (List.mem_cons_self ..))
  simp only [documentColumns, List.mem_cons, List.not_mem_nil, or_false] at hmem
  rcases hmem with hmem | hmem | hmem | hmem | hmem | hmem
  case inr.inr.inr.inr.inl =>
    cases hmem
    refine ⟨rfl, rfl, ?_⟩
    have hsplit : ∀ metadata : List Field, documentColumns metadata size =
        [.plain Column.blob .binary true, .plain Column.content .utf8 true,
          .plain Column.dataframe .utf8 true, .plain Column.id .utf8 false] ++
        .plain Column.metadata (.struct metadata) false ::
          [.plain Column.vector (.fixedSizeList (.plain "item" .float32 true) size) false] :=
      fun _ => rfl
    rw [hsplit] at h ⊢
    have hrest := (List.perm_middle.symm.trans (h.trans List.perm_middle)).cons_inv
    exact List.perm_middle.trans ((hrest.cons _).trans List.perm_middle.symm)
  all_goals cases hmem

/-- A table keeps its columns in another order. -/
theorem perm {fields fields' : List Field} (table : IsTable ⟨fields⟩ metadata size)
    (h : fields.Perm fields') : IsTable ⟨fields'⟩ metadata size :=
  ⟨table.level.perm h, (h.symm.filter _).trans table.columns, table.size_pos, table.flagged⟩

section Within

variable {before after members members' : List Field} {name : String} {nullable : Bool}
  {annotations : Dict String}

/-- The flags of a table may be rearranged. -/
theorem within_flags
    (table : IsTable ⟨before ++ ⟨name, .struct members, nullable, annotations⟩ :: after⟩ metadata size)
    (hname : name = Column.flags) (h : Field.Rearranged members members') :
    IsTable ⟨before ++ ⟨name, .struct members', nullable, annotations⟩ :: after⟩ metadata size := by
  refine ⟨table.level.within h, ?_, table.size_pos, table.flagged⟩
  have hcolumns := table.columns
  rw [Field.declared_append_flags hname] at hcolumns ⊢
  exact hcolumns

/-- The metadata of a table may be rearranged, and is the only other struct in it. -/
theorem within_metadata
    (table : IsTable ⟨before ++ ⟨name, .struct members, nullable, annotations⟩ :: after⟩ metadata size)
    (hname : name ≠ Column.flags) (h : Field.Rearranged members members') :
    name = Column.metadata ∧ members = metadata ∧
      IsTable ⟨before ++ ⟨name, .struct members', nullable, annotations⟩ :: after⟩ members' size := by
  have hcolumns := table.columns
  rw [Field.declared_append_cons hname] at hcolumns
  obtain ⟨hcolumn, rfl, hcolumns'⟩ := @documentColumns_within _ _ _ _ _ members' _ _ _ hcolumns
  refine ⟨hcolumn, rfl, table.level.within h, ?_, table.size_pos, table.flagged.rearranged h⟩
  rw [Field.declared_append_cons hname]
  exact hcolumns'

end Within

/-- A rearranged document table is a document table. -/
theorem rearranged {fields fields' : List Field} (h : Field.Rearranged fields fields')
    (table : IsTable ⟨fields⟩ metadata size) :
    ∃ metadata', IsTable ⟨fields'⟩ metadata' size := by
  induction h generalizing metadata with
  | perm h => exact ⟨metadata, table.perm h⟩
  | @within before after members members' name nullable annotations h =>
    by_cases hname : name = Column.flags
    · exact ⟨metadata, table.within_flags hname h⟩
    · exact ⟨members', (table.within_metadata hname h).2.2⟩
  | trans _ _ ih ih' =>
    obtain ⟨metadata', table'⟩ := ih table
    exact ih' table'

end Schema.IsTable

end DocumentStore
