import DocumentStore.Proofs.DataFrameText

/-!
# Texts of tables

A JSON value is a table when it is an object of columns with equally many members, and the members
of each column are named by the rows from zero on, each row once. Exactly the tables are read as
frames, and what was written for a frame is read as the frame unless a cell is nested too deep.
-/

set_option autoImplicit false

namespace DocumentStore.DataFrame

/-! ## Frames -/

/-- A frame of columns with ascending cells is lawful if 64 bits count the rows. -/
theorem lawful_of_columns {columns : List (String × List Json)} {frame : DataFrame}
    (h : ofColumns columns = .ok frame)
    (cells : ∀ column ∈ columns, column.2.length ≤ UInt64.size ∧
      ∀ cell ∈ column.2, cell.Canonical) : frame.Lawful := by
  obtain ⟨nodup, -, hframe⟩ := (ofColumns_eq_ok_iff columns frame).mp h
  have hcells : ∀ column ∈ frame.columns.entries, column.2.length ≤ UInt64.size ∧
      ∀ cell ∈ column.2, cell.Canonical := by
    rw [hframe]
    exact fun column hcolumn => cells column ((Dict.entries_ofList_perm nodup).mem_iff.mp hcolumn)
  refine ⟨?_, fun column hcolumn => (hcells column hcolumn).2⟩
  cases hentries : frame.columns.entries with
  | nil =>
    unfold rowCount rowCount?
    rw [hentries]
    exact Nat.zero_le _
  | cons first rest =>
    have hfirst : first ∈ frame.columns.entries := hentries ▸ List.mem_cons_self ..
    rw [← length_eq_rowCount hfirst]
    exact (hcells first hfirst).1

/-! ## Tables -/

/-- The value is a table of the given number of rows: an object of columns, all of them objects
whose members name the rows. -/
def IsTable (value : Json) (count : Nat) : Prop :=
  ∃ columns, value = .object columns ∧ ∀ column ∈ columns, ∃ members,
    column.2 = .object members ∧ members.length = count ∧ NameRows members

/-- The frame has the columns of the object, each with the members of its object in their rows. -/
def HoldsColumns (frame : DataFrame) (columns : List (String × Json)) : Prop :=
  frame.columns.names = columns.map Prod.fst ∧
    ∀ name members, (name, Json.object members) ∈ columns →
      ∃ cells, frame.column? name = some cells ∧ HoldMembers cells members

/-- Columns are read one by one and keep their names. -/
theorem columns_of_mapM {columns : List (String × Json)} {read : List (String × List Json)}
    (h : columns.mapM (fun column => do return (column.1, ← columnOfJson column.1 column.2)) =
      .ok read) :
    read.map Prod.fst = columns.map Prod.fst ∧
      List.Forall₂ (fun (column : String × Json) (cells : String × List Json) =>
        cells.1 = column.1 ∧ columnOfJson column.1 column.2 = .ok cells.2) columns read := by
  have hcolumns : List.Forall₂ (fun (column : String × Json) (cells : String × List Json) =>
      cells.1 = column.1 ∧ columnOfJson column.1 column.2 = .ok cells.2) columns read := by
    refine ((mapM_eq_ok_iff _ _ _).mp h).imp fun column read hcolumn => ?_
    obtain ⟨cells, hcells, hcolumn⟩ := (bind_eq_ok_iff _ _ _).mp hcolumn
    cases hcolumn
    exact ⟨rfl, hcells⟩
  refine ⟨?_, hcolumns⟩
  rw [← List.forall₂_eq_eq_eq, List.forall₂_map_left_iff, List.forall₂_map_right_iff]
  exact hcolumns.flip.imp fun _ _ h => h.1

/-- What is read as a frame is a table. -/
theorem isTable_of_ofJson {value : Json} {frame : DataFrame} (h : ofJson value = .ok frame) :
    ∃ count, IsTable value count := by
  cases value with
  | object columns =>
    obtain ⟨read, hread, hframe⟩ := (bind_eq_ok_iff _ _ _).mp h
    obtain ⟨-, hcolumns⟩ := columns_of_mapM hread
    obtain ⟨-, ⟨count, heven⟩, -⟩ := (ofColumns_eq_ok_iff read frame).mp hframe
    refine ⟨count, columns, rfl, fun column hcolumn => ?_⟩
    obtain ⟨cells, hmem, -, hcells⟩ := exists_related hcolumns hcolumn
    obtain ⟨members, hmembers, hrows, hold⟩ := holdMembers_of_columnOfJson hcells
    exact ⟨members, hmembers, hold.length_eq.symm.trans (heven cells hmem), hrows⟩
  | _ => cases h

/-- A frame that has been read holds the columns. -/
theorem holdsColumns_of_ofJson {columns : List (String × Json)} {frame : DataFrame}
    (sorted : columns.Pairwise fun a b => a.1 < b.1)
    (h : ofJson (.object columns) = .ok frame) : frame.HoldsColumns columns := by
  obtain ⟨read, hread, hframe⟩ := (bind_eq_ok_iff _ _ _).mp h
  obtain ⟨hnames, hcolumns⟩ := columns_of_mapM hread
  obtain ⟨nodup, -, hframe⟩ := (ofColumns_eq_ok_iff read frame).mp hframe
  have hsorted : (read.map Prod.fst).Pairwise fun a b => a < b := by
    rw [hnames, List.pairwise_map]
    exact sorted
  rw [Dict.ofList_of_sorted (List.pairwise_map.mp hsorted)] at hframe
  unfold HoldsColumns Dict.names column?
  rw [hframe]
  refine ⟨hnames, fun name members hmember => ?_⟩
  obtain ⟨⟨key, cells⟩, hmem, hname, hcells⟩ := exists_related hcolumns hmember
  obtain ⟨_, ⟨⟩, -, hold⟩ := holdMembers_of_columnOfJson hcells
  cases hname
  exact ⟨cells, lookup_of_mem nodup hmem, hold⟩

/-- A table is read as a frame. -/
theorem exists_ofJson {value : Json} {count : Nat} (canonical : value.Canonical)
    (h : IsTable value count) : ∃ frame, ofJson value = .ok frame := by
  obtain ⟨columns, rfl, htable⟩ := h
  obtain ⟨read, hread⟩ : ∃ read, columns.mapM
      (fun column => do return (column.1, ← columnOfJson column.1 column.2)) = .ok read := by
    refine (mapM_isOk_iff _ _).mpr fun column hcolumn => ?_
    obtain ⟨members, hmembers, -, hrows⟩ := htable column hcolumn
    obtain ⟨cells, hcells⟩ := exists_columnOfJson column.1 hrows
    refine ⟨(column.1, cells), ?_⟩
    rw [hmembers, hcells]
    rfl
  obtain ⟨hnames, hcolumns⟩ := columns_of_mapM hread
  have hnodup : (read.map Prod.fst).Nodup := by
    rw [hnames]
    exact Dict.nodup_of_sorted (d := ⟨columns⟩) canonical.1
  have heven : ∀ cells ∈ read, cells.2.length = count := by
    intro cells hcells
    obtain ⟨column, hcolumn, -, hcolumnRead⟩ := exists_related hcolumns.flip hcells
    obtain ⟨members, hmembers, hcount, -⟩ := htable column hcolumn
    obtain ⟨others, hothers, -, hold⟩ := holdMembers_of_columnOfJson hcolumnRead
    rw [hmembers] at hothers
    cases hothers
    rw [hold.length_eq, hcount]
  obtain ⟨frame, hframe⟩ := exists_ofColumns hnodup heven
  refine ⟨frame, ?_⟩
  unfold ofJson
  dsimp only
  rw [hread, ok_bind, hframe]

/-! ## Texts -/

/-- The text of a value that is not nested too deep is read as the frame of what is read of the
value. -/
theorem ofCanonicalText_text {value : Json} (canonical : value.Canonical)
    (depth : value.depth ≤ Json.depthLimit) :
    ofCanonicalText value.text = ofJson value.reread := by
  unfold ofCanonicalText
  rw [Json.parse_text canonical depth]

/-- Members that are read name the rows that they named before. -/
theorem nameRows_rereadMembers_iff (members : List (String × Json)) :
    NameRows (Json.rereadMembers members) ↔ NameRows members := by
  unfold NameRows
  rw [Json.rereadMembers_eq_map, List.length_map]
  simp only [List.forall₂_map_left_iff]

/-- A value whose reading is an object is an object. -/
theorem exists_of_reread_eq_object {value : Json} {members : List (String × Json)}
    (h : value.reread = .object members) :
    ∃ held, value = .object held ∧ members = Json.rereadMembers held := by
  cases value with
  | object held => exact ⟨held, rfl, (Json.object.inj h).symm⟩
  | _ => cases h

/-- Exactly the tables are read as tables. -/
theorem isTable_reread_iff (value : Json) (count : Nat) :
    IsTable value.reread count ↔ IsTable value count := by
  have hmember : ∀ held : Json, (∃ members, held.reread = .object members ∧
      members.length = count ∧ NameRows members) ↔ ∃ members, held = .object members ∧
        members.length = count ∧ NameRows members := by
    intro held
    constructor
    · rintro ⟨_, hread, hcount, hrows⟩
      obtain ⟨members, rfl, rfl⟩ := exists_of_reread_eq_object hread
      refine ⟨members, rfl, ?_, (nameRows_rereadMembers_iff members).mp hrows⟩
      rwa [Json.rereadMembers_eq_map, List.length_map] at hcount
    · rintro ⟨members, rfl, hcount, hrows⟩
      refine ⟨_, rfl, ?_, (nameRows_rereadMembers_iff members).mpr hrows⟩
      rwa [Json.rereadMembers_eq_map, List.length_map]
  constructor
  · rintro ⟨_, hread, htable⟩
    obtain ⟨columns, rfl, rfl⟩ := exists_of_reread_eq_object hread
    rw [Json.rereadMembers_eq_map, List.forall_mem_map] at htable
    exact ⟨columns, rfl, fun column hcolumn => (hmember column.2).mp (htable column hcolumn)⟩
  · rintro ⟨columns, rfl, htable⟩
    refine ⟨_, rfl, ?_⟩
    rw [Json.rereadMembers_eq_map, List.forall_mem_map]
    exact fun column hcolumn => (hmember column.2).mpr (htable column hcolumn)

/-- The order of the columns that a frame is built of makes no difference to it. No column is longer
than the numbers of rows reach: then the text of the frame is read as what is read of its numbers if
no cell is nested too deep, which is the frame where printed numbers are read back, and cannot be
read otherwise. Of the values that are not nested too deep exactly the tables are read as frames,
with the cells, as these are read, in the rows that their names say. -/
theorem canonicalText_exact :
    (∀ columns frame, ofColumns columns = .ok frame →
      (∀ others, others.Perm columns → ofColumns others = .ok frame) ∧
      ((∀ column ∈ columns, column.2.length ≤ UInt64.size ∧ ∀ cell ∈ column.2, cell.Canonical) →
        (frame.DepthWithin cellDepthLimit →
          ofCanonicalText frame.canonicalText = .ok frame.reread ∧
          (frame.reread = frame → ofCanonicalText frame.canonicalText = .ok frame)) ∧
        (¬ frame.DepthWithin cellDepthLimit →
          ∃ failure, ofCanonicalText frame.canonicalText = .error (.json failure)))) ∧
    ∀ value : Json, value.Canonical → value.depth ≤ Json.depthLimit →
      ((∃ frame, ofCanonicalText value.text = .ok frame) ↔ ∃ count, IsTable value count) ∧
      ∀ frame columns, ofCanonicalText value.text = .ok frame → value = .object columns →
        frame.HoldsColumns (Json.rereadMembers columns) ∧
        (value.reread = value → frame.HoldsColumns columns) := by
  constructor
  · intro columns frame hframe
    refine ⟨fun others hperm => ofColumns_perm hframe hperm, fun cells => ?_⟩
    have hlawful := lawful_of_columns hframe cells
    refine ⟨fun hdepth => ?_, fun hdeep => ⟨_, ofCanonicalText_eq_error hlawful hdeep⟩⟩
    have hread := ofCanonicalText_canonicalText hlawful hdepth
    exact ⟨hread, fun hback => hread.trans (congrArg Except.ok hback)⟩
  · intro value canonical depth
    rw [ofCanonicalText_text canonical depth]
    refine ⟨⟨?_, ?_⟩, ?_⟩
    · rintro ⟨frame, hframe⟩
      obtain ⟨count, htable⟩ := isTable_of_ofJson hframe
      exact ⟨count, (isTable_reread_iff value count).mp htable⟩
    · rintro ⟨count, htable⟩
      exact exists_ofJson canonical.reread ((isTable_reread_iff value count).mpr htable)
    · rintro frame columns hframe rfl
      have hholds := holdsColumns_of_ofJson canonical.reread.1 hframe
      refine ⟨hholds, fun hback => ?_⟩
      rwa [Json.object.inj hback] at hholds

/-- Eleven rows in two columns, a cell that is nested one level too deep, and a table whose rows are
named with a plus sign and with a zero too many. -/
theorem canonicalText_exact_elevenRows :
    (∃ frame, ofColumns [("n", List.replicate 10 .null ++ [.bool true]),
        ("a", List.replicate 11 .null)] = .ok frame ∧
      ofCanonicalText frame.canonicalText = .ok frame ∧
      ofColumns [("a", List.replicate 11 .null),
        ("n", List.replicate 10 .null ++ [.bool true])] = .ok frame) ∧
    (∃ frame, ofColumns [("n", [Nat.repeat (fun cell => .array [cell]) 126 .null])] = .ok frame ∧
      ∃ failure, ofCanonicalText frame.canonicalText = .error (.json failure)) ∧
    ∃ frame, ofCanonicalText
        (Json.object [("n", .object [("+1", .bool true), ("00", .null)])]).text = .ok frame ∧
      frame.HoldsColumns [("n", .object [("+1", .bool true), ("00", .null)])] := by
  refine ⟨?_, ?_, ?_⟩
  · have hflat : ∀ column ∈ [("n", List.replicate 10 Json.null ++ [.bool true]),
        ("a", List.replicate 11 .null)], column.2.length = 11 ∧
          ∀ cell ∈ column.2, cell = .null ∨ cell = .bool true := by
      simp
    have hcells : ∀ column ∈ [("n", List.replicate 10 Json.null ++ [.bool true]),
        ("a", List.replicate 11 .null)], column.2.length ≤ UInt64.size ∧
          ∀ cell ∈ column.2, cell.Canonical := by
      refine fun column hcolumn => ⟨(hflat column hcolumn).1 ▸ (by decide), fun cell hcell => ?_⟩
      rcases (hflat column hcolumn).2 cell hcell with rfl | rfl <;> trivial
    obtain ⟨frame, hframe, hdepth, hback⟩ : ∃ frame, ofColumns
        [("n", List.replicate 10 .null ++ [.bool true]), ("a", List.replicate 11 .null)] =
          .ok frame ∧ frame.DepthWithin cellDepthLimit ∧ frame.reread = frame := by
      refine ⟨⟨⟨[("a", List.replicate 11 .null), ("n", List.replicate 10 .null ++ [.bool true])]⟩,
        List.pairwise_pair.mpr (by decide), by simp⟩, rfl, fun column hcolumn cell hcell => ?_, rfl⟩
      rcases (hflat column ((List.Perm.swap _ _ []).mem_iff.mp hcolumn)).2 cell hcell with
        rfl | rfl <;> exact Nat.zero_le _
    obtain ⟨hperm, hread⟩ := canonicalText_exact.1 _ frame hframe
    exact ⟨frame, hframe, ((hread hcells).1 hdepth).2 hback, hperm _ (List.Perm.swap _ _ _)⟩
  · have hnested : ∀ count, (Nat.repeat (fun cell => Json.array [cell]) count .null).Canonical ∧
        (Nat.repeat (fun cell => Json.array [cell]) count .null).depth = count := by
      intro count
      induction count with
      | zero => exact ⟨trivial, rfl⟩
      | succ count ih =>
        refine ⟨⟨ih.1, trivial⟩, ?_⟩
        show max _ 0 + 1 = count + 1
        rw [Nat.max_zero, ih.2]
    have hcells : ∀ column ∈ [("n", [Nat.repeat (fun cell => Json.array [cell]) 126 .null])],
        column.2.length ≤ UInt64.size ∧ ∀ cell ∈ column.2, cell.Canonical := by
      intro column hcolumn
      cases List.mem_singleton.mp hcolumn
      refine ⟨by decide, fun cell hcell => ?_⟩
      rw [List.mem_singleton.mp hcell]
      exact (hnested 126).1
    refine ⟨⟨⟨[("n", [Nat.repeat (fun cell => .array [cell]) 126 .null])]⟩,
      List.pairwise_singleton _ _, by simp⟩, rfl, ?_⟩
    refine ((canonicalText_exact.1 _ _ rfl).2 hcells).2 fun hdepth => ?_
    have hle := hdepth _ (List.mem_cons_self ..) _ (List.mem_cons_self ..)
    rw [(hnested 126).2] at hle
    exact absurd hle (by decide)
  · have canonical :
        (Json.object [("n", .object [("+1", .bool true), ("00", .null)])]).Canonical := by
      refine ⟨List.pairwise_singleton _ _, ⟨?_, trivial, trivial, trivial⟩, trivial⟩
      exact List.pairwise_pair.mpr (by decide)
    obtain ⟨htable, hcells⟩ := canonicalText_exact.2 _ canonical (by decide)
    obtain ⟨frame, hframe⟩ := htable.mpr ⟨2, _, rfl, by
      intro column hcolumn
      cases List.mem_singleton.mp hcolumn
      refine ⟨_, rfl, rfl, [1, 0], .cons ?_ (.cons ?_ .nil), List.Perm.swap 0 1 []⟩
      · exact ⟨by decide, ['+'], 0, Or.inr rfl, rfl⟩
      · exact ⟨by decide, [], 1, Or.inl rfl, rfl⟩⟩
    exact ⟨frame, hframe, (hcells frame _ hframe rfl).2 rfl⟩

end DocumentStore.DataFrame
