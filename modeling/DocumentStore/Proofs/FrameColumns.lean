import DocumentStore.DataFrame
import DocumentStore.Proofs.NamedValues
import DocumentStore.Proofs.NumberText
import DocumentStore.Proofs.Outcome
import Mathlib.Data.List.Induction

/-!
# Columns of frames

The members of a column object come in the order of their names as texts, ten before two, and a row
may be named in several ways, so a cell is put where its name says. That nothing is left empty is
not checked: as many different rows as there are cells, all of them below that number, fill every
slot. Columns that have been read make a frame when they have names of their own and one length.
-/

set_option autoImplicit false

namespace DocumentStore.DataFrame

/-! ## Numbers of rows -/

/-- The name is a number of the row: its decimal digits, perhaps after zeros, and all this perhaps
after a plus sign. Rows are numbered with 64 bits. -/
def NamesRow (name : String) (row : Nat) : Prop :=
  row < UInt64.size ∧ ∃ sign zeros, (sign = [] ∨ sign = ['+']) ∧
    name.toList = sign ++ (List.replicate zeros '0' ++ Decimal.naturalText row)

/-- Digits are those of their number after zeros. -/
theorem exists_zeros {digits : List Char} (hne : digits ≠ [])
    (hall : ∀ c ∈ digits, c.isDigit = true) :
    ∃ zeros, digits =
      List.replicate zeros '0' ++ Decimal.naturalText (Nat.ofDigitChars 10 digits 0) := by
  induction digits using List.reverseRecOn with
  | nil => exact absurd rfl hne
  | append_singleton before last ih =>
    obtain ⟨d, hd, rfl⟩ := Json.exists_digitChar (hall last (by simp))
    have hdigit : Decimal.naturalText d = [Nat.digitChar d] := Nat.toDigits_of_lt_base hd
    have hvalue : Nat.ofDigitChars 10 (before ++ [Nat.digitChar d]) 0 =
        10 * Nat.ofDigitChars 10 before 0 + d := by
      rw [Nat.ofDigitChars_append, Nat.ofDigitChars_cons, Nat.ofDigitChars_nil]
      congr 1
      interval_cases d <;> rfl
    rw [hvalue]
    by_cases hbefore : before = []
    · subst hbefore
      refine ⟨0, ?_⟩
      rw [Nat.ofDigitChars_nil, Nat.mul_zero, Nat.zero_add, hdigit]
      rfl
    · obtain ⟨zeros, hzeros⟩ := ih hbefore fun c hc => hall c (List.mem_append_left _ hc)
      by_cases hzero : Nat.ofDigitChars 10 before 0 = 0
      · refine ⟨zeros + 1, ?_⟩
        rw [hzero] at hzeros ⊢
        rw [Nat.mul_zero, Nat.zero_add, hdigit, List.replicate_succ', hzeros]
        rfl
      · refine ⟨zeros, ?_⟩
        have htext : Decimal.naturalText (10 * Nat.ofDigitChars 10 before 0 + d) =
            Decimal.naturalText (Nat.ofDigitChars 10 before 0) ++ Decimal.naturalText d :=
          (Nat.toDigits_append_toDigits (by decide) (Nat.pos_of_ne_zero hzero) hd).symm
        rw [htext, hdigit, ← List.append_assoc, ← hzeros]

/-- The row with the given digits, if they are some. -/
def rowOfDigits? (digits : List Char) : Option Nat :=
  if digits.isEmpty || !digits.all (fun c => '0' ≤ c && c ≤ '9') then none
  else if Nat.ofDigitChars 10 digits 0 < UInt64.size then some (Nat.ofDigitChars 10 digits 0)
  else none

/-- Digits, perhaps after zeros, are those of the row that is read of them. -/
theorem rowOfDigits?_eq_some_iff (digits : List Char) (row : Nat) :
    rowOfDigits? digits = some row ↔ row < UInt64.size ∧
      ∃ zeros, digits = List.replicate zeros '0' ++ Decimal.naturalText row := by
  unfold rowOfDigits?
  constructor
  · intro h
    split at h
    · cases h
    next hdigits =>
    split at h
    · next hlt =>
      cases h
      simp only [Bool.or_eq_true, List.isEmpty_iff, Bool.not_eq_true', not_or,
        Bool.not_eq_false] at hdigits
      exact ⟨hlt, exists_zeros hdigits.1 (List.all_eq_true.mp hdigits.2)⟩
    · cases h
  · rintro ⟨hlt, zeros, rfl⟩
    have hvalue : Nat.ofDigitChars 10
        (List.replicate zeros '0' ++ Decimal.naturalText row) 0 = row := by
      rw [Nat.ofDigitChars_append, Nat.ofDigitChars_replicate_zero, Nat.mul_zero,
        Decimal.ofDigitChars_naturalText]
    have hempty : (List.replicate zeros '0' ++ Decimal.naturalText row).isEmpty = false := by
      rw [List.isEmpty_eq_false_iff]
      exact List.append_ne_nil_of_right_ne_nil _ Nat.toDigits_ne_nil
    have hall : (List.replicate zeros '0' ++ Decimal.naturalText row).all
        (fun c => '0' ≤ c && c ≤ '9') = true := by
      rw [List.all_eq_true]
      intro c hc
      rcases List.mem_append.mp hc with hc | hc
      · rw [List.eq_of_mem_replicate hc]
        rfl
      · exact Decimal.isDigit_of_mem_naturalText hc
    rw [hempty, hall, hvalue, if_neg (by decide), if_pos hlt]

/-- A member name is read as the row that it is a number of. -/
theorem rowOfName?_eq_some_iff (name : String) (row : Nat) :
    rowOfName? name = some row ↔ NamesRow name row := by
  have hplus : ∀ zeros digits,
      '+' :: digits ≠ List.replicate zeros '0' ++ Decimal.naturalText row := by
    intro zeros digits h
    have hmem : '+' ∈ List.replicate zeros '0' ++ Decimal.naturalText row :=
      h ▸ List.mem_cons_self ..
    rcases List.mem_append.mp hmem with hmem | hmem
    · cases List.eq_of_mem_replicate hmem
    · cases Decimal.isDigit_of_mem_naturalText hmem
  unfold NamesRow
  by_cases hsign : ∃ digits, name.toList = '+' :: digits
  · obtain ⟨digits, hname⟩ := hsign
    have hread : rowOfName? name = rowOfDigits? digits := by
      unfold rowOfName? rowOfDigits?
      rw [hname, Nat.ofDigitChars_eq_foldl]
      rfl
    rw [hread, rowOfDigits?_eq_some_iff, hname]
    constructor
    · rintro ⟨hlt, zeros, rfl⟩
      exact ⟨hlt, ['+'], zeros, Or.inr rfl, rfl⟩
    · rintro ⟨hlt, sign, zeros, rfl | rfl, h⟩
      · exact absurd h (hplus zeros digits)
      · exact ⟨hlt, zeros, (List.cons.inj h).2⟩
  · have hread : rowOfName? name = rowOfDigits? name.toList := by
      unfold rowOfName? rowOfDigits?
      rw [Nat.ofDigitChars_eq_foldl]
      split
      · next digits hname => exact absurd ⟨digits, hname⟩ hsign
      · rfl
    rw [hread, rowOfDigits?_eq_some_iff]
    constructor
    · rintro ⟨hlt, zeros, h⟩
      exact ⟨hlt, [], zeros, Or.inl rfl, h⟩
    · rintro ⟨hlt, sign, zeros, rfl | rfl, h⟩
      · exact ⟨hlt, zeros, h⟩
      · exact absurd ⟨_, h⟩ hsign

/-- A name is a number of one row only. -/
theorem NamesRow.unique {name : String} {row other : Nat} (h : NamesRow name row)
    (hother : NamesRow name other) : row = other := by
  rw [← rowOfName?_eq_some_iff] at h hother
  exact Option.some.inj (h.symm.trans hother)

/-! ## Columns -/

/-- The members are named by the rows below their number, each once. -/
def NameRows (members : List (String × Json)) : Prop :=
  ∃ rows : List Nat, List.Forall₂ (fun member row => NamesRow member.1 row) members rows ∧
    rows.Perm (List.range members.length)

/-- The cells are the members, each in the row of its name. -/
structure HoldMembers (cells : List Json) (members : List (String × Json)) : Prop where
  length_eq : cells.length = members.length
  cell_iff : ∀ row cell, cells[row]? = some cell ↔
    ∃ name, (name, cell) ∈ members ∧ NamesRow name row

/-- Different rows below their number are all the rows below it. -/
theorem perm_range {rows : List Nat} {count : Nat} (nodup : rows.Nodup)
    (below : ∀ row ∈ rows, row < count) (length : rows.length = count) :
    rows.Perm (List.range count) := by
  have hsub : rows.Subperm (List.range count) :=
    List.subperm_of_subset nodup fun row hrow => List.mem_range.mpr (below row hrow)
  exact hsub.perm_of_length_le (by rw [List.length_range, length])

/-- A member is put into the row that it names, which has to be free. -/
theorem fillRows_cons_eq_ok_iff (name key : String) (cell : Json) (rest : List (String × Json))
    (slots filled : List (Option Json)) :
    fillRows name slots ((key, cell) :: rest) = .ok filled ↔
      ∃ row, NamesRow key row ∧ slots[row]? = some none ∧
        fillRows name (slots.set row (some cell)) rest = .ok filled := by
  rw [fillRows]
  constructor
  · intro h
    split at h
    · cases h
    next row hrow =>
    split at h
    · next hslot => exact ⟨row, (rowOfName?_eq_some_iff key row).mp hrow, hslot, h⟩
    · cases h
  · rintro ⟨row, hname, hslot, h⟩
    rw [(rowOfName?_eq_some_iff key row).mpr hname]
    dsimp only
    rw [hslot]
    exact h

/-- Members that have been put into rows were for different rows, all of them free, and each is now
in its row. -/
theorem rows_of_fillRows {name : String} {members : List (String × Json)}
    {slots filled : List (Option Json)} (h : fillRows name slots members = .ok filled) :
    ∃ rows, rows.Nodup ∧ (∀ row ∈ rows, slots[row]? = some none) ∧
      List.Forall₂ (fun member row =>
        NamesRow member.1 row ∧ filled[row]? = some (some member.2)) members rows ∧
      (∀ row, row ∉ rows → filled[row]? = slots[row]?) ∧ filled.length = slots.length := by
  induction members generalizing slots with
  | nil =>
    cases h
    exact ⟨[], List.nodup_nil, by simp, .nil, fun _ _ => rfl, rfl⟩
  | cons member rest ih =>
    obtain ⟨row, hname, hslot, h⟩ := (fillRows_cons_eq_ok_iff name _ _ _ _ _).mp h
    obtain ⟨rows, nodup, free, hfilled, hothers, hlength⟩ := ih h
    have hlt : row < slots.length := (List.getElem?_eq_some_iff.mp hslot).1
    -- the row is taken now, so no later member was for it
    have hnew : row ∉ rows := by
      intro hmem
      have hfree := free row hmem
      rw [List.getElem?_set_self hlt] at hfree
      cases hfree
    refine ⟨row :: rows, List.nodup_cons.mpr ⟨hnew, nodup⟩, ?_, .cons ⟨hname, ?_⟩ hfilled,
      fun other hother => ?_, ?_⟩
    · refine List.forall_mem_cons.mpr ⟨hslot, fun other hother => ?_⟩
      have hne : row ≠ other := by
        rintro rfl
        exact hnew hother
      rw [← free other hother, List.getElem?_set_ne hne]
    · rw [hothers row hnew, List.getElem?_set_self hlt]
    · rw [List.mem_cons, not_or] at hother
      rw [hothers other hother.2, List.getElem?_set_ne (Ne.symm hother.1)]
    · rw [hlength, List.length_set]

/-- Members for different rows that are free can be put into them. -/
theorem exists_fillRows (name : String) {members : List (String × Json)} {rows : List Nat}
    {slots : List (Option Json)}
    (h : List.Forall₂ (fun member row => NamesRow member.1 row) members rows)
    (nodup : rows.Nodup) (free : ∀ row ∈ rows, slots[row]? = some none) :
    ∃ filled, fillRows name slots members = .ok filled := by
  induction h generalizing slots with
  | nil => exact ⟨slots, rfl⟩
  | @cons member row rest rows hname _ ih =>
    rw [List.nodup_cons] at nodup
    rw [List.forall_mem_cons] at free
    have hrest : ∀ other ∈ rows, (slots.set row (some member.2))[other]? = some none := by
      intro other hother
      have hne : row ≠ other := by
        rintro rfl
        exact nodup.1 hother
      rw [List.getElem?_set_ne hne]
      exact free.2 other hother
    obtain ⟨filled, hfilled⟩ := ih nodup.2 hrest
    exact ⟨filled, (fillRows_cons_eq_ok_iff name _ _ _ _ _).mpr ⟨row, hname, free.1, hfilled⟩⟩

/-- A column that has been read is an object whose members name its rows, and it holds these
members. -/
theorem holdMembers_of_columnOfJson {name : String} {value : Json} {cells : List Json}
    (h : columnOfJson name value = .ok cells) :
    ∃ members, value = .object members ∧ NameRows members ∧ HoldMembers cells members := by
  unfold columnOfJson at h
  split at h
  case h_2 => cases h
  next members =>
  obtain ⟨filled, hfill, h⟩ := (bind_eq_ok_iff _ _ _).mp h
  cases h
  obtain ⟨rows, nodup, free, hfilled, -, hlength⟩ := rows_of_fillRows hfill
  rw [List.length_replicate] at hlength
  have hbelow : ∀ row ∈ rows, row < members.length := by
    intro row hrow
    have hlt := (List.getElem?_eq_some_iff.mp (free row hrow)).1
    rwa [List.length_replicate] at hlt
  -- the rows are as many as the members, so every slot has been filled
  have hperm := perm_range nodup hbelow hfilled.length_eq.symm
  refine ⟨members, rfl, ⟨rows, hfilled.imp fun _ _ h => h.1, hperm⟩,
    by rw [List.length_map, hlength], ?_⟩
  intro row cell
  rw [List.getElem?_map]
  constructor
  · intro hcell
    have hlt : row < members.length := by
      by_contra hle
      rw [List.getElem?_eq_none (by omega)] at hcell
      cases hcell
    have hmem : row ∈ rows := hperm.mem_iff.mpr (List.mem_range.mpr hlt)
    obtain ⟨member, hmember, hname, hslot⟩ := exists_related hfilled.flip hmem
    rw [hslot] at hcell
    cases hcell
    exact ⟨member.1, hmember, hname⟩
  · rintro ⟨key, hmember, hname⟩
    obtain ⟨other, -, hother, hslot⟩ := exists_related hfilled hmember
    rw [hname.unique hother, hslot]
    rfl

/-- Members that name the rows are read as a column. -/
theorem exists_columnOfJson (name : String) {members : List (String × Json)}
    (h : NameRows members) : ∃ cells, columnOfJson name (.object members) = .ok cells := by
  obtain ⟨rows, hnames, hperm⟩ := h
  have hfree : ∀ row ∈ rows, (List.replicate members.length (none : Option Json))[row]? =
      some none := by
    intro row hrow
    rw [List.getElem?_replicate, if_pos (List.mem_range.mp (hperm.mem_iff.mp hrow))]
  obtain ⟨filled, hfilled⟩ :=
    exists_fillRows name hnames (hperm.nodup_iff.mpr List.nodup_range) hfree
  refine ⟨filled.map fun slot => slot.getD .null, ?_⟩
  rw [columnOfJson, hfilled]
  rfl

/-! ## Frames -/

/-- Frames with the same columns are the same. -/
theorem ext {frame other : DataFrame} (h : frame.columns = other.columns) : frame = other := by
  cases frame
  cases other
  cases h
  rfl

/-- Every column is as long as the frame has rows. -/
theorem length_eq_rowCount {frame : DataFrame} {column : String × List Json}
    (h : column ∈ frame.columns.entries) : column.2.length = frame.rowCount := by
  rw [rowCount, length_eq h]
  rfl

/-- A frame has no columns or the given number of rows exactly when its columns are that long. -/
theorem rowCount?_fits_iff (frame : DataFrame) (count : Nat) :
    (frame.rowCount? = none ∨ frame.rowCount? = some count) ↔
      ∀ column ∈ frame.columns.entries, column.2.length = count := by
  constructor
  · rintro (h | h) column hcolumn
    · cases h.symm.trans (length_eq hcolumn)
    · exact Option.some.inj ((length_eq hcolumn).symm.trans h)
  · intro h
    unfold rowCount?
    cases hentries : frame.columns.entries with
    | nil => exact Or.inl rfl
    | cons first rest => exact Or.inr (congrArg some (h first (hentries ▸ List.mem_cons_self ..)))

/-- A column that has been added has a new name and the length of the columns before. -/
theorem columns_of_addColumn {held frame : DataFrame} {name : String} {cells : List Json}
    (h : held.addColumn name cells = .ok frame) :
    held.column? name = none ∧ (∀ column ∈ held.columns.entries, column.2.length = cells.length) ∧
      frame.columns = held.columns.insert name cells := by
  unfold addColumn at h
  split at h
  case isFalse => cases h
  next hrows =>
  split at h
  · cases h
  · next hfree =>
    cases h
    exact ⟨Option.not_isSome_iff_eq_none.mp hfree, (rowCount?_fits_iff held _).mp hrows, rfl⟩

/-- A column of a new name can be added when it is as long as the columns before. -/
theorem exists_addColumn {held : DataFrame} {name : String} {cells : List Json}
    (free : held.column? name = none)
    (even : ∀ column ∈ held.columns.entries, column.2.length = cells.length) :
    ∃ frame, held.addColumn name cells = .ok frame := by
  unfold addColumn
  rw [dif_pos ((rowCount?_fits_iff held _).mpr even), free]
  exact ⟨_, rfl⟩

/-- Names are new after an insertion when they were new before and are not the inserted one. -/
theorem forall_get?_insert_eq_none_iff (held : Dict (List Json)) (name : String)
    (cells : List Json) (names : List String) :
    (∀ other ∈ names, (held.insert name cells).get? other = none) ↔
      name ∉ names ∧ ∀ other ∈ names, held.get? other = none := by
  constructor
  · intro h
    have hboth : ∀ other ∈ names, other ≠ name ∧ held.get? other = none := by
      intro other hother
      have hnew := h other hother
      rw [Dict.get?_insert] at hnew
      split at hnew
      · cases hnew
      · next hne => exact ⟨hne, hnew⟩
    exact ⟨fun hname => (hboth name hname).1 rfl, fun other hother => (hboth other hother).2⟩
  · rintro ⟨hname, h⟩ other hother
    have hne : other ≠ name := by
      rintro rfl
      exact hname hother
    rw [Dict.get?_insert, if_neg hne]
    exact h other hother

/-- Columns can be added one after the other when they have new names of their own and one length,
that of the columns held before; they are in the frame then. -/
theorem foldlM_addColumn_eq_ok_iff (columns : List (String × List Json)) (held frame : DataFrame) :
    columns.foldlM (fun frame column => frame.addColumn column.1 column.2) held = .ok frame ↔
      (columns.map Prod.fst).Nodup ∧ (∀ name ∈ columns.map Prod.fst, held.column? name = none) ∧
      (∃ count, (∀ column ∈ held.columns.entries, column.2.length = count) ∧
        ∀ column ∈ columns, column.2.length = count) ∧
      frame.columns = columns.foldl (fun d column => d.insert column.1 column.2) held.columns := by
  induction columns generalizing held with
  | nil =>
    constructor
    · intro h
      cases h
      exact ⟨List.nodup_nil, by simp, ⟨_, fun _ => length_eq_rowCount, by simp⟩, rfl⟩
    · rintro ⟨-, -, -, hframe⟩
      exact congrArg Except.ok (ext hframe).symm
  | cons column rest ih =>
    obtain ⟨name, cells⟩ := column
    rw [List.foldlM_cons, bind_eq_ok_iff, List.map_cons, List.nodup_cons, List.forall_mem_cons]
    have hnames : ∀ next : DataFrame, next.columns = held.columns.insert name cells →
        ((∀ other ∈ rest.map Prod.fst, next.column? other = none) ↔
          name ∉ rest.map Prod.fst ∧ ∀ other ∈ rest.map Prod.fst, held.column? other = none) := by
      intro next hnext
      unfold column?
      rw [hnext]
      exact forall_get?_insert_eq_none_iff held.columns name cells _
    constructor
    · rintro ⟨next, hadded, hrest⟩
      obtain ⟨hfree, heven, hnext⟩ := columns_of_addColumn hadded
      obtain ⟨nodup, hothers, ⟨count, hheld, hlengths⟩, hframe⟩ := (ih next).mp hrest
      rw [hnames next hnext] at hothers
      -- the column that was just added has the length of those that follow
      have hmem : (name, cells) ∈ next.columns.entries := by
        refine mem_of_lookup ?_
        rw [hnext]
        exact (Dict.get?_insert held.columns name name cells).trans (if_pos rfl)
      have hcells : cells.length = count := hheld _ hmem
      refine ⟨⟨hothers.1, nodup⟩, ⟨hfree, hothers.2⟩, ⟨count, ?_, ?_⟩, by rw [hframe, hnext]; rfl⟩
      · exact fun column hcolumn => (heven column hcolumn).trans hcells
      · exact List.forall_mem_cons.mpr ⟨hcells, hlengths⟩
    · rintro ⟨⟨hname, nodup⟩, ⟨hfree, hothers⟩, ⟨count, hheld, hlengths⟩, hframe⟩
      obtain ⟨hcells, hlengths⟩ := List.forall_mem_cons.mp hlengths
      obtain ⟨next, hadded⟩ := exists_addColumn hfree fun column hcolumn =>
        (hheld column hcolumn).trans hcells.symm
      obtain ⟨-, -, hnext⟩ := columns_of_addColumn hadded
      refine ⟨next, hadded, (ih next).mpr ⟨nodup, (hnames next hnext).mpr ⟨hname, hothers⟩,
        ⟨count, fun column hcolumn => ?_, hlengths⟩, by rw [hframe, hnext]; rfl⟩⟩
      rw [hnext] at hcolumn
      rcases Dict.mem_insertEntry hcolumn with rfl | hcolumn
      · exact hcells
      · exact hheld column hcolumn

/-- Columns make a frame exactly when they have names of their own and one length. -/
theorem ofColumns_eq_ok_iff (columns : List (String × List Json)) (frame : DataFrame) :
    ofColumns columns = .ok frame ↔ (columns.map Prod.fst).Nodup ∧
      (∃ count, ∀ column ∈ columns, column.2.length = count) ∧
      frame.columns = Dict.ofList columns := by
  unfold ofColumns
  rw [foldlM_addColumn_eq_ok_iff]
  constructor
  · rintro ⟨nodup, -, ⟨count, -, heven⟩, hframe⟩
    exact ⟨nodup, ⟨count, heven⟩, hframe⟩
  · rintro ⟨nodup, ⟨count, heven⟩, hframe⟩
    exact ⟨nodup, fun _ _ => rfl, ⟨count, fun _ h => absurd h List.not_mem_nil, heven⟩, hframe⟩

/-- Columns with names of their own and one length make a frame. -/
theorem exists_ofColumns {columns : List (String × List Json)} {count : Nat}
    (nodup : (columns.map Prod.fst).Nodup) (even : ∀ column ∈ columns, column.2.length = count) :
    ∃ frame, ofColumns columns = .ok frame := by
  have heven : ∀ column ∈ (Dict.ofList columns).entries, column.2.length = count :=
    fun column hcolumn => even column ((Dict.entries_ofList_perm nodup).mem_iff.mp hcolumn)
  refine ⟨⟨Dict.ofList columns, Dict.sorted_ofList columns, fun column hcolumn other hother => ?_⟩,
    (ofColumns_eq_ok_iff _ _).mpr ⟨nodup, ⟨count, even⟩, rfl⟩⟩
  rw [heven column hcolumn, heven other hother]

/-- The order of the columns makes no difference to the frame. -/
theorem ofColumns_perm {columns others : List (String × List Json)} {frame : DataFrame}
    (h : ofColumns columns = .ok frame) (perm : others.Perm columns) :
    ofColumns others = .ok frame := by
  rw [ofColumns_eq_ok_iff] at h ⊢
  obtain ⟨nodup, ⟨count, heven⟩, hframe⟩ := h
  have hnodup := (perm.map Prod.fst).nodup_iff.mpr nodup
  exact ⟨hnodup, ⟨count, fun column hcolumn => heven column (perm.mem_iff.mp hcolumn)⟩,
    hframe.trans (Dict.ofList_perm perm hnodup).symm⟩

end DocumentStore.DataFrame
