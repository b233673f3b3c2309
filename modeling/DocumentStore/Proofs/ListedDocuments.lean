import DocumentStore.Proofs.SqlWords
import DocumentStore.Proofs.StoredDocuments
import DocumentStore.Store.Table

/-!
# Documents listed by their ids

The predicate for some ids is true of the row of a document whose id is listed and false of every
other one, so a deletion by ids leaves the rows of all other documents, in their order. Its text
tells the list: no id can end its literal early, so no two lists, in which ids may be repeated or
hold quotes, commas and brackets, are written alike.
-/

set_option autoImplicit false

namespace DocumentStore

variable {ids : List String}

/-- A text is among some texts when it is one of them. -/
theorem Cell.isAmong_strings (s : String) (texts : List String) :
    (Cell.utf8 s).isAmong (texts.map .string) = .ok (decide (s ∈ texts)) := by
  induction texts with
  | nil => rfl
  | cons text rest ih =>
    have hcompare : (Cell.utf8 s).compareTo (.string text) = .ok (some (compare s text)) := rfl
    rw [List.map_cons, Cell.isAmong, hcompare, ok_bind, ih]
    by_cases h : s = text
    · rw [if_pos (by rw [compare_eq_iff_eq.mpr h]), decide_eq_true (h ▸ List.mem_cons_self ..)]
    · have horder : compare s text ≠ .eq := fun heq => h (compare_eq_iff_eq.mp heq)
      rw [if_neg (by simpa using horder)]
      simp [h]

namespace Predicate

/-- The predicate for some ids looks the id up in their list. -/
theorem forIds_of_ne_nil (hne : ids ≠ []) :
    forIds ids = .inList [Column.id] (ids.map .string) false := by
  unfold forIds
  rw [if_neg (by simpa using hne)]

/-! ## The value on a row -/

/-- The predicate for ids is true of a row with one of them and false of one with another id. -/
theorem evaluate_forIds {row : Row} {id : String} (h : row.get? Column.id = some (.utf8 id))
    (ids : List String) : (forIds ids).evaluate row = .ok (some (decide (id ∈ ids))) := by
  by_cases hne : ids = []
  · subst hne
    rfl
  · have hpath : Row.path? row [Column.id] = some (.utf8 id) := by
      rw [Row.path?, h]
      rfl
    rw [forIds_of_ne_nil hne, evaluate]
    unfold Row.valueAt
    rw [hpath, ok_bind, Cell.isAmong_strings]
    cases decide (id ∈ ids) <;> rfl

/-- The predicate for ids selects the rows with one of them. -/
theorem selects_forIds {row : Row} {id : String} (h : row.get? Column.id = some (.utf8 id))
    (ids : List String) : (forIds ids).selects row = .ok (decide (id ∈ ids)) := by
  unfold selects
  rw [evaluate_forIds h, ok_bind]
  cases decide (id ∈ ids) <;> rfl

/-! ## The text -/

/-- Ids are written as strings. -/
theorem mapM_sql_strings (ids : List String) :
    (ids.map Scalar.string).mapM Scalar.sql = .ok (ids.map Sql.string) := by
  rw [mapM_eq_ok_iff, List.forall₂_map_left_iff, List.forall₂_map_right_iff, List.forall₂_same]
  exact fun _ _ => rfl

/-- The text of the predicate for ids has a literal for each of them. -/
theorem sqlChars_forIds (hne : ids ≠ []) :
    (forIds ids).sqlChars =
      .ok (Sql.path [Column.id] ++ " IN (".toList ++
        (Text.joined [',', ' '] (ids.map Sql.string) ++ [')'])) := by
  rw [forIds_of_ne_nil hne, sqlChars, if_neg (by simpa using hne), mapM_sql_strings, ok_bind,
    ← List.append_assoc]
  rfl

/-- The predicate for ids can always be written. -/
theorem exists_sqlChars_forIds (ids : List String) :
    ∃ text, (forIds ids).sqlChars = .ok text := by
  by_cases hne : ids = []
  · subst hne
    exact ⟨_, rfl⟩
  · exact ⟨_, sqlChars_forIds hne⟩

/-- A list of ids is not written as the constant that stands for no ids. -/
theorem sqlChars_forIds_ne_nil (hne : ids ≠ []) :
    (forIds ids).sqlChars ≠ (forIds []).sqlChars := by
  have hconstant : (forIds []).sqlChars = .ok "FALSE".toList := rfl
  rw [sqlChars_forIds hne, hconstant]
  intro h
  cases Except.ok.inj h

/-- The text tells which ids are listed, how often and in which order. -/
theorem sqlChars_forIds_injective {others : List String}
    (h : (forIds ids).sqlChars = (forIds others).sqlChars) : ids = others := by
  by_cases hne : ids = []
  · subst hne
    by_cases hne' : others = []
    · exact hne'.symm
    · exact absurd h.symm (sqlChars_forIds_ne_nil hne')
  · by_cases hne' : others = []
    · subst hne'
      exact absurd h (sqlChars_forIds_ne_nil hne)
    · rw [sqlChars_forIds hne, sqlChars_forIds hne'] at h
      have htails := List.append_cancel_left (Except.ok.inj h)
      obtain ⟨hliterals, -⟩ := Sql.literals_unique (mapM_sql_strings ids)
        (mapM_sql_strings others) (by simpa using hne) (by simpa using hne') htails
      exact List.map_injective_iff.mpr (fun _ _ => Scalar.string.inj) hliterals

/-- In a new table the predicate for ids is true of the documents that have one of them and false
of all others. It can always be written, and its text is that of one list only. -/
theorem forIds_exact (ids : List String) :
    (∀ (metadata : List Field) (width : Int64) (schema : Schema) (document : Document) (row : Row),
      Schema.ofMetadata metadata width = .ok schema → document.toRow schema = .ok row →
      (forIds ids).evaluate row = .ok (some (decide (document.id ∈ ids)))) ∧
    (∃ text, (forIds ids).sql = .ok text) ∧
    ∀ (others : List String) (text : String),
      (forIds ids).sql = .ok text → (forIds others).sql = .ok text → others = ids := by
  refine ⟨fun metadata width schema document row hschema hrow => ?_, ?_, ?_⟩
  · obtain ⟨fields, -, table⟩ := Schema.isTable_ofMetadata hschema
    exact evaluate_forIds (Document.storedIn_toRow table hrow).id ids
  · obtain ⟨characters, hcharacters⟩ := exists_sqlChars_forIds ids
    unfold sql
    rw [hcharacters]
    exact ⟨_, rfl⟩
  · intro others text htext hothers
    obtain ⟨characters, hcharacters, rfl⟩ := (map_eq_ok_iff _ _ _).mp htext
    obtain ⟨characters', hcharacters', htexts⟩ := (map_eq_ok_iff _ _ _).mp hothers
    obtain rfl := String.ofList_injective htexts
    exact sqlChars_forIds_injective (hcharacters'.trans hcharacters.symm)

/-- Ids that look like the end of their literal, and one that is listed twice. -/
theorem forIds_exact_marks :
    ∃ schema row,
      Schema.ofMetadata [] 2 = .ok schema ∧
      Document.toRow ⟨"b'", none, none, none, none, Dict.empty, none⟩ schema = .ok row ∧
      (forIds ["a', 'b", "b'", "b'"]).evaluate row = .ok (some true) ∧
      (forIds ["a', 'b", "b"]).evaluate row = .ok (some false) ∧
      (forIds ["a', 'b", "b'", "b'"]).sql = .ok "id IN ('a'', ''b', 'b''', 'b''')" ∧
      (forIds ["a", "b", "b'", "b'"]).sql ≠ .ok "id IN ('a'', ''b', 'b''', 'b''')" := by
  have listed := (forIds_exact ["a', 'b", "b'", "b'"]).1 [] 2 _
    ⟨"b'", none, none, none, none, Dict.empty, none⟩ _ rfl rfl
  have unlisted := (forIds_exact ["a', 'b", "b"]).1 [] 2 _
    ⟨"b'", none, none, none, none, Dict.empty, none⟩ _ rfl rfl
  refine ⟨_, _, rfl, rfl, listed, unlisted, rfl, fun h => ?_⟩
  exact absurd ((forIds_exact ["a', 'b", "b'", "b'"]).2.2 _ _ rfl h) (by decide)

end Predicate

/-! ## Deletion -/

namespace Table

/-- A deletion by ids leaves the rows with other ids as they are and in their order. -/
theorem delete_forIds {table : Table} (ids : List String)
    (h : ∀ row ∈ table.rows, ∃ id, row.get? Column.id = some (.utf8 id)) :
    table.delete (Predicate.forIds ids) =
      .ok { table with rows := table.rows.filter fun row => row.id?.all fun id => id ∉ ids } := by
  have htest : ∀ row ∈ table.rows,
      (do return !(← (Predicate.forIds ids).selects row) : Except Error Bool) =
        .ok (row.id?.all fun id => id ∉ ids) := by
    intro row hrow
    obtain ⟨id, hid⟩ := h row hrow
    unfold Row.id?
    rw [Predicate.selects_forIds hid, hid, ok_bind, ← decide_not]
    rfl
  unfold delete
  rw [filterM_eq_ok htest]
  rfl

end Table

end DocumentStore
