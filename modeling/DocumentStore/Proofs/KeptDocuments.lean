import DocumentStore.Proofs.BatchDocuments
import DocumentStore.Proofs.DuplicateWrites
import DocumentStore.Proofs.ListedDocuments

/-!
# Documents kept by a table

A table keeps the rows of some documents, under distinct ids. A write puts the row of each document
that its policy selects in place of the one with its id, or last; a deletion drops the rows that
its predicate selects. Either is followed step by step on the list of the documents that are kept,
errors included, and so is every run of writes and deletions, in which a step that fails changes
nothing.
-/

set_option autoImplicit false

namespace DocumentStore

/-! ## Documents put under their ids -/

namespace Document

/-- The documents kept after one came, in the place of the one with its id or last. -/
def put (document : Document) : List Document → List Document
  | [] => [document]
  | held :: rest => if held.id = document.id then document :: rest else held :: put document rest

/-- The documents kept after others came one by one. -/
def putAll (documents held : List Document) : List Document :=
  documents.foldl (fun held document => put document held) held

/-- The document that is kept under an id. -/
def under? (id : String) (held : List Document) : Option Document :=
  held.find? fun document => document.id = id

variable {document : Document} {documents held : List Document}

/-- The ids stay in their order; a new one comes last. -/
theorem ids_put (document : Document) (held : List Document) :
    (put document held).map id =
      held.map id ++ if document.id ∈ held.map id then [] else [document.id] := by
  induction held with
  | nil => rfl
  | cons first rest ih =>
    rw [put]
    by_cases hfirst : first.id = document.id
    · simp [hfirst]
    · have hne : document.id ≠ first.id := fun h => hfirst h.symm
      rw [if_neg hfirst, List.map_cons, List.map_cons, ih]
      simp only [List.mem_cons, hne, false_or, List.cons_append]

/-- Under the id of the first document is that document. -/
theorem under?_cons (document : Document) (rest : List Document) (key : String) :
    under? key (document :: rest) =
      if document.id = key then some document else under? key rest := by
  unfold under?
  by_cases h : document.id = key <;> simp [h]

/-- Under the id of a document that was put there is that document, elsewhere what was there. -/
theorem under?_put (document : Document) (held : List Document) (key : String) :
    under? key (put document held) =
      if document.id = key then some document else under? key held := by
  induction held with
  | nil => rw [put, under?_cons]
  | cons first rest ih =>
    rw [put]
    by_cases hfirst : first.id = document.id
    · rw [if_pos hfirst, under?_cons, under?_cons, hfirst]
      by_cases h : document.id = key <;> simp only [h, if_true, if_false]
    · simp only [if_neg hfirst, under?_cons, ih]
      by_cases h : document.id = key
      · have hne : first.id ≠ key := fun heq => hfirst (heq.trans h.symm)
        simp only [h, hne, if_true, if_false]
      · simp only [if_neg h]

/-- The ids that are kept are followed by the new ones, in the order of the documents. -/
theorem ids_putAll (nodup : (documents.map id).Nodup) (held : List Document) :
    (putAll documents held).map id =
      held.map id ++ (documents.map id).filter fun key => key ∉ held.map id := by
  induction documents generalizing held with
  | nil => simp [putAll]
  | cons document rest ih =>
    obtain ⟨hdocument, hrest⟩ := List.nodup_cons.mp nodup
    have hlater : ((rest.map id).filter fun key => key ∉ (put document held).map id) =
        (rest.map id).filter fun key => key ∉ held.map id := by
      refine List.filter_congr fun key hkey => ?_
      have hne : key ≠ document.id := fun h => hdocument (h ▸ hkey)
      by_cases hthere : document.id ∈ held.map id <;> simp only [ids_put, hthere, if_true, if_false,
        List.append_nil, List.mem_append, List.mem_singleton, hne, or_false]
    rw [putAll, List.foldl_cons, ← putAll, ih hrest, hlater, ids_put, List.map_cons,
      List.filter_cons]
    by_cases hthere : document.id ∈ held.map id <;> simp [hthere]

/-- Distinct ids stay distinct. -/
theorem nodup_putAll (hdocuments : (documents.map id).Nodup) (hheld : (held.map id).Nodup) :
    ((putAll documents held).map id).Nodup := by
  rw [ids_putAll hdocuments]
  refine hheld.append (hdocuments.filter _) fun key hkey hnew => ?_
  simp only [List.mem_filter, decide_eq_true_eq] at hnew
  exact hnew.2 hkey

/-- Under an id there is the new document with it, or else the one that was there. -/
theorem under?_putAll (nodup : (documents.map id).Nodup) (held : List Document) (key : String) :
    under? key (putAll documents held) = (under? key documents).or (under? key held) := by
  induction documents generalizing held with
  | nil => rfl
  | cons document rest ih =>
    obtain ⟨hdocument, hrest⟩ := List.nodup_cons.mp nodup
    rw [putAll, List.foldl_cons, ← putAll, ih hrest, under?_put]
    by_cases hkey : document.id = key
    · have hlater : under? key rest = none := by
        refine List.find?_eq_none.mpr fun other hother => ?_
        simpa [hkey] using fun h : other.id = key =>
          hdocument (List.mem_map.mpr ⟨other, hother, h.trans hkey.symm⟩)
      simp only [under?_cons, if_pos hkey, hlater, Option.none_or, Option.some_or]
    · simp only [under?_cons, if_neg hkey]

/-- Nothing is under an id that no document has. -/
theorem under?_eq_none_iff (key : String) (held : List Document) :
    under? key held = none ↔ key ∉ held.map id := by
  simp [under?]

/-- Where ids are distinct, a document is under its id. -/
theorem under?_eq_some_iff (nodup : (held.map id).Nodup) (key : String) (document : Document) :
    under? key held = some document ↔ document ∈ held ∧ document.id = key := by
  constructor
  · intro h
    exact ⟨List.mem_of_find?_eq_some h, by simpa using List.find?_some h⟩
  · rintro ⟨hmem, rfl⟩
    induction held with
    | nil => cases hmem
    | cons first rest ih =>
      obtain ⟨hfirst, hrest⟩ := List.nodup_cons.mp nodup
      rw [under?_cons]
      obtain rfl | hmem := List.mem_cons.mp hmem
      · rw [if_pos rfl]
      · have hne : first.id ≠ document.id := fun h => hfirst (h ▸ List.mem_map_of_mem hmem)
        rw [if_neg hne, ih hrest hmem]

/-- Where ids are distinct, what is under an id does not depend on the order. -/
theorem under?_reverse (nodup : (held.map id).Nodup) (key : String) :
    under? key held.reverse = under? key held := by
  refine Option.ext fun document => ?_
  rw [under?_eq_some_iff nodup, under?_eq_some_iff (by simpa using nodup), List.mem_reverse]

end Document

/-! ## What a policy leaves under an id -/

namespace DuplicatePolicy

open Document (under?)

variable {policy : DuplicatePolicy} {documents selected held : List Document}

/-- What a write leaves under an id where some document may have been: the last document with that
id if it overwrites, and otherwise the first one, unless one was there. -/
def leaves (policy : DuplicatePolicy) (key : String) (documents : List Document)
    (there : Option Document) : Option Document :=
  match policy with
  | .unset | .overwrite => (under? key documents.reverse).or there
  | .skip | .fail => there.or (under? key documents)

/-- The first documents with new ids are those that come under these ids. -/
theorem under?_firstOfNew (known : List String) (documents : List Document) (key : String) :
    under? key (firstOfNew Document.id known documents) =
      if key ∈ known then none else under? key documents := by
  induction documents generalizing known with
  | nil => simp [firstOfNew, under?]
  | cons document rest ih =>
    rw [firstOfNew, Document.under?_cons]
    split
    · next hknown =>
      rw [ih]
      by_cases hkey : document.id = key
      · simp only [← hkey, hknown, if_true]
      · simp only [if_neg hkey]
    · next hnew =>
      rw [Document.under?_cons, ih]
      by_cases hkey : document.id = key
      · simp only [← hkey, if_neg hnew, if_true]
      · simp only [if_neg hkey, List.mem_cons, Ne.symm hkey, false_or]

/-- The last document with an id is the first one going backwards. -/
theorem under?_lastOfEach (documents : List Document) (key : String) :
    under? key (lastOfEach Document.id documents) = under? key documents.reverse := by
  rw [lastOfEach_eq_reverse, Document.under?_reverse (nodup_firstOfNew _ _), under?_firstOfNew,
    if_neg List.not_mem_nil]

/-- The selected documents, with those that were there, leave under an id what the policy says. -/
theorem under?_selected (h : policy.select documents (held.map Document.id) = .ok selected)
    (key : String) :
    (under? key selected).or (under? key held) =
      policy.leaves key documents (under? key held) := by
  rw [select, selectBy_eq] at h
  cases policy with
  | unset | overwrite =>
    cases h
    rw [under?_lastOfEach, leaves]
  | skip =>
    cases h
    rw [under?_firstOfNew, leaves]
    cases hthere : under? key held with
    | none =>
      rw [if_neg ((Document.under?_eq_none_iff key held).mp hthere), Option.or_none, Option.none_or]
    | some there =>
      have hknown : key ∈ held.map Document.id := by
        by_contra hnew
        rw [(Document.under?_eq_none_iff key held).mpr hnew] at hthere
        cases hthere
      rw [if_pos hknown, Option.none_or, Option.some_or]
  | fail =>
    obtain ⟨rfl, -, hnew⟩ := onlyNew_eq_ok h
    rw [leaves]
    cases hfound : under? key selected with
    | none => rw [Option.none_or, Option.or_none]
    | some found =>
      -- a document that comes finds nothing under its id
      have hkey : found.id = key := by simpa [under?] using List.find?_some hfound
      have hnone := (Document.under?_eq_none_iff key held).mpr
        (hkey ▸ hnew found (List.mem_of_find?_eq_some hfound))
      rw [hnone, Option.or_none, Option.none_or]

end DuplicatePolicy

/-! ## The rows of the documents -/

/-- The row that a table keeps of a document. -/
def Document.keptRow (schema : Schema) (document : Document) : Except Error Row :=
  (document.toRow schema).map (Row.arranged schema.fields)

section Rows

variable {schema : Schema} {metadata : List Field} {size : Int32} {document : Document}
  {documents held : List Document} {row : Row} {rows : List Row}

/-- The row that is kept of a document has its id. -/
theorem Document.get?_id_keptRow (table : schema.IsTable metadata size)
    (h : document.keptRow schema = .ok row) : row.get? Column.id = some (.utf8 document.id) := by
  obtain ⟨encoded, hencoded, rfl⟩ := (map_eq_ok_iff _ _ _).mp h
  exact ((storedIn_toRow table hencoded).arranged table).id

/-- The id of a row that is kept is that of its document. -/
theorem Document.id?_keptRow (table : schema.IsTable metadata size)
    (h : document.keptRow schema = .ok row) : row.id? = some document.id := by
  unfold Row.id?
  rw [get?_id_keptRow table h]

/-- What is read of a row that is kept is what is read of the row of its document. -/
theorem Document.ofRow_keptRow (table : schema.IsTable metadata size)
    (h : document.keptRow schema = .ok row) :
    Document.ofRow row schema = document.toRow schema >>= fun row => Document.ofRow row schema := by
  obtain ⟨encoded, hencoded, rfl⟩ := (map_eq_ok_iff _ _ _).mp h
  rw [ofRow_arranged table hencoded, hencoded, ok_bind]

/-- A batch of documents has the rows that are kept of them, and fails as their rows do. -/
theorem Batch.toRows_ofDocuments (table : schema.IsTable metadata size)
    (documents : List Document) :
    (Batch.ofDocuments schema documents >>= Batch.toRows) =
      documents.mapM (Document.keptRow schema) := by
  have hkept : documents.mapM (Document.keptRow schema) =
      (documents.mapM fun document : Document => document.toRow schema).map
        (List.map (Row.arranged schema.fields)) := mapM_map_result _ _ _
  rw [hkept]
  cases hrows : documents.mapM fun document => document.toRow schema with
  | error e => rw [(ofDocuments_eq_error_iff table documents e).mpr hrows]; rfl
  | ok rows =>
    obtain ⟨batch, hbatch, hread⟩ := exists_toRows_ofDocuments table hrows
    rw [hbatch, ok_bind, hread]
    rfl

/-- Rows are put where their documents are. -/
theorem Table.mapM_keptRow_put (table : schema.IsTable metadata size)
    (hheld : held.mapM (Document.keptRow schema) = .ok rows)
    (h : document.keptRow schema = .ok row) :
    (document.put held).mapM (Document.keptRow schema) = .ok (upsert row rows) := by
  rw [mapM_eq_ok_iff] at hheld ⊢
  induction hheld with
  | nil => exact .cons h .nil
  | @cons first there rest others hfirst hrest ih =>
    have hsame : there.id? = row.id? ↔ first.id = document.id := by
      rw [Document.id?_keptRow table hfirst, Document.id?_keptRow table h, Option.some_inj]
    rw [Document.put, upsert]
    simp only [hsame]
    split
    · exact .cons h hrest
    · exact .cons hfirst ih

/-- All rows are put where their documents are. -/
theorem Table.mapM_keptRow_putAll (table : schema.IsTable metadata size) {new : List Row}
    (hheld : held.mapM (Document.keptRow schema) = .ok rows)
    (h : documents.mapM (Document.keptRow schema) = .ok new) :
    (Document.putAll documents held).mapM (Document.keptRow schema) =
      .ok (new.foldl (fun held row => upsert row held) rows) := by
  rw [mapM_eq_ok_iff] at h
  induction h generalizing held rows with
  | nil => exact hheld
  | cons hfirst _ ih => exact ih (mapM_keptRow_put table hheld hfirst)

end Rows

/-! ## Tables that hold documents -/

/-- A table holds some documents when its rows are those kept of them, under distinct ids. -/
structure Table.Holds (table : Table) (documents : List Document) : Prop where
  rows : documents.mapM (Document.keptRow table.schema) = .ok table.rows
  nodup : (documents.map Document.id).Nodup

namespace Table.Holds

variable {table : Table} {metadata : List Field} {size : Int32} {held : List Document}

/-- The ids of a table are those of the documents that it holds. -/
theorem ids_eq (h : table.Holds held) (isTable : table.schema.IsTable metadata size) :
    table.ids = held.map Document.id := by
  obtain ⟨hrows, -⟩ := h
  rw [mapM_eq_ok_iff] at hrows
  unfold Table.ids
  generalize table.rows = rows at hrows ⊢
  induction hrows with
  | nil => rfl
  | cons hfirst _ ih =>
    rw [List.filterMap_cons, Document.id?_keptRow isTable hfirst, ih, List.map_cons]

/-- The documents of a table are read as their own rows are. -/
theorem documents_eq (h : table.Holds held) (isTable : table.schema.IsTable metadata size) :
    table.documents = held.mapM fun document =>
      document.toRow table.schema >>= fun row => Document.ofRow row table.schema := by
  unfold Table.documents
  rw [← mapM_bind_of_mapM _ _ h.rows]
  apply mapM_congr_mem
  intro document hdocument
  obtain ⟨row, -, hrow⟩ := exists_related ((mapM_eq_ok_iff _ _ _).mp h.rows) hdocument
  rw [hrow, ok_bind, Document.ofRow_keptRow isTable hrow]

/-- A test of the rows chooses the rows of the documents that it chooses. -/
theorem filterM_eq (h : table.Holds held) (test : Row → Except Error Bool) :
    table.rows.filterM test =
      (held.filterM fun document => document.keptRow table.schema >>= test) >>= fun chosen =>
        chosen.mapM (Document.keptRow table.schema) := by
  rw [filterM_eq_map, filterM_eq_map, mapM_bind_of_mapM _ _ h.rows]
  cases table.rows.mapM test with
  | error e => rfl
  | ok results =>
    have hrows := (mapM_eq_ok_iff _ _ _).mp h.rows
    refine ((mapM_eq_ok_iff _ _ _).mpr (List.rel_filter ?_ hrows)).symm
    intro document row hrow
    show ((document.keptRow table.schema >>= test).toOption.getD false = true) ↔ _
    rw [hrow, ok_bind]

/-- A selection finds the rows of the documents that the predicate selects. -/
theorem select_eq (h : table.Holds held) (predicate : Predicate) :
    table.select predicate =
      (held.filterM fun document => document.keptRow table.schema >>= predicate.selects) >>=
        fun chosen => chosen.mapM (Document.keptRow table.schema) :=
  h.filterM_eq predicate.selects

end Table.Holds

/-- A new table holds nothing. -/
theorem Table.holds_ofConfig {config : StoreConfig} {stored : Option Schema} {table : Table}
    (h : Table.ofConfig config stored = .ok table) : table.Holds [] := by
  obtain ⟨schema, -, h⟩ := (bind_eq_ok_iff _ _ _).mp h
  obtain ⟨-, -, h⟩ := (bind_eq_ok_iff _ _ _).mp h
  cases h
  exact ⟨rfl, List.nodup_nil⟩

/-- Where no table is stored yet, a store has a document table. -/
theorem Table.isTable_ofConfig {config : StoreConfig} {table : Table}
    (h : Table.ofConfig config none = .ok table) :
    ∃ metadata size, table.schema.IsTable metadata size := by
  obtain ⟨schema, hschema, h⟩ := (bind_eq_ok_iff _ _ _).mp h
  obtain ⟨-, -, h⟩ := (bind_eq_ok_iff _ _ _).mp h
  cases h
  obtain ⟨plan, -, hbuild⟩ := (bind_eq_ok_iff _ _ _).mp hschema
  obtain ⟨_ | metadata, _ | width⟩ := plan
  · cases hbuild
  · cases hbuild
  · cases hbuild
  · obtain ⟨fields, -, isTable⟩ := Schema.isTable_ofMetadata hbuild
    exact ⟨fields, _, isTable⟩

/-! ## Changes -/

/-- A change of a table. -/
inductive Change where
  | write (documents : List Document) (policy : DuplicatePolicy)
  | delete (predicate : Predicate)

namespace Change

/-- The table after a change. -/
def apply (table : Table) : Change → Except Error Table
  | write documents policy => table.write documents policy
  | delete predicate => table.delete predicate

/-- The documents that are held after a change. -/
def keep (schema : Schema) (held : List Document) : Change → Except Error (List Document)
  | write documents policy => do
    let selected ← policy.select documents (held.map Document.id)
    discard (selected.mapM (Document.keptRow schema))
    return Document.putAll selected held
  | delete predicate =>
    held.filterM fun document => do return !(← predicate.selects (← document.keptRow schema))

variable {table next : Table} {schema : Schema} {metadata : List Field} {size : Int32}
  {held kept : List Document} {change : Change}

/-- Ids are distinct after a change. -/
theorem nodup_keep (nodup : (held.map Document.id).Nodup)
    (h : change.keep schema held = .ok kept) : (kept.map Document.id).Nodup := by
  cases change with
  | write documents policy =>
    obtain ⟨selected, hselected, h⟩ := (bind_eq_ok_iff _ _ _).mp h
    obtain ⟨-, -, h⟩ := (bind_eq_ok_iff _ _ _).mp h
    cases h
    exact Document.nodup_putAll (DuplicatePolicy.nodup_selectBy hselected) nodup
  | delete predicate =>
    rw [keep, filterM_eq_map] at h
    obtain ⟨-, -, rfl⟩ := (map_eq_ok_iff _ _ _).mp h
    exact nodup.sublist (List.filter_sublist.map _)

/-- A write changes the rows of a table as it changes the documents that the table holds. -/
theorem write_eq (isTable : table.schema.IsTable metadata size) (h : table.Holds held)
    (documents : List Document) (policy : DuplicatePolicy) :
    table.write documents policy =
      (write documents policy).keep table.schema held >>= fun kept =>
        (kept.mapM (Document.keptRow table.schema)).map fun rows =>
          { table with rows := rows } := by
  have hrows : ∀ selected : List Document, (do
      let batch ← Batch.ofDocuments table.schema selected
      let rows ← batch.toRows
      return { table with rows := rows.foldl (fun held row => Table.upsert row held) table.rows }) =
        selected.mapM (Document.keptRow table.schema) >>= fun rows => .ok
          { table with rows := rows.foldl (fun held row => Table.upsert row held) table.rows } := by
    intro selected
    rw [← Batch.toRows_ofDocuments isTable, bind_assoc]
    rfl
  rw [Table.write, keep, h.ids_eq isTable]
  cases policy.select documents (held.map Document.id) with
  | error e => rfl
  | ok selected =>
    rw [ok_bind, hrows, ok_bind]
    cases hnew : selected.mapM (Document.keptRow table.schema) with
    | error e => rfl
    | ok rows =>
      show _ = ((Document.putAll selected held).mapM (Document.keptRow table.schema)).map _
      rw [Table.mapM_keptRow_putAll isTable h.rows hnew]
      rfl

/-- A deletion changes the rows of a table as it changes the documents that the table holds. -/
theorem delete_eq (h : table.Holds held) (predicate : Predicate) :
    table.delete predicate =
      (delete predicate).keep table.schema held >>= fun kept =>
        (kept.mapM (Document.keptRow table.schema)).map fun rows =>
          { table with rows := rows } := by
  rw [Table.delete, keep, h.filterM_eq, bind_assoc]
  simp only [← bind_pure_eq_map]

/-- A change of a table is a change of the documents that it holds, and fails when that fails. -/
theorem apply_eq (isTable : table.schema.IsTable metadata size) (h : table.Holds held)
    (change : Change) :
    change.apply table = change.keep table.schema held >>= fun kept =>
      (kept.mapM (Document.keptRow table.schema)).map fun rows => { table with rows := rows } := by
  cases change with
  | write documents policy => exact write_eq isTable h documents policy
  | delete predicate => exact delete_eq h predicate

/-- The documents held after a change have rows if they had rows before. -/
theorem exists_rows_keep (isTable : schema.IsTable metadata size) {rows : List Row}
    (hheld : held.mapM (Document.keptRow schema) = .ok rows)
    (h : change.keep schema held = .ok kept) :
    ∃ rows, kept.mapM (Document.keptRow schema) = .ok rows := by
  cases change with
  | write documents policy =>
    obtain ⟨selected, -, h⟩ := (bind_eq_ok_iff _ _ _).mp h
    obtain ⟨_, hdiscard, h⟩ := (bind_eq_ok_iff _ _ _).mp h
    obtain ⟨new, hnew, -⟩ := (map_eq_ok_iff _ _ _).mp hdiscard
    cases h
    exact ⟨_, Table.mapM_keptRow_putAll isTable hheld hnew⟩
  | delete predicate =>
    rw [keep, filterM_eq_map] at h
    obtain ⟨-, -, rfl⟩ := (map_eq_ok_iff _ _ _).mp h
    rw [mapM_isOk_iff]
    intro document hdocument
    exact (mapM_isOk_iff _ _).mp ⟨rows, hheld⟩ document (List.mem_of_mem_filter hdocument)

/-- A change fails on a table exactly when it fails on the documents that the table holds, and with
the same error. Otherwise the changed table has its schema and policy as before and holds the
changed documents. -/
theorem apply_refines_keep (isTable : table.schema.IsTable metadata size) (h : table.Holds held)
    (change : Change) :
    (∀ e, change.apply table = .error e ↔ change.keep table.schema held = .error e) ∧
    ∀ next, change.apply table = .ok next →
      next.schema = table.schema ∧ next.policy = table.policy ∧
        ∃ kept, change.keep table.schema held = .ok kept ∧ next.Holds kept := by
  rw [apply_eq isTable h]
  cases hkept : change.keep table.schema held with
  | error e => exact ⟨fun _ => by rw [error_bind]; simp, fun next hnext => by cases hnext⟩
  | ok kept =>
    obtain ⟨rows, hrows⟩ := exists_rows_keep isTable h.rows hkept
    rw [ok_bind, hrows]
    refine ⟨fun _ => by simp [Except.map], fun next hnext => ?_⟩
    cases hnext
    exact ⟨rfl, rfl, kept, rfl, hrows, nodup_keep h.nodup hkept⟩

/-! ## Documents under their ids -/

/-- After a write there is under each id what its policy leaves there. -/
theorem under?_write {documents : List Document} {policy : DuplicatePolicy}
    (h : (write documents policy).keep schema held = .ok kept) (key : String) :
    Document.under? key kept = policy.leaves key documents (Document.under? key held) := by
  obtain ⟨selected, hselected, h⟩ := (bind_eq_ok_iff _ _ _).mp h
  obtain ⟨-, -, h⟩ := (bind_eq_ok_iff _ _ _).mp h
  cases h
  rw [Document.under?_putAll (DuplicatePolicy.nodup_selectBy hselected),
    DuplicatePolicy.under?_selected hselected]

/-- After a deletion there are the documents whose rows the predicate does not select. -/
theorem mem_delete_iff {predicate : Predicate}
    (h : (delete predicate).keep schema held = .ok kept) (document : Document) :
    document ∈ kept ↔
      document ∈ held ∧ (document.keptRow schema >>= predicate.selects) = .ok false := by
  rw [keep, filterM_eq_map] at h
  obtain ⟨-, -, rfl⟩ := (map_eq_ok_iff _ _ _).mp h
  rw [List.mem_filter]
  refine and_congr_right fun _ => ?_
  cases document.keptRow schema with
  | error e => simp [bind, Except.bind, Except.toOption]
  | ok row =>
    rw [ok_bind, ok_bind]
    cases predicate.selects row with
    | error e => simp [bind, Except.bind, Except.toOption]
    | ok selected => cases selected <;> simp [bind, Except.bind, pure, Except.pure, Except.toOption]

/-- A deletion by ids leaves the documents with other ids. -/
theorem keep_delete_forIds (isTable : schema.IsTable metadata size) {rows : List Row}
    (hheld : held.mapM (Document.keptRow schema) = .ok rows) (ids : List String) :
    (delete (.forIds ids)).keep schema held =
      .ok (held.filter fun document => document.id ∉ ids) := by
  rw [keep]
  refine filterM_eq_ok fun document hdocument => ?_
  obtain ⟨row, -, hrow⟩ := exists_related ((mapM_eq_ok_iff _ _ _).mp hheld) hdocument
  rw [hrow, ok_bind, Predicate.selects_forIds (Document.get?_id_keptRow isTable hrow), ok_bind,
    ← decide_not]
  rfl

/-- A change spares a document when it neither overwrites nor deletes it. -/
def Spares (schema : Schema) (document : Document) : Change → Prop
  | write documents policy =>
    policy = .skip ∨ policy = .fail ∨ ∀ other ∈ documents, other.id ≠ document.id
  | delete predicate => (document.keptRow schema >>= predicate.selects) ≠ .ok true

/-- A document that is spared is still held. -/
theorem mem_keep_of_spares {document : Document} (nodup : (held.map Document.id).Nodup)
    (spared : change.Spares schema document) (h : change.keep schema held = .ok kept)
    (hmem : document ∈ held) : document ∈ kept := by
  cases change with
  | write documents policy =>
    have hthere := (Document.under?_eq_some_iff nodup _ _).mpr ⟨hmem, rfl⟩
    have hnodup := nodup_keep nodup h
    refine ((Document.under?_eq_some_iff hnodup document.id document).mp ?_).1
    rw [under?_write h, hthere]
    obtain rfl | rfl | hothers := spared
    · rfl
    · rfl
    · have hnone : ∀ others : List Document, (∀ other ∈ others, other.id ≠ document.id) →
          Document.under? document.id others = none := by
        intro others hothers
        simpa [Document.under?] using hothers
      cases policy <;> simp [DuplicatePolicy.leaves, hnone _ hothers,
        hnone documents.reverse (by simpa using hothers)]
  | delete predicate =>
    refine (mem_delete_iff h document).mpr ⟨hmem, ?_⟩
    rw [keep, filterM_eq_map] at h
    obtain ⟨results, hresults, -⟩ := (map_eq_ok_iff _ _ _).mp h
    obtain ⟨result, htest⟩ := (mapM_isOk_iff _ _).mp ⟨results, hresults⟩ document hmem
    obtain ⟨row, hrow, htest⟩ := (bind_eq_ok_iff _ _ _).mp htest
    obtain ⟨selected, hselected, -⟩ := (bind_eq_ok_iff _ _ _).mp htest
    rw [Spares] at spared
    rw [hrow, ok_bind, hselected] at spared ⊢
    cases selected with
    | false => rfl
    | true => exact absurd rfl spared

/-! ## Runs of changes -/

/-- The documents held after some changes, of which those that fail change nothing. -/
def keepEach (schema : Schema) (changes : List Change) (held : List Document) : List Document :=
  changes.foldl (fun held change => (change.keep schema held).toOption.getD held) held

/-- Ids are distinct after some changes. -/
theorem nodup_keepEach (changes : List Change) (nodup : (held.map Document.id).Nodup) :
    ((keepEach schema changes held).map Document.id).Nodup := by
  induction changes generalizing held with
  | nil => exact nodup
  | cons change rest ih =>
    rw [keepEach, List.foldl_cons]
    cases h : change.keep schema held with
    | error e => exact ih nodup
    | ok kept => exact ih (nodup_keep nodup h)

/-- A document that each change spares is held after all of them. -/
theorem mem_keepEach_of_spares {changes : List Change} {document : Document}
    (nodup : (held.map Document.id).Nodup)
    (spared : ∀ change ∈ changes, change.Spares schema document) (hmem : document ∈ held) :
    document ∈ keepEach schema changes held := by
  induction changes generalizing held with
  | nil => exact hmem
  | cons change rest ih =>
    obtain ⟨hchange, hrest⟩ := List.forall_mem_cons.mp spared
    cases h : change.keep schema held with
    | error e =>
      rw [keepEach, List.foldl_cons, h]
      exact ih nodup hrest hmem
    | ok kept =>
      rw [keepEach, List.foldl_cons, h]
      exact ih (nodup_keep nodup h) hrest (mem_keep_of_spares nodup hchange h hmem)

end Change

namespace Table

/-- The table after some changes, of which those that fail change nothing. -/
def applyEach (table : Table) (changes : List Change) : Table :=
  changes.foldl (fun table change => (change.apply table).toOption.getD table) table

variable {table : Table} {metadata : List Field} {size : Int32} {held : List Document}

/-- Whatever is changed, a table keeps its schema and policy and holds the documents that the
changes leave. -/
theorem holds_applyEach (isTable : table.schema.IsTable metadata size) (h : table.Holds held)
    (changes : List Change) :
    (table.applyEach changes).schema = table.schema ∧
      (table.applyEach changes).policy = table.policy ∧
      (table.applyEach changes).Holds (Change.keepEach table.schema changes held) := by
  induction changes generalizing table held with
  | nil => exact ⟨rfl, rfl, h⟩
  | cons change rest ih =>
    obtain ⟨herror, hok⟩ := Change.apply_refines_keep isTable h change
    rw [applyEach, Change.keepEach, List.foldl_cons, List.foldl_cons]
    cases hnext : change.apply table with
    | error e =>
      rw [(herror e).mp hnext]
      exact ih isTable h
    | ok next =>
      obtain ⟨hschema, hpolicy, kept, hkept, hholds⟩ := hok next hnext
      have hrest := ih (hschema.symm ▸ isTable) hholds
      rw [hschema, hpolicy] at hrest
      rw [hkept]
      exact hrest

/-- After any writes and deletions, the table of a new store holds what they leave, one by one: its
ids are distinct, its documents are read as their own rows are, and a document that was held at some
point and is spared from then on is still held. -/
theorem holds_afterChanges {config : StoreConfig} (hconfig : Table.ofConfig config none = .ok table)
    (changes : List Change) :
    ∃ held, (table.applyEach changes).Holds held ∧
      (table.applyEach changes).ids = held.map Document.id ∧
      (table.applyEach changes).ids.Nodup ∧
      ((table.applyEach changes).documents = held.mapM fun document =>
        document.toRow table.schema >>= fun row => Document.ofRow row table.schema) ∧
      ∀ before after, changes = before ++ after →
        ∀ document ∈ Change.keepEach table.schema before [],
          (∀ change ∈ after, change.Spares table.schema document) → document ∈ held := by
  obtain ⟨metadata, size, isTable⟩ := isTable_ofConfig hconfig
  obtain ⟨hschema, -, h⟩ := holds_applyEach isTable (holds_ofConfig hconfig) changes
  have isTable' := hschema.symm ▸ isTable
  have hids := h.ids_eq isTable'
  refine ⟨_, h, hids, hids ▸ h.nodup, ?_, ?_⟩
  · rw [h.documents_eq isTable', hschema]
  · rintro before after rfl document hdocument spared
    rw [Change.keepEach, List.foldl_append]
    exact Change.mem_keepEach_of_spares (Change.nodup_keepEach before List.nodup_nil) spared
      hdocument

end Table

end DocumentStore
