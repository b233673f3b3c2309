import DocumentStore.Proofs.NamedValues
import DocumentStore.Proofs.Outcome
import DocumentStore.Store.DuplicatePolicy
import Mathlib.Tactic.Tauto

/-!
# Writing under a duplicate policy

A write sends selected documents to the store, which puts each of them under its id. The store then
is what it would be if the documents had come to it one by one, each being judged by the policy
against what is there at that moment.

The selection goes through the documents once and remembers the ids it has met. What each policy
selects is first said by a recursion over the documents alone, which the rounds of the selection are
shown to follow; the ids remembered there, with those stored beforehand, are those of the store that
writing one by one would have reached.
-/

set_option autoImplicit false

namespace DocumentStore

/-! ## Names of a dictionary -/

namespace Dict

variable {α : Type}

/-- The names of a dictionary are those under which something is found. -/
theorem mem_names_iff (d : Dict α) (name : String) : name ∈ d.names ↔ d.get? name ≠ none := by
  have h := lookup_eq_none_iff_not_mem d.entries name
  unfold names get?
  rw [ne_eq, h, not_not]

/-- An insertion adds its name to the names. -/
theorem mem_names_insert (d : Dict α) (name key : String) (value : α) :
    key ∈ (d.insert name value).names ↔ key = name ∨ key ∈ d.names := by
  rw [mem_names_iff, mem_names_iff, get?_insert]
  by_cases h : key = name <;> simp [h]

end Dict

namespace DuplicatePolicy

variable {α : Type} (id : α → String)

/-! ## Writing one by one -/

/-- The store after some items were put under their ids. -/
def upsertAll (store : Dict α) (items : List α) : Dict α :=
  items.foldl (fun held item => held.insert (id item) item) store

/-- The store after an item came to it under a policy: a skipping write leaves out an item whose
id is there, any other write puts the item under its id. -/
def writeOne (policy : DuplicatePolicy) (store : Dict α) (item : α) : Dict α :=
  match policy with
  | .skip => if id item ∈ store.names then store else store.insert (id item) item
  | .unset | .overwrite | .fail => store.insert (id item) item

/-- The store after some items came to it one by one. -/
def writeEach (policy : DuplicatePolicy) (store : Dict α) (items : List α) : Dict α :=
  items.foldl (policy.writeOne id) store

/-- The last item with each id. -/
def lastOfEach : List α → List α
  | [] => []
  | item :: rest =>
    if rest.any fun later => id later = id item then lastOfEach rest
    else item :: lastOfEach rest

/-- The first item with each id that is not among those `known`. -/
def firstOfNew (known : List String) : List α → List α
  | [] => []
  | item :: rest =>
    if id item ∈ known then firstOfNew known rest
    else item :: firstOfNew (id item :: known) rest

/-- All items, provided that no id is among those `known` or occurs twice. -/
def onlyNew (known : List String) : List α → Except Error (List α)
  | [] => .ok []
  | item :: rest =>
    if id item ∈ known then .error (.duplicate (id item))
    else do return item :: (← onlyNew (id item :: known) rest)

/-- The first item whose id is there when it comes to the store. -/
def MeetsFirst (store : Dict α) (items : List α) (item : α) : Prop :=
  ∃ before after, items = before ++ item :: after ∧
    id item ∈ (writeEach id .fail store before).names ∧
    ∀ earlier other rest, before = earlier ++ other :: rest →
      id other ∉ (writeEach id .fail store earlier).names

variable {id} {store : Dict α} {known : List String} {items selected : List α}

/-- Putting items into a store keeps its ids in order. -/
theorem sorted_upsertAll (h : store.Sorted) : (upsertAll id store items).Sorted := by
  induction items generalizing store with
  | nil => exact h
  | cons item rest ih => exact ih (Dict.sorted_insert store h (id item) item)

/-- Two stores agree in a name after the same items, if one of the items has it or if they agreed
before. -/
theorem get?_upsertAll_congr {left right : Dict α} {key : String}
    (h : (∃ item ∈ items, id item = key) ∨ left.get? key = right.get? key) :
    (upsertAll id left items).get? key = (upsertAll id right items).get? key := by
  induction items generalizing left right with
  | nil => simpa [upsertAll] using h
  | cons item rest ih =>
    apply ih
    by_cases hkey : key = id item
    · right
      simp only [Dict.get?_insert, if_pos hkey]
    · obtain ⟨other, hother, hid⟩ | hsame := h
      · simp only [List.mem_cons] at hother
        obtain rfl | hother := hother
        · exact absurd hid.symm hkey
        · exact Or.inl ⟨other, hother, hid⟩
      · right
        simp only [Dict.get?_insert, if_neg hkey, hsame]

/-- The ids remembered by a selection stay those of the store when an item is put there. -/
theorem mem_cons_iff_insert (h : ∀ key, key ∈ known ↔ key ∈ store.names) (item : α) (key : String) :
    key ∈ id item :: known ↔ key ∈ (store.insert (id item) item).names := by
  rw [List.mem_cons, Dict.mem_names_insert, h]

/-! ## The last item with each id -/

/-- The last items keep their order. -/
theorem lastOfEach_sublist (items : List α) : (lastOfEach id items).Sublist items := by
  induction items with
  | nil => simp [lastOfEach]
  | cons item rest ih =>
    rw [lastOfEach]
    split
    · exact ih.cons item
    · exact ih.cons_cons item

/-- No id occurs twice among the last items. -/
theorem nodup_lastOfEach (items : List α) : ((lastOfEach id items).map id).Nodup := by
  induction items with
  | nil => simp [lastOfEach]
  | cons item rest ih =>
    rw [lastOfEach]
    split
    · exact ih
    · next hlater =>
      rw [List.map_cons, List.nodup_cons]
      refine ⟨fun hmem => hlater ?_, ih⟩
      obtain ⟨later, hmem, hid⟩ := List.mem_map.mp hmem
      simp only [List.any_eq_true, decide_eq_true_eq]
      exact ⟨later, (lastOfEach_sublist rest).subset hmem, hid⟩

/-- An item that is overwritten later need not be written. -/
theorem upsertAll_lastOfEach (h : store.Sorted) (items : List α) :
    upsertAll id store (lastOfEach id items) = upsertAll id store items := by
  induction items generalizing store with
  | nil => rfl
  | cons item rest ih =>
    rw [lastOfEach]
    split
    · next hlater =>
      rw [ih h]
      refine Dict.ext_of_get? (sorted_upsertAll h) (sorted_upsertAll h) fun key => ?_
      show _ = (upsertAll id (store.insert (id item) item) rest).get? key
      apply get?_upsertAll_congr
      simp only [List.any_eq_true, decide_eq_true_eq] at hlater
      by_cases hkey : key = id item
      · exact Or.inl (hkey ▸ hlater)
      · exact Or.inr (by simp only [Dict.get?_insert, if_neg hkey])
    · exact ih (Dict.sorted_insert store h (id item) item)

/-! ## The first item with each new id -/

/-- The first items keep their order. -/
theorem firstOfNew_sublist (known : List String) (items : List α) :
    (firstOfNew id known items).Sublist items := by
  induction items generalizing known with
  | nil => simp [firstOfNew]
  | cons item rest ih =>
    rw [firstOfNew]
    split
    · exact (ih known).cons item
    · exact (ih (id item :: known)).cons_cons item

/-- No first item has a known id. -/
theorem not_mem_known_of_mem_firstOfNew {item : α} (h : item ∈ firstOfNew id known items) :
    id item ∉ known := by
  induction items generalizing known with
  | nil => simp [firstOfNew] at h
  | cons next rest ih =>
    rw [firstOfNew] at h
    split at h
    · exact ih h
    · next hnew =>
      simp only [List.mem_cons] at h
      obtain rfl | h := h
      · exact hnew
      · exact fun hmem => ih h (List.mem_cons_of_mem _ hmem)

/-- No id occurs twice among the first items. -/
theorem nodup_firstOfNew (known : List String) (items : List α) :
    ((firstOfNew id known items).map id).Nodup := by
  induction items generalizing known with
  | nil => simp [firstOfNew]
  | cons item rest ih =>
    rw [firstOfNew]
    split
    · exact ih known
    · rw [List.map_cons, List.nodup_cons]
      refine ⟨fun hmem => ?_, ih (id item :: known)⟩
      obtain ⟨later, hmem, hid⟩ := List.mem_map.mp hmem
      exact not_mem_known_of_mem_firstOfNew hmem (hid ▸ List.mem_cons_self ..)

/-- What a skipping write leaves out is what would be skipped one by one. -/
theorem upsertAll_firstOfNew (h : ∀ key, key ∈ known ↔ key ∈ store.names) :
    upsertAll id store (firstOfNew id known items) = writeEach id .skip store items := by
  induction items generalizing known store with
  | nil => rfl
  | cons item rest ih =>
    rw [firstOfNew]
    show _ = writeEach id .skip (writeOne id .skip store item) rest
    simp only [writeOne, ← h]
    split
    · exact ih h
    · exact ih (mem_cons_iff_insert h item)

/-! ## Only new items -/

/-- A failing write that is not rejected selects everything. -/
theorem onlyNew_eq_ok (h : onlyNew id known items = .ok selected) :
    selected = items ∧ (items.map id).Nodup ∧ ∀ item ∈ items, id item ∉ known := by
  induction items generalizing known selected with
  | nil =>
    cases h
    simp
  | cons item rest ih =>
    rw [onlyNew] at h
    split at h
    · cases h
    · next hnew =>
      cases hrest : onlyNew id (id item :: known) rest with
      | error e =>
        rw [hrest] at h
        cases h
      | ok others =>
        rw [hrest] at h
        cases h
        obtain ⟨rfl, nodup, hothers⟩ := ih hrest
        simp only [List.mem_cons, not_or] at hothers
        refine ⟨rfl, ?_, ?_⟩
        · simp only [List.map_cons, List.nodup_cons, List.mem_map, not_exists, not_and]
          exact ⟨fun other hother => (hothers other hother).1, nodup⟩
        · intro other hother
          simp only [List.mem_cons] at hother
          obtain rfl | hother := hother
          · exact hnew
          · exact (hothers other hother).2

/-- The first item is met when its id is there; otherwise it is put there and the others follow. -/
theorem meetsFirst_cons (item : α) (rest : List α) (found : α) :
    MeetsFirst id store (item :: rest) found ↔
      id item ∈ store.names ∧ found = item ∨
        id item ∉ store.names ∧ MeetsFirst id (store.insert (id item) item) rest found := by
  constructor
  · rintro ⟨before, after, hitems, hmeets, hearlier⟩
    cases before with
    | nil =>
      cases hitems
      exact Or.inl ⟨hmeets, rfl⟩
    | cons head before =>
      cases hitems
      refine Or.inr ⟨hearlier [] item before rfl, before, after, rfl, hmeets, ?_⟩
      intro earlier other others hbefore
      exact hearlier (item :: earlier) other others (by rw [hbefore]; rfl)
  · rintro (⟨hmem, rfl⟩ | ⟨hnew, before, after, rfl, hmeets, hearlier⟩)
    · exact ⟨[], rest, rfl, hmem, by simp⟩
    · refine ⟨item :: before, after, rfl, hmeets, ?_⟩
      intro earlier other others hbefore
      cases earlier with
      | nil =>
        cases hbefore
        exact hnew
      | cons head earlier =>
        cases hbefore
        exact hearlier earlier other others rfl

/-- A failing write is rejected for the first item that it would meet in the store. -/
theorem onlyNew_eq_error_iff (h : ∀ key, key ∈ known ↔ key ∈ store.names) (e : Error) :
    onlyNew id known items = .error e ↔
      ∃ item, MeetsFirst id store items item ∧ e = .duplicate (id item) := by
  induction items generalizing known store with
  | nil => simp [onlyNew, MeetsFirst]
  | cons item rest ih =>
    simp only [meetsFirst_cons, ← h]
    rw [onlyNew]
    split
    · next hmem => simp [hmem, eq_comm]
    · next hnew =>
      have hrest := ih (@mem_cons_iff_insert _ id _ _ h item)
      simp only [hnew, false_and, not_false_eq_true, true_and, false_or, ← hrest]
      cases onlyNew id (id item :: known) rest <;> simp [bind, Except.bind, pure, Except.pure]

/-! ## Rounds of a selection -/

section Rounds

variable {stored seen : List String} {acc : Array α}

/-- An item that comes last is a first one if its id is neither known nor met before. -/
theorem firstOfNew_concat (known : List String) (items : List α) (item : α) :
    firstOfNew id known (items ++ [item]) = firstOfNew id known items ++
      if id item ∈ known ∨ id item ∈ items.map id then [] else [item] := by
  induction items generalizing known with
  | nil => simp [firstOfNew]
  | cons first rest ih =>
    rw [List.cons_append, firstOfNew, firstOfNew]
    by_cases hfirst : id first ∈ known
    · -- the id of the first item adds nothing to those that are known
      have hmet : id item ∈ known ∨ id item ∈ (first :: rest).map id ↔
          id item ∈ known ∨ id item ∈ rest.map id := by
        rw [List.map_cons, List.mem_cons]
        constructor
        · rintro (h | h | h)
          · exact Or.inl h
          · exact Or.inl (h ▸ hfirst)
          · exact Or.inr h
        · exact Or.imp_right Or.inr
      simp only [if_pos hfirst, ih, hmet]
    · have hmet : id item ∈ known ∨ id item ∈ (first :: rest).map id ↔
          id item ∈ id first :: known ∨ id item ∈ rest.map id := by
        rw [List.map_cons, List.mem_cons, List.mem_cons]
        tauto
      simp only [if_neg hfirst, ih, hmet, List.cons_append]

/-- Going backwards, the last item with each id comes first. -/
theorem lastOfEach_eq_reverse (items : List α) :
    lastOfEach id items = (firstOfNew id [] items.reverse).reverse := by
  induction items with
  | nil => rfl
  | cons item rest ih =>
    have hlater : (rest.any fun later => id later = id item) = true ↔
        id item ∈ [] ∨ id item ∈ rest.reverse.map id := by
      simp
    rw [List.reverse_cons, firstOfNew_concat, List.reverse_append, lastOfEach, ih]
    simp only [hlater]
    split <;> rfl

/-- Under a policy that rejects nothing, the rounds select the first items whose ids they do not
know: those met before, and under the skipping policy those stored as well. -/
theorem foldlM_selectStep_firstOfNew {policy : DuplicatePolicy}
    (hpolicy : policy = .skip ∨ policy = .overwrite)
    (h : ∀ key, key ∈ known ↔ policy = .skip ∧ key ∈ stored ∨ key ∈ seen) :
    ∃ met, items.foldlM (policy.selectStep id stored) (seen, acc) =
      .ok (met, acc ++ (firstOfNew id known items).toArray) := by
  induction items generalizing known seen acc with
  | nil => exact ⟨seen, by simp [firstOfNew, pure, Except.pure]⟩
  | cons item rest ih =>
    have hstep : policy.selectStep id stored (seen, acc) item =
        .ok (id item :: seen, if id item ∈ known then acc else acc.push item) := by
      rcases hpolicy with rfl | rfl <;> simp [selectStep, h]
    rw [List.foldlM_cons, hstep, ok_bind, firstOfNew]
    split
    · next hknown =>
      refine ih fun key => ?_
      rw [h, List.mem_cons]
      constructor
      · exact Or.imp_right Or.inr
      · rintro (hkey | rfl | hkey)
        · exact Or.inl hkey
        · exact (h _).mp hknown
        · exact Or.inr hkey
    · obtain ⟨met, hmet⟩ := @ih (id item :: known) (id item :: seen) (acc.push item) fun key => by
        rw [List.mem_cons, List.mem_cons, h]
        tauto
      exact ⟨met, by rw [hmet]; simp⟩

/-- The rounds of a failing write go on as long as the items are new. -/
theorem foldlM_selectStep_onlyNew (h : ∀ key, key ∈ known ↔ key ∈ stored ∨ key ∈ seen) :
    (items.foldlM (selectStep id .fail stored) (seen, acc)).map Prod.snd =
      (onlyNew id known items).map fun selected => acc ++ selected.toArray := by
  induction items generalizing known seen acc with
  | nil => simp [onlyNew, pure, Except.pure, Except.map]
  | cons item rest ih =>
    have hstep : selectStep id .fail stored (seen, acc) item =
        if id item ∈ known then .error (.duplicate (id item))
        else .ok (id item :: seen, acc.push item) := by
      simp [selectStep, h]
    rw [List.foldlM_cons, hstep, onlyNew]
    split
    · rfl
    · have hnext := @ih (id item :: known) (id item :: seen) (acc.push item) fun key => by
        rw [List.mem_cons, List.mem_cons, h]
        tauto
      rw [ok_bind, hnext]
      cases onlyNew id (id item :: known) rest <;>
        simp [bind, Except.bind, pure, Except.pure, Except.map]

/-- What the selection of each policy comes to. -/
theorem selectBy_eq (policy : DuplicatePolicy) (items : List α) (stored : List String) :
    policy.selectBy id items stored =
      match policy with
      | .unset | .overwrite => .ok (lastOfEach id items)
      | .skip => .ok (firstOfNew id stored items)
      | .fail => onlyNew id stored items := by
  have hlast : selectBy id .overwrite items stored = .ok (lastOfEach id items) := by
    obtain ⟨met, hmet⟩ := @foldlM_selectStep_firstOfNew _ id [] items.reverse stored [] #[]
      .overwrite (Or.inr rfl) (by simp)
    rw [selectBy, resolve, if_pos rfl, hmet, lastOfEach_eq_reverse]
    · simp [bind, Except.bind, pure, Except.pure]
    · simp
  cases policy with
  | unset => exact hlast
  | overwrite => exact hlast
  | skip =>
    obtain ⟨met, hmet⟩ := @foldlM_selectStep_firstOfNew _ id stored items stored [] #[]
      .skip (Or.inl rfl) (by simp)
    rw [selectBy, resolve, if_neg (by decide), hmet]
    · simp [bind, Except.bind, pure, Except.pure]
    · simp
  | fail =>
    have hselect : selectBy id .fail items stored =
        ((items.foldlM (selectStep id .fail stored) ([], #[])).map Prod.snd).map Array.toList := by
      rw [selectBy, resolve, if_neg (by decide)]
      · cases items.foldlM (selectStep id .fail stored) ([], #[]) <;> rfl
      · simp
    have hknown : ∀ key, key ∈ stored ↔ key ∈ stored ∨ key ∈ [] := by simp
    rw [hselect, foldlM_selectStep_onlyNew hknown]
    cases onlyNew id stored items <;> simp [Except.map]

end Rounds

/-! ## Selections -/

section Selections

variable {policy : DuplicatePolicy} {stored : List String}

/-- What is selected keeps the order of the items. -/
theorem selectBy_sublist (h : policy.selectBy id items stored = .ok selected) :
    selected.Sublist items := by
  rw [selectBy_eq] at h
  cases policy with
  | unset | overwrite =>
    cases h
    exact lastOfEach_sublist items
  | skip =>
    cases h
    exact firstOfNew_sublist stored items
  | fail =>
    obtain ⟨rfl, -, -⟩ := onlyNew_eq_ok h
    exact List.Sublist.refl _

/-- No id is selected twice. -/
theorem nodup_selectBy (h : policy.selectBy id items stored = .ok selected) :
    (selected.map id).Nodup := by
  rw [selectBy_eq] at h
  cases policy with
  | unset | overwrite =>
    cases h
    exact nodup_lastOfEach items
  | skip =>
    cases h
    exact nodup_firstOfNew stored items
  | fail =>
    obtain ⟨rfl, nodup, -⟩ := onlyNew_eq_ok h
    exact nodup

/-- Writing what is selected amounts to writing the items one by one. -/
theorem upsertAll_selectBy (sorted : store.Sorted) (hstored : ∀ key, key ∈ stored ↔ key ∈ store.names)
    (h : policy.selectBy id items stored = .ok selected) :
    upsertAll id store selected = writeEach id policy store items := by
  rw [selectBy_eq] at h
  cases policy with
  | unset | overwrite =>
    cases h
    exact upsertAll_lastOfEach sorted items
  | skip =>
    cases h
    exact upsertAll_firstOfNew hstored
  | fail =>
    obtain ⟨rfl, -, -⟩ := onlyNew_eq_ok h
    rfl

/-- A selection fails only under the failing policy, for the first item met in the store. -/
theorem selectBy_eq_error_iff (hstored : ∀ key, key ∈ stored ↔ key ∈ store.names) (e : Error) :
    policy.selectBy id items stored = .error e ↔
      policy = .fail ∧ ∃ item, MeetsFirst id store items item ∧ e = .duplicate (id item) := by
  rw [selectBy_eq]
  cases policy with
  | unset | overwrite | skip => simp
  | fail => simpa using onlyNew_eq_error_iff hstored e

end Selections

/-- A write under a policy amounts to writing the documents one by one. What is selected keeps the
order of the documents and has no id twice. The selection fails only under the failing policy, and
then for the first document whose id would be there when its turn comes. -/
theorem select_refines_writeEach (policy : DuplicatePolicy) (documents : List Document)
    (store : Dict Document) (sorted : store.Sorted) (existing : List String)
    (stored : ∀ key, key ∈ existing ↔ key ∈ store.names) :
    (∀ selected, policy.select documents existing = .ok selected →
      selected.Sublist documents ∧ (selected.map Document.id).Nodup ∧
        upsertAll Document.id store selected = writeEach Document.id policy store documents) ∧
    (∀ e, policy.select documents existing = .error e ↔
      policy = .fail ∧ ∃ document, MeetsFirst Document.id store documents document ∧
        e = .duplicate document.id) :=
  ⟨fun _ h => ⟨selectBy_sublist h, nodup_selectBy h, upsertAll_selectBy sorted stored h⟩,
    fun e => selectBy_eq_error_iff stored e⟩

/-- A skipping write to a store with one document: a new id comes twice, with a stored one between.
A failing write is rejected for the stored one. -/
theorem select_refines_writeEach_repeatedId :
    (⟨[("b", .ofId "b")]⟩ : Dict Document).Sorted ∧
      (∀ key, key ∈ ["b"] ↔ key ∈ (⟨[("b", .ofId "b")]⟩ : Dict Document).names) ∧
      upsertAll Document.id ⟨[("b", .ofId "b")]⟩ [.ofId "a"] =
        writeEach Document.id .skip ⟨[("b", .ofId "b")]⟩
          [.ofId "a", .ofId "b", { Document.ofId "a" with content := some "x" }] ∧
      ∃ document, MeetsFirst Document.id ⟨[("b", .ofId "b")]⟩
        [.ofId "a", .ofId "b", { Document.ofId "a" with content := some "x" }] document ∧
          Error.duplicate "b" = .duplicate document.id := by
  have sorted : (⟨[("b", .ofId "b")]⟩ : Dict Document).Sorted := by simp [Dict.Sorted]
  have stored : ∀ key, key ∈ ["b"] ↔ key ∈ (⟨[("b", .ofId "b")]⟩ : Dict Document).names := by
    simp [Dict.names]
  have skipping := select_refines_writeEach .skip
    [.ofId "a", .ofId "b", { Document.ofId "a" with content := some "x" }] _ sorted _ stored
  have failing := select_refines_writeEach .fail
    [.ofId "a", .ofId "b", { Document.ofId "a" with content := some "x" }] _ sorted _ stored
  exact ⟨sorted, stored, (skipping.1 _ rfl).2.2, ((failing.2 _).mp rfl).2⟩

end DuplicatePolicy

end DocumentStore
