import DocumentStore.Proofs.NamedValues
import Mathlib.Data.List.Induction

/-!
# Records and their histories

A record is changed by insertions and removals. Whatever the changes were, it is the ordered map
that they describe: no name occurs twice, a look-up finds the last value written under the name
since its last removal, and the members stand in the order in which their names came in. What was
written last and what came in when is told from the list of changes alone. The argument goes along
that list from its front: a record that follows a history follows it after one change more. Nothing
else follows the same history, so these conditions are all there is to say about a record.
-/

set_option autoImplicit false

namespace DocumentStore

variable {α : Type}

/-- What stands at a place in a longer list is its last item, or it stands there before that. -/
theorem concat_eq_append_cons_iff {items before after : List α} {last item : α} :
    items ++ [last] = before ++ item :: after ↔
      (after = [] ∧ items = before ∧ last = item) ∨
        ∃ rest, after = rest ++ [last] ∧ items = before ++ item :: rest := by
  constructor
  · intro h
    rcases List.eq_nil_or_concat' after with rfl | ⟨rest, final, rfl⟩
    · obtain ⟨hbefore, hlast⟩ := List.append_inj' h rfl
      exact Or.inl ⟨rfl, hbefore, List.singleton_inj.mp hlast⟩
    · rw [← List.cons_append, ← List.append_assoc] at h
      obtain ⟨hrest, hlast⟩ := List.append_inj' h rfl
      rw [List.singleton_inj] at hlast
      exact Or.inr ⟨rest, by rw [hlast], hrest⟩
  · rintro (⟨rfl, rfl, rfl⟩ | ⟨rest, rfl, rfl⟩)
    · rfl
    · rw [List.append_assoc, List.cons_append]

namespace Record

/-! ## Histories -/

/-- A change to a record. Whether an insertion alters the record or gives the altered one back, it
is the same change. -/
inductive Change (α : Type)
  | insert (name : String) (value : α)
  | remove (name : String)

/-- The name that a change is about. -/
def Change.name : Change α → String
  | .insert name _ | .remove name => name

/-- Nothing is written under the name since its last removal: after each insertion of it comes a
removal. -/
def Unwritten (history : List (Change α)) (name : String) : Prop :=
  ∀ before value after, history = before ++ .insert name value :: after → .remove name ∈ after

/-- The value is the last one written under the name since its last removal: no change after this
insertion is about the name. -/
def LastWritten (history : List (Change α)) (name : String) (value : α) : Prop :=
  ∃ before after, history = before ++ .insert name value :: after ∧
    ∀ change ∈ after, change.name ≠ name

/-- The change at `position` is the first insertion of the name since its last removal. -/
def FirstWritten (history : List (Change α)) (name : String) (position : Nat) : Prop :=
  ∃ before value after, history = before ++ .insert name value :: after ∧
    before.length = position ∧ Unwritten before name ∧ .remove name ∉ after

variable {history : List (Change α)} {last : Change α} {name : String} {position : Nat}

/-- Nothing is written before the first change. -/
theorem unwritten_nil (name : String) : Unwritten ([] : List (Change α)) name := by
  intro before value after h
  simp at h

/-- A name is unwritten after a change that removes it, or if it was before one that does not insert
it. -/
theorem unwritten_concat :
    Unwritten (history ++ [last]) name ↔
      last = .remove name ∨ (∀ value, last ≠ .insert name value) ∧ Unwritten history name := by
  constructor
  · intro h
    by_cases hlast : last = .remove name
    · exact Or.inl hlast
    · refine Or.inr ⟨?_, ?_⟩
      · rintro value rfl
        exact absurd (h history value [] rfl) List.not_mem_nil
      · intro before value after hsplit
        have hmem := h before value (after ++ [last])
          (concat_eq_append_cons_iff.mpr (Or.inr ⟨after, rfl, hsplit⟩))
        rcases List.mem_append.mp hmem with hmem | hmem
        · exact hmem
        · exact absurd (List.mem_singleton.mp hmem).symm hlast
  · intro h before value after hsplit
    rcases concat_eq_append_cons_iff.mp hsplit with ⟨-, -, hinsert⟩ | ⟨rest, rfl, hrest⟩
    · rcases h with hremove | ⟨hlast, -⟩
      · cases hremove.symm.trans hinsert
      · exact absurd hinsert (hlast value)
    · rw [List.mem_append, List.mem_singleton]
      rcases h with hremove | ⟨-, h⟩
      · exact Or.inr hremove.symm
      · exact Or.inl (h before value rest hrest)

/-- The last value is that of the last change, or what it was before a change of another name. -/
theorem lastWritten_concat {value : α} :
    LastWritten (history ++ [last]) name value ↔
      last = .insert name value ∨ last.name ≠ name ∧ LastWritten history name value := by
  constructor
  · rintro ⟨before, after, hsplit, hother⟩
    rcases concat_eq_append_cons_iff.mp hsplit with ⟨-, -, hinsert⟩ | ⟨rest, rfl, hrest⟩
    · exact Or.inl hinsert
    · refine Or.inr ⟨hother last (by simp), before, rest, hrest, fun change hchange => ?_⟩
      exact hother change (List.mem_append_left _ hchange)
  · rintro (rfl | ⟨hlast, before, after, rfl, hother⟩)
    · exact ⟨history, [], rfl, by simp⟩
    · refine ⟨before, after ++ [last], by simp, fun change hchange => ?_⟩
      rcases List.mem_append.mp hchange with hchange | hchange
      · exact hother change hchange
      · rwa [List.mem_singleton.mp hchange]

/-- The first insertion stays the first until the name is removed; one after a removal is a new
one. -/
theorem firstWritten_concat :
    FirstWritten (history ++ [last]) name position ↔
      (last ≠ .remove name ∧ FirstWritten history name position) ∨
        ((∃ value, last = .insert name value) ∧ position = history.length ∧
          Unwritten history name) := by
  constructor
  · rintro ⟨before, value, after, hsplit, rfl, hnew, hkept⟩
    rcases concat_eq_append_cons_iff.mp hsplit with ⟨-, rfl, hinsert⟩ | ⟨rest, rfl, hrest⟩
    · exact Or.inr ⟨⟨value, hinsert⟩, rfl, hnew⟩
    · rw [List.mem_append, List.mem_singleton, not_or] at hkept
      exact Or.inl ⟨Ne.symm hkept.2, before, value, rest, hrest, rfl, hnew, hkept.1⟩
  · rintro (⟨hlast, before, value, after, rfl, rfl, hnew, hkept⟩ | ⟨⟨value, rfl⟩, rfl, hnew⟩)
    · refine ⟨before, value, after ++ [last], by simp, rfl, hnew, ?_⟩
      rw [List.mem_append, List.mem_singleton, not_or]
      exact ⟨hkept, Ne.symm hlast⟩
    · exact ⟨history, value, [], rfl, rfl, hnew, List.not_mem_nil⟩

/-- An insertion is the first of its name if the name was unwritten. -/
theorem firstWritten_insert {value : α} {key : String} :
    FirstWritten (history ++ [.insert name value]) key position ↔
      FirstWritten history key position ∨
        (key = name ∧ position = history.length ∧ Unwritten history key) := by
  simp [firstWritten_concat, eq_comm]

/-- A removal forgets only its own name. -/
theorem firstWritten_remove {key : String} :
    FirstWritten (history ++ [.remove name]) key position ↔
      key ≠ name ∧ FirstWritten history key position := by
  simp [firstWritten_concat, eq_comm]

/-- A first insertion is a change of the history. -/
theorem FirstWritten.lt_length (h : FirstWritten history name position) :
    position < history.length := by
  obtain ⟨before, value, after, rfl, rfl, -, -⟩ := h
  simp

/-- A name has come in exactly when something is written under it. -/
theorem exists_firstWritten_iff :
    (∃ position, FirstWritten history name position) ↔ ¬ Unwritten history name := by
  constructor
  · rintro ⟨position, before, value, after, hsplit, -, -, hkept⟩ hnone
    exact hkept (hnone before value after hsplit)
  · intro h
    induction history using List.reverseRecOn with
    | nil => exact absurd (unwritten_nil name) h
    | append_singleton history last ih =>
      rw [unwritten_concat, not_or, not_and'] at h
      obtain ⟨hlast, hinsert⟩ := h
      by_cases hnew : Unwritten history name
      · have hvalue : ∃ value, last = .insert name value := by simpa using hinsert hnew
        exact ⟨history.length, firstWritten_concat.mpr (Or.inr ⟨hvalue, rfl, hnew⟩)⟩
      · obtain ⟨position, hposition⟩ := ih hnew
        exact ⟨position, firstWritten_concat.mpr (Or.inl ⟨hlast, hposition⟩)⟩

/-! ## Members after a removal -/

variable {r : Record α}

/-- After a removal the name is not there and every other name has what it had. -/
theorem get?_erase (nodup : r.names.Nodup) (name key : String) :
    (r.erase name).get? key = if key = name then none else r.get? key :=
  lookup_eraseP nodup name key

/-- A removal keeps the order of the other names. -/
theorem names_erase (r : Record α) (name : String) : (r.erase name).names = r.names.erase name := by
  have hname : (fun m : String × α => decide (m.1 = name)) =
      (fun key => name == key) ∘ Prod.fst := by
    funext m
    simp [Bool.beq_eq_decide_eq, eq_comm]
  rw [names, names, List.erase_eq_eraseP, List.eraseP_map, erase, hname]

/-- The names of a record are those under which something is found. -/
theorem mem_names_iff (r : Record α) (name : String) : name ∈ r.names ↔ r.get? name ≠ none := by
  rw [ne_eq, get?, lookup_eq_none_iff_not_mem, not_not, names]

/-- An insertion keeps names distinct. -/
theorem nodup_names_insert (nodup : r.names.Nodup) (name : String) (value : α) :
    (r.insert name value).names.Nodup := by
  rw [names_insert]
  split
  · exact nodup
  · next hnew => exact List.nodup_append.mpr ⟨nodup, List.nodup_singleton name, by grind⟩

/-! ## The members of other names -/

/-- The members of all names but one, in order. -/
def others (r : Record α) (name : String) : List (String × α) :=
  r.members.filter fun m => m.1 ≠ name

/-- An insertion leaves the other members as they are. -/
theorem filter_insertMember (name : String) (value : α) (members : List (String × α)) :
    (insertMember name value members).filter (fun m => m.1 ≠ name) =
      members.filter fun m => m.1 ≠ name := by
  induction members with
  | nil => simp [insertMember]
  | cons m rest ih =>
    obtain ⟨key, held⟩ := m
    rw [insertMember]
    by_cases h : key = name
    · simp [h]
    · rw [if_neg h, List.filter_cons, List.filter_cons, ih]

/-- A removal leaves the other members as they are. -/
theorem filter_eraseP (name : String) (members : List (String × α)) :
    (members.eraseP fun m => m.1 = name).filter (fun m => m.1 ≠ name) =
      members.filter fun m => m.1 ≠ name := by
  induction members with
  | nil => rfl
  | cons m rest ih =>
    rw [List.eraseP_cons]
    by_cases h : m.1 = name
    · simp [h]
    · rw [decide_eq_false h, cond_false, List.filter_cons, List.filter_cons, ih]

/-! ## Following a history -/

/-- The record after a change. -/
def change (r : Record α) : Change α → Record α
  | .insert name value => r.insert name value
  | .remove name => (r.remove name).2

/-- The other members keep their values and their order. -/
theorem others_change (r : Record α) (last : Change α) :
    (r.change last).others last.name = r.others last.name := by
  cases last with
  | insert name value => exact filter_insertMember name value r.members
  | remove name =>
    rw [change, remove_eq]
    exact filter_eraseP name r.members

/-- The record is what a history leaves: it has each name once, under it the last value written
since its last removal, and the names in the order in which they came in. -/
structure Follows (r : Record α) (history : List (Change α)) : Prop where
  nodup : r.names.Nodup
  get?_eq_some_iff : ∀ name value, r.get? name = some value ↔ LastWritten history name value
  get?_eq_none_iff : ∀ name, r.get? name = none ↔ Unwritten history name
  ordered : r.names.Pairwise fun first second =>
    ∀ i j, FirstWritten history first i → FirstWritten history second j → i < j

/-- The empty record follows the empty history. -/
theorem follows_empty : (empty : Record α).Follows [] where
  nodup := List.nodup_nil
  get?_eq_some_iff name value := by simp [LastWritten, get?, empty]
  get?_eq_none_iff name := by simp [unwritten_nil, get?, empty]
  ordered := List.Pairwise.nil

/-- The names of a record are those that came in. -/
theorem Follows.mem_names_iff (h : r.Follows history) (name : String) :
    name ∈ r.names ↔ ∃ position, FirstWritten history name position := by
  rw [exists_firstWritten_iff, ← h.get?_eq_none_iff, Record.mem_names_iff]

/-- A record with an insertion follows the history with it. -/
theorem Follows.insert (h : r.Follows history) (name : String) (value : α) :
    (r.insert name value).Follows (history ++ [.insert name value]) where
  nodup := nodup_names_insert h.nodup name value
  get?_eq_some_iff key held := by
    rw [get?_insert, lastWritten_concat]
    by_cases hkey : key = name
    · simp [hkey, Change.name]
    · simp [hkey, Ne.symm hkey, Change.name, h.get?_eq_some_iff]
  get?_eq_none_iff key := by
    rw [get?_insert, unwritten_concat]
    by_cases hkey : key = name
    · simp [hkey]
    · simp [hkey, Ne.symm hkey, h.get?_eq_none_iff]
  ordered := by
    -- a name that is there came in before and does not come in again
    have hearlier : ∀ key ∈ r.names, ∀ i, FirstWritten (history ++ [.insert name value]) key i →
        FirstWritten history key i := by
      intro key hkey i hi
      rcases firstWritten_insert.mp hi with hi | ⟨-, -, hnone⟩
      · exact hi
      · exact absurd hnone (exists_firstWritten_iff.mp ((h.mem_names_iff key).mp hkey))
    have hordered : r.names.Pairwise fun first second =>
        ∀ i j, FirstWritten (history ++ [.insert name value]) first i →
          FirstWritten (history ++ [.insert name value]) second j → i < j :=
      h.ordered.imp_of_mem fun hfirst hsecond hbefore i j hi hj =>
        hbefore i j (hearlier _ hfirst i hi) (hearlier _ hsecond j hj)
    rw [names_insert]
    split
    · exact hordered
    · next hnew =>
      refine List.pairwise_append.mpr ⟨hordered, List.pairwise_singleton _ name, ?_⟩
      intro first hfirst second hsecond i j hi hj
      rw [List.mem_singleton] at hsecond
      subst hsecond
      rcases firstWritten_insert.mp hj with hj | ⟨-, rfl, -⟩
      · exact absurd ((h.mem_names_iff _).mpr ⟨j, hj⟩) hnew
      · exact (hearlier first hfirst i hi).lt_length

/-- A record with a removal follows the history with it. -/
theorem Follows.erase (h : r.Follows history) (name : String) :
    (r.erase name).Follows (history ++ [.remove name]) where
  nodup := by
    rw [names_erase]
    exact h.nodup.erase name
  get?_eq_some_iff key held := by
    rw [get?_erase h.nodup, lastWritten_concat]
    by_cases hkey : key = name
    · simp [hkey, Change.name]
    · simp [hkey, Ne.symm hkey, Change.name, h.get?_eq_some_iff]
  get?_eq_none_iff key := by
    rw [get?_erase h.nodup, unwritten_concat]
    by_cases hkey : key = name
    · simp [hkey]
    · simp [hkey, Ne.symm hkey, h.get?_eq_none_iff]
  ordered := by
    rw [names_erase]
    refine (h.ordered.sublist List.erase_sublist).imp fun hbefore i j hi hj => ?_
    exact hbefore i j (firstWritten_remove.mp hi).2 (firstWritten_remove.mp hj).2

/-- A record that follows a history follows it after one change more. -/
theorem Follows.change (h : r.Follows history) (last : Change α) :
    (r.change last).Follows (history ++ [last]) := by
  cases last with
  | insert name value => exact h.insert name value
  | remove name =>
    rw [Record.change, remove_eq]
    exact h.erase name

/-- A record follows any further changes. -/
theorem Follows.changes (h : r.Follows history) (changes : List (Change α)) :
    (changes.foldl Record.change r).Follows (history ++ changes) := by
  induction changes generalizing r history with
  | nil =>
    rw [List.append_nil]
    exact h
  | cons next rest ih =>
    rw [List.foldl_cons, List.append_cons]
    exact ih (h.change next)

/-- A history leaves one record only. -/
theorem Follows.unique {s : Record α} (hr : r.Follows history) (hs : s.Follows history) :
    r = s := by
  have hget : ∀ name, r.get? name = s.get? name := by
    intro name
    ext value
    rw [hr.get?_eq_some_iff, hs.get?_eq_some_iff]
  have hperm : r.members.Perm s.members := perm_of_lookup hr.nodup hs.nodup hget
  -- of two names that came in, each would have come in before the other
  have hantisymm : ∀ a b : String × α, a ∈ r.members → b ∈ s.members →
      (∀ i j, FirstWritten history a.1 i → FirstWritten history b.1 j → i < j) →
      (∀ i j, FirstWritten history b.1 i → FirstWritten history a.1 j → i < j) → a = b := by
    intro a b ha hb hab hba
    obtain ⟨i, hi⟩ := (hr.mem_names_iff a.1).mp (List.mem_map_of_mem ha)
    obtain ⟨j, hj⟩ := (hs.mem_names_iff b.1).mp (List.mem_map_of_mem hb)
    exact absurd (hab i j hi hj) (Nat.lt_asymm (hba j i hj hi))
  exact congrArg Record.mk (List.Perm.eq_of_pairwise hantisymm
    (List.pairwise_map.mp hr.ordered) (List.pairwise_map.mp hs.ordered) hperm)

/-! ## Collected and changed records -/

/-- The insertions by which a record is collected from a list of members. -/
def insertions (members : List (String × α)) : List (Change α) :=
  members.map fun m => .insert m.1 m.2

/-- The record that is collected from a list of members and then changed. From the empty list it
begins without members, whatever room is set aside for them. -/
def collected (members : List (String × α)) (changes : List (Change α)) : Record α :=
  changes.foldl change (ofList members)

/-- A collected record follows the insertions of its members and what comes after them. -/
theorem follows_collected (members : List (String × α)) (changes : List (Change α)) :
    (collected members changes).Follows (insertions members ++ changes) := by
  have h := follows_empty.changes (insertions members)
  rw [List.nil_append, insertions, List.foldl_map] at h
  exact h.changes changes

/-- The collected and changed record is the one that follows its history. -/
theorem follows_iff_eq_collected (members : List (String × α)) (changes : List (Change α))
    (r : Record α) :
    r.Follows (insertions members ++ changes) ↔ r = collected members changes := by
  constructor
  · intro h
    exact h.unique (follows_collected members changes)
  · rintro rfl
    exact follows_collected members changes

/-- Whatever it was collected from and whatever changes were made, a record is an ordered map. It
follows its history, and the names in it are those that came in. A removal gives back what a look-up
finds, after which the name is not found. One change more leaves the members of all other names
their values and their order. -/
theorem collected_orderedMap (members : List (String × α)) (changes : List (Change α)) :
    (collected members changes).Follows (insertions members ++ changes) ∧
    (∀ name, name ∈ (collected members changes).names ↔
      ∃ position, FirstWritten (insertions members ++ changes) name position) ∧
    (∀ name,
      ((collected members changes).remove name).1 = (collected members changes).get? name ∧
        ((collected members changes).remove name).2.get? name = none) ∧
    (∀ last, ((collected members changes).change last).others last.name =
      (collected members changes).others last.name) := by
  have h := follows_collected members changes
  refine ⟨h, h.mem_names_iff, fun name => ?_, fun last => ?_⟩
  · rw [remove_eq, get?_erase h.nodup, if_pos rfl]
    exact ⟨rfl, rfl⟩
  · exact others_change _ last

/-- A name that comes back goes to the end, one that is written again keeps its place. -/
example :
    collected [("a", 1), ("b", 2), ("a", 3)]
        [.remove "a", .insert "c" 4, .insert "a" 5, .insert "b" 6] =
      ⟨[("b", 6), ("c", 4), ("a", 5)]⟩ := by decide

end Record

end DocumentStore
