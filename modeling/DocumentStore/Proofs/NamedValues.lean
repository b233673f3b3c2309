import DocumentStore.Dict
import DocumentStore.Record
import Mathlib.Data.List.Nodup
import Mathlib.Data.List.Perm.Basic
import Mathlib.Data.String.Basic

/-!
# Named values

Where no name occurs twice, a list of named values is a finite map: looking up a name finds the one
value that stands under it, and the order of the list does not matter. A dictionary is determined
by its look-ups, because its names ascend. A record of distinct names is the list that it was made
of.
-/

set_option autoImplicit false

namespace DocumentStore

variable {α β : Type}

/-! ## Looking up in lists of distinct names -/

/-- A value that is found stands in the list under its name. -/
theorem mem_of_lookup {entries : List (String × α)} {name : String} {value : α}
    (h : entries.lookup name = some value) : (name, value) ∈ entries := by
  induction entries with
  | nil => cases h
  | cons e rest ih =>
    obtain ⟨key, held⟩ := e
    rw [lookup_cons_eq_ite] at h
    split at h
    · next hk =>
      subst hk
      cases h
      exact List.mem_cons_self ..
    · exact List.mem_cons_of_mem _ (ih h)

/-- Among distinct names a value is found under its name. -/
theorem lookup_of_mem {entries : List (String × α)} {name : String} {value : α}
    (nodup : (entries.map Prod.fst).Nodup) (h : (name, value) ∈ entries) :
    entries.lookup name = some value := by
  induction entries with
  | nil => cases h
  | cons e rest ih =>
    obtain ⟨key, held⟩ := e
    rw [List.map_cons, List.nodup_cons] at nodup
    rw [lookup_cons_eq_ite]
    rcases List.mem_cons.mp h with h | h
    · cases h
      rw [if_pos rfl]
    · have hne : name ≠ key := by
        intro hk
        exact nodup.1 (hk ▸ List.mem_map.mpr ⟨(name, value), h, rfl⟩)
      rw [if_neg hne]
      exact ih nodup.2 h

/-- Nothing is found under exactly the names that do not occur. -/
theorem lookup_eq_none_iff_not_mem (entries : List (String × α)) (name : String) :
    entries.lookup name = none ↔ name ∉ entries.map Prod.fst := by
  induction entries with
  | nil => exact iff_of_true rfl List.not_mem_nil
  | cons e rest ih =>
    obtain ⟨key, held⟩ := e
    rw [lookup_cons_eq_ite, List.map_cons, List.mem_cons, not_or]
    split
    · next hk => exact iff_of_false (by simp) fun h => h.1 hk
    · next hk => rw [ih, and_iff_right hk]

/-- Two lists of distinct names with the same members are looked up alike. -/
theorem lookup_perm {left right : List (String × α)} (h : left.Perm right)
    (nodup : (left.map Prod.fst).Nodup) (name : String) :
    left.lookup name = right.lookup name := by
  cases hl : left.lookup name with
  | some value =>
    have hmem : (name, value) ∈ right := h.mem_iff.mp (mem_of_lookup hl)
    exact (lookup_of_mem ((h.map Prod.fst).nodup_iff.mp nodup) hmem).symm
  | none =>
    have hnot : name ∉ right.map Prod.fst := by
      rw [← (h.map Prod.fst).mem_iff]
      exact (lookup_eq_none_iff_not_mem left name).mp hl
    exact ((lookup_eq_none_iff_not_mem right name).mpr hnot).symm

/-- Among changed values the changed value is found. -/
theorem lookup_map_values (f : α → β) (entries : List (String × α)) (name : String) :
    (entries.map fun e => (e.1, f e.2)).lookup name = (entries.lookup name).map f := by
  induction entries with
  | nil => rfl
  | cons e rest ih =>
    obtain ⟨key, held⟩ := e
    rw [List.map_cons, lookup_cons_eq_ite, lookup_cons_eq_ite]
    split
    · rfl
    · exact ih

/-- Two lists of distinct names that are looked up alike have the same members. -/
theorem perm_of_lookup {left right : List (String × α)} (nodupLeft : (left.map Prod.fst).Nodup)
    (nodupRight : (right.map Prod.fst).Nodup)
    (h : ∀ name, left.lookup name = right.lookup name) : left.Perm right := by
  refine (List.perm_ext_iff_of_nodup nodupLeft.of_map nodupRight.of_map).mpr fun entry => ?_
  obtain ⟨name, value⟩ := entry
  constructor
  · intro hl
    exact mem_of_lookup (h name ▸ lookup_of_mem nodupLeft hl)
  · intro hr
    exact mem_of_lookup ((h name).symm ▸ lookup_of_mem nodupRight hr)

/-- Without the entry of one name, that name is not found and every other name as before. -/
theorem lookup_eraseP {entries : List (String × α)} (nodup : (entries.map Prod.fst).Nodup)
    (name key : String) :
    (entries.eraseP fun e => e.1 = name).lookup key =
      if key = name then none else entries.lookup key := by
  induction entries with
  | nil => simp
  | cons e rest ih =>
    obtain ⟨held, value⟩ := e
    rw [List.map_cons, List.nodup_cons] at nodup
    rw [List.eraseP_cons]
    by_cases hheld : held = name
    · subst hheld
      simp only [decide_true, cond_true]
      split
      · next hkey => exact (lookup_eq_none_iff_not_mem rest key).mpr (hkey ▸ nodup.1)
      · next hkey => rw [lookup_cons_eq_ite, if_neg hkey]
    · simp only [hheld, decide_false, cond_false]
      rw [lookup_cons_eq_ite, lookup_cons_eq_ite, ih nodup.2]
      by_cases hkey : key = held
      · rw [if_pos hkey, if_neg (hkey ▸ hheld), if_pos hkey]
      · rw [if_neg hkey, if_neg hkey]

/-! ## Dictionaries -/

namespace Dict

/-- The names of a dictionary that was made of entries ascend. -/
theorem sorted_ofList (entries : List (String × α)) : (ofList entries).Sorted := by
  unfold ofList
  have step : ∀ (entries : List (String × α)) (d : Dict α), d.Sorted →
      (entries.foldl (fun d e => d.insert e.1 e.2) d).Sorted := by
    intro entries
    induction entries with
    | nil => exact fun d h => h
    | cons e rest ih => exact fun d h => ih _ (sorted_insert d h e.1 e.2)
  exact step entries empty List.Pairwise.nil

/-- Ascending names are distinct. -/
theorem nodup_of_sorted {d : Dict α} (h : d.Sorted) : d.names.Nodup := by
  unfold names
  rw [List.nodup_iff_pairwise_ne, List.pairwise_map]
  exact List.Pairwise.imp (fun hlt => String.ne_of_lt hlt) h

/-- A dictionary is determined by its look-ups. -/
theorem ext_of_get? {d e : Dict α} (hd : d.Sorted) (he : e.Sorted)
    (h : ∀ name, d.get? name = e.get? name) : d = e := by
  obtain ⟨left⟩ := d
  obtain ⟨right⟩ := e
  have hperm : left.Perm right := perm_of_lookup (nodup_of_sorted hd) (nodup_of_sorted he) h
  have hasymm : ∀ a b : String × α, a ∈ left → b ∈ right → a.1 < b.1 → b.1 < a.1 → a = b :=
    fun a b _ _ hab hba => absurd hba (String.lt_asymm hab)
  exact congrArg Dict.mk (List.Perm.eq_of_pairwise hasymm hd he hperm)

/-- Inserting entries one after the other looks them up from the last one on. -/
theorem get?_foldl_insert (entries : List (String × α)) (d : Dict α) (name : String) :
    (entries.foldl (fun d e => d.insert e.1 e.2) d).get? name =
      (entries.reverse.lookup name).or (d.get? name) := by
  induction entries generalizing d with
  | nil => rfl
  | cons e rest ih =>
    obtain ⟨key, value⟩ := e
    rw [List.foldl_cons, ih, get?_insert, List.reverse_cons, List.lookup_append,
      lookup_cons_eq_ite]
    split
    · rw [Option.or_assoc]
      rfl
    · rw [Option.or_assoc]
      rfl

/-- A dictionary of entries of distinct names is looked up as the list of them. -/
theorem get?_ofList {entries : List (String × α)} (nodup : (entries.map Prod.fst).Nodup)
    (name : String) : (ofList entries).get? name = entries.lookup name := by
  unfold ofList
  rw [get?_foldl_insert]
  have hperm : entries.reverse.Perm entries := List.reverse_perm entries
  rw [lookup_perm hperm ((hperm.map Prod.fst).nodup_iff.mpr nodup) name]
  exact Option.or_none

/-- The order in which entries of distinct names are given does not matter. -/
theorem ofList_perm {left right : List (String × α)} (h : left.Perm right)
    (nodup : (left.map Prod.fst).Nodup) : ofList left = ofList right := by
  refine ext_of_get? (sorted_ofList left) (sorted_ofList right) fun name => ?_
  rw [get?_ofList nodup, get?_ofList ((h.map Prod.fst).nodup_iff.mp nodup),
    lookup_perm h nodup]

/-- Ascending entries are a dictionary as they stand. -/
theorem ofList_of_sorted {entries : List (String × α)}
    (h : entries.Pairwise fun a b => a.1 < b.1) : ofList entries = ⟨entries⟩ := by
  have hsorted : Sorted ⟨entries⟩ := h
  refine ext_of_get? (sorted_ofList entries) hsorted fun name => ?_
  exact get?_ofList (nodup_of_sorted hsorted) name

/-- Entries of distinct names are the entries of their dictionary in some order. -/
theorem entries_ofList_perm {entries : List (String × α)}
    (nodup : (entries.map Prod.fst).Nodup) : (ofList entries).entries.Perm entries :=
  perm_of_lookup (nodup_of_sorted (sorted_ofList entries)) nodup (get?_ofList nodup)

/-- Inserting a value and then changing all values is inserting the changed value among changed
ones. -/
theorem insertEntry_map (f : α → β) (name : String) (value : α) (entries : List (String × α)) :
    insertEntry name (f value) (entries.map fun e => (e.1, f e.2)) =
      (insertEntry name value entries).map fun e => (e.1, f e.2) := by
  induction entries with
  | nil => rfl
  | cons e rest ih =>
    obtain ⟨key, held⟩ := e
    rw [List.map_cons, insertEntry, insertEntry]
    split
    · rfl
    · split
      · rfl
      · rw [ih]
        rfl

/-- The dictionary of changed values has the changed values of the dictionary. -/
theorem entries_ofList_map (f : α → β) (entries : List (String × α)) :
    (ofList (entries.map fun e => (e.1, f e.2))).entries =
      (ofList entries).entries.map fun e => (e.1, f e.2) := by
  have step : ∀ (entries : List (String × α)) (d : Dict α) (d' : Dict β),
      d'.entries = (d.entries.map fun e => (e.1, f e.2)) →
      ((entries.map fun e => (e.1, f e.2)).foldl (fun d e => d.insert e.1 e.2) d').entries =
        (entries.foldl (fun d e => d.insert e.1 e.2) d).entries.map fun e => (e.1, f e.2) := by
    intro entries
    induction entries with
    | nil => exact fun d d' h => h
    | cons e rest ih =>
      intro d d' h
      refine ih _ _ ?_
      dsimp only [insert]
      rw [h]
      exact insertEntry_map f e.1 e.2 d.entries
  exact step entries empty empty rfl

end Dict

/-! ## Records -/

namespace Record

/-- A member of a new name is put last. -/
theorem insertMember_of_not_mem {name : String} {value : α} {members : List (String × α)}
    (h : name ∉ members.map Prod.fst) :
    insertMember name value members = members ++ [(name, value)] := by
  induction members with
  | nil => rfl
  | cons m rest ih =>
    obtain ⟨key, held⟩ := m
    rw [List.map_cons, List.mem_cons, not_or] at h
    rw [insertMember, if_neg (Ne.symm h.1), ih h.2]
    rfl

/-- The record of members of distinct names is the list of them. -/
theorem ofList_of_nodup {members : List (String × α)} (nodup : (members.map Prod.fst).Nodup) :
    ofList members = ⟨members⟩ := by
  have step : ∀ (members before : List (String × α)),
      ((before ++ members).map Prod.fst).Nodup →
      members.foldl (fun r m => r.insert m.1 m.2) (Record.mk before) = ⟨before ++ members⟩ := by
    intro members
    induction members with
    | nil => exact fun before _ => by rw [List.foldl_nil, List.append_nil]
    | cons m rest ih =>
      obtain ⟨name, value⟩ := m
      intro before h
      have hnew : name ∉ before.map Prod.fst := by
        rw [List.map_append, List.nodup_append] at h
        intro hm
        exact h.2.2 name hm name (List.mem_cons_self ..) rfl
      rw [List.append_cons] at h ⊢
      rw [List.foldl_cons, insert, insertMember_of_not_mem hnew]
      exact ih _ h
  exact step members [] nodup

/-- A record of members of distinct names is looked up as the list of them. -/
theorem get?_ofList {members : List (String × α)} (nodup : (members.map Prod.fst).Nodup)
    (name : String) : (ofList members).get? name = members.lookup name := by
  rw [ofList_of_nodup nodup]
  rfl

end Record

end DocumentStore
