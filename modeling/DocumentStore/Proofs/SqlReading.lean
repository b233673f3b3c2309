import DocumentStore.Proofs.Connectives
import DocumentStore.Proofs.SqlWords

/-!
# What an SQL text means

A text means a predicate without groups of no member or of one member. What a text begins with
decides what it is: a bracket begins a group, and otherwise what stands behind the first name tells
a truth value, a negation and a condition on a column apart, even where the name is spelled like a
keyword. So a text means one predicate only, and the predicates that are written in the same way
have the same value on every row.
-/

set_option autoImplicit false

namespace DocumentStore.Predicate

variable {u v : List Char}

/-! ## Predicates without needless groups -/

mutual

/-- The column paths in a predicate. -/
def columns : Predicate → List ColumnPath
  | .constant _ => []
  | .and parts | .or parts => columnsOfParts parts
  | .not inner => columns inner
  | .isNull column | .isNotNull column | .compare column _ _ | .inList column _ _ => [column]

/-- The column paths in the parts of a connective. -/
def columnsOfParts : List Predicate → List ColumnPath
  | [] => []
  | part :: rest => columns part ++ columnsOfParts rest

end

/-- A connective of groups. -/
inductive Connective where
  | and
  | or

namespace Connective

/-- The connective between two members. -/
def text : Connective → String
  | .and => " AND "
  | .or => " OR "

/-- The group of some predicates. -/
def group : Connective → List Predicate → Predicate
  | .and, parts => .and parts
  | .or, parts => .or parts

/-- What a group says; no members are a truth value, and one member needs no group. -/
def join : Connective → List Predicate → Predicate
  | .and, [] => .constant true
  | .or, [] => .constant false
  | _, [part] => part
  | connective, parts => connective.group parts

end Connective

mutual

/-- A predicate without groups of no member or of one member. -/
def plain : Predicate → Predicate
  | .and parts => Connective.and.join (plainParts parts)
  | .or parts => Connective.or.join (plainParts parts)
  | .not inner => .not (plain inner)
  | p => p

/-- The parts of a connective without groups of no member or of one member. -/
def plainParts : List Predicate → List Predicate
  | [] => []
  | part :: rest => plain part :: plainParts rest

end

/-- Parts joined by a conjunction have the value of the conjunction. -/
theorem evaluate_join_and (row : Row) (parts : List Predicate) :
    evaluate row (Connective.and.join parts) = evaluateAll row parts := by
  rcases parts with _ | ⟨part, _ | ⟨next, rest⟩⟩
  · rfl
  · exact (evaluateAll_singleton part).symm
  · rfl

/-- Parts joined by a disjunction have the value of the disjunction. -/
theorem evaluate_join_or (row : Row) (parts : List Predicate) :
    evaluate row (Connective.or.join parts) = evaluateAny row parts := by
  rcases parts with _ | ⟨part, _ | ⟨next, rest⟩⟩
  · rfl
  · exact (evaluateAny_singleton part).symm
  · rfl

mutual

/-- Groups of no member or of one member can be left out. -/
theorem evaluate_plain (row : Row) : ∀ p : Predicate, evaluate row p.plain = evaluate row p
  | .constant _ | .isNull _ | .isNotNull _ | .compare _ _ _ | .inList _ _ _ => rfl
  | .and parts => by
    rw [plain, evaluate_join_and, evaluateAll_plainParts row parts, evaluate]
  | .or parts => by
    rw [plain, evaluate_join_or, evaluateAny_plainParts row parts, evaluate]
  | .not inner => by
    rw [plain, evaluate, evaluate, evaluate_plain row inner]

/-- A conjunction keeps its value when its parts are made plain. -/
theorem evaluateAll_plainParts (row : Row) :
    ∀ parts : List Predicate, evaluateAll row (plainParts parts) = evaluateAll row parts
  | [] => rfl
  | part :: rest => by
    rw [plainParts, evaluateAll, evaluateAll, evaluate_plain row part,
      evaluateAll_plainParts row rest]

/-- A disjunction keeps its value when its parts are made plain. -/
theorem evaluateAny_plainParts (row : Row) :
    ∀ parts : List Predicate, evaluateAny row (plainParts parts) = evaluateAny row parts
  | [] => rfl
  | part :: rest => by
    rw [plainParts, evaluateAny, evaluateAny, evaluate_plain row part,
      evaluateAny_plainParts row rest]

end

/-! ## Meanings -/

/-- What stands behind a column and a blank, and the condition on the column that it means. -/
inductive Condition (column : ColumnPath) : List Char → Predicate → Prop where
  | isNull : Condition column "IS NULL".toList (.isNull column)
  | isNotNull : Condition column "IS NOT NULL".toList (.isNotNull column)
  | compare (relation : Relation) {value : Scalar} {text : List Char}
      (written : value.sql = .ok text) :
      Condition column (relation.text.toList ++ ' ' :: text) (.compare column relation value)
  | inList (negated : Bool) {values : List Scalar} {texts : List (List Char)}
      (inhabited : values ≠ []) (written : values.mapM Scalar.sql = .ok texts) :
      Condition column ((if negated then "NOT IN (" else "IN (").toList ++
        Text.joined [',', ' '] texts ++ [')']) (.inList column values negated)

/-- What the text of a negated predicate begins with. -/
def BeginsGroup (text : List Char) : Prop :=
  ∃ c rest, text = c :: rest ∧ (c = '(' ∨ c = 'T' ∨ c = 'F')

/-- The predicate that a text means. -/
inductive Means : List Char → Predicate → Prop where
  | constant (b : Bool) : Means (Sql.bool b) (.constant b)
  | group (connective : Connective) {texts : List (List Char)} {parts : List Predicate}
      (inhabited : texts ≠ []) (length_eq : texts.length = parts.length)
      (members : ∀ text part, (text, part) ∈ texts.zip parts → Means text part) :
      Means (grouped connective.text texts) (connective.join parts)
  | not {text : List Char} {inner : Predicate} (negated : Means text inner)
      (begins : BeginsGroup text) : Means ("NOT ".toList ++ text) (.not inner)
  | condition {column : ColumnPath} {text : List Char} {p : Predicate} (named : column ≠ [])
      (condition : Condition column text p) : Means (Sql.path column ++ ' ' :: text) p

/-- Texts in a group mean the connective of what they mean. -/
theorem means_group (connective : Connective) {texts : List (List Char)} {parts : List Predicate}
    (hne : texts ≠ []) (h : List.Forall₂ Means texts parts) :
    Means (grouped connective.text texts) (connective.join parts) := by
  obtain ⟨hlength, hmembers⟩ := List.forall₂_iff_zip.mp h
  exact .group connective hne hlength fun text part hmem => hmembers hmem

/-- A text between brackets means what it means without them. -/
theorem means_bracketed {text : List Char} {p : Predicate} (h : Means text p) :
    Means ('(' :: (text ++ [')'])) p :=
  means_group .and (List.cons_ne_nil text []) (.cons h .nil)

/-- A group with parts is written with the texts of its parts. -/
theorem sqlChars_group (connective : Connective) {parts : List Predicate} (hne : parts ≠ [])
    {text : List Char} (h : (connective.group parts).sqlChars = .ok text) :
    ∃ texts, sqlParts parts = .ok texts ∧ text = grouped connective.text texts := by
  cases connective with
  | and | or =>
    rw [Connective.group, sqlChars] at h
    · obtain ⟨texts, htexts, h⟩ := (bind_eq_ok_iff _ _ _).mp h
      cases h
      exact ⟨texts, htexts, rfl⟩
    · exact hne

/-- The text of a group begins as the text of a negated predicate may. -/
theorem beginsGroup_of_isGroup {p : Predicate} {text : List Char} (hgroup : p.isGroup = true)
    (h : p.sqlChars = .ok text) : BeginsGroup text := by
  have hbegins : ∀ (connective : Connective) (parts : List Predicate), parts ≠ [] →
      (connective.group parts).sqlChars = .ok text → BeginsGroup text := by
    intro connective parts hne h
    obtain ⟨texts, -, rfl⟩ := sqlChars_group connective hne h
    exact ⟨'(', _, rfl, Or.inl rfl⟩
  cases p with
  | and parts =>
    cases parts with
    | nil =>
      cases h
      exact ⟨'T', _, rfl, Or.inr (Or.inl rfl)⟩
    | cons part rest => exact hbegins .and _ (List.cons_ne_nil part rest) h
  | or parts =>
    cases parts with
    | nil =>
      cases h
      exact ⟨'F', _, rfl, Or.inr (Or.inr rfl)⟩
    | cons part rest => exact hbegins .or _ (List.cons_ne_nil part rest) h
  | _ => cases hgroup

mutual

/-- The text of a predicate means the predicate, up to needless groups. -/
theorem means_plain : ∀ (p : Predicate) {text : List Char}, p.sqlChars = .ok text →
    (∀ column ∈ p.columns, column ≠ []) → Means text p.plain
  | .constant b, text, h, _ => by
    cases h
    exact .constant b
  | .and [], text, h, _ => by
    cases h
    exact .constant true
  | .or [], text, h, _ => by
    cases h
    exact .constant false
  | .and (part :: rest), text, h, hnamed => by
    obtain ⟨texts, htexts, rfl⟩ := sqlChars_group .and (List.cons_ne_nil part rest) h
    have hmeans := means_plainParts (part :: rest) htexts hnamed
    exact means_group .and (by rintro rfl; cases hmeans) hmeans
  | .or (part :: rest), text, h, hnamed => by
    obtain ⟨texts, htexts, rfl⟩ := sqlChars_group .or (List.cons_ne_nil part rest) h
    have hmeans := means_plainParts (part :: rest) htexts hnamed
    exact means_group .or (by rintro rfl; cases hmeans) hmeans
  | .not inner, text, h, hnamed => by
    rw [sqlChars] at h
    obtain ⟨inside, hinside, h⟩ := (bind_eq_ok_iff _ _ _).mp h
    have hmeans := means_plain inner hinside hnamed
    rw [plain]
    by_cases hgroup : inner.isGroup = true
    · rw [if_pos hgroup] at h
      cases h
      exact .not hmeans (beginsGroup_of_isGroup hgroup hinside)
    · rw [if_neg hgroup] at h
      cases h
      exact .not (means_bracketed hmeans) ⟨'(', _, rfl, Or.inl rfl⟩
  | .isNull column, text, h, hnamed => by
    cases h
    exact .condition (hnamed column (List.mem_cons_self ..)) .isNull
  | .isNotNull column, text, h, hnamed => by
    cases h
    exact .condition (hnamed column (List.mem_cons_self ..)) .isNotNull
  | .compare column relation value, text, h, hnamed => by
    rw [sqlChars] at h
    obtain ⟨literal, hliteral, h⟩ := (bind_eq_ok_iff _ _ _).mp h
    cases h
    rw [List.append_assoc, List.cons_append]
    exact .condition (hnamed column (List.mem_cons_self ..)) (.compare relation hliteral)
  | .inList column values negated, text, h, hnamed => by
    rw [sqlChars] at h
    by_cases hempty : values.isEmpty = true
    · rw [if_pos hempty] at h
      cases h
    · rw [if_neg hempty] at h
      obtain ⟨texts, htexts, h⟩ := (bind_eq_ok_iff _ _ _).mp h
      cases h
      have hne : values ≠ [] := fun hnil => hempty (List.isEmpty_iff.mpr hnil)
      have hmeans := Means.condition (hnamed column (List.mem_cons_self ..))
        (Condition.inList negated hne htexts)
      rw [List.append_assoc, List.append_assoc]
      cases negated <;> exact hmeans

/-- The texts of some parts mean these parts, made plain. -/
theorem means_plainParts : ∀ (parts : List Predicate) {texts : List (List Char)},
    sqlParts parts = .ok texts → (∀ column ∈ columnsOfParts parts, column ≠ []) →
      List.Forall₂ Means texts (plainParts parts)
  | [], texts, h, _ => by
    cases h
    exact .nil
  | part :: rest, texts, h, hnamed => by
    rw [sqlParts] at h
    obtain ⟨text, htext, h⟩ := (bind_eq_ok_iff _ _ _).mp h
    obtain ⟨others, hothers, h⟩ := (bind_eq_ok_iff _ _ _).mp h
    cases h
    rw [columnsOfParts] at hnamed
    exact .cons
      (means_plain part htext fun column hcolumn => hnamed column (List.mem_append_left _ hcolumn))
      (means_plainParts rest hothers fun column hcolumn =>
        hnamed column (List.mem_append_right _ hcolumn))

end

/-! ## What a text begins with -/

/-- A predicate ends before the text: nothing follows, or a bracket, or a connective. -/
def PredicateEnd (tail : List Char) : Prop :=
  tail = [] ∨ (∃ rest, tail = ')' :: rest) ∨
    ∃ (connective : Connective) (rest : List Char), tail = connective.text.toList ++ rest

/-- A literal ends where a predicate does. -/
theorem PredicateEnd.literal (h : PredicateEnd u) : Sql.LiteralEnd u := by
  rcases h with rfl | ⟨rest, rfl⟩ | ⟨connective, rest, rfl⟩
  · rintro c rest ⟨⟩
  · rintro c rest ⟨⟩
    exact Or.inl rfl
  · cases connective <;>
    · rintro c rest ⟨⟩
      exact Or.inr (Or.inl rfl)

/-- A blank after a predicate is that of a connective. -/
theorem PredicateEnd.of_blank {c : Char} {rest : List Char} (h : PredicateEnd (' ' :: c :: rest)) :
    c = 'A' ∨ c = 'O' := by
  rcases h with h | ⟨_, h⟩ | ⟨connective, _, h⟩
  · cases h
  · cases h
  · cases connective <;> cases h
    · exact Or.inl rfl
    · exact Or.inr rfl

/-- No point follows a predicate. -/
theorem PredicateEnd.ne_point (h : PredicateEnd u) (rest : List Char) : u ≠ '.' :: rest := by
  rintro rfl
  rcases h.literal '.' rest rfl with hc | hc | hc <;> cases hc

/-- What stands behind a column begins with one of a few characters. -/
def BeginsCondition (text : List Char) : Prop :=
  ∃ c rest, text = c :: rest ∧ c ∈ ['I', 'N', '=', '!', '<', '>']

/-- What stands behind a column begins as one of the conditions does. -/
theorem Condition.begins {column : ColumnPath} {text : List Char} {p : Predicate}
    (h : Condition column text p) : BeginsCondition text := by
  cases h with
  | isNull | isNotNull => exact ⟨'I', _, rfl, by decide⟩
  | compare relation => cases relation <;> exact ⟨_, _, rfl, by decide⟩
  | inList negated => cases negated <;> exact ⟨_, _, rfl, by decide⟩

/-- What stands behind the first name of a condition: the rest of its path, or its operator. -/
def BehindName (tail : List Char) : Prop :=
  (∃ rest, tail = '.' :: rest) ∨ ∃ c rest, tail = ' ' :: c :: rest ∧
    c ∈ ['I', 'N', '=', '!', '<', '>']

/-- A name ends where its condition goes on. -/
theorem BehindName.nameEnd (h : BehindName u) : Sql.NameEnd u := by
  rcases h with ⟨rest, rfl⟩ | ⟨c, rest, rfl, -⟩
  · exact Sql.nameEnd_cons rfl _
  · exact Sql.nameEnd_cons rfl _

/-- A predicate does not end where a condition goes on. -/
theorem BehindName.not_predicateEnd (h : BehindName u) : ¬ PredicateEnd u := by
  intro hend
  rcases h with ⟨rest, rfl⟩ | ⟨c, rest, rfl, hc⟩
  · exact hend.ne_point rest rfl
  · rcases hend.of_blank with rfl | rfl <;> exact absurd hc (by decide)

/-- A condition begins with a name and what can stand behind it. -/
theorem condition_begins {column : ColumnPath} {text : List Char} {p : Predicate}
    (hne : column ≠ []) (h : Condition column text p) (tail : List Char) :
    ∃ name rest, Sql.path column ++ ' ' :: text ++ tail = Sql.identifier name ++ rest ∧
      BehindName rest := by
  obtain ⟨c, others, rfl, hc⟩ := h.begins
  obtain ⟨name, rest, htext, hrest⟩ := Sql.path_begins hne (' ' :: c :: others ++ tail)
  refine ⟨name, rest, by rw [List.append_assoc, htext], ?_⟩
  rcases hrest with rfl | ⟨more, rfl⟩
  · exact Or.inr ⟨c, _, rfl, hc⟩
  · exact Or.inl ⟨more, rfl⟩

/-- A name does not begin with a bracket. -/
theorem identifier_ne_bracket (name rest other : List Char) :
    Sql.identifier name ++ rest ≠ '(' :: other := by
  unfold Sql.identifier
  by_cases hplain : Sql.isPlain name = true
  · obtain ⟨c, letters, rfl, hstart, -⟩ := Sql.isPlain_cons hplain
    rw [if_pos hplain]
    intro h
    rw [(List.cons.inj h).1] at hstart
    cases hstart
  · rw [if_neg hplain]
    rintro ⟨⟩

/-! ## One meaning -/

/-- A relation is told from what follows it. -/
theorem relation_unique {a b : Relation}
    (h : a.text.toList ++ ' ' :: u = b.text.toList ++ ' ' :: v) : a = b ∧ u = v := by
  have hsigns : ∀ relation : Relation, ∀ c ∈ relation.text.toList, (c != ' ') = true := by
    intro relation
    cases relation <;> simp [Relation.text]
  have hblank : ∀ tail, Text.StopsAt (fun c => c != ' ') (' ' :: tail) := Text.stopsAt_cons rfl
  obtain ⟨htext, htail⟩ := Text.run_unique (hsigns a) (hsigns b) (hblank u) (hblank v) h
  refine ⟨?_, (List.cons.inj htail).2⟩
  cases a <;> cases b <;> first | rfl | exact absurd htext (by decide)

/-- A relation is not spelled with letters, as the other operators are. -/
theorem relation_ne_word (relation : Relation) {c : Char} (hc : c = 'I' ∨ c = 'N')
    (rest : List Char) : relation.text.toList ++ u ≠ c :: rest := by
  rcases hc with rfl | rfl <;> cases relation <;> rintro ⟨⟩

/-- What stands behind a column is one condition only. -/
theorem Condition.unique {column : ColumnPath} {s t : List Char} {p q : Predicate}
    (hp : Condition column s p) (hq : Condition column t q) (hu : PredicateEnd u)
    (hv : PredicateEnd v) (h : s ++ u = t ++ v) : p = q ∧ u = v := by
  cases hp with
  | isNull =>
    cases hq with
    | isNull => exact ⟨rfl, List.append_cancel_left h⟩
    | isNotNull => simp at h
    | compare relation =>
      rw [List.append_assoc] at h
      exact absurd h.symm (relation_ne_word relation (Or.inl rfl) _)
    | inList negated => cases negated <;> simp at h
  | isNotNull =>
    cases hq with
    | isNull => simp at h
    | isNotNull => exact ⟨rfl, List.append_cancel_left h⟩
    | compare relation =>
      rw [List.append_assoc] at h
      exact absurd h.symm (relation_ne_word relation (Or.inl rfl) _)
    | inList negated => cases negated <;> simp at h
  | compare relation hvalue =>
    rw [List.append_assoc] at h
    cases hq with
    | isNull | isNotNull => exact absurd h (relation_ne_word relation (Or.inl rfl) _)
    | compare relation' hvalue' =>
      rw [List.append_assoc, List.cons_append, List.cons_append] at h
      obtain ⟨rfl, hliterals⟩ := relation_unique h
      obtain ⟨rfl, htail⟩ := Sql.literal_readsOnly hvalue hvalue' hu.literal hv.literal hliterals
      exact ⟨rfl, htail⟩
    | inList negated =>
      cases negated with
      | false => exact absurd h (relation_ne_word relation (Or.inl rfl) _)
      | true => exact absurd h (relation_ne_word relation (Or.inr rfl) _)
  | inList negated hne hvalues =>
    cases hq with
    | isNull | isNotNull => cases negated <;> simp at h
    | compare relation =>
      rw [List.append_assoc relation.text.toList] at h
      cases negated with
      | false => exact absurd h.symm (relation_ne_word relation (Or.inl rfl) _)
      | true => exact absurd h.symm (relation_ne_word relation (Or.inr rfl) _)
    | inList negated' hne' hvalues' =>
      simp only [List.append_assoc, List.singleton_append] at h
      have hnegated : negated = negated' := by
        cases negated <;> cases negated' <;> first | rfl | simp at h
      subst hnegated
      obtain ⟨rfl, htail⟩ := Sql.literals_unique hvalues hvalues' hne hne'
        (List.append_cancel_left h)
      exact ⟨rfl, htail⟩

/-- Connectives separate the members of a group, whose bracket ends it. -/
theorem separators_group :
    Text.Separators (fun text => ∃ connective : Connective, text = connective.text.toList)
      PredicateEnd fun tail => ∃ rest, tail = ')' :: rest where
  ends_separator := by
    rintro _ ⟨connective, rfl⟩ rest
    exact Or.inr (Or.inr ⟨connective, rest, rfl⟩)
  ends_all := fun htail => Or.inr (Or.inl htail)
  apart := by
    rintro _ _ ⟨connective, rfl⟩ ⟨rest, rfl⟩ others h
    cases connective <;> cases h
  unique := by
    rintro _ _ _ _ ⟨connective, rfl⟩ ⟨connective', rfl⟩ h
    cases connective <;> cases connective' <;> first | rfl | cases h

/-- Without needless groups it does not matter what would connect a single member. -/
theorem join_eq_join {connective connective' : Connective} {parts : List Predicate}
    (h : connective.text.toList = connective'.text.toList ∨ parts.length = 1) :
    connective.join parts = connective'.join parts := by
  rcases h with h | h
  · cases connective <;> cases connective' <;> first | rfl | cases h
  · obtain ⟨part, rfl⟩ := List.length_eq_one_iff.mp h
    cases connective <;> cases connective' <;> rfl

/-- Behind its opening bracket a group has one meaning only. -/
theorem joined_means_unique {connective connective' : Connective} {texts texts' : List (List Char)}
    {parts parts' : List Predicate} (hne : texts ≠ []) (hne' : texts' ≠ [])
    (hparts : List.Forall₂ (Text.ReadsOnly Means PredicateEnd) texts parts)
    (hparts' : List.Forall₂ Means texts' parts')
    (h : Text.joined connective.text.toList texts ++ ')' :: u =
      Text.joined connective'.text.toList texts' ++ ')' :: v) :
    connective.join parts = connective'.join parts' ∧ u = v := by
  obtain ⟨rfl, htail, hsame⟩ := Text.joined_unique separators_group ⟨connective, rfl⟩
    ⟨connective', rfl⟩ hparts hparts' hne hne' ⟨u, rfl⟩ ⟨v, rfl⟩ h
  exact ⟨join_eq_join hsame, (List.cons.inj htail).2⟩

/-! Texts of different kinds are different, whatever follows. -/

section Kinds

variable {s t : List Char} {column : ColumnPath} {p : Predicate} {b : Bool}

/-- A constant is not read as a group. -/
theorem constant_ne_group (rest : List Char) : Sql.bool b ++ u ≠ '(' :: rest := by
  rw [Sql.bool_eq_identifier]
  exact identifier_ne_bracket _ _ _

/-- A condition is not read as a group. -/
theorem condition_ne_group (hne : column ≠ []) (h : Condition column t p) (rest : List Char) :
    Sql.path column ++ ' ' :: t ++ v ≠ '(' :: rest := by
  obtain ⟨name, others, htext, -⟩ := condition_begins hne h v
  rw [htext]
  exact identifier_ne_bracket _ _ _

/-- A constant is not read as a negation. -/
theorem constant_ne_not (hu : PredicateEnd u) : Sql.bool b ++ u ≠ "NOT ".toList ++ t ++ v := by
  intro h
  have hnot : "NOT ".toList ++ t ++ v = Sql.identifier "NOT".toList ++ ' ' :: (t ++ v) := rfl
  rw [Sql.bool_eq_identifier, hnot] at h
  obtain ⟨hname, -⟩ := Sql.identifier_unique hu.literal.name (Sql.nameEnd_cons rfl _) h
  revert hname
  cases b <;> decide

/-- A constant is not read as a condition. -/
theorem constant_ne_condition (hu : PredicateEnd u) (hne : column ≠ [])
    (h : Condition column t p) : Sql.bool b ++ u ≠ Sql.path column ++ ' ' :: t ++ v := by
  obtain ⟨name, rest, htext, hrest⟩ := condition_begins hne h v
  rw [Sql.bool_eq_identifier, htext]
  intro heq
  obtain ⟨-, rfl⟩ := Sql.identifier_unique hu.literal.name hrest.nameEnd heq
  exact hrest.not_predicateEnd hu

/-- A negation is not read as a condition. -/
theorem not_ne_condition (hs : BeginsGroup s) (hne : column ≠ []) (h : Condition column t p) :
    "NOT ".toList ++ s ++ u ≠ Sql.path column ++ ' ' :: t ++ v := by
  obtain ⟨name, rest, htext, hrest⟩ := condition_begins hne h v
  have hnot : "NOT ".toList ++ s ++ u = Sql.identifier "NOT".toList ++ ' ' :: (s ++ u) := rfl
  rw [hnot, htext]
  intro heq
  obtain ⟨-, hbehind⟩ := Sql.identifier_unique (Sql.nameEnd_cons rfl _) hrest.nameEnd heq
  obtain ⟨c, others, rfl, hc⟩ := hs
  rcases hrest with ⟨_, rfl⟩ | ⟨d, _, rfl, hd⟩
  · cases hbehind
  · rw [← (List.cons.inj (List.cons.inj hbehind).2).1] at hd
    rcases hc with rfl | rfl | rfl <;> exact absurd hd (by decide)

end Kinds

/-- A text means one predicate only, whatever may follow it. -/
theorem Means.readsOnly {text : List Char} {p : Predicate} (h : Means text p) :
    Text.ReadsOnly Means PredicateEnd text p := by
  induction h with
  | constant b =>
    intro other q u v hq hu hv heq
    cases hq with
    | constant b' =>
      rw [Sql.bool_eq_identifier, Sql.bool_eq_identifier] at heq
      obtain ⟨hname, htail⟩ := Sql.identifier_unique hu.literal.name hv.literal.name heq
      rw [Sql.boolName_injective hname]
      exact ⟨rfl, htail⟩
    | group => exact absurd heq (constant_ne_group _)
    | not => exact absurd heq (constant_ne_not hu)
    | condition hne hcondition => exact absurd heq (constant_ne_condition hu hne hcondition)
  | @group connective texts parts hne hlength hmembers ih =>
    intro other q u v hq hu hv heq
    cases hq with
    | constant b => exact absurd heq.symm (constant_ne_group _)
    | @group connective' texts' parts' hne' hlength' hmembers' =>
      have hparts : List.Forall₂ (Text.ReadsOnly Means PredicateEnd) texts parts :=
        List.forall₂_iff_zip.mpr ⟨hlength, fun hmem => ih _ _ hmem⟩
      have hparts' : List.Forall₂ Means texts' parts' :=
        List.forall₂_iff_zip.mpr ⟨hlength', fun hmem => hmembers' _ _ hmem⟩
      have hbehind := (List.cons.inj heq).2
      rw [List.append_eq, List.append_eq, List.append_assoc, List.append_assoc] at hbehind
      exact joined_means_unique hne hne' hparts hparts' hbehind
    | not => cases heq
    | condition hne' hcondition => exact absurd heq.symm (condition_ne_group hne' hcondition _)
  | not _ hbegins ih =>
    intro other q u v hq hu hv heq
    cases hq with
    | constant b => exact absurd heq.symm (constant_ne_not hv)
    | group => cases heq
    | not hinner =>
      rw [List.append_assoc, List.append_assoc] at heq
      obtain ⟨rfl, htail⟩ := ih hinner hu hv (List.append_cancel_left heq)
      exact ⟨rfl, htail⟩
    | condition hne hcondition => exact absurd heq (not_ne_condition hbegins hne hcondition)
  | condition hne hcondition =>
    intro other q u v hq hu hv heq
    cases hq with
    | constant b => exact absurd heq.symm (constant_ne_condition hv hne hcondition)
    | group => exact absurd heq (condition_ne_group hne hcondition _)
    | not _ hbegins => exact absurd heq.symm (not_ne_condition hbegins hne hcondition)
    | condition hne' hcondition' =>
      rw [List.append_assoc, List.append_assoc] at heq
      obtain ⟨rfl, hbehind⟩ := Sql.path_unique hne hne' (Sql.pathEnd_blank _)
        (Sql.pathEnd_blank _) heq
      exact hcondition.unique hcondition' hu hv (List.cons.inj hbehind).2

/-- The SQL text is unambiguous: predicates with one text are the same up to groups of no member or
of one member, and have the same value on every row. -/
theorem sql_unambiguous {p q : Predicate} {text : String}
    (hp : ∀ column ∈ p.columns, column ≠ []) (hq : ∀ column ∈ q.columns, column ≠ [])
    (htextp : p.sql = .ok text) (htextq : q.sql = .ok text) :
    p.plain = q.plain ∧ ∀ row, p.evaluate row = q.evaluate row := by
  obtain ⟨s, hs, rfl⟩ := (map_eq_ok_iff _ _ _).mp htextp
  obtain ⟨t, ht, hst⟩ := (map_eq_ok_iff _ _ _).mp htextq
  have hst : t = s := String.ofList_injective hst
  subst hst
  have hplain : p.plain = q.plain :=
    ((means_plain p hs hp).readsOnly (means_plain q ht hq) (Or.inl rfl) (Or.inl rfl) rfl).1
  refine ⟨hplain, fun row => ?_⟩
  show evaluate row p = evaluate row q
  rw [← evaluate_plain row p, hplain, evaluate_plain row q]

/-- A group with one member, names and strings with marks in them, and a negated list: the texts
with and without the group are the same. -/
theorem sql_unambiguous_oneMember :
    let list := Predicate.inList ["it's", "NOT"] [.string "O'Hara, ')", .int 7] true
    (Predicate.not (.and [list])).plain = (Predicate.not list).plain ∧
      ∀ row, (Predicate.not (.and [list])).evaluate row = (Predicate.not list).evaluate row :=
  @sql_unambiguous _ _ "NOT (`it's`.NOT NOT IN ('O''Hara, '')', 7))" (by decide) (by decide) rfl rfl

end DocumentStore.Predicate
