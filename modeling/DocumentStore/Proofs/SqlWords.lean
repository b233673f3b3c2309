import DocumentStore.Predicate.Sql
import DocumentStore.Proofs.Calendar
import DocumentStore.Proofs.Outcome

/-!
# Names and literals in SQL texts

A name ends where neither a character of a plain identifier nor a backtick follows; the words that
stand for truth values and introduce timestamps are plain identifiers as well. What a literal is
can be seen from its first character, except that truth values and timestamps differ by their first
words and integers differ from floating-point numbers as number tokens do. So neither a string nor a
path can end before its end, whatever it holds and whatever follows.
-/

set_option autoImplicit false

namespace DocumentStore

namespace Sql

variable {u v : List Char}

/-! ## Names -/

/-- Whether a character can stand in a plain identifier. -/
def isWord (c : Char) : Bool := isWordStart c || c.isDigit

/-- Whether a character can continue a name. -/
def continuesName (c : Char) : Bool := isWord c || c == '`'

/-- A name ends before the text. -/
def NameEnd (tail : List Char) : Prop := Text.StopsAt continuesName tail

/-- Where a name ends, no letter follows. -/
theorem NameEnd.word (h : NameEnd u) : Text.StopsAt isWord u := by
  intro c rest hu
  have hc := h c rest hu
  unfold continuesName at hc
  rw [Bool.or_eq_false_iff] at hc
  exact hc.1

/-- Where a name ends, no mark follows. -/
theorem NameEnd.ne_mark (h : NameEnd u) (rest : List Char) : u ≠ '`' :: rest := by
  intro hu
  have hc := h '`' rest hu
  cases hc

/-- A plain name begins with a letter and goes on with letters and digits. -/
theorem isPlain_cons {name : List Char} (h : isPlain name = true) :
    ∃ c rest, name = c :: rest ∧ isWordStart c = true ∧ ∀ d ∈ name, isWord d = true := by
  cases name with
  | nil => cases h
  | cons c rest =>
    rw [isPlain, Bool.and_eq_true, List.all_eq_true] at h
    refine ⟨c, rest, rfl, h.1, ?_⟩
    intro d hd
    rcases List.mem_cons.mp hd with rfl | hd
    · exact Bool.or_eq_true_iff.mpr (Or.inl h.1)
    · exact h.2 d hd

/-- A plain name is not read as an enclosed one. -/
theorem plain_ne_enclosed {name : List Char} (h : isPlain name = true) (other : List Char) :
    name ++ u ≠ Text.enclosed '`' other ++ v := by
  obtain ⟨c, rest, rfl, hstart, -⟩ := isPlain_cons h
  intro heq
  rw [(List.cons.inj heq).1] at hstart
  cases hstart

/-- A name is that of one thing only. -/
theorem identifier_unique {a b : List Char} (hu : NameEnd u) (hv : NameEnd v)
    (h : identifier a ++ u = identifier b ++ v) : a = b ∧ u = v := by
  unfold identifier at h
  by_cases ha : isPlain a = true
  · by_cases hb : isPlain b = true
    · obtain ⟨-, -, -, -, hawords⟩ := isPlain_cons ha
      obtain ⟨-, -, -, -, hbwords⟩ := isPlain_cons hb
      rw [if_pos ha, if_pos hb] at h
      exact Text.run_unique hawords hbwords hu.word hv.word h
    · rw [if_pos ha, if_neg hb] at h
      exact absurd h (plain_ne_enclosed ha b)
  · by_cases hb : isPlain b = true
    · rw [if_neg ha, if_pos hb] at h
      exact absurd h.symm (plain_ne_enclosed hb a)
    · rw [if_neg ha, if_neg hb] at h
      exact Text.enclosed_unique hu.ne_mark hv.ne_mark h

/-- A character that cannot continue a name ends it. -/
theorem nameEnd_cons {c : Char} (h : continuesName c = false) (rest : List Char) :
    NameEnd (c :: rest) := Text.stopsAt_cons h rest

/-- A name is read from its identifier only. -/
theorem identifier_readsOnly (name : String) :
    Text.ReadsOnly (fun text (name : String) => text = identifier name.toList) NameEnd
      (identifier name.toList) name := by
  rintro _ other u v rfl hu hv h
  obtain ⟨hname, htail⟩ := identifier_unique hu hv h
  exact ⟨String.toList_inj.mp hname, htail⟩

/-- A path ends before the text: nothing follows, or a blank. -/
def PathEnd (tail : List Char) : Prop := tail = [] ∨ ∃ rest, tail = ' ' :: rest

/-- A blank ends a path. -/
theorem pathEnd_blank (rest : List Char) : PathEnd (' ' :: rest) := Or.inr ⟨rest, rfl⟩

/-- A name ends where its path does. -/
theorem PathEnd.name (h : PathEnd u) : NameEnd u := by
  rcases h with rfl | ⟨rest, rfl⟩
  · rintro c rest ⟨⟩
  · exact nameEnd_cons rfl rest

/-- Points separate the names of a path. -/
theorem separators_path : Text.Separators (fun text => text = ['.']) NameEnd PathEnd where
  ends_separator := by
    rintro _ rfl rest
    exact nameEnd_cons rfl rest
  ends_all := PathEnd.name
  apart := by
    rintro _ _ rfl (rfl | ⟨rest, rfl⟩) others ⟨⟩
  unique := by
    rintro _ _ _ _ rfl rfl -
    rfl

/-- A path is read up to its end. -/
theorem path_unique {a b : ColumnPath} (ha : a ≠ []) (hb : b ≠ []) (hu : PathEnd u)
    (hv : PathEnd v) (h : path a ++ u = path b ++ v) : a = b ∧ u = v := by
  obtain ⟨hpath, htail, -⟩ := Text.joined_unique separators_path rfl rfl
    (List.forall₂_map_left_iff.mpr (List.forall₂_same.mpr fun name _ => identifier_readsOnly name))
    (List.forall₂_map_left_iff.mpr (List.forall₂_same.mpr fun _ _ => rfl))
    (by simpa using ha) (by simpa using hb) hu hv h
  exact ⟨hpath, htail⟩

/-- A path begins with a name, after which there is a point or the end of the path. -/
theorem path_begins {column : ColumnPath} (h : column ≠ []) (tail : List Char) :
    ∃ name rest, path column ++ tail = identifier name ++ rest ∧
      (rest = tail ∨ ∃ others, rest = '.' :: others) := by
  cases column with
  | nil => exact absurd rfl h
  | cons name names =>
    unfold path
    rw [List.map_cons]
    by_cases hnames : names.map (fun segment => identifier segment.toList) = []
    · rw [hnames, Text.joined]
      exact ⟨_, _, rfl, Or.inl rfl⟩
    · rw [Text.joined_cons hnames, List.append_assoc, List.append_assoc]
      exact ⟨_, _, rfl, Or.inr ⟨_, rfl⟩⟩

/-! ## Strings -/

/-- A string literal is read up to its closing quote. -/
theorem string_unique {s t : String} (hu : ∀ rest, u ≠ '\'' :: rest)
    (hv : ∀ rest, v ≠ '\'' :: rest) (h : string s ++ u = string t ++ v) : s = t ∧ u = v := by
  obtain ⟨hcharacters, htail⟩ := Text.enclosed_unique hu hv h
  exact ⟨String.toList_inj.mp hcharacters, htail⟩

/-- No text can end its quotes early, whatever stands behind them: a string literal is told from
what follows it unless that goes on with a quote, and a path of any names, also the empty one, is
told from what follows it when that is nothing or begins with a blank. -/
theorem quoting_selfDelimiting :
    (∀ (s t : String) (u v : List Char), (∀ rest, u ≠ '\'' :: rest) →
      (∀ rest, v ≠ '\'' :: rest) → string s ++ u = string t ++ v → s = t ∧ u = v) ∧
    ∀ (p q : ColumnPath) (u v : List Char), p ≠ [] → q ≠ [] →
      (u = [] ∨ ∃ rest, u = ' ' :: rest) → (v = [] ∨ ∃ rest, v = ' ' :: rest) →
      path p ++ u = path q ++ v → p = q ∧ u = v :=
  ⟨fun _ _ _ _ => string_unique, fun _ _ _ _ => path_unique⟩

/-- Two spellings of one string and of one path, and a string and a path that hold what looks like
the end of a shorter one. -/
theorem quoting_selfDelimiting_marks :
    ("a', 'b" = "a'" ++ ", 'b" ∧ ", 'c')".toList = ',' :: " 'c')".toList) ∧
    string "a" ++ ", 'b', 'c')".toList ≠ string "a', 'b" ++ ", 'c')".toList ∧
    (["meta", "a.b`", ""] = "meta" :: ["a." ++ "b`", ""] ∧
      " IS NULL".toList = ' ' :: "IS NULL".toList) ∧
    path ["meta", "a", "b`"] ++ " IS NULL".toList ≠ path ["meta", "a.b`"] ++ " IS NULL".toList := by
  have hstring := quoting_selfDelimiting.1
  have hpath := quoting_selfDelimiting.2
  refine ⟨hstring _ _ _ _ (by simp) (by simp) (by decide), fun h => ?_,
    hpath _ _ _ _ (by decide) (by decide) (Or.inr ⟨_, rfl⟩) (Or.inr ⟨_, rfl⟩) (by decide),
    fun h => ?_⟩
  · exact absurd (hstring _ _ _ _ (by simp) (by simp) h).1 (by decide)
  · exact absurd (hpath _ _ _ _ (by decide) (by decide) (Or.inr ⟨_, rfl⟩) (Or.inr ⟨_, rfl⟩) h).1
      (by decide)

/-! ## Literals -/

/-- A literal ends before the text: nothing follows, or a bracket, a blank or a comma. -/
def LiteralEnd (tail : List Char) : Prop :=
  ∀ c rest, tail = c :: rest → c = ')' ∨ c = ' ' ∨ c = ','

/-- A name ends where a literal does. -/
theorem LiteralEnd.name (h : LiteralEnd u) : NameEnd u := by
  intro c rest hu
  rcases h c rest hu with rfl | rfl | rfl <;> rfl

/-- A number ends where a literal does. -/
theorem LiteralEnd.number (h : LiteralEnd u) : Json.NumberEnd u := by
  intro c rest hu
  rcases h c rest hu with rfl | rfl | rfl <;> decide

/-- No quote follows a literal. -/
theorem LiteralEnd.ne_quote (h : LiteralEnd u) (rest : List Char) : u ≠ '\'' :: rest := by
  intro hu
  rcases h '\'' rest hu with hc | hc | hc <;> cases hc

/-- The name that is spelled like a truth value. -/
def boolName (b : Bool) : List Char := if b then "TRUE".toList else "FALSE".toList

/-- A truth value is written like a name. -/
theorem bool_eq_identifier (b : Bool) : bool b = identifier (boolName b) := by
  cases b <;> rfl

/-- The two truth values have different names. -/
theorem boolName_injective {a b : Bool} (h : boolName a = boolName b) : a = b := by
  revert h
  revert a b
  decide

/-- The number that a token says: an integer if it is written as one. -/
def scalarOfToken (token : Json.NumberToken) : Scalar :=
  if token.isWhole then
    .int (Int64.ofInt (if token.negative then -(token.digits : Int) else token.digits))
  else .float (Floating.ofDecimal token.negative token.digits token.exponent)

/-- A number without point and exponent is an integer. -/
theorem scalarOfToken_of_isWhole {token : Json.NumberToken} (h : token.isWhole = true) :
    scalarOfToken token =
      .int (Int64.ofInt (if token.negative then -(token.digits : Int) else token.digits)) :=
  if_pos h

/-- What is seen of a literal in its text. -/
inductive Literal : Scalar → List Char → Prop where
  | number {value text token} (writes : Json.Writes text token)
      (value_eq : value = scalarOfToken token) : Literal value text
  | bool (b) : Literal (.bool b) (identifier (boolName b))
  | string (s : String) : Literal (.string s) (Text.enclosed '\'' s.toList)
  | timestamp (seconds : Int64) : Literal (.timestamp seconds)
      (identifier "TIMESTAMP".toList ++ ' ' :: '\'' ::
        (Time.secondText ' ' seconds.toInt ++ ['\'']))

/-- A literal that is written shows what it is. -/
theorem literal_of_sql {value : Scalar} {text : List Char} (h : value.sql = .ok text) :
    Literal value text := by
  cases value with
  | bool b =>
    cases h
    rw [bool_eq_identifier]
    exact .bool b
  | int n =>
    cases h
    apply Literal.number (Json.writes_integerText n.toInt)
    rw [scalarOfToken_of_isWhole rfl]
    have hvalue : (if decide (n.toInt < 0) then -(n.toInt.natAbs : Int) else n.toInt.natAbs) =
        n.toInt := by
      by_cases hn : n.toInt < 0
      · rw [if_pos (decide_eq_true hn)]
        omega
      · rw [if_neg (by rwa [decide_eq_true_eq])]
        omega
    show Scalar.int n =
      .int (Int64.ofInt (if decide (n.toInt < 0) then -(n.toInt.natAbs : Int) else n.toInt.natAbs))
    rw [hvalue, Int64.ofInt_toInt]
  | float x =>
    rw [Scalar.sql, float] at h
    by_cases hx : x.isFinite = true
    · rw [if_pos hx] at h
      cases h
      obtain ⟨token, hwrites, hwhole, hvalue⟩ := Json.writes_float (by decide) (by decide)
        (show Decimal.Layout.sql.exponentPlus = [] ∨ Decimal.Layout.sql.exponentPlus = ['+'] from
          Or.inl rfl) hx
      apply Literal.number hwrites
      unfold scalarOfToken
      rw [if_neg (by rw [hwhole]; exact Bool.false_ne_true), hvalue]
    · rw [if_neg hx] at h
      cases h
  | string s =>
    cases h
    exact .string s
  | timestamp seconds =>
    rw [Scalar.sql, timestamp] at h
    obtain ⟨text', htext, h⟩ := (bind_eq_ok_iff _ _ _).mp h
    unfold Time.sqlText at htext
    obtain ⟨-, -, htext⟩ := (bind_eq_ok_iff _ _ _).mp htext
    cases htext
    cases h
    have hlist : (String.ofList (Time.secondText ' ' seconds.toInt)).toList =
      Time.secondText ' ' seconds.toInt := String.toList_ofList
    rw [hlist]
    exact .timestamp seconds

/-- A number does not begin with a character that begins no token. -/
theorem number_ne_cons {text rest : List Char} {token : Json.NumberToken} {c : Char}
    (hwrites : Json.Writes text token) (hu : LiteralEnd u)
    (hc : Json.Scan.begin c = ([.stray], none)) : text ++ u ≠ c :: rest := by
  intro h
  have htokens := hwrites u hu.number
  rw [h, Json.Scan.tokens, Json.Scan.step, hc] at htokens
  cases htokens

/-- No truth value begins like a timestamp. -/
theorem boolName_ne_timestamp (b : Bool) : boolName b ≠ "TIMESTAMP".toList := by
  revert b
  decide

/-- A text is that of one literal only. -/
theorem Literal.unique {a b : Scalar} {s t : List Char} (ha : Literal a s) (hb : Literal b t)
    (hu : LiteralEnd u) (hv : LiteralEnd v) (h : s ++ u = t ++ v) : a = b := by
  cases ha with
  | number hwrites hvalue =>
    cases hb with
    | number hwrites' hvalue' =>
      have htokens := hwrites u hu.number
      rw [h, hwrites' v hv.number] at htokens
      rw [hvalue, hvalue', Json.Token.number.inj (List.cons.inj htokens).1]
    | bool b => cases b <;> exact absurd h (number_ne_cons hwrites hu rfl)
    | string | timestamp => exact absurd h (number_ne_cons hwrites hu rfl)
  | bool a =>
    cases hb with
    | number hwrites' => cases a <;> exact absurd h.symm (number_ne_cons hwrites' hv rfl)
    | bool b => rw [boolName_injective (identifier_unique hu.name hv.name h).1]
    | string => cases a <;> cases h
    | timestamp =>
      rw [List.append_assoc] at h
      exact absurd (identifier_unique hu.name (nameEnd_cons rfl _) h).1 (boolName_ne_timestamp a)
  | string =>
    cases hb with
    | number hwrites' => exact absurd h.symm (number_ne_cons hwrites' hv rfl)
    | bool b => cases b <;> cases h
    | string =>
      rw [(string_unique hu.ne_quote hv.ne_quote h).1]
    | timestamp => cases h
  | timestamp =>
    cases hb with
    | number hwrites' => exact absurd h.symm (number_ne_cons hwrites' hv rfl)
    | bool b =>
      rw [List.append_assoc] at h
      exact absurd (identifier_unique (nameEnd_cons rfl _) hv.name h).1.symm
        (boolName_ne_timestamp b)
    | string => cases h
    | timestamp =>
      have hquote : ∀ tail, Text.StopsAt Char.isDigit ('\'' :: tail) := Text.stopsAt_cons rfl
      simp only [List.append_assoc, List.cons_append, List.nil_append] at h
      have htexts := (List.cons.inj (List.cons.inj (List.append_cancel_left h)).2).2
      obtain ⟨hseconds, -⟩ := Time.secondText_unique rfl (hquote _) (hquote _) htexts
      rw [Int64.toInt_inj.mp hseconds]

/-- A literal is read from its text only. -/
theorem literal_readsOnly {value : Scalar} {text : List Char} (h : value.sql = .ok text) :
    Text.ReadsOnly (fun text (value : Scalar) => value.sql = .ok text) LiteralEnd text value := by
  intro other value' u v hother hu hv heq
  obtain rfl := (literal_of_sql h).unique (literal_of_sql hother) hu hv heq
  rw [h] at hother
  cases hother
  exact ⟨rfl, List.append_cancel_left heq⟩

/-- Commas separate the literals of a list, whose bracket ends it. -/
theorem separators_list : Text.Separators (fun text => text = [',', ' ']) LiteralEnd
    fun tail => ∃ rest, tail = ')' :: rest where
  ends_separator := by
    rintro _ rfl rest c others ⟨⟩
    exact Or.inr (Or.inr rfl)
  ends_all := by
    rintro _ ⟨rest, rfl⟩ c others ⟨⟩
    exact Or.inl rfl
  apart := by
    rintro _ _ rfl ⟨rest, rfl⟩ others ⟨⟩
  unique := by
    rintro _ _ _ _ rfl rfl -
    rfl

/-- A list of literals is read up to its bracket. -/
theorem literals_unique {values values' : List Scalar} {texts texts' : List (List Char)}
    (h : values.mapM Scalar.sql = .ok texts) (h' : values'.mapM Scalar.sql = .ok texts')
    (hne : values ≠ []) (hne' : values' ≠ [])
    (heq : Text.joined [',', ' '] texts ++ ')' :: u = Text.joined [',', ' '] texts' ++ ')' :: v) :
    values = values' ∧ u = v := by
  have hrelated := (mapM_eq_ok_iff _ _ _).mp h
  have hrelated' := (mapM_eq_ok_iff _ _ _).mp h'
  have honly := hrelated.flip.imp fun text value hvalue => literal_readsOnly hvalue
  obtain ⟨hvalues, htail, -⟩ := Text.joined_unique separators_list rfl rfl honly hrelated'.flip
    (by rintro rfl; cases hrelated; exact hne rfl)
    (by rintro rfl; cases hrelated'; exact hne' rfl) ⟨u, rfl⟩ ⟨v, rfl⟩ heq
  exact ⟨hvalues, (List.cons.inj htail).2⟩

end Sql

end DocumentStore
