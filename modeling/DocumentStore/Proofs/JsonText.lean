import DocumentStore.Json.Reader
import DocumentStore.Proofs.NamedValues
import DocumentStore.Proofs.NumberReading
import DocumentStore.Proofs.Outcome

/-!
# JSON texts read back

The text of a value leaves a tree that spells the value: a token for each leaf, a tree for each item
and each member, in their order. The proof goes once through the value and shows at each place that
the pass over the characters and the pass over the tokens leave such a tree there, whatever follows.
Values that differ are spelled by different trees, so their texts differ.

What a tree is read as that spells a value is the value again, save that a floating-point number may
be read as a neighbour, provided that the members of its objects ascend, as they do in every object
that has been read, and that it is not nested too deep for the reader.
-/

set_option autoImplicit false

namespace DocumentStore.Json

/-! ## Strings -/

/-- A hexadecimal digit is read back. -/
theorem hexDigit?_digitChar {d : Nat} (h : d < 16) : hexDigit? (Nat.digitChar d) = some d := by
  interval_cases d <;> rfl

/-- The piece that stands for a character: control characters without a short escape are written as
code units. -/
def Piece.Spells (piece : Piece) (c : Char) : Prop :=
  piece = .char c ∨ piece = .unit c.toNat ∧ c.toNat < 0x20

/-- Each character is written as one piece of a string. -/
theorem exists_piece (c : Char) :
    ∃ piece : Piece, piece.Spells c ∧ ∀ pieces tail,
      Scan.tokens (.string pieces) (charText c ++ tail) =
        Scan.tokens (.string (piece :: pieces)) tail := by
  unfold charText
  split
  · exact ⟨.char _, Or.inl rfl, fun pieces tail => rfl⟩
  · exact ⟨.char _, Or.inl rfl, fun pieces tail => rfl⟩
  · exact ⟨.char _, Or.inl rfl, fun pieces tail => rfl⟩
  · exact ⟨.char _, Or.inl rfl, fun pieces tail => rfl⟩
  · exact ⟨.char _, Or.inl rfl, fun pieces tail => rfl⟩
  · exact ⟨.char _, Or.inl rfl, fun pieces tail => rfl⟩
  · exact ⟨.char _, Or.inl rfl, fun pieces tail => rfl⟩
  · next _ hquote hbackslash _ _ _ _ _ =>
    split
    · next hcontrol =>
      refine ⟨.unit c.toNat, Or.inr ⟨rfl, hcontrol⟩, fun pieces tail => ?_⟩
      have hhigh := hexDigit?_digitChar (show c.toNat / 16 < 16 by omega)
      have hlow := hexDigit?_digitChar (show c.toNat % 16 < 16 by omega)
      have hthird : ∀ rest, Scan.step (.unit pieces 2 0) (Nat.digitChar (c.toNat / 16)) rest =
          ([], some (.unit pieces 3 (c.toNat / 16))) := by
        intro rest
        simp only [Scan.step, hhigh]
        rw [if_neg (by decide), Nat.mul_zero, Nat.zero_add]
      have hfourth : ∀ rest, Scan.step (.unit pieces 3 (c.toNat / 16))
          (Nat.digitChar (c.toNat % 16)) rest =
          ([], some (.string (.unit c.toNat :: pieces))) := by
        intro rest
        simp only [Scan.step, hlow, if_true, Nat.div_add_mod]
      show Scan.tokens (.unit pieces 2 0)
        (Nat.digitChar (c.toNat / 16) :: Nat.digitChar (c.toNat % 16) :: tail) = _
      rw [Scan.tokens_cons (hthird _), Scan.tokens_cons (hfourth _)]
    · next hplain =>
      refine ⟨.char c, Or.inl rfl, fun pieces tail => ?_⟩
      have hstep : Scan.step (.string pieces) c tail =
          ([], some (.string (.char c :: pieces))) := by
        unfold Scan.step
        dsimp only
        rw [if_neg hquote, if_neg hbackslash, if_neg hplain]
      exact Scan.tokens_cons hstep

/-- The value of pieces that stand for characters is the text of these. -/
theorem decodePieces_spells {pieces : List Piece} {s : List Char}
    (h : List.Forall₂ Piece.Spells pieces s) : decodePieces none pieces = .ok s := by
  induction h with
  | nil => rfl
  | @cons piece c pieces s hpiece _ ih =>
    rcases hpiece with rfl | ⟨rfl, hcontrol⟩
    · rw [decodePieces, ih]
      rfl
    · rw [decodePieces.eq_def]
      dsimp only
      rw [if_pos (Or.inl (by omega)), ih, Char.ofNat_toNat]
      rfl

/-- The characters of a text are written as pieces that spell it. -/
theorem exists_pieces (s : List Char) :
    ∃ spelling : List Piece, List.Forall₂ Piece.Spells spelling s ∧ ∀ pieces tail,
      Scan.tokens (.string pieces) (s.flatMap charText ++ tail) =
        Scan.tokens (.string (spelling.reverse ++ pieces)) tail := by
  induction s with
  | nil => exact ⟨[], .nil, fun pieces tail => rfl⟩
  | cons c rest ih =>
    obtain ⟨piece, hpiece, hstep⟩ := exists_piece c
    obtain ⟨spelling, hspelling, hsteps⟩ := ih
    refine ⟨piece :: spelling, .cons hpiece hspelling, fun pieces tail => ?_⟩
    rw [List.flatMap_cons, List.append_assoc, hstep, hsteps, List.reverse_cons, List.append_assoc]
    rfl

/-- The token is what the pass finds in the written string. -/
structure StringToken.Spells (token : StringToken) (s : String) : Prop where
  sound : token.fault = none
  value_eq : token.value = .ok s
  tokens_eq : ∀ tail, Scan.tokens .between (stringText s ++ tail) =
    .string token :: Scan.tokens .between tail

/-- Each text is spelled by a string token. -/
theorem exists_stringToken (s : String) : ∃ token : StringToken, token.Spells s := by
  obtain ⟨spelling, hspelling, hsteps⟩ := exists_pieces s.toList
  refine ⟨⟨spelling, none⟩, rfl, ?_, fun tail => ?_⟩
  · unfold StringToken.value
    rw [decodePieces_spells hspelling]
    show Except.ok (String.ofList s.toList) = .ok s
    rw [String.ofList_toList]
  · have hopen : ∀ rest, Scan.step .between '"' rest = ([], some (.string [])) := fun rest => rfl
    have hclose : Scan.tokens (.string (spelling.reverse ++ [])) ('"' :: tail) =
        .string ⟨(spelling.reverse ++ []).reverse, none⟩ :: Scan.tokens .between tail := rfl
    unfold stringText
    rw [List.cons_append, Scan.tokens_cons (hopen _), List.append_assoc, List.singleton_append,
      hsteps, hclose, List.append_nil, List.reverse_reverse]

/-! ## Numbers -/

/-- The text of a number is that of some token. -/
theorem exists_numberToken (n : Number) : ∃ token, Writes n.text token := by
  cases n with
  | integer n fits => exact ⟨_, writes_integerText n⟩
  | float x finite =>
    obtain ⟨token, hwrites, -⟩ :=
      @writes_float .binary64 (by decide) (by decide) Decimal.Layout.json (Or.inr rfl) x finite
    exact ⟨token, hwrites⟩

/-- The token of an integer is whole and has the integer as its value. -/
theorem value_of_writes_integer {n : Int} {fits} {token : NumberToken}
    (h : Writes (Number.integer n fits).text token) :
    token.isWhole = true ∧ token.value = .ok (.integer n fits) := by
  obtain rfl := h.unique (writes_integerText n)
  have hwhole : (if decide (n < 0) = true then -(n.natAbs : Int) else n.natAbs) = n := by
    by_cases hn : n < 0
    · rw [if_pos (decide_eq_true hn)]
      omega
    · rw [if_neg (by rwa [decide_eq_true_eq])]
      omega
  have hnonzero : ¬ (decide (n < 0) = true ∧ n.natAbs = 0) := by
    rw [decide_eq_true_eq]
    omega
  refine ⟨rfl, ?_⟩
  unfold NumberToken.value NumberToken.start
  dsimp only
  rw [dif_pos ⟨rfl, hnonzero, by rw [hwhole]; exact fits⟩]
  congr 2

/-- A token is written for one number only. -/
theorem Number.eq_of_writes {n m : Number} {token : NumberToken} (hn : Writes n.text token)
    (hm : Writes m.text token) : n = m := by
  have hfloat : ∀ {x : Binary64} {finite}, Writes (Number.float x finite).text token →
      token.isWhole = false ∧
        Floating.ofDecimal token.negative token.digits token.exponent = x := by
    intro x finite h
    obtain ⟨token', hwrites, hwhole, hvalue⟩ :=
      @writes_float .binary64 (by decide) (by decide) Decimal.Layout.json (Or.inr rfl) x finite
    obtain rfl := Writes.unique h hwrites
    exact ⟨hwhole, hvalue⟩
  cases n with
  | integer n fits =>
    obtain ⟨hwhole, hvalue⟩ := value_of_writes_integer hn
    cases m with
    | integer m fits' =>
      rw [(value_of_writes_integer hm).2] at hvalue
      exact (Except.ok.inj hvalue).symm
    | float y finite =>
      rw [(hfloat hm).1] at hwhole
      cases hwhole
  | float x finite =>
    obtain ⟨hwhole, hvalue⟩ := hfloat hn
    cases m with
    | integer m fits =>
      rw [(value_of_writes_integer hm).1] at hwhole
      cases hwhole
    | float y finite' =>
      obtain rfl := hvalue.symm.trans (hfloat hm).2
      rfl

/-- What is read of the text of a number. Every text of a number is read as one. -/
def Number.reread (n : Number) : Number :=
  match parse (String.ofList n.text) with
  | .ok (.number read) => read
  | _ => n

/-! ## Values -/

mutual

/-- The members of every object ascend. -/
def Canonical : Json → Prop
  | .array items => itemsCanonical items
  | .object members => members.Pairwise (fun a b => a.1 < b.1) ∧ membersCanonical members
  | _ => True

/-- Items whose objects ascend. -/
def itemsCanonical : List Json → Prop
  | [] => True
  | item :: rest => item.Canonical ∧ itemsCanonical rest

/-- Members whose objects ascend. -/
def membersCanonical : List (String × Json) → Prop
  | [] => True
  | (_, value) :: rest => value.Canonical ∧ membersCanonical rest

end

mutual

/-- The tree stands for the value, leaf by leaf and in the order of its items and members. A number
stands for the one whose text it is. -/
inductive Tree.Spells : Tree → Json → Prop
  | null : Spells .null .null
  | bool (b : Bool) : Spells (.bool b) (.bool b)
  | number {token : NumberToken} {n : Number} (h : Writes n.text token) :
      Spells (.number token) (.number n)
  | string {token : StringToken} {s : String} (h : token.value = .ok s) :
      Spells (.string token) (.string s)
  | array {trees : List Tree} {items : List Json} (h : SpellItems trees items) :
      Spells (.array trees .proper) (.array items)
  | object {reads : List (StringToken × Tree)} {members : List (String × Json)}
      (h : SpellMembers reads members) : Spells (.object reads .proper) (.object members)

/-- The trees stand for the items. -/
inductive Tree.SpellItems : List Tree → List Json → Prop
  | nil : SpellItems [] []
  | cons {tree : Tree} {item : Json} {trees : List Tree} {items : List Json}
      (hitem : Spells tree item) (hrest : SpellItems trees items) :
      SpellItems (tree :: trees) (item :: items)

/-- The named trees stand for the members. -/
inductive Tree.SpellMembers : List (StringToken × Tree) → List (String × Json) → Prop
  | nil : SpellMembers [] []
  | cons {token : StringToken} {tree : Tree} {name : String} {value : Json}
      {reads : List (StringToken × Tree)} {members : List (String × Json)}
      (hname : token.value = .ok name) (hvalue : Spells tree value)
      (hrest : SpellMembers reads members) :
      SpellMembers ((token, tree) :: reads) ((name, value) :: members)

end

/-- Items are nested as deep as the deepest of them. -/
theorem itemDepth_le_iff (items : List Json) (limit : Nat) :
    itemDepth items ≤ limit ↔ ∀ item ∈ items, item.depth ≤ limit := by
  induction items with
  | nil => exact iff_of_true (Nat.zero_le _) fun item h => absurd h List.not_mem_nil
  | cons item rest ih => rw [itemDepth, Nat.max_le, ih, List.forall_mem_cons]

/-- Members are nested as deep as the deepest of their values. -/
theorem memberDepth_le_iff (members : List (String × Json)) (limit : Nat) :
    memberDepth members ≤ limit ↔ ∀ member ∈ members, member.2.depth ≤ limit := by
  induction members with
  | nil => exact iff_of_true (Nat.zero_le _) fun member h => absurd h List.not_mem_nil
  | cons member rest ih => rw [memberDepth, Nat.max_le, ih, List.forall_mem_cons]

/-- A comma ends a number. -/
theorem numberEnd_comma (tail : List Char) : NumberEnd (',' :: tail) := by
  intro c rest h
  cases h
  decide

/-- A closing bracket ends a number. -/
theorem numberEnd_closeArray (tail : List Char) : NumberEnd (']' :: tail) := by
  intro c rest h
  cases h
  decide

/-- A closing brace ends a number. -/
theorem numberEnd_closeObject (tail : List Char) : NumberEnd ('\x7d' :: tail) := by
  intro c rest h
  cases h
  decide

/-- Where a value belongs, the text leaves the tree, whatever follows; and its first token is not
the end of an array. -/
structure Reads (text : List Char) (tree : Tree) : Prop where
  head : ∀ tail, NumberEnd tail → ∃ token rest,
    Scan.tokens .between (text ++ tail) = token :: rest ∧ token ≠ .closeArray
  value : ∀ (context : Context) tail, NumberEnd tail →
    (Expecting.value context).reading (Scan.tokens .between (text ++ tail)) =
      (context.after tree).reading (Scan.tokens .between tail)

/-- A text that is one token is read as its leaf. -/
theorem reads_leaf {text : List Char} {token : Token} (sound : token.isSound = true)
    (h : ∀ tail, NumberEnd tail →
      Scan.tokens .between (text ++ tail) = token :: Scan.tokens .between tail) :
    Reads text token.leaf := by
  have hclose : token ≠ .closeArray := by
    rintro rfl
    cases sound
  refine ⟨fun tail htail => ⟨token, _, h tail htail, hclose⟩, fun context tail htail => ?_⟩
  have hstep : (Expecting.value context).step token = .inl (context.after token.leaf) := by
    have hread : context.read token = .inl (context.after token.leaf) := by
      cases token with
      | openArray | openObject => cases sound
      | _ => simp only [Context.read, sound, if_true]
    cases token with
    | closeArray => exact absurd rfl hclose
    | _ => exact hread
  rw [h tail htail, Expecting.reading, hstep]

/-- A word is followed letter by letter to its end. -/
theorem tokens_word (word : List Char) (letter : Char) (found : Token) (tail : List Char) :
    Scan.tokens (.word (letter :: word) found) (letter :: word ++ tail) =
      found :: Scan.tokens .between tail := by
  induction word generalizing letter with
  | nil =>
    have hstep : Scan.step (.word [letter] found) letter tail = ([found], some .between) :=
      if_pos rfl
    show Scan.tokens _ (letter :: tail) = _
    rw [Scan.tokens, hstep]
    rfl
  | cons next word ih =>
    have hstep : Scan.step (.word (letter :: next :: word) found) letter (next :: word ++ tail) =
        ([], some (.word (next :: word) found)) := if_pos rfl
    rw [List.cons_append, List.cons_append, ← List.cons_append, Scan.tokens_cons hstep, ih]

/-- The word for null is read as null. -/
theorem reads_null : Reads Json.null.chars .null := by
  show Reads "null".toList (Token.leaf .null)
  refine reads_leaf rfl fun tail _ => ?_
  show Scan.tokens .between ('n' :: (['u', 'l', 'l'] ++ tail)) = _
  rw [Scan.tokens_cons rfl, tokens_word]

/-- The words for truth values are read as these. -/
theorem reads_bool (b : Bool) : Reads (Json.bool b).chars (.bool b) := by
  show Reads (Json.bool b).chars (Token.leaf (.bool b))
  refine reads_leaf rfl fun tail _ => ?_
  cases b with
  | false =>
    show Scan.tokens .between ('f' :: (['a', 'l', 's', 'e'] ++ tail)) = _
    rw [Scan.tokens_cons rfl, tokens_word]
  | true =>
    show Scan.tokens .between ('t' :: (['r', 'u', 'e'] ++ tail)) = _
    rw [Scan.tokens_cons rfl, tokens_word]

/-- A number is read as the token that it writes. -/
theorem reads_number {n : Number} {token : NumberToken} (h : Writes n.text token) :
    Reads (Json.number n).chars (.number token) :=
  reads_leaf rfl h

/-- A string is read as a token that spells it. -/
theorem reads_string {s : String} {token : StringToken} (h : token.Spells s) :
    Reads (Json.string s).chars (.string token) := by
  refine reads_leaf ?_ fun tail _ => h.tokens_eq tail
  show token.fault.isNone = true
  rw [h.sound]
  rfl

/-! ## Arrays and objects -/

/-- Items after the first one, and the end of their array. -/
theorem reading_items {item : Json} {items : List Json} {tree : Tree} {trees : List Tree}
    (hitem : Reads item.chars tree)
    (h : List.Forall₂ (fun (item : Json) tree => Reads item.chars tree) items trees)
    (before : List Tree) (outer : Context) (tail : List Char) :
    (Expecting.value (.item before outer)).reading
        (Scan.tokens .between (itemChars (item :: items) ++ ']' :: tail)) =
      (outer.after (.array (before.reverse ++ tree :: trees) .proper)).reading
        (Scan.tokens .between tail) := by
  induction h generalizing item tree before with
  | nil =>
    have hclose : Scan.tokens .between (']' :: tail) = .closeArray :: Scan.tokens .between tail :=
      rfl
    rw [itemChars, List.append_nil, hitem.value _ _ (numberEnd_closeArray tail), hclose,
      ← List.reverse_cons]
    rfl
  | @cons next nextTree items trees hnext _ ih =>
    have hcomma : ∀ rest,
        Scan.tokens .between (',' :: rest) = .comma :: Scan.tokens .between rest :=
      fun rest => rfl
    rw [itemChars, List.append_assoc, List.cons_append, hitem.value _ _ (numberEnd_comma _), hcomma]
    show (Expecting.value (.item (tree :: before) outer)).reading _ = _
    rw [ih hnext, List.reverse_cons, List.append_assoc]
    rfl

/-- An array is read as the list of what its items are read as. -/
theorem reads_array {items : List Json} {trees : List Tree}
    (h : List.Forall₂ (fun (item : Json) tree => Reads item.chars tree) items trees) :
    Reads (Json.array items).chars (.array trees .proper) := by
  have hopen : ∀ rest,
      Scan.tokens .between ('[' :: rest) = .openArray :: Scan.tokens .between rest :=
    fun rest => rfl
  have hshape : ∀ tail, (Json.array items).chars ++ tail =
      '[' :: (itemChars items ++ ']' :: tail) := by
    intro tail
    rw [chars, List.cons_append, List.append_assoc]
    rfl
  refine ⟨fun tail _ => ⟨.openArray, _, by rw [hshape, hopen], by decide⟩, fun context tail _ => ?_⟩
  rw [hshape, hopen]
  show (Expecting.firstItem context).reading _ = _
  cases h with
  | nil => rfl
  | @cons item tree items trees hitem hitems =>
    -- the first token of an item does not end the array, so it is read like that of a later one
    have hfirst : (Expecting.firstItem context).reading
          (Scan.tokens .between (itemChars (item :: items) ++ ']' :: tail)) =
        (Expecting.value (.item [] context)).reading
          (Scan.tokens .between (itemChars (item :: items) ++ ']' :: tail)) := by
      have hhead : ∃ token rest,
          Scan.tokens .between (itemChars (item :: items) ++ ']' :: tail) = token :: rest ∧
            token ≠ .closeArray := by
        cases items with
        | nil =>
          rw [itemChars, List.append_nil]
          exact hitem.head _ (numberEnd_closeArray tail)
        | cons next items =>
          rw [itemChars, List.append_assoc]
          exact hitem.head _ (numberEnd_comma _)
      obtain ⟨token, rest, htokens, hclose⟩ := hhead
      rw [htokens, Expecting.reading, Expecting.reading]
      cases token with
      | closeArray => exact absurd rfl hclose
      | _ => rfl
    rw [hfirst, reading_items hitem hitems]
    rfl

/-- The token and the tree of a member. -/
structure ReadsMember (member : String × Json) (read : StringToken × Tree) : Prop where
  name : read.1.Spells member.1
  value : Reads member.2.chars read.2

/-- A member with what follows it, up to the state after it. -/
theorem reading_member {member : String × Json} {read : StringToken × Tree}
    (h : ReadsMember member read) (before : List (StringToken × Tree)) (outer : Context)
    {tail : List Char} (htail : NumberEnd tail) :
    (Expecting.nextName before outer).reading
        (Scan.tokens .between (stringText member.1 ++ ':' :: member.2.chars ++ tail)) =
      (Expecting.afterMember (read :: before) outer).reading (Scan.tokens .between tail) := by
  have hcolon : ∀ rest, Scan.tokens .between (':' :: rest) = .colon :: Scan.tokens .between rest :=
    fun rest => rfl
  rw [List.append_assoc, h.name.tokens_eq, List.cons_append, hcolon]
  show (Expecting.value (.member before read.1 outer)).reading _ = _
  rw [h.value.value _ _ htail]
  rfl

/-- Members after the first one, and the end of their object. -/
theorem reading_members {member : String × Json} {members : List (String × Json)}
    {read : StringToken × Tree} {reads : List (StringToken × Tree)}
    (hmember : ReadsMember member read) (h : List.Forall₂ ReadsMember members reads)
    (before : List (StringToken × Tree)) (outer : Context) (tail : List Char) :
    (Expecting.nextName before outer).reading
        (Scan.tokens .between (memberChars (member :: members) ++ '\x7d' :: tail)) =
      (outer.after (.object (before.reverse ++ read :: reads) .proper)).reading
        (Scan.tokens .between tail) := by
  induction h generalizing member read before with
  | nil =>
    have hclose : Scan.tokens .between ('\x7d' :: tail) =
        .closeObject :: Scan.tokens .between tail := rfl
    obtain ⟨name, value⟩ := member
    rw [memberChars, List.append_nil, reading_member hmember _ _ (numberEnd_closeObject tail),
      hclose, ← List.reverse_cons]
    rfl
  | @cons next nextRead members reads hnext _ ih =>
    have hcomma : ∀ rest,
        Scan.tokens .between (',' :: rest) = .comma :: Scan.tokens .between rest :=
      fun rest => rfl
    obtain ⟨name, value⟩ := member
    rw [memberChars, List.append_assoc, List.cons_append,
      reading_member hmember _ _ (numberEnd_comma _), hcomma]
    show (Expecting.nextName (read :: before) outer).reading _ = _
    rw [ih hnext, List.reverse_cons, List.append_assoc]
    rfl

/-- An object is read as the members that its members are read as. -/
theorem reads_object {members : List (String × Json)} {reads : List (StringToken × Tree)}
    (h : List.Forall₂ ReadsMember members reads) :
    Reads (Json.object members).chars (.object reads .proper) := by
  have hopen : ∀ rest, Scan.tokens .between ('\x7b' :: rest) =
      .openObject :: Scan.tokens .between rest := fun rest => rfl
  have hshape : ∀ tail, (Json.object members).chars ++ tail =
      '\x7b' :: (memberChars members ++ '\x7d' :: tail) := by
    intro tail
    rw [chars, List.cons_append, List.append_assoc]
    rfl
  refine ⟨fun tail _ => ⟨.openObject, _, by rw [hshape, hopen], by decide⟩,
    fun context tail _ => ?_⟩
  rw [hshape, hopen]
  show (Expecting.firstName context).reading _ = _
  cases h with
  | nil => rfl
  | @cons member read members reads hmember hmembers =>
    -- the first token is a name, after which it does not matter that it is the first one
    have hfirst : (Expecting.firstName context).reading
          (Scan.tokens .between (memberChars (member :: members) ++ '\x7d' :: tail)) =
        (Expecting.nextName [] context).reading
          (Scan.tokens .between (memberChars (member :: members) ++ '\x7d' :: tail)) := by
      obtain ⟨name, value⟩ := member
      cases members with
      | nil =>
        rw [memberChars, List.append_assoc, List.append_assoc, hmember.name.tokens_eq]
        rfl
      | cons next members =>
        rw [memberChars, List.append_assoc, List.append_assoc, hmember.name.tokens_eq]
        rfl
    rw [hfirst, reading_members hmember hmembers]
    rfl

/-! ## Whole texts -/

mutual

/-- The text of a value leaves a tree that spells it. -/
theorem exists_tree : ∀ value : Json, ∃ tree : Tree, Reads value.chars tree ∧ tree.Spells value
  | .null => ⟨.null, reads_null, .null⟩
  | .bool b => ⟨.bool b, reads_bool b, .bool b⟩
  | .number n => by
    obtain ⟨token, hwrites⟩ := exists_numberToken n
    exact ⟨.number token, reads_number hwrites, .number hwrites⟩
  | .string s => by
    obtain ⟨token, hspells⟩ := exists_stringToken s
    exact ⟨.string token, reads_string hspells, .string hspells.value_eq⟩
  | .array items => by
    obtain ⟨trees, hreads, hspell⟩ := exists_trees items
    exact ⟨.array trees .proper, reads_array hreads, .array hspell⟩
  | .object members => by
    obtain ⟨reads, hreads, hspell⟩ := exists_memberTrees members
    exact ⟨.object reads .proper, reads_object hreads, .object hspell⟩

/-- Each of some items is read as a tree that spells it. -/
theorem exists_trees : ∀ items : List Json, ∃ trees : List Tree,
    List.Forall₂ (fun (item : Json) tree => Reads item.chars tree) items trees ∧
      Tree.SpellItems trees items
  | [] => ⟨[], .nil, .nil⟩
  | item :: rest => by
    obtain ⟨tree, hread, hspells⟩ := exists_tree item
    obtain ⟨trees, hreads, hspell⟩ := exists_trees rest
    exact ⟨tree :: trees, .cons hread hreads, .cons hspells hspell⟩

/-- Each of some members is read as a name and a tree that spell it. -/
theorem exists_memberTrees : ∀ members : List (String × Json),
    ∃ reads : List (StringToken × Tree), List.Forall₂ ReadsMember members reads ∧
      Tree.SpellMembers reads members
  | [] => ⟨[], .nil, .nil⟩
  | (name, value) :: rest => by
    obtain ⟨token, hname⟩ := exists_stringToken name
    obtain ⟨tree, hread, hspells⟩ := exists_tree value
    obtain ⟨reads, hreads, hspell⟩ := exists_memberTrees rest
    exact ⟨(token, tree) :: reads, .cons ⟨hname, hread⟩ hreads,
      .cons hname.value_eq hspells hspell⟩

end

/-- The text of a value is the text of a tree that spells it, and nothing follows. -/
theorem exists_readingOf (value : Json) :
    ∃ tree : Tree, readingOf value.text = ⟨tree, false⟩ ∧ tree.Spells value := by
  obtain ⟨tree, hread, hspells⟩ := exists_tree value
  refine ⟨tree, ?_, hspells⟩
  have hchars : value.text.toList = value.chars ++ [] := by
    rw [List.append_nil]
    exact String.toList_ofList
  unfold readingOf tokens
  rw [hchars, hread.value _ _ numberEnd_nil]
  rfl

mutual

/-- A tree spells one value only. -/
theorem Tree.Spells.unique : ∀ {tree : Tree} {a b : Json}, tree.Spells a → tree.Spells b → a = b
  | _, _, _, .null, .null => rfl
  | _, _, _, .bool _, .bool _ => rfl
  | _, _, _, .number ha, .number hb => congrArg Json.number (Number.eq_of_writes ha hb)
  | _, _, _, .string ha, .string hb => congrArg Json.string (Except.ok.inj (ha.symm.trans hb))
  | _, _, _, .array ha, .array hb => congrArg Json.array (ha.unique hb)
  | _, _, _, .object ha, .object hb => congrArg Json.object (ha.unique hb)

/-- Trees spell one list of items only. -/
theorem Tree.SpellItems.unique : ∀ {trees : List Tree} {a b : List Json},
    Tree.SpellItems trees a → Tree.SpellItems trees b → a = b
  | _, _, _, .nil, .nil => rfl
  | _, _, _, .cons ha hrest, .cons hb hrest' => by rw [ha.unique hb, hrest.unique hrest']

/-- Named trees spell one list of members only. -/
theorem Tree.SpellMembers.unique : ∀ {reads : List (StringToken × Tree)}
    {a b : List (String × Json)}, Tree.SpellMembers reads a → Tree.SpellMembers reads b → a = b
  | _, _, _, .nil, .nil => rfl
  | _, _, _, .cons ha hvalue hrest, .cons hb hvalue' hrest' => by
    rw [hvalue.unique hvalue', hrest.unique hrest', Except.ok.inj (ha.symm.trans hb)]

end

/-- Values with one text are one value. -/
theorem text_injective {a b : Json} (h : a.text = b.text) : a = b := by
  obtain ⟨tree, hreading, hspells⟩ := exists_readingOf a
  obtain ⟨tree', hreading', hspells'⟩ := exists_readingOf b
  rw [h, hreading'] at hreading
  cases hreading
  exact hspells.unique hspells'

/-! ## What is read -/

/-- The value of a token is what is read of the number that it is written for. -/
theorem value_of_writes {n : Number} {token : NumberToken} (h : Writes n.text token) :
    token.value = .ok n.reread := by
  have hvalue : ∃ m, token.value = .ok m := by
    cases n with
    | integer n fits => exact ⟨_, (value_of_writes_integer h).2⟩
    | float x finite =>
      obtain ⟨y, hy, hvalue⟩ := exists_value_of_writes finite h
      exact ⟨_, hvalue⟩
  obtain ⟨m, hm⟩ := hvalue
  have hparse : parse (String.ofList n.text) = .ok (.number m) := by
    have hread := (reads_number h).value .top [] numberEnd_nil
    have hreading : readingOf (String.ofList n.text) = ⟨.number token, false⟩ := by
      unfold readingOf tokens
      rw [String.toList_ofList, ← List.append_nil n.text]
      exact hread
    rw [parse, hreading]
    dsimp only
    rw [Tree.value, hm]
    rfl
  rw [hm, Number.reread, hparse]

/-- Integers are read as they are. -/
theorem Number.reread_integer (n : Int) (fits) : (integer n fits).reread = integer n fits := by
  obtain ⟨token, hwrites⟩ := exists_numberToken (integer n fits)
  have hvalue := value_of_writes hwrites
  rw [(value_of_writes_integer hwrites).2] at hvalue
  exact (Except.ok.inj hvalue).symm

/-- A floating-point number with few digits and a small power of ten is read as it is. -/
theorem Number.reread_float {x : Binary64} {finite} {token : NumberToken}
    (h : Writes (float x finite).text token) (hdigits : token.digits < 2 ^ 53)
    (hlow : -22 ≤ token.exponent) (hhigh : token.exponent ≤ 22) :
    (float x finite).reread = float x finite := by
  have hvalue := value_of_writes h
  rw [value_of_writes_short finite h hdigits hlow hhigh] at hvalue
  exact (Except.ok.inj hvalue).symm

mutual

/-- What is read of the text of a value: each number as its own text is read. -/
def reread : Json → Json
  | .number n => .number n.reread
  | .array items => .array (rereadItems items)
  | .object members => .object (rereadMembers members)
  | .null => .null
  | .bool b => .bool b
  | .string s => .string s

/-- What is read of items. -/
def rereadItems : List Json → List Json
  | [] => []
  | item :: rest => item.reread :: rereadItems rest

/-- What is read of members. -/
def rereadMembers : List (String × Json) → List (String × Json)
  | [] => []
  | (name, value) :: rest => (name, value.reread) :: rereadMembers rest

end

/-- Members are read one by one. -/
theorem rereadMembers_eq_map (members : List (String × Json)) :
    rereadMembers members = members.map fun member => (member.1, member.2.reread) := by
  induction members with
  | nil => rfl
  | cons member rest ih => rw [rereadMembers, ih, List.map_cons]

mutual

/-- What is read is nested as deep. -/
theorem depth_reread : ∀ value : Json, value.reread.depth = value.depth
  | .null | .bool _ | .number _ | .string _ => rfl
  | .array items => by rw [reread, depth, depth, itemDepth_rereadItems items]
  | .object members => by rw [reread, depth, depth, memberDepth_rereadMembers members]

/-- Items are nested as deep when they are read. -/
theorem itemDepth_rereadItems : ∀ items : List Json, itemDepth (rereadItems items) = itemDepth items
  | [] => rfl
  | item :: rest => by
    rw [rereadItems, itemDepth, itemDepth, depth_reread item, itemDepth_rereadItems rest]

/-- Members are nested as deep when they are read. -/
theorem memberDepth_rereadMembers : ∀ members : List (String × Json),
    memberDepth (rereadMembers members) = memberDepth members
  | [] => rfl
  | (_, value) :: rest => by
    rw [rereadMembers, memberDepth, memberDepth, depth_reread value,
      memberDepth_rereadMembers rest]

end

mutual

/-- The members of what is read ascend if they did before. -/
theorem Canonical.reread : ∀ {value : Json}, value.Canonical → value.reread.Canonical
  | .null, _ | .bool _, _ | .number _, _ | .string _, _ => trivial
  | .array _, h => itemsCanonical_rereadItems h
  | .object members, h => by
    refine ⟨?_, membersCanonical_rereadMembers h.2⟩
    rw [rereadMembers_eq_map, List.pairwise_map]
    exact h.1

/-- Items keep the order of their members when they are read. -/
theorem itemsCanonical_rereadItems : ∀ {items : List Json}, itemsCanonical items →
    itemsCanonical (rereadItems items)
  | [], _ => trivial
  | _ :: _, h => ⟨h.1.reread, itemsCanonical_rereadItems h.2⟩

/-- Members keep the order of their own members when they are read. -/
theorem membersCanonical_rereadMembers : ∀ {members : List (String × Json)},
    membersCanonical members → membersCanonical (rereadMembers members)
  | [], _ => trivial
  | _ :: _, h => ⟨h.1.reread, membersCanonical_rereadMembers h.2⟩

end

/-- What is read of values that are nested `depth` deep where `room` containers may be nested. -/
def within {α : Type} (room depth : Nat) (value : α) : Except Failure α :=
  if depth ≤ room then .ok value else .error .malformed

/-- There is room for values that are not nested deeper. -/
theorem within_of_le {α : Type} {room depth : Nat} (h : depth ≤ room) (value : α) :
    within room depth value = .ok value := if_pos h

/-- There is no room for values that are nested deeper. -/
theorem within_of_lt {α : Type} {room depth : Nat} (h : room < depth) (value : α) :
    within room depth value = .error .malformed := if_neg (Nat.not_le.mpr h)

/-- A container needs room for itself and for what is in it. -/
theorem within_container {α β : Type} (room depth : Nat) (value : α) (f : α → β) :
    (if room = 0 then .error .malformed
      else (within (room - 1) depth value).bind fun a => .ok (f a)) =
      within room (depth + 1) (f value) := by
  by_cases hroom : room = 0
  · rw [if_pos hroom, within_of_lt (by omega)]
  · rw [if_neg hroom]
    by_cases h : depth ≤ room - 1
    · rw [within_of_le h, within_of_le (by omega)]
      rfl
    · rw [within_of_lt (by omega), within_of_lt (by omega)]
      rfl

/-- Values side by side need room for the deepest. -/
theorem within_beside {α β γ : Type} (room left right : Nat) (a : α) (b : β) (f : α → β → γ) :
    (within room left a).bind (fun a => (within room right b).bind fun b => .ok (f a b)) =
      within room (max left right) (f a b) := by
  by_cases hleft : left ≤ room
  · rw [within_of_le hleft]
    by_cases hright : right ≤ room
    · rw [within_of_le hright, within_of_le (by omega)]
      rfl
    · rw [within_of_lt (Nat.not_le.mp hright), within_of_lt (by omega)]
      rfl
  · rw [within_of_lt (Nat.not_le.mp hleft), within_of_lt (show room < max left right by omega)]
    rfl

mutual

/-- What a tree that spells a value is read as. -/
theorem value_of_spells : ∀ {value : Json} {tree : Tree}, tree.Spells value → value.Canonical →
    ∀ room, tree.value room = within room value.depth value.reread
  | .null, _, .null, _, _ => (within_of_le (Nat.zero_le _) _).symm
  | .bool _, _, .bool _, _, _ => (within_of_le (Nat.zero_le _) _).symm
  | .number n, _, .number h, _, room => by
    rw [Tree.value, value_of_writes h]
    exact (within_of_le (Nat.zero_le _) _).symm
  | .string s, _, .string h, _, room => by
    rw [Tree.value, h]
    exact (within_of_le (Nat.zero_le _) _).symm
  | .array items, _, .array h, canonical, room => by
    rw [Tree.value, values_of_spells h canonical (room - 1), depth]
    exact within_container room _ (rereadItems items) Json.array
  | .object members, _, .object h, canonical, room => by
    rw [Tree.value, memberValues_of_spells h canonical.2 (room - 1), depth]
    have hmembers : Json.ofMembers (rereadMembers members) = .object (rereadMembers members) := by
      have hsorted : (Dict.mk (rereadMembers members)).Sorted :=
        (@Canonical.reread (.object members) canonical).1
      unfold ofMembers
      rw [Dict.ofList_of_sorted hsorted]
    rw [reread, ← hmembers]
    exact within_container room _ (rereadMembers members) Json.ofMembers

/-- What trees that spell items are read as. -/
theorem values_of_spells : ∀ {items : List Json} {trees : List Tree},
    Tree.SpellItems trees items → itemsCanonical items →
    ∀ room, Tree.values room trees = within room (itemDepth items) (rereadItems items)
  | [], _, .nil, _, _ => (within_of_le (Nat.zero_le _) _).symm
  | item :: rest, _, .cons hitem hrest, canonical, room => by
    rw [Tree.values, value_of_spells hitem canonical.1 room,
      values_of_spells hrest canonical.2 room, itemDepth]
    exact within_beside room _ _ item.reread (rereadItems rest) List.cons

/-- What named trees that spell members are read as. -/
theorem memberValues_of_spells : ∀ {members : List (String × Json)}
    {reads : List (StringToken × Tree)}, Tree.SpellMembers reads members →
    membersCanonical members →
    ∀ room, Tree.memberValues room reads =
      within room (memberDepth members) (rereadMembers members)
  | [], _, .nil, _, _ => (within_of_le (Nat.zero_le _) _).symm
  | (name, value) :: rest, _, .cons hname hvalue hrest, canonical, room => by
    rw [Tree.memberValues, hname, ok_bind, value_of_spells hvalue canonical.1 room,
      memberValues_of_spells hrest canonical.2 room, memberDepth]
    exact within_beside room _ _ value.reread (rereadMembers rest)
      fun value rest => (name, value) :: rest

end

/-- What is read of the text of a value that is not nested too deep; a value that is cannot be read. -/
theorem parse_text_eq {value : Json} (canonical : value.Canonical) :
    parse value.text = within depthLimit value.depth value.reread := by
  obtain ⟨tree, hreading, hspells⟩ := exists_readingOf value
  unfold parse
  rw [hreading]
  dsimp only
  rw [value_of_spells hspells canonical]
  by_cases h : value.depth ≤ depthLimit
  · rw [within_of_le h]
    rfl
  · rw [within_of_lt (by omega)]
    rfl

/-- The text of a value that is not nested too deep can be read. -/
theorem parse_text {value : Json} (canonical : value.Canonical) (h : value.depth ≤ depthLimit) :
    parse value.text = .ok value.reread :=
  (parse_text_eq canonical).trans (within_of_le h value.reread)

-- the shortest text of an eleventh is read as the next number
example : (parse "0.09090909090909091").toOption.map text = some "0.09090909090909093" := by
  decide +kernel

end DocumentStore.Json
