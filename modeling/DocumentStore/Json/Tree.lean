import DocumentStore.Json.Token

/-!
# JSON texts as trees, as far as they go

A text that breaks a rule or stops too early still has a tree up to that place. The tree keeps, for
each array and object, how its list of members came to an end, so a reader that walks the tree from
left to right meets the first thing wrong with the text exactly where it stands, whatever else that
reader checks on its way. The tree is built in one pass over the tokens with the open containers
held outside in.
-/

set_option autoImplicit false

namespace DocumentStore.Json

/-- How the members of a container come to an end. -/
inductive Close where
  /-- With the closing bracket. -/
  | proper
  /-- With something else, or the end of the text, where a comma, the bracket or the first name of
  an object belongs. -/
  | improper (f : Failure)
  /-- With a comma that no further member follows. -/
  | afterComma (f : Failure)
  /-- With a member name that no colon follows. -/
  | afterName (name : StringToken) (f : Failure)
  deriving DecidableEq

/-- What is written where a value belongs. -/
inductive Tree where
  | null
  | bool (b : Bool)
  | brokenWord (f : Failure)
  | number (n : NumberToken)
  | brokenNumber (f : Failure)
  | string (s : StringToken)
  | array (items : List Tree) (close : Close)
  | object (members : List (StringToken × Tree)) (close : Close)
  /-- Nothing that could be a value. -/
  | broken (f : Failure)

/-- Where a value stands: the containers around it, each with the members before it, the last one
first. -/
inductive Context where
  | top
  | item (before : List Tree) (outer : Context)
  | member (before : List (StringToken × Tree)) (name : StringToken) (outer : Context)

/-- What may come next. -/
inductive Expecting where
  /-- A value. -/
  | value (context : Context)
  /-- The first item of an array, or its end. -/
  | firstItem (outer : Context)
  /-- After an item: a comma or the end of the array. -/
  | afterItem (items : List Tree) (outer : Context)
  /-- The first name of an object, or its end. -/
  | firstName (outer : Context)
  /-- Another name. -/
  | nextName (members : List (StringToken × Tree)) (outer : Context)
  /-- The colon after a name. -/
  | colon (members : List (StringToken × Tree)) (name : StringToken) (outer : Context)
  /-- After a member: a comma or the end of the object. -/
  | afterMember (members : List (StringToken × Tree)) (outer : Context)
  /-- The end of the text. -/
  | nothing (tree : Tree)

/-- A text as a tree, and whether more follows the value. -/
structure Reading where
  tree : Tree
  trailing : Bool

/-- The whole tree around a value that the text does not get past. -/
def Context.enclose : Context → Tree → Tree
  | .top, tree => tree
  | .item before outer, tree =>
    outer.enclose (.array (before.reverse ++ [tree]) (.improper .malformed))
  | .member before name outer, tree =>
    outer.enclose (.object (before.reverse ++ [(name, tree)]) (.improper .malformed))

/-- What may come after a value in its place. -/
def Context.after : Context → Tree → Expecting
  | .top, tree => .nothing tree
  | .item before outer, tree => .afterItem (tree :: before) outer
  | .member before name outer, tree => .afterMember ((name, tree) :: before) outer

/-- The tree of a token that is a value by itself, or the failure of one that is none. -/
def Token.leaf : Token → Tree
  | .null => .null
  | .bool b => .bool b
  | .number n => .number n
  | .brokenNumber f => .brokenNumber f
  | .string s => .string s
  | .openArray => .array [] (.improper .malformed)
  | .openObject => .object [] (.improper .malformed)
  | .brokenWord f => .brokenWord f
  | .stray | .closeArray | .closeObject | .comma | .colon => .broken .malformed

/-- Whether the text goes on after a leaf. -/
def Token.isSound : Token → Bool
  | .null | .bool _ | .number _ => true
  | .string s => s.fault.isNone
  | _ => false

/-- What comes after a token where a value belongs, or the tree that cannot be finished. -/
def Context.read (context : Context) (token : Token) : Expecting ⊕ Reading :=
  match token with
  | .openArray => .inl (.firstItem context)
  | .openObject => .inl (.firstName context)
  | token =>
    if token.isSound then .inl (context.after token.leaf)
    else .inr ⟨context.enclose token.leaf, false⟩

/-- One token further. -/
def Expecting.step : Expecting → Token → Expecting ⊕ Reading
  | .value context, token =>
    match token, context with
    | .closeArray, .item before outer =>
      .inr ⟨outer.enclose (.array before.reverse (.afterComma .malformed)), false⟩
    | token, context => context.read token
  | .firstItem outer, .closeArray => .inl (outer.after (.array [] .proper))
  | .firstItem outer, token => (Context.item [] outer).read token
  | .afterItem items outer, .comma => .inl (.value (.item items outer))
  | .afterItem items outer, .closeArray => .inl (outer.after (.array items.reverse .proper))
  | .afterItem items outer, _ =>
    .inr ⟨outer.enclose (.array items.reverse (.improper .malformed)), false⟩
  | .firstName outer, .closeObject => .inl (outer.after (.object [] .proper))
  | .firstName outer, .string name => .inl (.colon [] name outer)
  | .firstName outer, _ => .inr ⟨outer.enclose (.object [] (.improper .malformed)), false⟩
  | .nextName members outer, .string name => .inl (.colon members name outer)
  | .nextName members outer, _ =>
    .inr ⟨outer.enclose (.object members.reverse (.afterComma .malformed)), false⟩
  | .colon members name outer, .colon => .inl (.value (.member members name outer))
  | .colon members name outer, _ =>
    .inr ⟨outer.enclose (.object members.reverse (.afterName name .malformed)), false⟩
  | .afterMember members outer, .comma => .inl (.nextName members outer)
  | .afterMember members outer, .closeObject =>
    .inl (outer.after (.object members.reverse .proper))
  | .afterMember members outer, _ =>
    .inr ⟨outer.enclose (.object members.reverse (.improper .malformed)), false⟩
  | .nothing tree, _ => .inr ⟨tree, true⟩

/-- The tree when the text ends here. -/
def Expecting.finish : Expecting → Reading
  | .value (.item (item :: before) outer) =>
    ⟨outer.enclose (.array (item :: before).reverse (.afterComma .ended)), false⟩
  | .value context => ⟨context.enclose (.broken .ended), false⟩
  | .firstItem outer => ⟨outer.enclose (.array [] (.improper .ended)), false⟩
  | .afterItem items outer => ⟨outer.enclose (.array items.reverse (.improper .ended)), false⟩
  | .firstName outer => ⟨outer.enclose (.object [] (.improper .ended)), false⟩
  | .nextName members outer =>
    ⟨outer.enclose (.object members.reverse (.afterComma .ended)), false⟩
  | .colon members name outer =>
    ⟨outer.enclose (.object members.reverse (.afterName name .ended)), false⟩
  | .afterMember members outer =>
    ⟨outer.enclose (.object members.reverse (.improper .ended)), false⟩
  | .nothing tree => ⟨tree, false⟩

/-- The tree of the remaining tokens. -/
def Expecting.reading (expecting : Expecting) : List Token → Reading
  | [] => expecting.finish
  | token :: rest =>
    match expecting.step token with
    | .inl next => Expecting.reading next rest
    | .inr reading => reading

/-- The tree of a text. -/
def readingOf (text : String) : Reading :=
  (Expecting.value .top).reading (tokens text.toList)

end DocumentStore.Json
