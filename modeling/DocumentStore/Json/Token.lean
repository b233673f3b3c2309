import DocumentStore.Json.Basic

/-!
# JSON tokens

The tokens of a JSON text, found in one pass over its characters. A token keeps what a reader may
still have to judge: a string keeps its escaped code units unpaired, a number keeps its digits, and
either may be at fault, because the text breaks a rule inside it or ends there. After a token at
fault, and after a character that starts no token, the pass stops: no reader gets further.
-/

set_option autoImplicit false

namespace DocumentStore.Json

/-- A part of a written string: a character, or a code unit given by four hexadecimal digits. -/
inductive Piece where
  | char (c : Char)
  | unit (n : Nat)
  deriving DecidableEq

/-- A written string up to its closing quote or to the place of a fault. -/
structure StringToken where
  pieces : List Piece
  fault : Option Failure
  deriving DecidableEq

/-- A written number. -/
structure NumberToken where
  negative : Bool
  /-- All digits before the exponent, read as one natural number. -/
  digits : Nat
  /-- How many of the digits stand after the point. -/
  places : Nat
  /-- Whether an exponent is written. -/
  scaled : Bool
  exponentNegative : Bool
  exponentDigits : Nat
  deriving DecidableEq

/-- A token of a JSON text. -/
inductive Token where
  | openArray
  | closeArray
  | openObject
  | closeObject
  | comma
  | colon
  | null
  | bool (b : Bool)
  | number (n : NumberToken)
  /-- A number that breaks off. -/
  | brokenNumber (f : Failure)
  | string (s : StringToken)
  /-- A word that is none of the three. -/
  | brokenWord (f : Failure)
  /-- A character that starts no token. -/
  | stray
  deriving DecidableEq

/-- The value of a written string: escaped code units between `D800` and `DFFF` count only in
pairs, one of the upper half after one of the lower half. -/
def decodePieces (fault : Option Failure) : List Piece → Except Failure (List Char)
  | [] =>
    match fault with
    | none => .ok []
    | some f => .error f
  | .char c :: rest => (decodePieces fault rest).map (c :: ·)
  | .unit n :: rest =>
    if n < 0xd800 ∨ 0xdfff < n then (decodePieces fault rest).map (Char.ofNat n :: ·)
    else if 0xdc00 ≤ n then .error .malformed
    else
      match rest with
      | [] => .error (if fault = some .ended then .ended else .malformed)
      | .char _ :: _ => .error .malformed
      | .unit m :: rest =>
        if 0xdc00 ≤ m ∧ m ≤ 0xdfff then
          (decodePieces fault rest).map
            (Char.ofNat (0x10000 + (n - 0xd800) * 0x400 + (m - 0xdc00)) :: ·)
        else .error .malformed

/-- The value of a string token. -/
def StringToken.value (s : StringToken) : Except Failure String :=
  (decodePieces s.fault s.pieces).map String.ofList

/-- The power of ten that scales the digits of a number. -/
def NumberToken.exponent (n : NumberToken) : Int :=
  (if n.exponentNegative then -(n.exponentDigits : Int) else n.exponentDigits) - n.places

/-- Whether a number is written without a point and without an exponent. -/
def NumberToken.isWhole (n : NumberToken) : Bool := n.places = 0 && !n.scaled

/-- How far a written number has got. -/
inductive NumberStage where
  | sign
  | zero
  | whole
  | point
  | places
  | mark
  | exponentSign
  | exponent
  deriving DecidableEq

/-- Whether a number may end at this stage. -/
def NumberStage.complete : NumberStage → Bool
  | .zero | .whole | .places | .exponent => true
  | .sign | .point | .mark | .exponentSign => false

/-- What the pass over the characters is in the middle of. -/
inductive Scan where
  | between
  | word (missing : List Char) (found : Token)
  | number (stage : NumberStage) (n : NumberToken)
  /-- Inside a string, with the pieces so far, the last one first. -/
  | string (pieces : List Piece)
  /-- After a backslash in a string. -/
  | escape (pieces : List Piece)
  /-- Inside the four digits of a code unit, with their number and value so far. -/
  | unit (pieces : List Piece) (count : Nat) (value : Nat)

/-- The value of a decimal digit. -/
def digit? (c : Char) : Option Nat :=
  if '0' ≤ c ∧ c ≤ '9' then some (c.toNat - '0'.toNat) else none

/-- The value of a hexadecimal digit. -/
def hexDigit? (c : Char) : Option Nat :=
  if '0' ≤ c ∧ c ≤ '9' then some (c.toNat - '0'.toNat)
  else if 'a' ≤ c ∧ c ≤ 'f' then some (c.toNat - 'a'.toNat + 10)
  else if 'A' ≤ c ∧ c ≤ 'F' then some (c.toNat - 'A'.toNat + 10)
  else none

/-- A number of which nothing but the sign is known. -/
def NumberToken.start (negative : Bool) : NumberToken := ⟨negative, 0, 0, false, false, 0⟩

/-- The tokens that one character completes, and what the pass is in the middle of afterwards; the
pass stops where that is missing. -/
abbrev Step := List Token × Option Scan

/-- The step for a character between tokens. -/
def Scan.begin (c : Char) : Step :=
  match c with
  | ' ' | '\n' | '\t' | '\r' => ([], some .between)
  | '[' => ([.openArray], some .between)
  | ']' => ([.closeArray], some .between)
  | '\x7b' => ([.openObject], some .between)
  | '\x7d' => ([.closeObject], some .between)
  | ',' => ([.comma], some .between)
  | ':' => ([.colon], some .between)
  | '"' => ([], some (.string []))
  | 'n' => ([], some (.word ['u', 'l', 'l'] .null))
  | 't' => ([], some (.word ['r', 'u', 'e'] (.bool true)))
  | 'f' => ([], some (.word ['a', 'l', 's', 'e'] (.bool false)))
  | '-' => ([], some (.number .sign (.start true)))
  | '0' => ([], some (.number .zero (.start false)))
  | c =>
    match digit? c with
    | some d => ([], some (.number .whole { NumberToken.start false with digits := d }))
    | none => ([.stray], none)

/-- The step for a character inside a number. -/
def Scan.inNumber (stage : NumberStage) (n : NumberToken) (c : Char) : Step :=
  let withDigit (d : Nat) : NumberToken := { n with digits := 10 * n.digits + d }
  let withPlace (d : Nat) : NumberToken :=
    { n with digits := 10 * n.digits + d, places := n.places + 1 }
  let withExponentDigit (d : Nat) : NumberToken :=
    { n with exponentDigits := 10 * n.exponentDigits + d }
  let fault : Step := ([.brokenNumber .malformed], none)
  let afterDigits : Step :=
    if c = 'e' ∨ c = 'E' then ([], some (.number .mark { n with scaled := true }))
    else
      let following := Scan.begin c
      (.number n :: following.1, following.2)
  match stage, digit? c with
  | .sign, some 0 => ([], some (.number .zero n))
  | .sign, some d => ([], some (.number .whole (withDigit d)))
  | .sign, none => fault
  | .zero, some _ => fault
  | .zero, none => if c = '.' then ([], some (.number .point n)) else afterDigits
  | .whole, some d => ([], some (.number .whole (withDigit d)))
  | .whole, none => if c = '.' then ([], some (.number .point n)) else afterDigits
  | .point, some d => ([], some (.number .places (withPlace d)))
  | .point, none => fault
  | .places, some d => ([], some (.number .places (withPlace d)))
  | .places, none => afterDigits
  | .mark, some d => ([], some (.number .exponent (withExponentDigit d)))
  | .mark, none =>
    if c = '+' then ([], some (.number .exponentSign n))
    else if c = '-' then ([], some (.number .exponentSign { n with exponentNegative := true }))
    else fault
  | .exponentSign, some d => ([], some (.number .exponent (withExponentDigit d)))
  | .exponentSign, none => fault
  | .exponent, some d => ([], some (.number .exponent (withExponentDigit d)))
  | .exponent, none =>
    let following := Scan.begin c
    (.number n :: following.1, following.2)

/-- The string that breaks off after the given pieces, the last one first. -/
def Token.brokenString (pieces : List Piece) (f : Failure) : Token :=
  .string ⟨pieces.reverse, some f⟩

/-- The character that an escape of one letter stands for. -/
def escaped? (c : Char) : Option Char :=
  match c with
  | '"' => some '"'
  | '\\' => some '\\'
  | '/' => some '/'
  | 'b' => some '\x08'
  | 'f' => some '\x0c'
  | 'n' => some '\n'
  | 'r' => some '\r'
  | 't' => some '\t'
  | _ => none

/-- The number of bytes of a text. -/
def byteCount (s : List Char) : Nat := s.foldl (fun n c => n + c.utf8Size) 0

/-- The step for the character `c` with `rest` still to come. A code unit breaks off when fewer than
four bytes are left for it; otherwise its four bytes have to be digits. -/
def Scan.step (scan : Scan) (c : Char) (rest : List Char) : Step :=
  match scan with
  | .between => Scan.begin c
  | .word [] found =>
    let following := Scan.begin c
    (found :: following.1, following.2)
  | .word (letter :: missing) found =>
    if c = letter then
      match missing with
      | [] => ([found], some .between)
      | _ :: _ => ([], some (.word missing found))
    else ([.brokenWord .malformed], none)
  | .number stage n => Scan.inNumber stage n c
  | .string pieces =>
    if c = '"' then ([.string ⟨pieces.reverse, none⟩], some .between)
    else if c = '\\' then ([], some (.escape pieces))
    else if c.toNat < 0x20 then ([Token.brokenString pieces .malformed], none)
    else ([], some (.string (.char c :: pieces)))
  | .escape pieces =>
    if c = 'u' then ([], some (.unit pieces 0 0))
    else
      match escaped? c with
      | some e => ([], some (.string (.char e :: pieces)))
      | none => ([Token.brokenString pieces .malformed], none)
  | .unit pieces count value =>
    match hexDigit? c with
    | some d =>
      if count = 3 then ([], some (.string (.unit (16 * value + d) :: pieces)))
      else ([], some (.unit pieces (count + 1) (16 * value + d)))
    | none =>
      let f := if count + byteCount (c :: rest) < 4 then Failure.ended else .malformed
      ([Token.brokenString pieces f], none)

/-- The tokens that the end of the text completes. -/
def Scan.finish : Scan → List Token
  | .between => []
  | .word _ _ => [.brokenWord .ended]
  | .number stage n => if stage.complete then [.number n] else [.brokenNumber .ended]
  | .string pieces | .escape pieces | .unit pieces _ _ => [Token.brokenString pieces .ended]

/-- The tokens of the remaining characters. -/
def Scan.tokens (scan : Scan) : List Char → List Token
  | [] => scan.finish
  | c :: rest =>
    match scan.step c rest with
    | (found, some next) => found ++ Scan.tokens next rest
    | (found, none) => found

/-- The tokens of a text. -/
def tokens (s : List Char) : List Token := Scan.between.tokens s

end DocumentStore.Json
