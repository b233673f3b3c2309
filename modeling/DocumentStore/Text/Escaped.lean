import DocumentStore.Text.Invisible

/-!
# Escaped names

In type descriptions and batch messages a name stands between double quotes, with quotes,
backslashes and characters that do not show on their own replaced by escapes.
-/

set_option autoImplicit false

namespace DocumentStore.Text

/-- The spelling of one character between double quotes. -/
def escapedChar (c : Char) : List Char :=
  match c with
  | '\x00' => ['\\', '0']
  | '\t' => ['\\', 't']
  | '\n' => ['\\', 'n']
  | '\r' => ['\\', 'r']
  | '"' => ['\\', '"']
  | '\\' => ['\\', '\\']
  | c =>
    if isInvisible c then ['\\', 'u', '\x7b'] ++ Nat.toDigits 16 c.toNat ++ ['\x7d']
    else [c]

/-- The name between double quotes. -/
def escaped (s : String) : String :=
  String.ofList ('"' :: (s.toList.flatMap escapedChar ++ ['"']))

end DocumentStore.Text
