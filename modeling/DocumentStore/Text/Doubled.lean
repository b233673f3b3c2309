/-!
# Enclosed text

A text is enclosed in a mark by writing the mark, the text with each inner mark written twice, and
the mark again. An enclosed text ends at the first mark that is not followed by another one, so
it can be told apart from whatever follows it.
-/

set_option autoImplicit false

namespace DocumentStore.Text

/-- Writes every occurrence of `mark` twice and every other character once. -/
def doubled (mark : Char) : List Char → List Char
  | [] => []
  | c :: rest => if c = mark then mark :: mark :: doubled mark rest else c :: doubled mark rest

/-- The text between two marks, with inner marks doubled. -/
def enclosed (mark : Char) (s : List Char) : List Char :=
  mark :: (doubled mark s ++ [mark])

end DocumentStore.Text
