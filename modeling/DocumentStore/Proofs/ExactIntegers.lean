import DocumentStore.Proofs.ConformingDocuments
import DocumentStore.Proofs.IntegerComparison
import DocumentStore.Proofs.RowRoundTrip
import DocumentStore.Proofs.Widening

/-!
# Integers that are stored exactly

A column of integers stores an integer as it is or refuses it. A column of floating-point numbers
never refuses an integer; it rounds it. What comes back is the integer exactly when it has no more
binary digits than the format of the column, apart from the zeros that it ends with: 24 digits in
single precision, 53 in double precision.
-/

set_option autoImplicit false

namespace DocumentStore

namespace Floating

namespace Format

variable (f : Format)

end Format

open Format (binary32 binary64 Widens)

end Floating

open Floating.Format (binary32 binary64)

/-! ## Numbers that come back -/

namespace MetaValue

end MetaValue

namespace Document

variable {document read : Document} {schema : Schema} {row : Row} {fields : List Field}
  {width : Int64}

end Document

namespace DocumentField

variable {document : Document} {fields : List Field} {width : Int64} {schema : Schema}
  {names : List String} {leaf : DataType}

end DocumentField

end DocumentStore
