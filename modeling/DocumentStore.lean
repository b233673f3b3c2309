import DocumentStore.Text.Blank
import DocumentStore.Text.Doubled
import DocumentStore.Text.Pieces
import DocumentStore.Lookup
import DocumentStore.Dict
import DocumentStore.Record
import DocumentStore.Floating.Basic
import DocumentStore.Decimal.Layout
import DocumentStore.Text.Invisible
import DocumentStore.Text.Escaped
import DocumentStore.DataType
import DocumentStore.Json.Basic
import DocumentStore.Json.Token
import DocumentStore.Json.Tree
import DocumentStore.Json.Reader
import DocumentStore.Error
import DocumentStore.Time.Calendar
import DocumentStore.Time.Instant
import DocumentStore.DataFrame
import DocumentStore.Document.Basic
import DocumentStore.Row.Basic
import DocumentStore.Schema.Canonical
import DocumentStore.Schema.Table
import DocumentStore.Schema.Description
import DocumentStore.Row.OfDocument
import DocumentStore.Document.OfRow
import DocumentStore.Batch.OfRows
import DocumentStore.Batch.ToRows
import DocumentStore.Filter.Basic
import DocumentStore.Filter.OfJson
import DocumentStore.Predicate.Basic
import DocumentStore.Predicate.Sql
import DocumentStore.Predicate.Evaluation
import DocumentStore.Predicate.OfFilter
import DocumentStore.Store.DuplicatePolicy
import DocumentStore.Store.Config
import DocumentStore.Store.Table
import DocumentStore.Proofs.FlaggedLevels
import DocumentStore.Proofs.NormalForm
import DocumentStore.Proofs.TableSchema
import DocumentStore.Proofs.RowRoundTrip
import DocumentStore.Proofs.Rounding
import DocumentStore.Proofs.ShortestDecimal
import DocumentStore.Proofs.NumberText
import DocumentStore.Proofs.DataFrameText
import DocumentStore.Proofs.Connectives
import DocumentStore.Proofs.DeclaredPaths
import DocumentStore.Proofs.FilterFields
import DocumentStore.Proofs.Absence
import DocumentStore.Proofs.Calendar
import DocumentStore.Proofs.SqlWords
import DocumentStore.Proofs.SqlReading
import DocumentStore.Proofs.BatchRows
import DocumentStore.Proofs.FittingRows
import DocumentStore.Proofs.Rearrangement
import DocumentStore.Proofs.BatchDocuments
import DocumentStore.Proofs.DuplicateWrites
import DocumentStore.Proofs.PresenceFidelity
import DocumentStore.Proofs.FilterLanguage
import DocumentStore.Proofs.StoringAgain
import DocumentStore.Proofs.DescribedFields
import DocumentStore.Proofs.BatchRoundTrip
import DocumentStore.Proofs.BeyondCalendar
import DocumentStore.Proofs.RearrangedTables
import DocumentStore.Proofs.DescribedTables
import DocumentStore.Proofs.ConformingDocuments
import DocumentStore.Proofs.GoverningFlags
import DocumentStore.Proofs.UndeclaredMetadata
import DocumentStore.Proofs.ConformingRows
import DocumentStore.Proofs.CanonicalTables
import DocumentStore.Proofs.Membership
import DocumentStore.Proofs.KleeneLogic
import DocumentStore.Proofs.NamedInstants
import DocumentStore.Proofs.IntegerComparison
import DocumentStore.Proofs.DigitOrder
import DocumentStore.Proofs.AcceptedForms
import DocumentStore.Proofs.SortedTimes
import DocumentStore.Proofs.ExactIntegers
import DocumentStore.Proofs.FilterableFields
import DocumentStore.Proofs.ListedDocuments
import DocumentStore.Proofs.KeptDocuments
import DocumentStore.Proofs.StoredSchemas
import DocumentStore.Proofs.ReadingBack
import DocumentStore.Proofs.MemberHistory
