import ListQuery.Form.RoundTrip
import ListQuery.Listing.Catalog
import ListQuery.Listing.Handler
import ListQuery.Proofs.Request.Extras
import ListQuery.Proofs.Text.Integer
import ListQuery.Proofs.Request.RoundTrip
import ListQuery.Proofs.Request.Resolving
import ListQuery.Proofs.Filter.Truth
import ListQuery.Proofs.Compile.Where
import ListQuery.Proofs.Json.Equality
import ListQuery.Proofs.Sql.Rows
import ListQuery.Proofs.Compile.Rows
import ListQuery.Proofs.Request.Meaning
import ListQuery.Proofs.Listing.Protocol
import ListQuery.Proofs.Sql.Lexical
import ListQuery.Proofs.Sql.Alike
import ListQuery.Proofs.Filter.Outline
import ListQuery.Proofs.Compile.Outline
import ListQuery.Proofs.Page.Tiling
import ListQuery.Proofs.Sql.Values
import ListQuery.Proofs.Compile.Paging
import ListQuery.Proofs.Compile.Conditions
import ListQuery.Proofs.Compile.Scope
import ListQuery.Proofs.Store.Related
import ListQuery.Proofs.Listing.Disclosure
import ListQuery.Proofs.Compile.Dialects
import ListQuery.Proofs.Sql.Conjuncts
import ListQuery.Proofs.Compile.Negations
import ListQuery.Proofs.Text.Digits
import ListQuery.Proofs.Binary64.Rounding
import ListQuery.Proofs.Binary64.Shortest
import ListQuery.Proofs.Binary64.Decimal
import ListQuery.Proofs.Binary64.Plain
import ListQuery.Proofs.Filter.Numerals
import ListQuery.Proofs.Filter.Matching
import ListQuery.Proofs.Text.Trimming
import ListQuery.Proofs.Text.Boundaries
import ListQuery.Proofs.Filter.Truncation
import ListQuery.Proofs.Compile.Conjuncts
import ListQuery.Proofs.Compile.FreeText
import ListQuery.Proofs.Store.Sharing
import ListQuery.Proofs.Listing.KeyColumn
import ListQuery.Proofs.Filter.WebQuery
import ListQuery.Proofs.Text.Words
import ListQuery.Proofs.Filter.Words
import ListQuery.Proofs.Filter.Modes
import ListQuery.Proofs.Filter.Scalars
import ListQuery.Proofs.Filter.Items
import ListQuery.Proofs.Request.Bounds
import ListQuery.Proofs.Store.Keys
import ListQuery.Proofs.Request.Notices
import ListQuery.Proofs.Listing.Accounting
import ListQuery.Proofs.Filter.Kind
import ListQuery.Proofs.Filter.Groups
import ListQuery.Proofs.Request.Brackets
import ListQuery.Proofs.Json.Tree
import ListQuery.Proofs.Json.Scalars
import ListQuery.Proofs.Json.Embedded
import ListQuery.Proofs.Json.RoundTrip
import ListQuery.Proofs.Json.Rendering
import ListQuery.Proofs.Shape.RoundTrip
