import ListQuery.Filter.WebQuery
import ListQuery.Sql.Statement
import ListQuery.Text.Upper
import ListQuery.Text.Utf8

/-! Text search: patterns that ignore case, full-text predicates with their substitute where the
database has none, and the free-text search over several columns. -/
namespace ListQuery

/-- What predicates depend on besides a column and an operand. -/
structure SearchContext where
  dialect : Sql.Dialect
  /-- The text-search configuration. -/
  language : String

namespace TextSearch

open Sql

/-- The upper-case column holds the upper-case text. Wildcards in the text keep their meaning. -/
def like (column : Column) (text : String) : Predicate :=
  .like column ("%" ++ Text.upper text ++ "%")

/-- Bytes of a query that are looked at. -/
def maxBytes : Nat := 10000

/-- The part of a query that is looked at, without blanks around it. A query past the limit is cut
at the last boundary within the limit. -/
def truncated? (query : List Char) : Option (List Char) :=
  let bytes := Utf8.encode query
  if bytes.length ≤ maxBytes then some (Text.trimmed query)
  else
    (Utf8.boundary? bytes maxBytes).bind fun stop => (Utf8.front? bytes stop).map Text.trimmed

theorem isSome_truncated? (query : List Char) : (truncated? query).isSome = true := by
  simp only [truncated?]
  split
  · rfl
  · have found := Utf8.isSome_boundary? (Utf8.encode query) maxBytes
    obtain ⟨stop, hstop⟩ := Option.isSome_iff_exists.1 found
    rw [hstop, Option.bind_some, Option.isSome_map]
    exact Utf8.isSome_front?_of_boundary? hstop

/-- Every query has such a part. -/
def truncated (query : List Char) : List Char := (truncated? query).get (isSome_truncated? query)

/-- One alternative: all its terms, the negated ones absent. -/
def groupCondition (column : Column) (group : List WebQuery.Term) : Condition :=
  group.foldl
    (fun all t =>
      let c := Condition.test (like column (String.ofList t.text))
      all.add (if t.negated then (Condition.all.add c).negate else c))
    Condition.all

/-- Full-text search by patterns. -/
def byPatterns (mode : TextSearch) (column : Column) (query : List Char) : Condition :=
  match mode with
  | .phrase => .only (like column (String.ofList query))
  | .plain =>
    (Text.wordsOf query).foldl
      (fun all w => all.add (.test (like column (String.ofList w)))) Condition.all
  | .web =>
    match WebQuery.groups query with
    | [] => Condition.all
    | groups => groups.foldl (fun any g => any.add (groupCondition column g)) Condition.any

/-- Full-text search on one column: native where the database has it, by patterns elsewhere. -/
def fulltext (ctx : SearchContext) (mode : TextSearch) (column : Column) (query : String) :
    Condition :=
  let query := truncated query.toList
  match ctx.dialect with
  | .postgres => .only (.fulltext mode column ctx.language (String.ofList query))
  | _ => byPatterns mode column query

/-- Free text in any of the columns; no condition for blank text or without columns. -/
def freeText? (query : String) (columns : List Column) : Option Condition :=
  let query := truncated query.toList
  if query.isEmpty || columns.isEmpty then none
  else
    some (columns.foldl (fun any c => any.add (.test (like c (String.ofList query)))) Condition.any)

end TextSearch
end ListQuery
