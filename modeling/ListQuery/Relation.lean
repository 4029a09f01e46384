import ListQuery.Sql.Select

/-! Relations to many rows of another table, through a join table. -/
namespace ListQuery

open Sql

structure Relation where
  /-- The name in filters and in the output. -/
  field : String
  joinTable : String
  /-- The column of the join table that points at the listed rows. -/
  localKey : String
  /-- The column of the join table that holds the related key. -/
  foreignKey : String
  /-- The column of the listed rows that `localKey` refers to. -/
  primaryKey : String := "id"
  /-- The table whose rows are embedded, if any; the related keys are listed without one. -/
  relatedTable : Option String := none
  /-- The column of the related table that `foreignKey` refers to. -/
  relatedKey : String := "id"
deriving DecidableEq

namespace Relation

def localColumn (r : Relation) : Column := .of r.joinTable r.localKey

def foreignColumn (r : Relation) : Column := .of r.joinTable r.foreignKey

def join (r : Relation) (table : String) : Join :=
  ⟨r.joinTable, .of table r.primaryKey, r.localColumn⟩

/-- The related collections of the rows with the given keys, ordered by key and related key. -/
def lookup (r : Relation) (keys : List Value) : Select where
  outputs :=
    [.column r.localColumn,
      match r.relatedTable with
      | some table => .star table
      | none => .column r.foreignColumn]
  table := r.joinTable
  joins :=
    match r.relatedTable with
    | some table => [⟨table, .of table r.relatedKey, r.foreignColumn⟩]
    | none => []
  condition := some (.only (.oneOf r.localColumn keys))
  order := [(r.localColumn, .asc), (r.foreignColumn, .asc)]

end Relation
end ListQuery
