import ListQuery.Sql.Condition

/-! Select statements as data. -/
namespace ListQuery
namespace Sql

/-- What a statement returns: a column, or all columns of a table. -/
inductive Output where
  | column (c : Column)
  | star (table : String)
deriving DecidableEq

/-- An inner join on the equality of two columns. -/
structure Join where
  table : String
  left : Column
  right : Column
deriving DecidableEq

structure Select where
  distinct : Bool := false
  outputs : List Output
  table : String
  joins : List Join := []
  condition : Option Condition := none
  order : List (Column × Direction) := []
  limit : Option UInt64 := none
  offset : Option UInt64 := none

namespace Select

/-- Narrows the rows by one more condition; the first is taken as it is. -/
def restrict (s : Select) (c : Condition) : Select :=
  { s with condition := some (match s.condition with | none => c | some root => root.narrow c) }

def orderBy (s : Select) (c : Column) (d : Direction) : Select :=
  { s with order := s.order ++ [(c, d)] }

/-- All rows that are selected, in no order. -/
def unpaged (s : Select) : Select := { s with order := [], limit := none, offset := none }

@[simp] theorem restrict_order (s : Select) (c : Condition) : (s.restrict c).order = s.order := rfl

@[simp] theorem restrict_table (s : Select) (c : Condition) : (s.restrict c).table = s.table := rfl

end Select

/-- The statements that are sent to a store. -/
inductive Query where
  | rows (s : Select)
  | count (s : Select)

end Sql
end ListQuery
