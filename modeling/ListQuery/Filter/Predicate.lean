import ListQuery.Filter.Operand
import ListQuery.Filter.TextSearch
import ListQuery.Request.Basic

/-! Filters as conditions on a column. -/
namespace ListQuery

open Sql

namespace Operator

/-- The condition that a column stands in the operator's relation to an operand. -/
def condition (o : Operator) (ctx : SearchContext) (column : Column) (operand : Operand) :
    Condition :=
  match o with
  | .eq => .only (.compare .eq column operand.toValue)
  | .ne => .only (.compare .ne column operand.toValue)
  | .lt => .only (.compare .lt column operand.toValue)
  | .le => .only (.compare .le column operand.toValue)
  | .gt => .only (.compare .gt column operand.toValue)
  | .ge => .only (.compare .ge column operand.toValue)
  | .like | .ilike => .only (TextSearch.like column operand.asText)
  | .oneOf => .only (.oneOf column operand.toValues)
  | .is =>
    match operand with
    | .null => .only (.isNull column)
    | o => .only (.is column o.toValue)
  | .web => TextSearch.fulltext ctx .web column operand.asText
  | .plain => TextSearch.fulltext ctx .plain column operand.asText
  | .phrase => TextSearch.fulltext ctx .phrase column operand.asText

/-- The condition on a column for the text of a filter. -/
def conditionOf (o : Operator) (ctx : SearchContext) (column : Column) (text : String) :
    Condition :=
  o.condition ctx column (Operand.coerce text o)

end Operator

namespace Negation

def condition (n : Negation) (ctx : SearchContext) (column : Column) (operand : Operand) :
    Condition :=
  (n.operator.condition ctx column operand).negate

def conditionOf (n : Negation) (ctx : SearchContext) (column : Column) (text : String) :
    Condition :=
  n.condition ctx column (Operand.coerce text n.operator)

end Negation

namespace Filter

/-- Narrows by the negation of a filter alone. -/
def restrictNegation (f : Filter) (ctx : SearchContext) (column : Column) (s : Select) : Select :=
  match f.negation with
  | some n => s.restrict (n.conditionOf ctx column f.value)
  | none => s

/-- Narrows by the operator of a filter, which is equality unless it is set, and then by its
negation. -/
def restrict (f : Filter) (ctx : SearchContext) (column : Column) (s : Select) : Select :=
  let o := f.operator.getD .eq
  f.restrictNegation ctx column (s.restrict (o.conditionOf ctx column f.value))

end Filter
end ListQuery
