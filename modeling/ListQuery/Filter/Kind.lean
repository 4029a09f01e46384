import ListQuery.Request.Basic

/-! Filters by the way they take effect, each kind in the order of the request. -/
namespace ListQuery

inductive FilterKind where
  /-- On the relation field. -/
  | relation
  /-- With a full-text operator. -/
  | fulltext
  /-- With a negation and no operator. -/
  | negation
  /-- All others. -/
  | base
deriving DecidableEq

def Filter.kind (relationField : Option String) (f : Filter) : FilterKind :=
  if relationField = some f.field then .relation
  else if f.operator.any Operator.isFulltext then .fulltext
  else if f.operator.isNone && f.negation.isSome then .negation
  else .base

/-- Items by the kinds of their filters. -/
structure ByKind (α : Type) where
  relation : List α
  fulltext : List α
  negation : List α
  base : List α

namespace ByKind

/-- Distributes items by the filter that each carries. -/
def of {α : Type} (relationField : Option String) (filter : α → Filter) (items : List α) :
    ByKind α :=
  let pick (k : FilterKind) := items.filter fun a => (filter a).kind relationField == k
  ⟨pick .relation, pick .fulltext, pick .negation, pick .base⟩

def size {α : Type} (b : ByKind α) : Nat :=
  b.relation.length + b.fulltext.length + b.negation.length + b.base.length

end ByKind

/-- How a relation takes part in the statement: joined, so that its filters narrow the rows, or left
to a later lookup. -/
inductive JoinKind where
  | inner
  | left
deriving DecidableEq

def ByKind.join {α : Type} (b : ByKind α) : JoinKind :=
  if b.relation.isEmpty then .left else .inner

end ListQuery
