import ListQuery.Request.Operator
import ListQuery.Sql.Value

/-! Conditions of statements: predicates on one column under `and`, `or` and `not`. -/
namespace ListQuery
namespace Sql

/-- A column, qualified by its table or bare. -/
structure Column where
  table : Option String
  name : String
deriving DecidableEq

def Column.of (table name : String) : Column := ⟨some table, name⟩

inductive Comparison where
  | eq
  | ne
  | lt
  | le
  | gt
  | ge
deriving DecidableEq

/-- The function that turns text into a full-text query. -/
inductive TextSearch where
  | web
  | plain
  | phrase
deriving DecidableEq

inductive Predicate where
  | compare (op : Comparison) (column : Column) (value : Value)
  /-- The upper-case column matches a pattern. -/
  | like (column : Column) (pattern : String)
  | oneOf (column : Column) (values : List Value)
  | isNull (column : Column)
  | is (column : Column) (value : Value)
  /-- The column matches a full-text query in a language. -/
  | fulltext (mode : TextSearch) (column : Column) (language query : String)

inductive Junction where
  | all
  | any
deriving DecidableEq

/-- A predicate, or a group of conditions that is possibly negated. -/
inductive Condition where
  | test (p : Predicate)
  | group (negated : Bool) (junction : Junction) (members : List Condition)

namespace Condition

/-- The empty conjunction, which is true. -/
def all : Condition := .group false .all []

/-- The empty disjunction, which is false. -/
def any : Condition := .group false .any []

/-- A group of one that is not negated is its member. -/
def unwrapped : Condition → Condition
  | .group false _ [c] => c
  | c => c

def add : Condition → Condition → Condition
  | .group n j members, c => .group n j (members ++ [c.unwrapped])
  | .test p, c => .group false .all [.test p, c.unwrapped]

def negate : Condition → Condition
  | .group n j members => .group (!n) j members
  | .test p => .group true .all [.test p]

def only (p : Predicate) : Condition := .group false .all [.test p]

/-- Narrows a condition by another: plain conjunctions are merged member by member, everything else
joins them as one member. -/
def narrow (root c : Condition) : Condition :=
  match root, c with
  | .group false .all members, .group false .all more => .group false .all (members ++ more)
  | .group false .all _, c => root.add c
  | _, c => (all.add root).add c

@[simp] theorem add_group (n : Bool) (j : Junction) (members : List Condition) (c : Condition) :
    add (.group n j members) c = .group n j (members ++ [c.unwrapped]) := rfl

@[simp] theorem negate_group (n : Bool) (j : Junction) (members : List Condition) :
    negate (.group n j members) = .group (!n) j members := rfl

end Condition
end Sql
end ListQuery
