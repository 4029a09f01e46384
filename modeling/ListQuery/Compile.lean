import ListQuery.Filter.Kind
import ListQuery.Filter.Predicate
import ListQuery.Page
import ListQuery.Relation

/-! Resolved requests as statements: one counts the rows and one returns a page of them. -/
namespace ListQuery

open Sql

/-- What a statement depends on besides the request. -/
structure ListConfig where
  /-- The plural name of the resource, for logs and errors. -/
  resource : String
  relation : Option Relation
  /-- The columns of the free-text search. -/
  searchColumns : List String
  language : String
  dialect : Dialect

def ListConfig.context (cfg : ListConfig) : SearchContext := ⟨cfg.dialect, cfg.language⟩

structure Compiled where
  join : JoinKind
  counted : Select
  paged : Select
  /-- The first and the last row of the page. -/
  range : UInt64 × UInt64

namespace Compile

/-- The condition of a filter on the relation field: membership, a negation alone, and equality
otherwise. -/
def relationCondition (ctx : SearchContext) (r : Relation) (f : Filter) : Condition :=
  match f.operator, f.negation with
  | some .oneOf, _ => Operator.oneOf.conditionOf ctx r.foreignColumn f.value
  | none, some n => n.conditionOf ctx r.foreignColumn f.value
  | _, _ => Operator.eq.conditionOf ctx r.foreignColumn f.value

/-- Joins a relation. A row that matches through several rows of the join table is wanted once. -/
def joined (r : Relation) (s : Select) : Select :=
  { s with distinct := true, joins := s.joins ++ [r.join s.table] }

def withRelation (cfg : ListConfig) (b : ByKind Filter) (s : Select) : Select :=
  match cfg.relation with
  | none => s
  | some r =>
    b.relation.foldl (fun s f => s.restrict (relationCondition cfg.context r f))
      (if b.join = .inner then joined r s else s)

def withFreeText (cfg : ListConfig) (q : Option String) (s : Select) : Select :=
  match q with
  | none => s
  | some q =>
    match TextSearch.freeText? q (cfg.searchColumns.map (.of s.table ·)) with
    | some c => s.restrict c
    | none => s

def withExtras (pairs : List (String × String)) (s : Select) : Select :=
  pairs.foldl
    (fun s p => s.restrict (.only (.compare .eq (.of s.table p.1) (.string p.2)))) s

/-- Orders by each key in turn; keys without a field are passed over. -/
def sorted (keys : List SortKey) (s : Select) : Select :=
  keys.foldl
    (fun s k => if k.field = "" then s else s.orderBy (.of s.table k.field) k.direction) s

/-- Relation, base filters, lone negations, full-text filters, free text and extras, in order. -/
def counted {X : Type} [Extras X] (cfg : ListConfig) (n : Resolved X) (b : ByKind Filter)
    (base : Select) : Select :=
  let ctx := cfg.context
  let s := withRelation cfg b base
  let s := b.base.foldl (fun s f => f.restrict ctx (.of s.table f.field) s) s
  let s := b.negation.foldl (fun s f => f.restrictNegation ctx (.of s.table f.field) s) s
  let s := b.fulltext.foldl (fun s f => f.restrict ctx (.of s.table f.field) s) s
  let s := withFreeText cfg n.q s
  withExtras (Extras.pairs n.extras) s

end Compile

def ListConfig.byKind (cfg : ListConfig) (filters : List Filter) : ByKind Filter :=
  .of (cfg.relation.map (·.field)) id filters

/-- Compiles a request onto a statement that selects the rows to list. -/
def compile {X : Type} [Extras X] (cfg : ListConfig) (base : Select) (n : Resolved X) : Compiled :=
  let b := cfg.byKind n.filters
  let counted := Compile.counted cfg n b base
  let range := Page.range n.page n.limit
  { join := b.join
    counted := counted
    paged := { Compile.sorted n.sort counted with limit := some n.limit, offset := some range.1 }
    range := range }

end ListQuery
