import ListQuery.Listing.Catalog
import ListQuery.Proofs.Compile.Conditions
import ListQuery.Proofs.Sql.Lexical
import Mathlib.Data.List.Basic

/-! One request in several dialects. Full-text search is native in one of them and is done by
patterns in the others; everything else compiles to the same statements, whose texts differ in the
quotes around names and in how placeholders are written, and in nothing else. -/
namespace ListQuery

open Sql

namespace Sql

/-- The statements of two queries in two dialects bind the same values, and their texts are read as
the same names, placeholders and characters. -/
structure Query.SameIn (d d' : Dialect) (q q' : Query) : Prop where
  values : (q.statement d).values = (q'.statement d').values
  text : d.lex 0 (q.statement d).text.toList = d'.lex 0 (q'.statement d').text.toList

theorem Query.sameIn_self (d d' : Dialect) (q : Query) : q.SameIn d d' q where
  values := rfl
  text := by rw [(lex_statement d q).1, (lex_statement d' q).1]

end Sql

variable {d d' : Dialect}

theorem TextSearch.fulltext_dialect (h : d ≠ .postgres ∧ d' ≠ .postgres) (language : String)
    (mode : TextSearch) (column : Column) (query : String) :
    fulltext ⟨d, language⟩ mode column query = fulltext ⟨d', language⟩ mode column query := by
  cases d <;> cases d' <;> simp_all [fulltext]

/-- Only the full-text operators depend on the dialect. -/
theorem Operator.conditionOf_dialect {o : Operator}
    (h : o.isFulltext = false ∨ (d ≠ .postgres ∧ d' ≠ .postgres)) (language : String)
    (column : Column) (text : String) :
    o.conditionOf ⟨d, language⟩ column text = o.conditionOf ⟨d', language⟩ column text := by
  cases o with
  | web | plain | phrase =>
    exact TextSearch.fulltext_dialect (h.resolve_left (by decide)) language _ column _
  | _ => rfl

theorem Negation.conditionOf_dialect (n : Negation) (language : String) (column : Column)
    (text : String) :
    n.conditionOf ⟨d, language⟩ column text = n.conditionOf ⟨d', language⟩ column text := by
  cases n <;> rfl

theorem Filter.negationConditions_dialect (f : Filter) (language : String) (column : Column) :
    f.negationConditions ⟨d, language⟩ column = f.negationConditions ⟨d', language⟩ column := by
  unfold negationConditions
  cases f.negation with
  | none => rfl
  | some n => exact congrArg (fun c => [c]) (n.conditionOf_dialect language column f.value)

theorem Filter.conditions_dialect {f : Filter}
    (h : (f.operator.getD .eq).isFulltext = false ∨ (d ≠ .postgres ∧ d' ≠ .postgres))
    (language : String) (column : Column) :
    f.conditions ⟨d, language⟩ column = f.conditions ⟨d', language⟩ column :=
  congrArg₂ List.cons (Operator.conditionOf_dialect h language column f.value)
    (f.negationConditions_dialect language column)

/-- On the relation field a full-text operator is a comparison, so no dialect is special. -/
theorem Compile.relationCondition_dialect (language : String) (r : Relation) (f : Filter) :
    relationCondition ⟨d, language⟩ r f = relationCondition ⟨d', language⟩ r f := by
  unfold relationCondition
  split
  · exact Operator.conditionOf_dialect (.inl rfl) ..
  · exact Negation.conditionOf_dialect ..
  · exact Operator.conditionOf_dialect (.inl rfl) ..

namespace ListConfig

variable {X : Type} [Extras X] (cfg : ListConfig)

def inDialect (d : Dialect) : ListConfig := { cfg with dialect := d }

/-- A filter off the relation field has a full-text operator. -/
def SearchesText (fs : List Filter) : Prop :=
  ∃ f ∈ fs, (∀ r ∈ cfg.relation, f.field ≠ r.field) ∧ ∃ o ∈ f.operator, o.isFulltext = true

variable {cfg : ListConfig} {table : String} {n : Resolved X}

theorem isFulltext_of_not_searchesText {fs : List Filter} {f : Filter} {k : FilterKind}
    (h : ¬ cfg.SearchesText fs) (hk : k ≠ .relation)
    (hf : f ∈ fs.filter fun f => f.kind (cfg.relation.map (·.field)) == k) :
    (f.operator.getD .eq).isFulltext = false := by
  have kind := ByKind.kind_of_mem hf
  cases ho : f.operator with
  | none => rfl
  | some o =>
    rw [Option.getD_some, Bool.eq_false_iff]
    intro fulltext
    refine h ⟨f, (List.mem_filter.1 hf).1, ?_, o, ho, fulltext⟩
    intro r hr field
    rw [← kind] at hk
    exact hk (Filter.kind_eq_relation_iff.2 (by rw [Option.mem_def.1 hr, field]; rfl))

/-- What a request asks is the same in two dialects, unless it searches text and one of them does so
by itself. -/
theorem conditions_dialect
    (h : ¬ cfg.SearchesText n.filters ∨ (d ≠ .postgres ∧ d' ≠ .postgres)) :
    (cfg.inDialect d).conditions table n = (cfg.inDialect d').conditions table n := by
  have plain {k : FilterKind} (hk : k ≠ .relation) : ∀ f ∈ n.filters.filter fun f =>
      f.kind (cfg.relation.map (·.field)) == k,
      (f.operator.getD .eq).isFulltext = false ∨ (d ≠ .postgres ∧ d' ≠ .postgres) := by
    intro f hf
    exact h.imp_left fun none => isFulltext_of_not_searchesText none hk hf
  have relation : (cfg.inDialect d).relationConditions n.filters =
      (cfg.inDialect d').relationConditions n.filters := by
    apply List.flatMap_congr
    intro r _
    apply List.map_congr_left
    intro f _
    exact Compile.relationCondition_dialect cfg.language r f
  have own : (cfg.inDialect d).ownConditions table n.filters =
      (cfg.inDialect d').ownConditions table n.filters := by
    have base := List.flatMap_congr fun f hf =>
      Filter.conditions_dialect (plain (k := .base) (by decide) f hf) cfg.language
        (.of table f.field)
    have negation : (cfg.byKind n.filters).negation.flatMap
          (fun f => f.negationConditions ⟨d, cfg.language⟩ (.of table f.field)) =
        (cfg.byKind n.filters).negation.flatMap
          fun f => f.negationConditions ⟨d', cfg.language⟩ (.of table f.field) :=
      List.flatMap_congr fun f _ => f.negationConditions_dialect cfg.language (.of table f.field)
    have fulltext := List.flatMap_congr fun f hf =>
      Filter.conditions_dialect (plain (k := .fulltext) (by decide) f hf) cfg.language
        (.of table f.field)
    exact congrArg₂ (· ++ ·) (congrArg₂ (· ++ ·) base negation) fulltext
  rw [conditions, conditions, relation, own]
  rfl

end ListConfig

variable {X : Type} [Extras X]

/-- Of what is compiled only the conditions depend on the dialect. -/
theorem compile_eq_of_conditions (cfg : ListConfig) (base : Select) {n : Resolved X}
    (h : (cfg.inDialect d).conditions base.table n = (cfg.inDialect d').conditions base.table n) :
    compile (cfg.inDialect d) base n = compile (cfg.inDialect d') base n := by
  have counted : Compile.counted (cfg.inDialect d) n ((cfg.inDialect d).byKind n.filters) base =
      Compile.counted (cfg.inDialect d') n ((cfg.inDialect d').byKind n.filters) base := by
    rw [Compile.counted_eq_restrictAll, Compile.counted_eq_restrictAll, h]
    rfl
  simp only [compile, counted]
  rfl

/-- In every dialect a request compiles to the same join, range and statements, and their texts
differ only in how names are quoted and placeholders are written; unless a filter off the relation
field searches text, where this holds of the dialects that do not do so by themselves. -/
theorem compile_dialect (cfg : ListConfig) (base : Select) (n : Resolved X) {d d' : Dialect}
    (h : ¬ cfg.SearchesText n.filters ∨ (d ≠ .postgres ∧ d' ≠ .postgres)) :
    let c := compile (cfg.inDialect d) base n
    let c' := compile (cfg.inDialect d') base n
    c = c' ∧ (Query.count c.counted).SameIn d d' (.count c'.counted) ∧
      (Query.rows c.counted).SameIn d d' (.rows c'.counted) ∧
        (Query.rows c.paged).SameIn d d' (.rows c'.paged) := by
  intro c c'
  have same : c = c' := compile_eq_of_conditions cfg base (ListConfig.conditions_dialect h)
  rw [same]
  exact ⟨rfl, Query.sameIn_self .., Query.sameIn_self .., Query.sameIn_self ..⟩

/-- A request with a full-text operator on the relation field only. -/
def comparedTags : Resolved NoExtras where
  page := 3
  limit := 5
  q := some "x?$1"
  sort := [⟨"sm\"all", .desc⟩]
  filters :=
    [⟨"tags", "t1", some .web, some .like⟩, ⟨"tiny", "1,2,", some .oneOf, some .gt⟩,
      ⟨"code", "null", some .is, none⟩, ⟨"uid", "[1]", none, some .ilike⟩]
  extras := {}
  passthrough := []

theorem comparedTags_dialect :
    let cfg := Catalog.things.config .mysql
    let searched := { comparedTags with filters := [⟨"code", "a -b", some .web, some .eq⟩] }
    (¬ cfg.SearchesText comparedTags.filters ∧ cfg.SearchesText searched.filters) ∧
      compile (cfg.inDialect .sqlite) Catalog.things.base comparedTags =
        compile (cfg.inDialect .postgres) Catalog.things.base comparedTags ∧
      compile (cfg.inDialect .sqlite) Catalog.things.base searched =
        compile (cfg.inDialect .mysql) Catalog.things.base searched := by
  intro cfg searched
  have relation {r : Relation} (hr : r ∈ cfg.relation) : r.field = "tags" := by
    rw [← Option.some.inj hr]
  have compared : ¬ cfg.SearchesText comparedTags.filters := by
    have plain : ∀ f ∈ comparedTags.filters, f.field = "tags" ∨
        ∀ o ∈ f.operator, o.isFulltext = false := by decide
    rintro ⟨f, hf, off, o, ho, fulltext⟩
    rcases plain f hf with field | comparison
    · exact off _ rfl field
    · rw [comparison o ho] at fulltext
      exact Bool.false_ne_true fulltext
  have searches : cfg.SearchesText searched.filters := by
    refine ⟨_, List.mem_singleton.2 rfl, ?_, .web, rfl, rfl⟩
    intro r hr
    rw [relation hr]
    decide
  refine ⟨⟨compared, searches⟩, ?_, ?_⟩
  · exact (compile_dialect cfg Catalog.things.base comparedTags (.inl compared)).1
  · exact (compile_dialect cfg Catalog.things.base searched (.inr (by decide))).1

end ListQuery
