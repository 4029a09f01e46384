import ListQuery.Proofs.Compile.Conditions
import ListQuery.Proofs.Compile.Paging

/-! The columns that a compiled request refers to. All that it adds to a statement is about columns
of the listed table, or about the related key in a statement that has the join; and the join is
there exactly if a filter names the relation field. -/
namespace ListQuery

open Sql

namespace Sql

theorem columnsOf_eq (cs : List Condition) : columnsOf cs = cs.flatMap Condition.columns := by
  induction cs with
  | nil => rfl
  | cons c cs ih => rw [columnsOf, ih, List.flatMap_cons]

namespace Condition

@[simp] theorem columns_test (p : Predicate) : (test p).columns = [p.column] := by
  rw [columns]

@[simp] theorem columns_group (negated : Bool) (j : Junction) (members : List Condition) :
    (group negated j members).columns = members.flatMap columns := by
  rw [columns, columnsOf_eq]

@[simp] theorem columns_only (p : Predicate) : (only p).columns = [p.column] := by
  simp [only]

@[simp] theorem columns_all : all.columns = [] := by simp [all]

@[simp] theorem columns_any : any.columns = [] := by simp [any]

@[simp] theorem columns_unwrapped (c : Condition) : c.unwrapped.columns = c.columns := by
  unfold unwrapped
  split
  · simp
  · rfl

@[simp] theorem columns_add (root c : Condition) :
    (root.add c).columns = root.columns ++ c.columns := by
  cases root with
  | test p => simp [add]
  | group negated j members => simp

@[simp] theorem columns_negate (c : Condition) : c.negate.columns = c.columns := by
  cases c <;> simp [negate]

/-- Narrowing keeps the columns of both conditions, in order. -/
@[simp] theorem columns_narrow (root c : Condition) :
    (root.narrow c).columns = root.columns ++ c.columns := by
  unfold narrow
  split <;> simp

/-- A condition on one column. -/
def IsOn (c : Condition) (column : Column) : Prop := ∀ c' ∈ c.columns, c' = column

theorem columns_foldl_add {α : Type} (c : α → Condition) (as : List α) (root : Condition) :
    (as.foldl (fun g a => g.add (c a)) root).columns =
      root.columns ++ as.flatMap fun a => (c a).columns := by
  induction as generalizing root with
  | nil => simp
  | cons a as ih => simp [ih]

theorem isOn_foldl_add {α : Type} {c : α → Condition} {as : List α} {root : Condition}
    {column : Column} (hroot : root.IsOn column) (h : ∀ a ∈ as, (c a).IsOn column) :
    (as.foldl (fun g a => g.add (c a)) root).IsOn column := by
  intro c' hc'
  rw [columns_foldl_add, List.mem_append, List.mem_flatMap] at hc'
  rcases hc' with hc' | ⟨a, ha, hc'⟩
  · exact hroot c' hc'
  · exact h a ha c' hc'

end Condition

namespace Select

/-- The columns of the condition of a statement. -/
def whereColumns (s : Select) : List Column := (s.condition.map Condition.columns).getD []

@[simp] theorem whereColumns_restrict (s : Select) (c : Condition) :
    (s.restrict c).whereColumns = s.whereColumns ++ c.columns := by
  unfold whereColumns restrict
  cases s.condition <;> simp

theorem whereColumns_restrictAll (s : Select) (cs : List Condition) :
    (s.restrictAll cs).whereColumns = s.whereColumns ++ cs.flatMap Condition.columns := by
  induction cs generalizing s with
  | nil => simp
  | cons c cs ih => simp [ih]

end Select
end Sql

namespace TextSearch

theorem isOn_like (column : Column) (text : List Char) :
    (Condition.test (like column (String.ofList text))).IsOn column := by
  simp [Condition.IsOn, like, Predicate.column]

theorem isOn_groupCondition (column : Column) (g : List WebQuery.Term) :
    (groupCondition column g).IsOn column := by
  apply Condition.isOn_foldl_add (by simp [Condition.IsOn])
  intro t _
  have term := isOn_like column t.text
  cases t.negated with
  | false => exact term
  | true => simpa [Condition.IsOn] using term

theorem isOn_byPatterns (mode : TextSearch) (column : Column) (query : List Char) :
    (byPatterns mode column query).IsOn column := by
  cases mode with
  | phrase => simp [byPatterns, Condition.IsOn, like, Predicate.column]
  | plain =>
    apply Condition.isOn_foldl_add (by simp [Condition.IsOn])
    intro w _
    exact isOn_like column w
  | web =>
    simp only [byPatterns]
    split
    · simp [Condition.IsOn]
    · apply Condition.isOn_foldl_add (by simp [Condition.IsOn])
      intro g _
      exact isOn_groupCondition column g

theorem isOn_fulltext (ctx : SearchContext) (mode : TextSearch) (column : Column)
    (query : String) : (fulltext ctx mode column query).IsOn column := by
  unfold fulltext
  cases ctx.dialect with
  | postgres => simp [Condition.IsOn, Predicate.column]
  | sqlite | mysql => exact isOn_byPatterns mode column _

/-- Free text is about the columns it is looked for in. -/
theorem mem_of_freeText {query : String} {columns : List Column} {c : Condition}
    (h : freeText? query columns = some c) : ∀ column ∈ c.columns, column ∈ columns := by
  unfold freeText? at h
  simp only [Option.ite_none_left_eq_some, Option.some.injEq] at h
  rw [← h.2]
  simp [Condition.columns_foldl_add, like, Predicate.column]

end TextSearch

theorem Operator.isOn_conditionOf (o : Operator) (ctx : SearchContext) (column : Column)
    (text : String) : (o.conditionOf ctx column text).IsOn column := by
  unfold conditionOf condition
  cases o with
  | is =>
    simp only
    split <;> simp [Condition.IsOn, Predicate.column]
  | web | plain | phrase => exact TextSearch.isOn_fulltext ctx _ column _
  | _ => simp [Condition.IsOn, TextSearch.like, Predicate.column]

theorem Negation.isOn_conditionOf (n : Negation) (ctx : SearchContext) (column : Column)
    (text : String) : (n.conditionOf ctx column text).IsOn column := by
  have positive := n.operator.isOn_conditionOf ctx column text
  unfold Condition.IsOn at positive ⊢
  rw [conditionOf, condition, Condition.columns_negate]
  exact positive

namespace Filter

variable {f : Filter} {ctx : SearchContext} {column : Column}

theorem isOn_negationConditions :
    ∀ c ∈ f.negationConditions ctx column, c.IsOn column := by
  unfold negationConditions
  cases f.negation with
  | none => simp
  | some n => simpa using n.isOn_conditionOf ctx column f.value

theorem isOn_conditions : ∀ c ∈ f.conditions ctx column, c.IsOn column := by
  intro c hc
  rcases List.mem_cons.1 hc with rfl | hc
  · exact (f.operator.getD .eq).isOn_conditionOf ctx column f.value
  · exact isOn_negationConditions c hc

end Filter

theorem Compile.isOn_relationCondition (ctx : SearchContext) (r : Relation) (f : Filter) :
    (relationCondition ctx r f).IsOn r.foreignColumn := by
  unfold relationCondition
  split
  · exact Operator.oneOf.isOn_conditionOf ctx r.foreignColumn f.value
  next n _ _ => exact n.isOn_conditionOf ctx r.foreignColumn f.value
  · exact Operator.eq.isOn_conditionOf ctx r.foreignColumn f.value

namespace ListConfig

variable {X : Type} [Extras X] {cfg : ListConfig} {table : String} {fs : List Filter}

/-- The relation is configured, and a filter names its field. -/
def Names (cfg : ListConfig) (fs : List Filter) (r : Relation) : Prop :=
  cfg.relation = some r ∧ ∃ f ∈ fs, f.field = r.field

theorem column_of_relationConditions :
    ∀ c ∈ cfg.relationConditions fs, ∀ column ∈ c.columns,
      ∃ r, cfg.Names fs r ∧ column = r.foreignColumn := by
  intro c hc column hcolumn
  simp only [relationConditions, List.mem_flatMap, Option.mem_toList, List.mem_map] at hc
  obtain ⟨r, hr, f, hf, rfl⟩ := hc
  have kind := ByKind.kind_of_mem hf
  have field : r.field = f.field := by
    simpa [Option.mem_def.1 hr, Filter.kind_eq_relation_iff] using kind
  refine ⟨r, ⟨hr, f, (List.mem_filter.1 hf).1, field.symm⟩, ?_⟩
  exact Compile.isOn_relationCondition cfg.context r f column hcolumn

theorem table_of_ownConditions :
    ∀ c ∈ cfg.ownConditions table fs, ∀ column ∈ c.columns, column.table = some table := by
  intro c hc column hcolumn
  have on (f : Filter) (h : c.IsOn (.of table f.field)) : column.table = some table := by
    rw [h column hcolumn]
    rfl
  simp only [ownConditions, List.mem_append, List.mem_flatMap] at hc
  rcases hc with (⟨f, -, hc⟩ | ⟨f, -, hc⟩) | ⟨f, -, hc⟩
  · exact on f (Filter.isOn_conditions c hc)
  · exact on f (Filter.isOn_negationConditions c hc)
  · exact on f (Filter.isOn_conditions c hc)

theorem table_of_freeTextConditions {q : Option String} :
    ∀ c ∈ cfg.freeTextConditions table q, ∀ column ∈ c.columns, column.table = some table := by
  intro c hc column hcolumn
  simp only [freeTextConditions, Option.mem_toList, Option.bind_eq_some_iff] at hc
  obtain ⟨q, -, hc⟩ := hc
  obtain ⟨name, -, rfl⟩ := List.mem_map.1 (TextSearch.mem_of_freeText hc column hcolumn)
  rfl

theorem table_of_extrasConditions {pairs : List (String × String)} :
    ∀ c ∈ extrasConditions table pairs, ∀ column ∈ c.columns, column.table = some table := by
  intro c hc column hcolumn
  obtain ⟨p, -, rfl⟩ := List.mem_map.1 hc
  rw [Condition.columns_only, List.mem_singleton] at hcolumn
  rw [hcolumn]
  rfl

/-- Everything asked is about the listed table, or about the related key once a filter names the
relation field. -/
theorem column_of_conditions (n : Resolved X) :
    ∀ c ∈ cfg.conditions table n, ∀ column ∈ c.columns,
      column.table = some table ∨ ∃ r, cfg.Names n.filters r ∧ column = r.foreignColumn := by
  intro c hc column hcolumn
  simp only [conditions, List.mem_append] at hc
  rcases hc with ((hc | hc) | hc) | hc
  · exact .inr (column_of_relationConditions c hc column hcolumn)
  · exact .inl (table_of_ownConditions c hc column hcolumn)
  · exact .inl (table_of_freeTextConditions c hc column hcolumn)
  · exact .inl (table_of_extrasConditions c hc column hcolumn)

end ListConfig

/-- A statement that a request was compiled to: the join of the relation is there, once, and the
statement is `DISTINCT`, exactly if a filter names the relation field; and every column added to the
base statement is one of the listed table or the related key of the join. -/
structure Scoped (cfg : ListConfig) (base : Select) (fs : List Filter) (s : Select) : Prop where
  joined : ∀ r, cfg.Names fs r →
    s.joins = [⟨r.joinTable, .of base.table r.primaryKey, .of r.joinTable r.localKey⟩] ∧
      s.distinct = true
  plain : (¬ ∃ r, cfg.Names fs r) → s.joins = [] ∧ s.distinct = false
  condition : ∃ added, s.whereColumns = base.whereColumns ++ added ∧
    ∀ column ∈ added, column.table = some base.table ∨
      ∃ r, cfg.Names fs r ∧ column = .of r.joinTable r.foreignKey
  order : ∃ added, s.order = base.order ++ added ∧ ∀ k ∈ added, k.1.table = some base.table

section Compiled

variable {X : Type} [Extras X] {cfg : ListConfig} {base : Select}

theorem counted_scoped (n : Resolved X) (joins : base.joins = []) (distinct : base.distinct = false) :
    Scoped cfg base n.filters (compile cfg base n).counted := by
  have counted : (compile cfg base n).counted =
      (Compile.withJoin cfg (cfg.byKind n.filters) base).restrictAll
        (cfg.conditions base.table n) := Compile.counted_eq_restrictAll cfg n base
  constructor
  · rintro r ⟨hr, named⟩
    rw [counted, Select.restrictAll_frame, Compile.withJoin_of_filter hr named]
    simp [Compile.joined, joins, Relation.join, Relation.localColumn]
  · intro unnamed
    rw [counted, Select.restrictAll_frame, Compile.withJoin_of_no_filter]
    · exact ⟨joins, distinct⟩
    · intro r hr f hf field
      exact unnamed ⟨r, hr, f, hf, field⟩
  · refine ⟨(cfg.conditions base.table n).flatMap Condition.columns, ?_, ?_⟩
    · rw [counted, Select.whereColumns_restrictAll, Compile.withJoin_frame]
      rfl
    · intro column hcolumn
      obtain ⟨c, hc, hcolumn⟩ := List.mem_flatMap.1 hcolumn
      exact ListConfig.column_of_conditions n c hc column hcolumn
  · refine ⟨[], ?_, by simp⟩
    rw [counted, Select.restrictAll_frame, Compile.withJoin_frame, List.append_nil]

theorem paged_scoped (n : Resolved X) (joins : base.joins = []) (distinct : base.distinct = false) :
    Scoped cfg base n.filters (compile cfg base n).paged := by
  have counted : Scoped cfg base n.filters (compile cfg base n).counted :=
    counted_scoped n joins distinct
  rw [paged_eq_page]
  refine ⟨counted.joined, counted.plain, counted.condition, n.orderOn base.table, rfl, ?_⟩
  intro k hk
  obtain ⟨key, -, rfl⟩ := List.mem_map.1 hk
  rfl

theorem byKind_of_no_filter {fs : List Filter}
    (h : ∀ r ∈ cfg.relation, ∀ f ∈ fs, f.field ≠ r.field) :
    cfg.byKind fs = ListConfig.byKind { cfg with relation := none } fs := by
  have kind (k : FilterKind) : fs.filter (fun f => f.kind (cfg.relation.map (·.field)) == k) =
      fs.filter (fun f => f.kind none == k) := by
    apply List.filter_congr
    intro f hf
    have other : cfg.relation.map (·.field) ≠ some f.field := by
      intro named
      obtain ⟨r, hr, field⟩ := Option.map_eq_some_iff.1 named
      exact h r hr f hf field.symm
    simp [Filter.kind, other]
  simp only [ListConfig.byKind, ByKind.of, id_eq, kind, Option.map_none]

theorem conditions_of_no_filter {n : Resolved X}
    (h : ∀ r ∈ cfg.relation, ∀ f ∈ n.filters, f.field ≠ r.field) :
    cfg.conditions base.table n =
      ListConfig.conditions { cfg with relation := none } base.table n := by
  have kinds := byKind_of_no_filter h
  have none_related : (cfg.byKind n.filters).relation = [] := by
    rw [kinds]
    simp [ListConfig.byKind, ByKind.of, Filter.kind_eq_relation_iff]
  have unrelated : cfg.relationConditions n.filters = [] := by
    simp [ListConfig.relationConditions, none_related]
  have own : cfg.ownConditions base.table n.filters =
      ListConfig.ownConditions { cfg with relation := none } base.table n.filters := by
    simp only [ListConfig.ownConditions, kinds, ListConfig.context]
  simp only [ListConfig.conditions, unrelated, own]
  rfl

/-- Without a filter on its field a relation might as well not be configured. -/
theorem compile_of_no_filter {n : Resolved X}
    (h : ∀ r ∈ cfg.relation, ∀ f ∈ n.filters, f.field ≠ r.field) :
    compile cfg base n = compile { cfg with relation := none } base n := by
  have counted : Compile.counted cfg n (cfg.byKind n.filters) base =
      Compile.counted { cfg with relation := none } n
        (ListConfig.byKind { cfg with relation := none } n.filters) base := by
    rw [Compile.counted_eq_restrictAll, Compile.counted_eq_restrictAll,
      Compile.withJoin_of_no_filter h, conditions_of_no_filter h]
    rfl
  simp only [compile, counted]
  rw [byKind_of_no_filter h]

/-- A request joins the relation, once and with `DISTINCT`, exactly if a filter names its field; it
adds no column but those of the listed table and the related key of a join; and a relation that no
filter names leaves the statements as they are without it. -/
theorem compile_scoped (cfg : ListConfig) (base : Select) (n : Resolved X)
    (joins : base.joins = []) (distinct : base.distinct = false) :
    let c := compile cfg base n
    Scoped cfg base n.filters c.counted ∧ Scoped cfg base n.filters c.paged ∧
      (c.join = .inner ↔ ∃ r, cfg.Names n.filters r) ∧
      ((¬ ∃ r, cfg.Names n.filters r) → c = compile { cfg with relation := none } base n) := by
  refine ⟨counted_scoped n joins distinct, paged_scoped n joins distinct, ?_, ?_⟩
  · exact Compile.join_inner_iff
  · intro unnamed
    apply compile_of_no_filter
    intro r hr f hf field
    exact unnamed ⟨r, hr, f, hf, field⟩

end Compiled

theorem taggedThings_scoped :
    let cfg := Catalog.things.config .mysql
    let c := compile cfg Catalog.things.base taggedThings
    let untagged := { taggedThings with filters := [⟨"uint", "7", some .gt, some .eq⟩] }
    (Catalog.things.base.joins = [] ∧ Catalog.things.base.distinct = false) ∧
      (c.join = .inner ∧ c.paged.distinct = true ∧
        c.paged.joins =
          [⟨"things_tags", .of "wide_things" "ubig", .of "things_tags" "thing_ubig"⟩]) ∧
      compile cfg Catalog.things.base untagged =
        compile { cfg with relation := none } Catalog.things.base untagged := by
  intro cfg c untagged
  obtain ⟨-, paged, inner, -⟩ := compile_scoped cfg Catalog.things.base taggedThings rfl rfl
  obtain ⟨-, -, -, inert⟩ := compile_scoped cfg Catalog.things.base untagged rfl rfl
  obtain ⟨r, hr⟩ : ∃ r, cfg.relation = some r := ⟨_, rfl⟩
  have field : r.field = "tags" := by rw [← Option.some.inj hr]
  have named : cfg.Names taggedThings.filters r :=
    ⟨hr, ⟨"tags", "t1", none, none⟩, by simp [taggedThings], field.symm⟩
  have unnamed : ¬ ∃ r, cfg.Names untagged.filters r := by
    rintro ⟨r', hr', f, hf, same⟩
    obtain rfl := Option.some.inj (hr.symm.trans hr')
    rw [List.mem_singleton.1 hf, field] at same
    exact absurd same (by decide)
  obtain ⟨joins, distinct⟩ := paged.joined r named
  refine ⟨⟨rfl, rfl⟩, ⟨inner.2 ⟨r, named⟩, distinct, ?_⟩, inert unnamed⟩
  rw [joins, ← Option.some.inj hr]
  rfl

end ListQuery
