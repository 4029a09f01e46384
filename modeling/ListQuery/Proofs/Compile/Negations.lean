import ListQuery.Listing.Catalog
import ListQuery.Proofs.Compile.Conjuncts

/-! The negations of filters. Each is a conjunct of what is compiled beside the operator of its
filter, except on the relation field, where an operator takes the place of the negation. -/
namespace ListQuery

open Sql

/-- The condition of a negation is one conjunct. -/
theorem Negation.conjuncts_conditionOf (m : Negation) (ctx : SearchContext) (column : Column)
    (text : String) :
    (m.conditionOf ctx column text).conjuncts = [m.conditionOf ctx column text] := by
  cases m <;> exact Condition.conjuncts_group_not ..

/-- The conditions of what a filter states. -/
def Filter.statedConditions (f : Filter) (ctx : SearchContext) (column : Column) : List Condition :=
  (f.operator.map fun o => o.conditionOf ctx column f.value).toList ++
    f.negationConditions ctx column

theorem Filter.statedConditions_subset (f : Filter) (ctx : SearchContext) (column : Column) :
    f.statedConditions ctx column ⊆ f.conditions ctx column := by
  intro c hc
  rcases List.mem_append.1 hc with positive | negative
  · rw [Option.mem_toList, Option.map_eq_some_iff] at positive
    obtain ⟨o, ho, rfl⟩ := positive
    rw [conditions, ho]
    exact List.mem_cons_self
  · exact List.mem_cons_of_mem _ negative

theorem Filter.statedConditions_of_operator_none {f : Filter} (h : f.operator = none)
    (ctx : SearchContext) (column : Column) :
    f.statedConditions ctx column = f.negationConditions ctx column := by
  rw [statedConditions, h]
  rfl

namespace ListConfig

variable (cfg : ListConfig) (table : String)

/-- The column that a filter is about. -/
def columnOf (f : Filter) : Column :=
  match cfg.relation with
  | some r => if f.field = r.field then r.foreignColumn else .of table f.field
  | none => .of table f.field

/-- An operator on the relation field takes the place of the negation. -/
def IgnoresNegation (f : Filter) : Prop :=
  cfg.relation.map (·.field) = some f.field ∧ f.operator ≠ none

instance (f : Filter) : Decidable (cfg.IgnoresNegation f) := inferInstanceAs (Decidable (_ ∧ _))

/-- A filter without the negation that is ignored. -/
def heeded (f : Filter) : Filter :=
  if cfg.IgnoresNegation f then { f with negation := none } else f

variable {cfg : ListConfig} {table : String} {f : Filter} {fs : List Filter}

theorem columnOf_of_ne_relation (h : f.kind (cfg.relation.map (·.field)) ≠ .relation) :
    cfg.columnOf table f = .of table f.field := by
  rw [Ne, Filter.kind_eq_relation_iff] at h
  unfold columnOf
  split
  next r hr =>
    have field : f.field ≠ r.field := by
      intro same
      rw [hr, same] at h
      exact h rfl
    exact if_neg field
  next => rfl

/-- A filter on the relation field that has only a negation is that negation. -/
theorem statedConditions_subset_relationConditions (hf : f ∈ fs)
    (h : f.kind (cfg.relation.map (·.field)) = .relation) (heeds : ¬ cfg.IgnoresNegation f) :
    f.statedConditions cfg.context (cfg.columnOf table f) ⊆ cfg.relationConditions fs := by
  have onField := Filter.kind_eq_relation_iff.1 h
  obtain ⟨r, hr, field⟩ := Option.map_eq_some_iff.1 onField
  have column : cfg.columnOf table f = r.foreignColumn := by
    rw [columnOf, hr]
    exact if_pos field.symm
  have operator : f.operator = none := by
    by_contra set
    exact heeds ⟨onField, set⟩
  intro c hc
  rw [Filter.statedConditions_of_operator_none operator, Filter.negationConditions,
    Option.mem_toList, Option.map_eq_some_iff] at hc
  obtain ⟨m, hm, rfl⟩ := hc
  have only : Compile.relationCondition cfg.context r f =
      m.conditionOf cfg.context (cfg.columnOf table f) f.value := by
    rw [Compile.relationCondition, operator, hm, column]
  rw [← only, relationConditions, hr, Option.toList_some, List.flatMap_singleton]
  exact List.mem_map_of_mem (List.mem_filter.2 ⟨hf, beq_iff_eq.2 h⟩)

theorem statedConditions_subset_ownConditions (hf : f ∈ fs)
    (h : f.kind (cfg.relation.map (·.field)) ≠ .relation) :
    f.statedConditions cfg.context (cfg.columnOf table f) ⊆ cfg.ownConditions table fs := by
  obtain ⟨negation, all⟩ := cfg.conditions_subset_ownConditions table hf h
  rw [columnOf_of_ne_relation h]
  by_cases hk : f.kind (cfg.relation.map (·.field)) = .negation
  · have alone := Filter.alone_of_kind hk
    rw [Bool.and_eq_true, Option.isNone_iff_eq_none] at alone
    rw [Filter.statedConditions_of_operator_none alone.1]
    exact negation
  · exact List.Subset.trans (f.statedConditions_subset _ _) (all hk)

/-- What a filter states is among the conditions of the request, unless its negation is ignored. -/
theorem statedConditions_subset_conditions {X : Type} [Extras X] {n : Resolved X}
    (hf : f ∈ n.filters) (heeds : ¬ cfg.IgnoresNegation f) :
    f.statedConditions cfg.context (cfg.columnOf table f) ⊆ cfg.conditions table n := by
  intro c hc
  rw [conditions, List.mem_append, List.mem_append, List.mem_append]
  by_cases h : f.kind (cfg.relation.map (·.field)) = .relation
  · exact .inl (.inl (.inl (statedConditions_subset_relationConditions hf h heeds hc)))
  · exact .inl (.inl (.inr (statedConditions_subset_ownConditions hf h hc)))

/-- Dropping what is ignored leaves a filter in its kind. -/
theorem kind_heeded (f : Filter) :
    (cfg.heeded f).kind (cfg.relation.map (·.field)) = f.kind (cfg.relation.map (·.field)) := by
  unfold heeded
  split
  next ignored =>
    rw [Filter.kind_eq_relation_iff.2 ignored.1]
    exact Filter.kind_eq_relation_iff.2 ignored.1
  next => rfl

theorem heeded_of_ne_relation (h : f.kind (cfg.relation.map (·.field)) ≠ .relation) :
    cfg.heeded f = f := by
  apply if_neg
  intro ignored
  exact h (Filter.kind_eq_relation_iff.2 ignored.1)

theorem relationCondition_heeded (r : Relation) (f : Filter) :
    Compile.relationCondition cfg.context r (cfg.heeded f) =
      Compile.relationCondition cfg.context r f := by
  unfold heeded
  split
  next ignored =>
    obtain ⟨o, ho⟩ := Option.ne_none_iff_exists'.1 ignored.2
    simp only [Compile.relationCondition, ho]
    cases o <;> rfl
  next => rfl

theorem byKind_heeded (fs : List Filter) :
    cfg.byKind (fs.map cfg.heeded) =
      { cfg.byKind fs with relation := (cfg.byKind fs).relation.map cfg.heeded } := by
  have pick (k : FilterKind) :
      (fs.map cfg.heeded).filter (fun f => f.kind (cfg.relation.map (·.field)) == k) =
        (fs.filter fun f => f.kind (cfg.relation.map (·.field)) == k).map cfg.heeded := by
    simp only [List.filter_map, Function.comp_def, kind_heeded]
  have own {k : FilterKind} (hk : k ≠ .relation) :
      (fs.map cfg.heeded).filter (fun f => f.kind (cfg.relation.map (·.field)) == k) =
        fs.filter fun f => f.kind (cfg.relation.map (·.field)) == k := by
    rw [pick, List.map_congr_left (g := id), List.map_id]
    intro f hf
    rw [← ByKind.kind_of_mem hf] at hk
    exact heeded_of_ne_relation hk
  simp only [byKind, ByKind.of, id_eq]
  rw [pick .relation, own (k := .fulltext) (by decide), own (k := .negation) (by decide),
    own (k := .base) (by decide)]

theorem join_heeded (fs : List Filter) :
    (cfg.byKind (fs.map cfg.heeded)).join = (cfg.byKind fs).join := by
  rw [byKind_heeded, ByKind.join, ByKind.join, List.isEmpty_map]

variable {X : Type} [Extras X]

theorem conditions_heeded (n : Resolved X) :
    cfg.conditions table { n with filters := n.filters.map cfg.heeded } =
      cfg.conditions table n := by
  have relation : cfg.relationConditions (n.filters.map cfg.heeded) =
      cfg.relationConditions n.filters := by
    simp only [relationConditions, byKind_heeded, List.map_map, Function.comp_def,
      relationCondition_heeded]
  have own : cfg.ownConditions table (n.filters.map cfg.heeded) =
      cfg.ownConditions table n.filters := by
    rw [ownConditions, byKind_heeded]
    rfl
  rw [conditions, conditions, relation, own]

end ListConfig

variable {X : Type} [Extras X]

theorem compile_heeded (cfg : ListConfig) (base : Select) (n : Resolved X) :
    compile cfg base { n with filters := n.filters.map cfg.heeded } = compile cfg base n := by
  have join := cfg.join_heeded n.filters
  have counted : Compile.counted cfg { n with filters := n.filters.map cfg.heeded }
      (cfg.byKind (n.filters.map cfg.heeded)) base =
        Compile.counted cfg n (cfg.byKind n.filters) base := by
    rw [Compile.counted_eq_restrictAll cfg { n with filters := n.filters.map cfg.heeded },
      Compile.counted_eq_restrictAll, ListConfig.conditions_heeded]
    simp only [Compile.withJoin, join]
  simp only [compile, counted, join]

/-- The negation of a filter is a conjunct of both statements, on the column of the filter and with
its value coerced for the negation, beside those of its operator if it has one; unless an operator
is set on the relation field, where the request compiles as if there were no negation. -/
theorem compile_negations (cfg : ListConfig) (base : Select) (n : Resolved X) :
    let c := compile cfg base n
    (∀ f ∈ n.filters, ¬ cfg.IgnoresNegation f → ∀ m ∈ f.negation, ∀ s ∈ [c.counted, c.paged],
      (m.operator.conditionOf cfg.context (cfg.columnOf base.table f) f.value).negate ∈
          s.conjuncts ∧
        ∀ o ∈ f.operator,
          (o.conditionOf cfg.context (cfg.columnOf base.table f) f.value).conjuncts ⊆
            s.conjuncts) ∧
      compile cfg base { n with filters := n.filters.map cfg.heeded } = c := by
  intro c
  refine ⟨?_, compile_heeded cfg base n⟩
  intro f hf heeds m hm s hs
  have conjuncts : s.conjuncts =
      base.conjuncts ++ (cfg.conditions base.table n).flatMap Condition.conjuncts :=
    Compile.conjuncts_of_mem hs
  have applied {c' : Condition}
      (hc : c' ∈ f.statedConditions cfg.context (cfg.columnOf base.table f)) :
      c'.conjuncts ⊆ s.conjuncts := by
    intro p hp
    rw [conjuncts, List.mem_append, List.mem_flatMap]
    exact .inr ⟨c', ListConfig.statedConditions_subset_conditions hf heeds hc, hp⟩
  constructor
  · have negated := Option.mem_toList.2 (Option.mem_map_of_mem
      (fun m : Negation => m.conditionOf cfg.context (cfg.columnOf base.table f) f.value) hm)
    apply applied (List.mem_append_right _ negated)
    rw [Negation.conjuncts_conditionOf]
    exact List.mem_singleton_self _
  · intro o ho
    exact applied (List.mem_append_left _ (Option.mem_toList.2 (Option.mem_map_of_mem _ ho)))

/-- Labelled products that are no phones, with a negation on the relation field that is ignored. -/
def notPhones : Resolved NoExtras where
  page := 1
  limit := 10
  q := none
  sort := [⟨"created_at", .desc⟩]
  filters := [⟨"labels", "l1", some .oneOf, some .eq⟩, ⟨"name", "phone", some .ne, some .like⟩]
  extras := {}
  passthrough := []

theorem notPhones_negations :
    let cfg := Catalog.products.config .sqlite
    let f : Filter := ⟨"name", "phone", some .ne, some .like⟩
    let c := compile cfg Catalog.products.base notPhones
    (f ∈ notPhones.filters ∧ ¬ cfg.IgnoresNegation f) ∧
      (Operator.like.conditionOf cfg.context (.of "products" "name") "phone").negate ∈
        c.paged.conjuncts ∧
      (Operator.ne.conditionOf cfg.context (.of "products" "name") "phone").conjuncts ⊆
        c.paged.conjuncts := by
  intro cfg f c
  have mem : f ∈ notPhones.filters := by decide
  have heeds : ¬ cfg.IgnoresNegation f := by decide
  have both := (compile_negations cfg Catalog.products.base notPhones).1 f mem heeds .like rfl
    c.paged (by simp [c])
  exact ⟨⟨mem, heeds⟩, both.1, both.2 .ne rfl⟩

theorem relation_ignores_negation :
    let cfg := Catalog.products.config .sqlite
    let f : Filter := ⟨"labels", "l1", some .oneOf, some .eq⟩
    let c := compile cfg Catalog.products.base notPhones
    f ∈ notPhones.filters ∧ ∀ s ∈ [c.counted, c.paged],
      s.conjuncts =
          [.test (.oneOf (.of "products_labels" "label_id") [.string "l1"]),
            .test (.compare .ne (.of "products" "name") (.string "phone")),
            .group true .all [.test (.like (.of "products" "name") "%PHONE%")]] ∧
        (Operator.eq.conditionOf cfg.context (cfg.columnOf "products" f) f.value).negate ∉
          s.conjuncts := by
  intro cfg f c
  refine ⟨by decide, ?_⟩
  intro s hs
  have conjuncts : s.conjuncts =
      [.test (.oneOf (.of "products_labels" "label_id") [.string "l1"]),
        .test (.compare .ne (.of "products" "name") (.string "phone")),
        .group true .all [.test (.like (.of "products" "name") "%PHONE%")]] := by
    rcases List.mem_pair.1 hs with rfl | rfl <;> rfl
  refine ⟨conjuncts, ?_⟩
  rw [conjuncts]
  simp [Operator.conditionOf, Operator.condition, Condition.only]

end ListQuery
