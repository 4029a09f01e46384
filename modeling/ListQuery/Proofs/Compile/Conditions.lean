import ListQuery.Proofs.Compile.Where

/-! The conditions that a request puts on a statement, one after another. What is counted is the
joined base statement, restricted by these and by nothing else. -/
namespace ListQuery

open Sql

namespace Sql.Select

/-- Restricts by conditions one after another. -/
def restrictAll (s : Select) (cs : List Condition) : Select := cs.foldl restrict s

@[simp] theorem restrictAll_nil (s : Select) : s.restrictAll [] = s := rfl

@[simp] theorem restrictAll_cons (s : Select) (c : Condition) (cs : List Condition) :
    s.restrictAll (c :: cs) = (s.restrict c).restrictAll cs := rfl

theorem restrictAll_append (s : Select) (cs more : List Condition) :
    s.restrictAll (cs ++ more) = (s.restrictAll cs).restrictAll more := List.foldl_append ..

theorem restrictAll_frame (s : Select) (cs : List Condition) :
    s.restrictAll cs = { s with condition := (s.restrictAll cs).condition } := by
  induction cs generalizing s with
  | nil => rfl
  | cons c cs ih =>
    rw [restrictAll_cons, ih]
    rfl

@[simp] theorem restrictAll_table (s : Select) (cs : List Condition) :
    (s.restrictAll cs).table = s.table := by
  rw [restrictAll_frame]

/-- Steps that each restrict by the conditions of their item restrict by all of them in turn. -/
theorem foldl_restrictAll {α : Type} {step : Select → α → Select} {conditions : α → List Condition}
    {as : List α} {s : Select}
    (h : ∀ s' a, s'.table = s.table → step s' a = s'.restrictAll (conditions a)) :
    as.foldl step s = s.restrictAll (as.flatMap conditions) := by
  induction as generalizing s with
  | nil => rfl
  | cons a as ih =>
    rw [List.foldl_cons, h s a rfl, List.flatMap_cons, restrictAll_append]
    apply ih
    intro s' b hs
    exact h s' b (hs.trans (restrictAll_table ..))

end Sql.Select

namespace Filter

/-- The condition of the negation of a filter, if it has one. -/
def negationConditions (f : Filter) (ctx : SearchContext) (column : Column) : List Condition :=
  (f.negation.map fun n => n.conditionOf ctx column f.value).toList

def conditions (f : Filter) (ctx : SearchContext) (column : Column) : List Condition :=
  (f.operator.getD .eq).conditionOf ctx column f.value :: f.negationConditions ctx column

theorem restrictNegation_eq (f : Filter) (ctx : SearchContext) (column : Column) (s : Select) :
    f.restrictNegation ctx column s = s.restrictAll (f.negationConditions ctx column) := by
  unfold restrictNegation negationConditions
  cases f.negation <;> rfl

theorem restrict_eq (f : Filter) (ctx : SearchContext) (column : Column) (s : Select) :
    f.restrict ctx column s = s.restrictAll (f.conditions ctx column) := by
  simp only [restrict, restrictNegation_eq, conditions, Select.restrictAll_cons]

end Filter

namespace ListConfig

variable {X : Type} [Extras X] (cfg : ListConfig) (table : String)

def relationConditions (fs : List Filter) : List Condition :=
  cfg.relation.toList.flatMap fun r =>
    (cfg.byKind fs).relation.map (Compile.relationCondition cfg.context r)

/-- The conditions of the filters on the listed table: base filters, lone negations, full text. -/
def ownConditions (fs : List Filter) : List Condition :=
  (cfg.byKind fs).base.flatMap (fun f => f.conditions cfg.context (.of table f.field)) ++
    (cfg.byKind fs).negation.flatMap
      (fun f => f.negationConditions cfg.context (.of table f.field)) ++
    (cfg.byKind fs).fulltext.flatMap (fun f => f.conditions cfg.context (.of table f.field))

def freeTextConditions (q : Option String) : List Condition :=
  (q.bind fun q => TextSearch.freeText? q (cfg.searchColumns.map (.of table ·))).toList

def extrasConditions (pairs : List (String × String)) : List Condition :=
  pairs.map fun p => .only (.compare .eq (.of table p.1) (.string p.2))

/-- Everything that a request asks of the rows of a table, in the order in which it is applied. -/
def conditions (n : Resolved X) : List Condition :=
  cfg.relationConditions n.filters ++ cfg.ownConditions table n.filters ++
    cfg.freeTextConditions table n.q ++ extrasConditions table (Extras.pairs n.extras)

/-- The conditions of a filter off the relation field are applied: that of its negation, and all of
them unless it only negates. -/
theorem conditions_subset_ownConditions {f : Filter} {fs : List Filter} (hf : f ∈ fs)
    (h : f.kind (cfg.relation.map (·.field)) ≠ .relation) :
    f.negationConditions cfg.context (.of table f.field) ⊆ cfg.ownConditions table fs ∧
      (f.kind (cfg.relation.map (·.field)) ≠ .negation →
        f.conditions cfg.context (.of table f.field) ⊆ cfg.ownConditions table fs) := by
  have mem {k : FilterKind} (hk : f.kind (cfg.relation.map (·.field)) = k) :
      f ∈ fs.filter fun f => f.kind (cfg.relation.map (·.field)) == k :=
    List.mem_filter.2 ⟨hf, beq_iff_eq.2 hk⟩
  have negation : f.negationConditions cfg.context (.of table f.field) ⊆
      f.conditions cfg.context (.of table f.field) := List.subset_cons_self ..
  cases hk : f.kind (cfg.relation.map (·.field)) with
  | relation => exact absurd hk h
  | base =>
    have all : f.conditions cfg.context (.of table f.field) ⊆ cfg.ownConditions table fs := by
      intro c hc
      exact List.mem_append_left _ (List.mem_append_left _ (List.mem_flatMap.2 ⟨f, mem hk, hc⟩))
    exact ⟨List.Subset.trans negation all, fun _ => all⟩
  | fulltext =>
    have all : f.conditions cfg.context (.of table f.field) ⊆ cfg.ownConditions table fs := by
      intro c hc
      exact List.mem_append_right _ (List.mem_flatMap.2 ⟨f, mem hk, hc⟩)
    exact ⟨List.Subset.trans negation all, fun _ => all⟩
  | negation =>
    refine ⟨fun c hc => ?_, fun other => absurd rfl other⟩
    exact List.mem_append_left _ (List.mem_append_right _ (List.mem_flatMap.2 ⟨f, mem hk, hc⟩))

end ListConfig

namespace Compile

variable (cfg : ListConfig) {table : String} {s : Select}

theorem withRelation_eq (fs : List Filter) (s : Select) :
    withRelation cfg (cfg.byKind fs) s =
      (withJoin cfg (cfg.byKind fs) s).restrictAll (cfg.relationConditions fs) := by
  unfold withRelation withJoin ListConfig.relationConditions
  cases cfg.relation with
  | none => rfl
  | some r =>
    rw [Option.toList_some, List.flatMap_singleton, Select.restrictAll, List.foldl_map]

theorem foldl_restrict_eq (fs : List Filter) (hs : s.table = table) :
    fs.foldl (fun s f => f.restrict cfg.context (.of s.table f.field) s) s =
      s.restrictAll (fs.flatMap fun f => f.conditions cfg.context (.of table f.field)) := by
  apply Select.foldl_restrictAll
  intro s' f hs'
  rw [hs'.trans hs, Filter.restrict_eq]

theorem foldl_restrictNegation_eq (fs : List Filter) (hs : s.table = table) :
    fs.foldl (fun s f => f.restrictNegation cfg.context (.of s.table f.field) s) s =
      s.restrictAll (fs.flatMap fun f => f.negationConditions cfg.context (.of table f.field)) := by
  apply Select.foldl_restrictAll
  intro s' f hs'
  rw [hs'.trans hs, Filter.restrictNegation_eq]

theorem withFreeText_eq_restrictAll (hs : s.table = table) (q : Option String) :
    withFreeText cfg q s = s.restrictAll (cfg.freeTextConditions table q) := by
  subst hs
  unfold withFreeText ListConfig.freeTextConditions
  cases q with
  | none => rfl
  | some q =>
    simp only [Option.bind_some]
    cases TextSearch.freeText? q (cfg.searchColumns.map (.of s.table ·)) <;> rfl

theorem withExtras_eq (hs : s.table = table) (pairs : List (String × String)) :
    withExtras pairs s = s.restrictAll (ListConfig.extrasConditions table pairs) := by
  rw [ListConfig.extrasConditions, List.map_eq_flatMap]
  apply Select.foldl_restrictAll
  intro s' p hs'
  rw [hs'.trans hs]
  rfl

/-- What is counted is the joined base statement under the conditions of the request. -/
theorem counted_eq_restrictAll {X : Type} [Extras X] (n : Resolved X) (base : Select) :
    counted cfg n (cfg.byKind n.filters) base =
      (withJoin cfg (cfg.byKind n.filters) base).restrictAll (cfg.conditions base.table n) := by
  have joined_table := withJoin_table cfg (cfg.byKind n.filters) base
  simp only [counted, withRelation_eq, ListConfig.conditions, ListConfig.ownConditions,
    Select.restrictAll_append]
  rw [foldl_restrict_eq cfg (cfg.byKind n.filters).base (by simpa using joined_table),
    foldl_restrictNegation_eq cfg (cfg.byKind n.filters).negation (by simpa using joined_table),
    foldl_restrict_eq cfg (cfg.byKind n.filters).fulltext (by simpa using joined_table),
    withFreeText_eq_restrictAll cfg (by simpa using joined_table),
    withExtras_eq (by simpa using joined_table)]

end Compile
end ListQuery
