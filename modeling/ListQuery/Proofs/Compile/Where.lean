import ListQuery.Proofs.Filter.Kind
import ListQuery.Proofs.Filter.Truth

/-! What a compiled request asks of a row. The filters are distributed by kind and applied kind by
kind; the condition is still their conjunction in the order of the request. -/
namespace ListQuery

open Sql

variable (v : Predicate → Truth)

namespace ListConfig

/-- The truth of a filter on the rows of a table. A filter on the relation field is about the
related key, every other filter about the column of its field. -/
def filterTruth (cfg : ListConfig) (table : String) (f : Filter) : Truth :=
  match cfg.relation with
  | some r =>
    if f.field = r.field then r.truth v cfg.context f
    else f.truth v cfg.context (.of table f.field)
  | none => f.truth v cfg.context (.of table f.field)

def freeTextTruth (cfg : ListConfig) (table : String) : Option String → Truth
  | some q => TextSearch.freeTextTruth v q (cfg.searchColumns.map (.of table ·))
  | none => .true

def extrasTruth (table : String) (pairs : List (String × String)) : Truth :=
  .all (pairs.map fun p => v (.compare .eq (.of table p.1) (.string p.2)))

def asked {X : Type} [Extras X] (cfg : ListConfig) (table : String) (n : Resolved X) : Truth :=
  ((Truth.all (n.filters.map (cfg.filterTruth v table))).and (cfg.freeTextTruth v table n.q)).and
    (extrasTruth v table (Extras.pairs n.extras))

variable (cfg : ListConfig) {f : Filter} {table : String}

theorem filterTruth_of_relation {r : Relation} (hr : cfg.relation = some r)
    (h : f.kind (cfg.relation.map (·.field)) = .relation) :
    cfg.filterTruth v table f = r.truth v cfg.context f := by
  have field : r.field = f.field := by simpa [hr, Filter.kind_eq_relation_iff] using h
  simp [filterTruth, hr, field]

theorem filterTruth_of_ne_relation (h : f.kind (cfg.relation.map (·.field)) ≠ .relation) :
    cfg.filterTruth v table f = f.truth v cfg.context (.of table f.field) := by
  unfold filterTruth
  rcases hr : cfg.relation with _ | r
  · rfl
  · rw [Ne, hr, Option.map_some, Filter.kind_eq_relation_iff] at h
    have field : f.field ≠ r.field := fun same => h (congrArg some same.symm)
    simp [field]

end ListConfig

namespace ByKind

variable {field : Option String} {fs : List Filter} {f : Filter}

theorem kind_of_mem {k : FilterKind} (h : f ∈ fs.filter fun f => f.kind field == k) :
    f.kind field = k := by
  simpa using (List.mem_filter.mp h).2

/-- Every item is of one kind, so the kinds together are all items. -/
theorem all_of {α : Type} (relationField : Option String) (filter : α → Filter) (g : α → Truth)
    (items : List α) :
    (((Truth.all ((ByKind.of relationField filter items).relation.map g)).and
      (.all ((ByKind.of relationField filter items).base.map g))).and
      (.all ((ByKind.of relationField filter items).negation.map g))).and
      (.all ((ByKind.of relationField filter items).fulltext.map g)) = .all (items.map g) := by
  induction items with
  | nil => rfl
  | cons a as ih =>
    rw [List.map_cons, Truth.all_cons, ← ih]
    simp only [ByKind.of, List.filter_cons]
    cases (filter a).kind relationField <;> simp <;> ac_rfl

end ByKind

namespace Compile

variable (cfg : ListConfig)

def withJoin (b : ByKind Filter) (s : Select) : Select :=
  match cfg.relation with
  | none => s
  | some r => if b.join = .inner then joined r s else s

/-- A join changes the joined tables and makes the statement `DISTINCT`, and nothing else. -/
theorem withJoin_frame (b : ByKind Filter) (s : Select) :
    withJoin cfg b s =
      { s with
        distinct := (withJoin cfg b s).distinct
        joins := (withJoin cfg b s).joins } := by
  unfold withJoin
  split
  · rfl
  · split <;> rfl

theorem withJoin_table (b : ByKind Filter) (s : Select) : (withJoin cfg b s).table = s.table := by
  rw [withJoin_frame]

theorem truth_withJoin (b : ByKind Filter) (s : Select) :
    (withJoin cfg b s).truth v = s.truth v := by
  rw [withJoin_frame]
  rfl

variable {table : String} {s : Select}

theorem withRelation_narrowed (fs : List Filter) (table : String) (s : Select) :
    (withJoin cfg (cfg.byKind fs) s).Narrowed v
      (.all ((cfg.byKind fs).relation.map (cfg.filterTruth v table)))
      (withRelation cfg (cfg.byKind fs) s) := by
  unfold withJoin withRelation
  rcases hr : cfg.relation with _ | r
  · have empty : (cfg.byKind fs).relation = [] := by
      simp [ListConfig.byKind, ByKind.of, hr, Filter.kind_eq_relation_iff]
    rw [empty]
    exact .refl v s
  · have same : (cfg.byKind fs).relation.map (cfg.filterTruth v table) =
        (cfg.byKind fs).relation.map (r.truth v cfg.context) := by
      apply List.map_congr_left
      intro f hf
      exact cfg.filterTruth_of_relation v hr (ByKind.kind_of_mem hf)
    rw [same]
    apply Select.Narrowed.foldl
    intro s' f _ _
    rw [← Relation.truth_relationCondition]
    exact .restrict v s' _

/-- Filters on columns that are not negations alone narrow by their truth. -/
theorem foldl_restrict_narrowed (fs : List Filter) (hs : s.table = table)
    (h : ∀ f ∈ fs, f.kind (cfg.relation.map (·.field)) = .base ∨
      f.kind (cfg.relation.map (·.field)) = .fulltext) :
    s.Narrowed v (.all (fs.map (cfg.filterTruth v table)))
      (fs.foldl (fun s f => f.restrict cfg.context (.of s.table f.field) s) s) := by
  apply Select.Narrowed.foldl
  intro s' f hs' hf
  have notRelation : f.kind (cfg.relation.map (·.field)) ≠ .relation := by
    rcases h f hf with hk | hk <;> simp [hk]
  rw [cfg.filterTruth_of_ne_relation v notRelation, hs'.trans hs]
  exact Filter.restrict_narrowed v (Filter.not_alone_of_kind (h f hf)) ..

theorem foldl_restrictNegation_narrowed (fs : List Filter) (hs : s.table = table)
    (h : ∀ f ∈ fs, f.kind (cfg.relation.map (·.field)) = .negation) :
    s.Narrowed v (.all (fs.map (cfg.filterTruth v table)))
      (fs.foldl (fun s f => f.restrictNegation cfg.context (.of s.table f.field) s) s) := by
  apply Select.Narrowed.foldl
  intro s' f hs' hf
  have alone := Filter.alone_of_kind (h f hf)
  rw [cfg.filterTruth_of_ne_relation v (by simp [h f hf]), hs'.trans hs,
    f.truth_of_negation_alone v alone]
  exact f.restrictNegation_narrowed v ..

theorem withFreeText_narrowed (hs : s.table = table) (q : Option String) :
    s.Narrowed v (cfg.freeTextTruth v table q) (withFreeText cfg q s) := by
  subst hs
  unfold withFreeText ListConfig.freeTextTruth
  cases q with
  | none => exact .refl v s
  | some q =>
    simp only
    rw [← TextSearch.truth_freeText]
    cases TextSearch.freeText? q (cfg.searchColumns.map (.of s.table ·)) with
    | none => exact .refl v s
    | some c => exact .restrict v s c

theorem withExtras_narrowed (hs : s.table = table) (pairs : List (String × String)) :
    s.Narrowed v (ListConfig.extrasTruth v table pairs) (withExtras pairs s) := by
  apply Select.Narrowed.foldl
  intro s' p hs' _
  have step := Select.Narrowed.restrict v s' (.only (.compare .eq (.of table p.1) (.string p.2)))
  rw [Condition.truth_only] at step
  rw [hs'.trans hs]
  exact step

/-- The count statement is the joined base statement, narrowed by what the request asks. -/
theorem counted_narrowed {X : Type} [Extras X] (n : Resolved X) (base : Select) :
    (withJoin cfg (cfg.byKind n.filters) base).Narrowed v (cfg.asked v base.table n)
      (counted cfg n (cfg.byKind n.filters) base) := by
  unfold counted ListConfig.asked
  rw [← ByKind.all_of (cfg.relation.map (·.field)) id (cfg.filterTruth v base.table)]
  have hrelation := withRelation_narrowed v cfg n.filters base.table base
  have hbase := hrelation.trans (foldl_restrict_narrowed v cfg (cfg.byKind n.filters).base
    (hrelation.table.trans (withJoin_table ..)) fun f hf => .inl (ByKind.kind_of_mem hf))
  have hnegation := hbase.trans
    (foldl_restrictNegation_narrowed v cfg (cfg.byKind n.filters).negation
      (hbase.table.trans (withJoin_table ..)) fun f hf => ByKind.kind_of_mem hf)
  have hfulltext := hnegation.trans
    (foldl_restrict_narrowed v cfg (cfg.byKind n.filters).fulltext
      (hnegation.table.trans (withJoin_table ..)) fun f hf => .inr (ByKind.kind_of_mem hf))
  have hq := hfulltext.trans
    (withFreeText_narrowed v cfg (hfulltext.table.trans (withJoin_table ..)) n.q)
  exact hq.trans
    (withExtras_narrowed v (hq.table.trans (withJoin_table ..)) (Extras.pairs n.extras))

theorem sorted_frame (keys : List SortKey) (s : Select) :
    sorted keys s = { s with order := (sorted keys s).order } := by
  unfold sorted
  induction keys generalizing s with
  | nil => rfl
  | cons k ks ih =>
    rw [List.foldl_cons, ih]
    split <;> rfl

end Compile

theorem truth_counted {X : Type} [Extras X] (cfg : ListConfig) (base : Select) (n : Resolved X) :
    (compile cfg base n).counted.truth v = (base.truth v).and (cfg.asked v base.table n) := by
  have narrowed := (Compile.counted_narrowed v cfg n base).truth
  rw [Compile.truth_withJoin] at narrowed
  exact narrowed

theorem truth_paged {X : Type} [Extras X] (cfg : ListConfig) (base : Select) (n : Resolved X) :
    (compile cfg base n).paged.truth v = (compile cfg base n).counted.truth v := by
  have condition : (compile cfg base n).paged.condition =
      (compile cfg base n).counted.condition := by
    simp only [compile]
    rw [Compile.sorted_frame]
  rw [Select.truth, Select.truth, condition]

/-- Whatever condition the base statement has, the statements of a request ask for it and for
everything in the request, and so do the expressions that are written for them. -/
theorem compile_asks {X : Type} [Extras X] (cfg : ListConfig) (base : Select) (n : Resolved X) :
    let c := compile cfg base n
    let t := (base.truth v).and (cfg.asked v base.table n)
    (c.counted.truth v = t ∧ c.paged.truth v = t) ∧
      c.counted.written v = t ∧ c.paged.written v = t := by
  intro c t
  have counted : c.counted.truth v = t := truth_counted v cfg base n
  have paged : c.paged.truth v = t := (truth_paged v cfg base n).trans counted
  rw [Select.written_eq_truth, Select.written_eq_truth]
  exact ⟨⟨counted, paged⟩, counted, paged⟩

end ListQuery
