import ListQuery.Listing.Catalog
import ListQuery.Proofs.Compile.Conditions
import ListQuery.Proofs.Filter.Outline

/-! What of a request is seen in the text of its statements: its outline, and in quotes the fields
that it names. The values are nowhere in the text, and neither is a field outside of its quotes,
whatever characters it has; in quotes stands each field whose column is looked at. -/
namespace ListQuery

open Sql

structure FilterOutline where
  kind : FilterKind
  operator : Option Operator
  negation : Option Negation
  operand : OperandOutline
deriving DecidableEq

/-- Whether the conditions of such a filter look at the column of its field; those of a filter on
the relation field look at the related key. -/
def FilterOutline.Looks (d : Dialect) (o : FilterOutline) : Prop :=
  o.kind ≠ .relation ∧ (o.negation ≠ none ∨ (o.operator.getD .eq).Looks d o.operand)

structure RequestOutline where
  filters : List FilterOutline
  /-- Whether free text is searched for. -/
  searches : Bool
  /-- The keys of the extras that are set. -/
  extras : List String
  /-- The directions to order by. -/
  directions : List Direction
deriving DecidableEq

namespace Resolved

variable {X : Type}

/-- The keys that order the rows. -/
def sortKeys (n : Resolved X) : List SortKey := n.sort.filter (·.field ≠ "")

/-- The fields that a request names, in order. -/
def fields (n : Resolved X) : List String :=
  n.filters.map (·.field) ++ n.sortKeys.map (·.field)

/-- The columns that order the rows of a table. -/
def orderOn (n : Resolved X) (table : String) : List (Column × Direction) :=
  n.sortKeys.map fun k => (.of table k.field, k.direction)

/-- One name, or the fields that two requests name in the same place. -/
def SameName (n n' : Resolved X) (a b : String) : Prop :=
  a = b ∨ (a, b) ∈ n.fields.zip n'.fields

end Resolved

namespace ListConfig

/-- The operator that the value of a filter is read for. On the relation field everything but a list
is a comparison. -/
def effective (cfg : ListConfig) (f : Filter) : Operator :=
  if f.kind (cfg.relation.map (·.field)) = .relation ∧ f.operator ≠ some .oneOf then .eq
  else f.operator.getD .eq

def filterOutline (cfg : ListConfig) (f : Filter) : FilterOutline where
  kind := f.kind (cfg.relation.map (·.field))
  operator := f.operator
  negation := f.negation
  operand := (cfg.effective f).outline cfg.dialect f.value

def searches (cfg : ListConfig) (q : Option String) : Bool :=
  q.any fun q => !((TextSearch.truncated q.toList).isEmpty || cfg.searchColumns.isEmpty)

def outline {X : Type} [Extras X] (cfg : ListConfig) (n : Resolved X) : RequestOutline where
  filters := n.filters.map cfg.filterOutline
  searches := cfg.searches n.q
  extras := (Extras.pairs n.extras).map (·.1)
  directions := n.sortKeys.map (·.direction)

/-- Filters with one outline whose fields are related. -/
def FilterAlike (cfg : ListConfig) (R : String → String → Prop) (f f' : Filter) : Prop :=
  cfg.filterOutline f = cfg.filterOutline f' ∧ R f.field f'.field

end ListConfig

variable {R : String → String → Prop} {cfg : ListConfig} {f f' : Filter} {s s' : Select}

namespace ListConfig.FilterAlike

variable (h : cfg.FilterAlike R f f')

include h

theorem kind : f.kind (cfg.relation.map (·.field)) = f'.kind (cfg.relation.map (·.field)) :=
  congrArg FilterOutline.kind h.1

theorem operator : f.operator = f'.operator := congrArg FilterOutline.operator h.1

theorem negation : f.negation = f'.negation := congrArg FilterOutline.negation h.1

theorem effective : cfg.effective f = cfg.effective f' := by
  rw [ListConfig.effective, ListConfig.effective, h.kind, h.operator]

theorem operand : (cfg.effective f).outline cfg.dialect f.value =
    (cfg.effective f).outline cfg.dialect f'.value := by
  have same : (cfg.effective f).outline cfg.dialect f.value =
      (cfg.effective f').outline cfg.dialect f'.value := congrArg FilterOutline.operand h.1
  rw [same, h.effective]

end ListConfig.FilterAlike

section Naming

variable {p : Predicate}

theorem Sql.Select.Tests.restrictAll (h : s.Tests p) (cs : List Condition) :
    (s.restrictAll cs).Tests p := by
  induction cs generalizing s with
  | nil => exact h
  | cons c cs ih => exact ih (h.restrict_left c)

theorem Sql.Select.tests_restrictAll {c : Condition} {cs : List Condition} (mem : c ∈ cs)
    (h : c.Tests p) (s : Select) : (s.restrictAll cs).Tests p := by
  induction cs generalizing s with
  | nil => cases mem
  | cons d cs ih =>
    rcases List.mem_cons.1 mem with rfl | later
    · exact (tests_restrict h s).restrictAll cs
    · exact ih later _

theorem Filter.tests_negationConditions (ctx : SearchContext) (column : Column)
    (h : f.negation ≠ none) :
    ∃ c ∈ f.negationConditions ctx column, ∃ p, c.Tests p ∧ .name column.name ∈ p.tokens := by
  obtain ⟨n, hn⟩ := Option.ne_none_iff_exists'.1 h
  have looks : n.operator.Looks ctx.dialect (n.operator.outline ctx.dialect f.value) := by
    cases n <;> trivial
  obtain ⟨p, tests, named⟩ := n.operator.tests_conditionOf ctx column looks
  refine ⟨n.conditionOf ctx column f.value, ?_, p, tests.negate, named⟩
  rw [negationConditions, hn]
  exact List.mem_singleton_self _

/-- A filter off the relation field that looks at its column has a condition that does. -/
theorem ListConfig.tests_conditions {X : Type} [Extras X] {n : Resolved X} (cfg : ListConfig)
    (table : String) (hf : f ∈ n.filters) (looks : (cfg.filterOutline f).Looks cfg.dialect) :
    ∃ c ∈ cfg.conditions table n, ∃ p, c.Tests p ∧ .name f.field ∈ p.tokens := by
  obtain ⟨off, looks⟩ := looks
  obtain ⟨negation, all⟩ := cfg.conditions_subset_ownConditions table hf off
  have own {c : Condition} (hc : c ∈ cfg.ownConditions table n.filters) :
      c ∈ cfg.conditions table n :=
    List.mem_append_left _ (List.mem_append_left _ (List.mem_append_right _ hc))
  by_cases negates : f.negation = none
  · -- then the filter has conditions of its own, and the operator is what looks
    have several : f.kind (cfg.relation.map (·.field)) ≠ .negation := by
      intro only
      have alone := Filter.alone_of_kind only
      rw [negates] at alone
      simp at alone
    have effective : cfg.effective f = f.operator.getD .eq := if_neg fun on => off on.1
    have operand := looks.resolve_left (not_not_intro negates)
    rw [filterOutline, effective] at operand
    obtain ⟨p, tests, named⟩ :=
      (f.operator.getD .eq).tests_conditionOf cfg.context (.of table f.field) operand
    exact ⟨_, own (all several List.mem_cons_self), p, tests, named⟩
  · obtain ⟨c, hc, tests⟩ := f.tests_negationConditions cfg.context (.of table f.field) negates
    exact ⟨c, own (negation hc), tests⟩

end Naming

namespace Compile

/-- The filters of one kind are alike if all filters are. -/
theorem alike_kind (k : FilterKind) {fs fs' : List Filter}
    (h : List.Forall₂ (cfg.FilterAlike R) fs fs') :
    List.Forall₂ (fun f f' => cfg.FilterAlike R f f' ∧ f.kind (cfg.relation.map (·.field)) = k)
      (fs.filter fun f => f.kind (cfg.relation.map (·.field)) == k)
      (fs'.filter fun f => f.kind (cfg.relation.map (·.field)) == k) := by
  induction h with
  | nil => exact .nil
  | @cons f f' fs fs' hf _ ih =>
    rw [List.filter_cons, List.filter_cons, ← hf.kind]
    split
    next hk => exact .cons ⟨hf, eq_of_beq hk⟩ ih
    next => exact ih

theorem alike_relationCondition (refl : ∀ s, R s s) (r : Relation) (h : cfg.FilterAlike R f f') :
    (relationCondition cfg.context r f).Alike R (relationCondition cfg.context r f') := by
  have column := r.foreignColumn.alike_refl refl
  have comparison : (Operator.eq.conditionOf cfg.context r.foreignColumn f.value).Alike R
      (Operator.eq.conditionOf cfg.context r.foreignColumn f'.value) :=
    Operator.alike_conditionOf .eq cfg.context column rfl
  unfold relationCondition
  rw [← h.operator, ← h.negation]
  cases ho : f.operator with
  | none =>
    cases f.negation with
    | none => exact comparison
    | some n => exact n.alike_conditionOf cfg.context column _ _
  | some o =>
    cases o with
    | oneOf =>
      -- the one operator that keeps its own condition, and with it the length of the list
      have operand := h.operand
      simp only [ListConfig.effective, ho, ne_eq, not_true_eq_false, and_false, if_false,
        Option.getD_some] at operand
      exact Operator.alike_conditionOf .oneOf cfg.context column operand
    | _ => exact comparison

theorem alike_joined (r : Relation) (h : s.Alike R s') : (joined r s).Alike R (joined r s') :=
  { h with
    distinct := rfl
    joins := by simp only [joined, h.joins, h.table] }

theorem alike_withRelation (refl : ∀ s, R s s) (b b' : ByKind Filter)
    (relation : List.Forall₂ (cfg.FilterAlike R) b.relation b'.relation) (h : s.Alike R s') :
    (withRelation cfg b s).Alike R (withRelation cfg b' s') := by
  have join : b.join = b'.join := by
    have empty : b.relation.isEmpty = b'.relation.isEmpty := by
      rw [Bool.eq_iff_iff, List.isEmpty_iff_length_eq_zero, List.isEmpty_iff_length_eq_zero,
        relation.length_eq]
    rw [ByKind.join, ByKind.join, empty]
  unfold withRelation
  cases cfg.relation with
  | none => exact h
  | some r =>
    simp only
    apply List.rel_foldl _ _ relation
    · intro s s' hs f f' hf
      exact hs.restrict (alike_relationCondition refl r hf)
    · rw [join]
      split
      · exact alike_joined r h
      · exact h

/-- Filters on columns that are alike narrow alike statements to alike ones. -/
theorem alike_foldl_restrict {fs fs' : List Filter} {k : FilterKind} (notRelation : k ≠ .relation)
    (h : List.Forall₂ (fun f f' => cfg.FilterAlike R f f' ∧ f.kind (cfg.relation.map (·.field)) = k)
      fs fs') (hs : s.Alike R s') :
    (fs.foldl (fun s f => f.restrict cfg.context (.of s.table f.field) s) s).Alike R
      (fs'.foldl (fun s f => f.restrict cfg.context (.of s.table f.field) s) s') := by
  apply List.rel_foldl _ hs h
  rintro s s' hs f f' ⟨hf, hk⟩
  apply Filter.alike_restrict cfg.context (hs.column hf.2) hf.operator hf.negation _ hs
  -- off the relation field the outline is that of the operator itself
  have effective : cfg.effective f = f.operator.getD .eq := by
    simp [ListConfig.effective, hk, notRelation]
  have operand := hf.operand
  rw [effective] at operand
  exact operand

theorem alike_foldl_restrictNegation {fs fs' : List Filter}
    (h : List.Forall₂ (cfg.FilterAlike R) fs fs') (hs : s.Alike R s') :
    (fs.foldl (fun s f => f.restrictNegation cfg.context (.of s.table f.field) s) s).Alike R
      (fs'.foldl (fun s f => f.restrictNegation cfg.context (.of s.table f.field) s) s') := by
  apply List.rel_foldl _ hs h
  intro s s' hs f f' hf
  exact Filter.alike_restrictNegation cfg.context (hs.column hf.2) hf.negation hs

/-- Free text that is searched for is one pattern for all columns. -/
theorem withFreeText_eq (cfg : ListConfig) (q : Option String) (s : Select) :
    ∃ text : String, withFreeText cfg q s =
      if cfg.searches q then
        s.restrict (cfg.searchColumns.foldl
          (fun any name => any.add (.test (TextSearch.like (.of s.table name) text))) Condition.any)
      else s := by
  cases q with
  | none => exact ⟨"", rfl⟩
  | some q =>
    refine ⟨String.ofList (TextSearch.truncated q.toList), ?_⟩
    have searches : cfg.searches (some q) =
        !((TextSearch.truncated q.toList).isEmpty || cfg.searchColumns.isEmpty) := rfl
    simp only [withFreeText, TextSearch.freeText?, List.isEmpty_map, List.foldl_map, searches]
    cases (TextSearch.truncated q.toList).isEmpty || cfg.searchColumns.isEmpty with
    | false => rfl
    | true => rfl

theorem alike_withFreeText (refl : ∀ s, R s s) {q q' : Option String}
    (searches : cfg.searches q = cfg.searches q') (h : s.Alike R s') :
    (withFreeText cfg q s).Alike R (withFreeText cfg q' s') := by
  obtain ⟨text, eq⟩ := withFreeText_eq cfg q s
  obtain ⟨text', eq'⟩ := withFreeText_eq cfg q' s'
  rw [eq, eq', searches]
  split
  · apply h.restrict
    have same : List.Forall₂ Eq cfg.searchColumns cfg.searchColumns :=
      List.forall₂_same.2 fun _ _ => rfl
    apply Condition.alike_foldl_add _ same Condition.alike_any
    rintro name _ rfl
    exact TextSearch.alike_like (h.column (refl name)) text text'
  · exact h

theorem alike_withExtras (refl : ∀ s, R s s) {pairs pairs' : List (String × String)}
    (keys : pairs.map (·.1) = pairs'.map (·.1)) (h : s.Alike R s') :
    (withExtras pairs s).Alike R (withExtras pairs' s') := by
  apply List.rel_foldl _ h (forall₂_of_map_eq keys)
  rintro s s' hs ⟨key, value⟩ ⟨_, value'⟩ rfl
  exact hs.restrict (Condition.alike_only (.compare .eq (hs.column (refl key)) _ _))

theorem sorted_eq (keys : List SortKey) (s : Select) :
    sorted keys s = (keys.filter (·.field ≠ "")).foldl
      (fun s k => s.orderBy (.of s.table k.field) k.direction) s := by
  simp [sorted, List.foldl_filter]

theorem sorted_order (keys : List SortKey) (s : Select) :
    (sorted keys s).order =
      s.order ++ (keys.filter (·.field ≠ "")).map fun k => (.of s.table k.field, k.direction) := by
  rw [sorted_eq]
  induction keys.filter (·.field ≠ "") generalizing s with
  | nil => simp
  | cons k ks ih =>
    rw [List.foldl_cons, ih]
    simp [Select.orderBy]

theorem alike_sorted {X : Type} {n n' : Resolved X}
    (h : List.Forall₂ (fun k k' => k.direction = k'.direction ∧ R k.field k'.field)
      n.sortKeys n'.sortKeys) (hs : s.Alike R s') :
    (sorted n.sort s).Alike R (sorted n'.sort s') := by
  rw [sorted_eq, sorted_eq]
  apply List.rel_foldl _ hs h
  rintro s s' hs k k' ⟨direction, field⟩
  show (s.orderBy (.of s.table k.field) k.direction).Alike R
    (s'.orderBy (.of s'.table k'.field) k'.direction)
  rw [direction]
  exact hs.orderBy (hs.column field) k'.direction

end Compile

section Statements

variable {X : Type} [Extras X] {n n' : Resolved X}

theorem Compile.alike_counted (refl : ∀ s, R s s)
    (filters : List.Forall₂ (cfg.FilterAlike R) n.filters n'.filters)
    (outline_eq : cfg.outline n = cfg.outline n') (base : Select) :
    (counted cfg n (cfg.byKind n.filters) base).Alike R
      (counted cfg n' (cfg.byKind n'.filters) base) := by
  have kind (k : FilterKind) := alike_kind k filters
  have hrelation := alike_withRelation refl (cfg.byKind n.filters)
    (cfg.byKind n'.filters) ((kind .relation).imp fun _ _ h => h.1)
    (base.alike_refl refl)
  have hbase := alike_foldl_restrict (by decide) (kind .base) hrelation
  have hnegation := alike_foldl_restrictNegation ((kind .negation).imp fun _ _ h => h.1) hbase
  have hfulltext := alike_foldl_restrict (by decide) (kind .fulltext) hnegation
  have hq := alike_withFreeText refl (congrArg RequestOutline.searches outline_eq) hfulltext
  exact alike_withExtras refl (congrArg RequestOutline.extras outline_eq) hq

theorem Compile.alike_compile (refl : ∀ s, R s s)
    (filters : List.Forall₂ (cfg.FilterAlike R) n.filters n'.filters)
    (keys : List.Forall₂ (fun k k' => k.direction = k'.direction ∧ R k.field k'.field)
      n.sortKeys n'.sortKeys)
    (outline_eq : cfg.outline n = cfg.outline n') (base : Select) :
    (compile cfg base n).counted.Alike R (compile cfg base n').counted ∧
      (compile cfg base n).paged.Alike R (compile cfg base n').paged := by
  have counted := alike_counted refl filters outline_eq base
  have sorted := alike_sorted keys counted
  exact ⟨counted, { sorted with limit := rfl, offset := rfl }⟩

namespace Resolved

theorem length_eq_of_outline (h : cfg.outline n = cfg.outline n') :
    n.filters.length = n'.filters.length ∧ n.sortKeys.length = n'.sortKeys.length := by
  constructor
  · simpa [ListConfig.outline] using congrArg (fun o => o.filters.length) h
  · simpa [ListConfig.outline] using congrArg (fun o => o.directions.length) h

/-- Requests with one outline name their fields in the same places. -/
theorem sameName_fields (h : cfg.outline n = cfg.outline n') :
    List.Forall₂ (fun f f' => n.SameName n' f.field f'.field) n.filters n'.filters ∧
      List.Forall₂ (fun k k' => n.SameName n' k.field k'.field) n.sortKeys n'.sortKeys := by
  obtain ⟨filters, keys⟩ := length_eq_of_outline h
  have zip : n.fields.zip n'.fields =
      (n.filters.map (·.field)).zip (n'.filters.map (·.field)) ++
        (n.sortKeys.map (·.field)).zip (n'.sortKeys.map (·.field)) :=
    List.zip_append (by simpa using filters)
  constructor
  · apply forall₂_of_zip_map filters
    intro a b hab
    right
    rw [zip]
    exact List.mem_append_left _ hab
  · apply forall₂_of_zip_map keys
    intro a b hab
    right
    rw [zip]
    exact List.mem_append_right _ hab

end Resolved

/-- A filter that looks at its column tests it, in what is counted as in the page. -/
theorem Compile.tests_compile (cfg : ListConfig) (base : Select) {f : Filter} (hf : f ∈ n.filters)
    (looks : (cfg.filterOutline f).Looks cfg.dialect) :
    ∃ p, .name f.field ∈ p.tokens ∧ (compile cfg base n).counted.Tests p ∧
      (compile cfg base n).paged.Tests p := by
  obtain ⟨c, applied, p, tests, named⟩ := cfg.tests_conditions base.table hf looks
  have counted : (compile cfg base n).counted.Tests p := by
    have restricted : (compile cfg base n).counted = _ := counted_eq_restrictAll cfg n base
    rw [restricted]
    exact Select.tests_restrictAll applied tests _
  have condition : (compile cfg base n).paged.condition =
      (compile cfg base n).counted.condition := by
    simp only [compile]
    rw [sorted_frame]
  refine ⟨p, named, counted, ?_⟩
  rw [Select.Tests, condition]
  exact counted

/-- The page is ordered by the keys of the request, after those of the base statement. -/
theorem Compile.paged_order (cfg : ListConfig) (base : Select) (n : Resolved X) :
    (compile cfg base n).paged.order = base.order ++ n.orderOn base.table := by
  have restricted : (compile cfg base n).counted = _ := counted_eq_restrictAll cfg n base
  have counted : (compile cfg base n).counted.order = base.order ∧
      (compile cfg base n).counted.table = base.table := by
    rw [restricted, Select.restrictAll_frame, withJoin_frame]
    exact ⟨rfl, rfl⟩
  show (sorted n.sort (compile cfg base n).counted).order = _
  rw [sorted_order, counted.1, counted.2]
  rfl

/-- The statements of two requests with one outline have the same text but for the names of fields,
which are those that the requests name in the same place; the fields and the values may be any. Each
field that is looked at is a name in the text, and so is each key in that of the page. -/
theorem compile_sameText (cfg : ListConfig) (base : Select) (n n' : Resolved X)
    (h : cfg.outline n = cfg.outline n') :
    let c := compile cfg base n
    let c' := compile cfg base n'
    ((Query.count c.counted).SameText cfg.dialect (n.SameName n') (.count c'.counted) ∧
      (Query.rows c.counted).SameText cfg.dialect (n.SameName n') (.rows c'.counted) ∧
        (Query.rows c.paged).SameText cfg.dialect (n.SameName n') (.rows c'.paged)) ∧
      (∀ f ∈ n.filters, (cfg.filterOutline f).Looks cfg.dialect →
        ∀ q ∈ [Query.count c.counted, .rows c.counted, .rows c.paged],
          q.Names cfg.dialect f.field) ∧
      ∀ k ∈ n.sortKeys, (Query.rows c.paged).Names cfg.dialect k.field := by
  intro c c'
  have refl : ∀ s, n.SameName n' s s := fun _ => .inl rfl
  obtain ⟨filterNames, keyNames⟩ := Resolved.sameName_fields h
  have filters : n.filters.map cfg.filterOutline = n'.filters.map cfg.filterOutline :=
    congrArg RequestOutline.filters h
  have directions : n.sortKeys.map (·.direction) = n'.sortKeys.map (·.direction) :=
    congrArg RequestOutline.directions h
  obtain ⟨counted, paged⟩ := Compile.alike_compile refl
    (forall₂_and (forall₂_of_map_eq filters) filterNames)
    (forall₂_and (forall₂_of_map_eq directions) keyNames) h base
  have count := counted.sameText refl cfg.dialect
  refine ⟨⟨count.2, count.1, (paged.sameText refl cfg.dialect).1⟩, ?_, ?_⟩
  · intro f hf looks q hq
    obtain ⟨p, named, inCounted, inPaged⟩ := Compile.tests_compile cfg base hf looks
    apply Query.names_of_token
    simp only [List.mem_cons, List.not_mem_nil, or_false] at hq
    rcases hq with rfl | rfl | rfl
    · exact inCounted.mem_tokens_count named
    · exact inCounted.mem_tokens named
    · exact inPaged.mem_tokens named
  · intro k hk
    apply Query.names_of_token
    have key : (Column.of base.table k.field, k.direction) ∈ c.paged.order := by
      rw [Compile.paged_order]
      exact List.mem_append_right _ (List.mem_map_of_mem hk)
    exact Select.mem_tokens_of_order key (Column.name_mem_tokens _)

end Statements

def polite : Resolved OrderExtras where
  page := 1
  limit := 10
  q := some "A-17"
  sort := [⟨"order_code", .asc⟩, ⟨"", .desc⟩]
  filters :=
    [⟨"status", "draft,completed", some .oneOf, none⟩, ⟨"note", "null", some .is, none⟩,
      ⟨"amount_payable", "5", none, some .gt⟩, ⟨"labels", "l1", none, none⟩,
      ⟨"body", "late", some .plain, none⟩]
  extras := ⟨some "draft"⟩
  passthrough := []

/-- The same outline with fields and values that look like statements. -/
def hostile : Resolved OrderExtras where
  page := 7
  limit := 99
  q := some "%' OR \"1\" = $2"
  sort := [⟨"id\" DESC; --", .asc⟩]
  filters :=
    [⟨"a\" = $1 OR \"a", "'; DROP TABLE orders, --", some .oneOf, none⟩,
      ⟨"?", "null", some .is, none⟩, ⟨"\"\"", "NULL) OR (TRUE", none, some .gt⟩,
      ⟨"labels", "$9", none, none⟩, ⟨"x\x60$1", "' @@ ?", some .plain, none⟩]
  extras := ⟨some "canceled"⟩
  passthrough := []

theorem hostile_sameText :
    let cfg := Catalog.orders.config .postgres
    let c := compile cfg Catalog.orders.base polite
    let c' := compile cfg Catalog.orders.base hostile
    cfg.outline polite = cfg.outline hostile ∧
      (Query.rows c.paged).SameText .postgres (polite.SameName hostile) (.rows c'.paged) ∧
      (Query.count c'.counted).Names .postgres "a\" = $1 OR \"a" ∧
      (Query.rows c'.paged).Names .postgres "id\" DESC; --" := by
  intro cfg c c'
  have outline_eq : cfg.outline polite = cfg.outline hostile := by decide +kernel
  obtain ⟨⟨-, -, paged⟩, -, -⟩ := compile_sameText cfg Catalog.orders.base polite hostile outline_eq
  obtain ⟨-, filters, keys⟩ :=
    compile_sameText cfg Catalog.orders.base hostile polite outline_eq.symm
  refine ⟨outline_eq, paged, ?_, ?_⟩
  · let f : Filter := ⟨"a\" = $1 OR \"a", "'; DROP TABLE orders, --", some .oneOf, none⟩
    have listed : (cfg.filterOutline f).operand.items ≠ 0 := by decide +kernel
    exact filters f List.mem_cons_self ⟨by decide, .inr listed⟩ _ List.mem_cons_self
  · exact keys ⟨"id\" DESC; --", .asc⟩ (by decide +kernel)

end ListQuery
