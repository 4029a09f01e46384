import ListQuery.Listing.Catalog
import ListQuery.Proofs.Compile.Where
import ListQuery.Proofs.Sql.Rows

/-! The rows that a compiled request takes. A row of the listed table is taken once if it is wanted,
through however many rows of a join table it matches. -/
namespace ListQuery

open Sql

namespace Entity

/-- The values of a row in the columns of the entity. -/
def tuple (e : Entity) (row : Row) : Row := e.columns.map fun c => (c.name, Row.value row c.name)

/-- A statement that lists the entity: under any condition on its columns, in any order, without a
join, `DISTINCT` or a range. -/
structure IsBase (e : Entity) (s : Select) : Prop where
  outputs : s.outputs = e.select.outputs
  table : s.table = e.table
  joins : s.joins = []
  distinct : s.distinct = false
  limit : s.limit = none
  offset : s.offset = none
  columns : ∀ c ∈ s.condition, ∀ column ∈ c.columns,
    column.table = none ∨ column.table = some e.table

end Entity

namespace ListConfig

/-- The truth of everything that a request asks of the listed table itself. -/
def ownTruth {X : Type} [Extras X] (v : Predicate → Truth) (cfg : ListConfig) (table : String)
    (n : Resolved X) : Truth :=
  ((Truth.all ((n.filters.filter fun f => cfg.relation.map (·.field) ≠ some f.field).map
    fun f => f.truth v cfg.context (.of table f.field))).and
      (cfg.freeTextTruth v table n.q)).and
        (extrasTruth v table (Extras.pairs n.extras))

/-- A row is wanted: the condition of the base statement and everything asked of the row itself are
true, and, once a filter names the relation field, so are all filters on the relation of one and the
same row of the join table that belongs to it. -/
def Wanted {X : Type} [Extras X] (cfg : ListConfig) (J : Judge) (db : Database) (base : Select)
    (n : Resolved X) (row : Row) : Prop :=
  base.truth (J.truth [(base.table, row)]) = .true ∧
    cfg.ownTruth (J.truth [(base.table, row)]) base.table n = .true ∧
    ∀ r ∈ cfg.relation, (∃ f ∈ n.filters, f.field = r.field) →
      ∃ link ∈ db r.joinTable,
        J.equal (Row.value row r.primaryKey) (Row.value link r.localKey) = .true ∧
          ∀ f ∈ n.filters, f.field = r.field →
            r.truth (J.truth [(r.joinTable, link)]) cfg.context f = .true

instance {X : Type} [Extras X] (cfg : ListConfig) (J : Judge) (db : Database) (base : Select)
    (n : Resolved X) (row : Row) : Decidable (cfg.Wanted J db base n row) :=
  inferInstanceAs (Decidable (_ ∧ _))

theorem filterTruth_eq_true_iff {v : Predicate → Truth} (cfg : ListConfig) (table : String)
    (fs : List Filter) :
    (∀ f ∈ fs, cfg.filterTruth v table f = .true) ↔
      (∀ f ∈ fs, cfg.relation.map (·.field) ≠ some f.field →
        f.truth v cfg.context (.of table f.field) = .true) ∧
      ∀ r ∈ cfg.relation, ∀ f ∈ fs, f.field = r.field →
        r.truth v cfg.context f = .true := by
  unfold filterTruth
  rcases cfg.relation with _ | r
  · simp
  · simp only [Option.map_some, Option.mem_def, ne_eq, Option.some.injEq, forall_eq']
    constructor
    · intro h
      constructor
      · intro f hf hne
        have other : f.field ≠ r.field := fun heq => hne heq.symm
        simpa [other] using h f hf
      · intro f hf heq
        simpa [heq] using h f hf
    · rintro ⟨own, relation⟩ f hf
      split
      next heq => exact relation f hf heq
      next hne => exact own f hf fun heq => hne heq.symm

section Asked

variable {X : Type} [Extras X] {v v' : Predicate → Truth} (cfg : ListConfig) {table : String}
  (n : Resolved X)

theorem asked_eq_true_iff :
    cfg.asked v table n = .true ↔
      cfg.ownTruth v table n = .true ∧
        ∀ r ∈ cfg.relation, ∀ f ∈ n.filters, f.field = r.field →
          r.truth v cfg.context f = .true := by
  unfold asked ownTruth
  simp only [Truth.and_eq_true_iff, Truth.all_map_eq_true_iff, List.mem_filter,
    decide_eq_true_eq, and_imp]
  rw [filterTruth_eq_true_iff]
  constructor
  · rintro ⟨⟨⟨own, relation⟩, q⟩, extras⟩
    exact ⟨⟨⟨own, q⟩, extras⟩, relation⟩
  · rintro ⟨⟨⟨own, q⟩, extras⟩, relation⟩
    exact ⟨⟨⟨own, relation⟩, q⟩, extras⟩

/-- What is asked of the listed table depends on its columns only. -/
theorem ownTruth_congr (h : ∀ p, p.column.table = some table → v p = v' p) :
    cfg.ownTruth v table n = cfg.ownTruth v' table n := by
  have filters (f : Filter) :
      f.truth v cfg.context (.of table f.field) = f.truth v' cfg.context (.of table f.field) := by
    apply Filter.truth_congr
    intro p hp
    exact h p (by rw [hp]; rfl)
  have freeText : cfg.freeTextTruth v table n.q = cfg.freeTextTruth v' table n.q := by
    unfold freeTextTruth
    split
    · apply TextSearch.freeTextTruth_congr
      intro p hp
      obtain ⟨name, _, hc⟩ := List.mem_map.mp hp
      exact h p (by rw [← hc]; rfl)
    · rfl
  have extras (p : String × String) :
      v (.compare .eq (.of table p.1) (.string p.2)) =
        v' (.compare .eq (.of table p.1) (.string p.2)) := h _ rfl
  simp only [ownTruth, extrasTruth, filters, freeText, extras]

end Asked

end ListConfig

theorem Entity.output_tuple (e : Entity) {s : Select} (h : s.outputs = e.select.outputs)
    (row : Row) (rest : Scope) :
    s.output ((e.table, row) :: rest) = e.tuple row := by
  simp only [Select.output, h, Entity.select, Entity.tuple, List.flatMap_map, Output.values]
  rw [← List.map_eq_flatMap]
  apply List.map_congr_left
  intro c _
  exact congrArg (Prod.mk c.name) (Scope.value_listed (.inr rfl))

namespace Compile

variable {cfg : ListConfig} {fs : List Filter} {s : Select}

theorem join_inner_iff :
    (cfg.byKind fs).join = .inner ↔ ∃ r ∈ cfg.relation, ∃ f ∈ fs, f.field = r.field := by
  rw [ListConfig.byKind, ByKind.join_of]
  simp only [Option.map_eq_some_iff, id]
  constructor
  · rintro ⟨f, hf, r, hr, same⟩
    exact ⟨r, hr, f, hf, same.symm⟩
  · rintro ⟨r, hr, f, hf, same⟩
    exact ⟨f, hf, r, hr, same.symm⟩

theorem joined_or_plain (cfg : ListConfig) (fs : List Filter) :
    (∃ r, cfg.relation = some r ∧ ∃ f ∈ fs, f.field = r.field) ∨
      ∀ r ∈ cfg.relation, ∀ f ∈ fs, f.field ≠ r.field := by
  by_cases h : ∃ r, cfg.relation = some r ∧ ∃ f ∈ fs, f.field = r.field
  · exact .inl h
  · right
    intro r hr f hf heq
    exact h ⟨r, hr, f, hf, heq⟩

theorem withJoin_of_no_filter (h : ∀ r ∈ cfg.relation, ∀ f ∈ fs, f.field ≠ r.field) :
    withJoin cfg (cfg.byKind fs) s = s := by
  have left : (cfg.byKind fs).join ≠ .inner := by
    intro inner
    obtain ⟨r, hr, f, hf, heq⟩ := join_inner_iff.mp inner
    exact h r hr f hf heq
  unfold withJoin
  split
  · rfl
  · rw [if_neg left]

theorem withJoin_of_filter {r : Relation} (hr : cfg.relation = some r)
    (h : ∃ f ∈ fs, f.field = r.field) : withJoin cfg (cfg.byKind fs) s = joined r s := by
  have inner : (cfg.byKind fs).join = .inner := join_inner_iff.mpr ⟨r, hr, h⟩
  simp [withJoin, hr, inner]

end Compile

section Counted

variable {X : Type} [Extras X] {J : Judge} {db : Database} {e : Entity} {cfg : ListConfig}
  {base : Select} {n : Resolved X} {t : Row}

theorem counted_frame (cfg : ListConfig) (base : Select) (n : Resolved X) :
    (compile cfg base n).counted =
      { Compile.withJoin cfg (cfg.byKind n.filters) base with
        condition := (compile cfg base n).counted.condition } :=
  (Compile.counted_narrowed (fun _ => .true) cfg n base).frame

theorem counted_table (hb : e.IsBase base) : (compile cfg base n).counted.table = e.table := by
  rw [counted_frame, Compile.withJoin_frame]
  exact hb.table

theorem counted_outputs (hb : e.IsBase base) (cfg : ListConfig) (n : Resolved X) :
    (compile cfg base n).counted.outputs = e.select.outputs := by
  rw [counted_frame, Compile.withJoin_frame]
  exact hb.outputs

theorem counted_no_range (hb : e.IsBase base) (cfg : ListConfig) (n : Resolved X) :
    (compile cfg base n).counted.limit = none ∧ (compile cfg base n).counted.offset = none := by
  rw [counted_frame, Compile.withJoin_frame]
  exact ⟨hb.limit, hb.offset⟩

/-- Without a filter on the relation field nothing is joined. -/
theorem counted_plain (hb : e.IsBase base)
    (h : ∀ r ∈ cfg.relation, ∀ f ∈ n.filters, f.field ≠ r.field) :
    (compile cfg base n).counted.joins = [] ∧
      (compile cfg base n).counted.distinct = false := by
  rw [counted_frame, Compile.withJoin_of_no_filter h]
  exact ⟨hb.joins, hb.distinct⟩

/-- With one the join table is joined once, and the statement is `DISTINCT`. -/
theorem counted_joined (hb : e.IsBase base) {r : Relation} (hr : cfg.relation = some r)
    (h : ∃ f ∈ n.filters, f.field = r.field) :
    (compile cfg base n).counted.joins = [r.join e.table] ∧
      (compile cfg base n).counted.distinct = true := by
  rw [counted_frame, Compile.withJoin_of_filter hr h]
  simp [Compile.joined, hb.joins, hb.table]

theorem counted_true_iff (hb : e.IsBase base) (v : Predicate → Truth) :
    (compile cfg base n).counted.truth v = .true ↔
      base.truth v = .true ∧ cfg.ownTruth v e.table n = .true ∧
        ∀ r ∈ cfg.relation, ∀ f ∈ n.filters, f.field = r.field →
          r.truth v cfg.context f = .true := by
  rw [truth_counted, hb.table, Truth.and_eq_true_iff, ListConfig.asked_eq_true_iff]

theorem mem_rows_of_no_filter (hb : e.IsBase base)
    (h : ∀ r ∈ cfg.relation, ∀ f ∈ n.filters, f.field ≠ r.field) :
    t ∈ (compile cfg base n).counted.rows J db ↔
      ∃ row ∈ db e.table, cfg.Wanted J db base n row ∧ e.tuple row = t := by
  have output := e.output_tuple (counted_outputs hb cfg n)
  simp only [mem_rows, mem_scopes_of_no_join (counted_plain hb h).1, counted_table hb,
    ListConfig.Wanted, hb.table, counted_true_iff hb]
  constructor
  · rintro ⟨_, ⟨row, hrow, rfl⟩, ⟨ofBase, own, _⟩, rfl⟩
    refine ⟨row, hrow, ⟨ofBase, own, ?_⟩, (output row _).symm⟩
    rintro r hr ⟨f, hf, heq⟩
    exact absurd heq (h r hr f hf)
  · rintro ⟨row, hrow, ⟨ofBase, own, _⟩, rfl⟩
    refine ⟨_, ⟨row, hrow, rfl⟩, ⟨ofBase, own, ?_⟩, output row _⟩
    intro r hr f hf heq
    exact absurd heq (h r hr f hf)

theorem base_truth_listed (hb : e.IsBase base) (row : Row) (rest : Scope) :
    base.truth (J.truth ((e.table, row) :: rest)) = base.truth (J.truth [(e.table, row)]) := by
  unfold Select.truth
  split
  next c hc =>
    apply Condition.truth_congr
    intro p hp
    exact Judge.truth_listed (hb.columns c hc p.column hp)
  next => rfl

/-- On a joined scope the base statement and the listed table's own conditions are about the row,
and the filters on the relation about the row of the join table. -/
theorem counted_true_joined_iff (hb : e.IsBase base) {r : Relation} (hr : cfg.relation = some r)
    (apart : r.joinTable ≠ e.table) (row link : Row) :
    (compile cfg base n).counted.truth (J.truth [(e.table, row), (r.joinTable, link)]) = .true ↔
      base.truth (J.truth [(e.table, row)]) = .true ∧
        cfg.ownTruth (J.truth [(e.table, row)]) e.table n = .true ∧
          ∀ f ∈ n.filters, f.field = r.field →
            r.truth (J.truth [(r.joinTable, link)]) cfg.context f = .true := by
  have own : cfg.ownTruth (J.truth [(e.table, row), (r.joinTable, link)]) e.table n =
      cfg.ownTruth (J.truth [(e.table, row)]) e.table n := by
    apply ListConfig.ownTruth_congr
    intro p hp
    exact Judge.truth_listed (.inr hp)
  have relation (f : Filter) :
      r.truth (J.truth [(e.table, row), (r.joinTable, link)]) cfg.context f =
        r.truth (J.truth [(r.joinTable, link)]) cfg.context f := by
    apply Relation.truth_congr
    intro p hp
    exact Judge.truth_link apart (by rw [hp]; rfl)
  rw [counted_true_iff hb, base_truth_listed hb, own]
  simp [hr, relation]

theorem mem_rows_of_filter (hb : e.IsBase base) {r : Relation} (hr : cfg.relation = some r)
    (apart : r.joinTable ≠ e.table) (h : ∃ f ∈ n.filters, f.field = r.field) :
    t ∈ (compile cfg base n).counted.rows J db ↔
      ∃ row ∈ db e.table, cfg.Wanted J db base n row ∧ e.tuple row = t := by
  have output := e.output_tuple (counted_outputs hb cfg n)
  have on (row link : Row) :
      J.equal (Scope.value [(e.table, row), (r.joinTable, link)] (r.join e.table).left)
        (Scope.value [(e.table, row), (r.joinTable, link)] (r.join e.table).right) =
      J.equal (Row.value row r.primaryKey) (Row.value link r.localKey) := by
    rw [Scope.value_listed (.inr rfl), Scope.value_link apart rfl]
    rfl
  simp only [mem_rows, mem_scopes_of_join (counted_joined hb hr h).1, counted_table hb,
    ListConfig.Wanted, hb.table, hr, Option.mem_def, Option.some.injEq, forall_eq']
  constructor
  · rintro ⟨_, ⟨row, hrow, link, hlink, rfl, heq⟩, htrue, rfl⟩
    obtain ⟨ofBase, own, relation⟩ := (counted_true_joined_iff hb hr apart row link).mp htrue
    refine ⟨row, hrow, ⟨ofBase, own, fun _ => ?_⟩, (output row _).symm⟩
    exact ⟨link, hlink, (on row link).symm.trans heq, relation⟩
  · rintro ⟨row, hrow, ⟨ofBase, own, linked⟩, rfl⟩
    obtain ⟨link, hlink, heq, relation⟩ := linked h
    refine ⟨_, ⟨row, hrow, link, hlink, rfl, (on row link).trans heq⟩, ?_, output row _⟩
    exact (counted_true_joined_iff hb hr apart row link).mpr ⟨ofBase, own, relation⟩

variable (J db) in
theorem mem_rows_counted (hb : e.IsBase base)
    (apart : ∀ r ∈ cfg.relation, (∃ f ∈ n.filters, f.field = r.field) → r.joinTable ≠ e.table) :
    t ∈ (compile cfg base n).counted.rows J db ↔
      ∃ row ∈ db e.table, cfg.Wanted J db base n row ∧ e.tuple row = t := by
  rcases Compile.joined_or_plain cfg n.filters with ⟨r, hr, named⟩ | plain
  · exact mem_rows_of_filter hb hr (apart r hr named) named
  · exact mem_rows_of_no_filter hb plain

theorem rows_sublist_of_no_filter (hb : e.IsBase base)
    (h : ∀ r ∈ cfg.relation, ∀ f ∈ n.filters, f.field ≠ r.field) :
    ((compile cfg base n).counted.rows J db).Sublist ((db e.table).map e.tuple) := by
  obtain ⟨joins, distinct⟩ := counted_plain hb h
  have all : (J.scopes db (compile cfg base n).counted).map
      (compile cfg base n).counted.output = (db e.table).map e.tuple := by
    simp only [Judge.scopes, joins, counted_table hb, List.foldl_nil, List.map_map]
    apply List.map_congr_left
    intro row _
    exact e.output_tuple (counted_outputs hb cfg n) row []
  simp only [Select.rows, distinct, Bool.false_eq_true, if_false]
  rw [← all]
  exact List.filter_sublist.map _

theorem nodup_rows_counted (hb : e.IsBase base) (distinct : ((db e.table).map e.tuple).Nodup) :
    ((compile cfg base n).counted.rows J db).Nodup := by
  rcases Compile.joined_or_plain cfg n.filters with ⟨r, hr, named⟩ | plain
  · exact nodup_rows_of_distinct (counted_joined hb hr named).2
  · exact distinct.sublist (rows_sublist_of_no_filter hb plain)

/-- The count statement takes the wanted rows of the listed table, each as often as the table has
it. -/
theorem rows_counted_perm (hb : e.IsBase base)
    (apart : ∀ r ∈ cfg.relation, (∃ f ∈ n.filters, f.field = r.field) → r.joinTable ≠ e.table)
    (distinct : ((db e.table).map e.tuple).Nodup) :
    ((compile cfg base n).counted.rows J db).Perm
      (((db e.table).filter fun row => cfg.Wanted J db base n row).map e.tuple) := by
  rw [List.perm_ext_iff_of_nodup (nodup_rows_counted hb distinct)
    (distinct.sublist (List.filter_sublist.map _))]
  intro t
  rw [mem_rows_counted J db hb apart]
  simp [and_assoc]

end Counted

/-- Every row of the listed table occurs once if it is wanted and not at all otherwise, nothing else
occurs, and the total is the number of wanted rows, even when rows match through many rows of the
join table. The count statement drops an order and a range; there are none to drop here.

A join gives its table no other name, so that a table joined to itself stands twice under one name
and no column says which of the two it means. Databases refuse such a statement as ambiguous: there
are no rows to speak of, and `apart` leaves it out. -/
theorem counted_rows_once {X : Type} [Extras X] (J : Judge) (db : Database) (e : Entity)
    (cfg : ListConfig) (base : Select) (n : Resolved X) (hb : e.IsBase base)
    (apart : ∀ r ∈ cfg.relation, (∃ f ∈ n.filters, f.field = r.field) → r.joinTable ≠ e.table)
    (distinct : ((db e.table).map e.tuple).Nodup) :
    (∀ row ∈ db e.table,
        ((compile cfg base n).counted.rows J db).count (e.tuple row) =
          if cfg.Wanted J db base n row then 1 else 0) ∧
      (∀ t ∈ (compile cfg base n).counted.rows J db, ∃ row ∈ db e.table, e.tuple row = t) ∧
        ∀ s ∈ [(compile cfg base n).counted, (compile cfg base n).counted.unpaged],
          s.total J db = ((db e.table).filter fun row => cfg.Wanted J db base n row).length := by
  refine ⟨?_, ?_, ?_⟩
  · intro row hrow
    have wanted : e.tuple row ∈ (compile cfg base n).counted.rows J db ↔
        cfg.Wanted J db base n row := by
      rw [mem_rows_counted J db hb apart]
      constructor
      · rintro ⟨row', hrow', wanted, same⟩
        rwa [← List.inj_on_of_nodup_map distinct hrow' hrow same]
      · intro wanted
        exact ⟨row, hrow, wanted, rfl⟩
    rw [(nodup_rows_counted hb distinct).count]
    exact if_congr wanted rfl rfl
  · intro t ht
    obtain ⟨row, hrow, _, same⟩ := (mem_rows_counted J db hb apart).mp ht
    exact ⟨row, hrow, same⟩
  · have length : ((compile cfg base n).counted.rows J db).length =
        ((db e.table).filter fun row => cfg.Wanted J db base n row).length := by
      rw [(rows_counted_perm hb apart distinct).length_eq, List.length_map]
    obtain ⟨limit, offset⟩ := counted_no_range hb cfg n
    intro s hs
    rcases List.mem_pair.1 hs with rfl | rfl
    · rw [total_of_no_range limit offset, length]
    · rw [total_of_no_range rfl rfl]
      exact length

/-- Four products, of which `p3` has both labels that are asked for. -/
def labelled : Database
  | "products" => ["p1", "p2", "p3", "p4"].map fun id => [("id", .string id)]
  | "products_labels" =>
    [("p1", "l1"), ("p2", "l2"), ("p3", "l1"), ("p3", "l2"), ("p4", "l3")].map fun (p, l) =>
      [("product_id", .string p), ("label_id", .string l)]
  | _ => []

def askedLabels : Resolved NoExtras where
  page := 1
  limit := 10
  q := none
  sort := []
  filters := [⟨"labels", "l1,l2", some .oneOf, none⟩]
  extras := {}
  passthrough := []

/-- Values are compared as they are, and null is unknown. -/
def literal : Judge where
  holds p x :=
    match x, p with
    | .null _, _ => .unknown
    | x, .compare .eq _ y => if x = y then .true else .false
    | x, .oneOf _ ys => if x ∈ ys then .true else .false
    | _, _ => .unknown
  equal x y := if x.isNull || y.isNull then .unknown else if x = y then .true else .false

theorem Entity.isBase_select (e : Entity) : e.IsBase e.select where
  outputs := rfl
  table := rfl
  joins := rfl
  distinct := rfl
  limit := rfl
  offset := rfl
  columns := by
    rintro c ⟨⟩

theorem labelled_once :
    let s := (compile (Catalog.products.config .sqlite) Catalog.products.base askedLabels).counted
    (s.rows literal labelled).count (Catalog.productEntity.tuple [("id", .string "p3")]) = 1 ∧
      s.unpaged.total literal labelled = 3 := by
  have once := counted_rows_once literal labelled Catalog.productEntity
    (Catalog.products.config .sqlite) Catalog.products.base askedLabels
    (Entity.isBase_select _) (by decide) (by decide)
  constructor
  · rw [once.1 _ (by decide)]
    decide +kernel
  · rw [once.2.2 _ (by simp)]
    decide +kernel

end ListQuery
