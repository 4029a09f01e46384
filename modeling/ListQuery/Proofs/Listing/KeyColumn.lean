import ListQuery.Proofs.Compile.Paging
import ListQuery.Proofs.Listing.Protocol

/-! The key column of a relation. The lookup takes any spelling of it, the join takes the spelling for
the name in the database: they are about one column exactly if the relation is set up with that
name. -/
namespace ListQuery

open Sql

namespace ColumnDef

/-- What a column goes by. -/
def spellings (c : ColumnDef) : List String := [c.name, c.field, camelCase c.field]

theorem isCalled_iff {c : ColumnDef} {name : String} :
    c.isCalled name = true ↔ name ∈ c.spellings := by
  simp [isCalled, spellings, or_assoc]

end ColumnDef

namespace Entity

variable {e : Entity} {c d : ColumnDef} {name : String}

theorem mem_of_column (h : e.column? name = some c) : c ∈ e.columns ∧ name ∈ c.spellings := by
  have called := List.find?_some h
  exact ⟨List.mem_of_find?_eq_some h, ColumnDef.isCalled_iff.1 called⟩

/-- No two columns go by one spelling. -/
def Unambiguous (e : Entity) : Prop :=
  ∀ c ∈ e.columns, ∀ d ∈ e.columns, ∀ name ∈ c.spellings, name ∈ d.spellings → c = d

instance (e : Entity) : Decidable e.Unambiguous :=
  inferInstanceAs (Decidable (∀ c ∈ e.columns, _))

/-- Where no spelling is shared, a name in the database is never the other spelling of a column. -/
theorem Unambiguous.name_eq_iff (h : e.Unambiguous) (column : e.column? name = some c) :
    name = c.name ↔ ∃ d ∈ e.columns, d.name = name := by
  obtain ⟨hc, spelled⟩ := mem_of_column column
  constructor
  · intro same
    exact ⟨c, hc, same.symm⟩
  · rintro ⟨d, hd, rfl⟩
    rw [h c hc d hd d.name spelled List.mem_cons_self]

end Entity

/-- The lookup binds the values of the column that the primary key is a spelling of. -/
theorem Related.attach_sends (s : Store) (e : Entity) (r : Relation) {rows : List Model}
    (some_rows : rows ≠ []) (resource : String) {c : ColumnDef}
    (column : e.column? r.primaryKey = some c) :
    (attach s e r rows resource).2.1 = s.after [.rows (r.lookup (rows.map (Model.get · c)))] := by
  have some_keys : rows.map (Model.get · c) ≠ [] := by simpa using some_rows
  simp only [attach, column, load, List.isEmpty_iff, some_keys, if_false, Store.send_eq]
  cases Store.reply s.answers 0 <;> rfl

section Join

variable {X : Type} [Extras X] {cfg : ListConfig} {base : Select} {n : Resolved X} {r : Relation}

theorem joins_of_filter (relation : cfg.relation = some r)
    (filtered : ∃ f ∈ n.filters, f.field = r.field) {s : Select}
    (hs : s ∈ [(compile cfg base n).counted, (compile cfg base n).paged]) :
    s.joins = base.joins ++ [r.join base.table] := by
  have counted : (compile cfg base n).counted.joins = base.joins ++ [r.join base.table] := by
    rw [counted_frame, Compile.withJoin_of_filter relation filtered]
    rfl
  rcases List.mem_pair.1 hs with rfl | rfl
  · exact counted
  · rw [paged_eq_page]
    exact counted

end Join

/-- The join of a relation on the column with a name in the database. -/
def Relation.joinOn (r : Relation) (table name : String) : Join :=
  ⟨r.joinTable, .of table name, r.localColumn⟩

/-- If the primary key of a relation is a spelling of a column, the lookup binds the values of the
column. Once a filter is on the relation field, both statements join on the spelling as it is: on the
same column exactly if the spelling is its name in the database. Where no two columns share a
spelling, every other spelling is the name of no column at all. -/
theorem joined_on_key_iff {X : Type} [Extras X] (cfg : ListConfig) (base : Select) (n : Resolved X)
    (e : Entity) {r : Relation} (relation : cfg.relation = some r)
    (filtered : ∃ f ∈ n.filters, f.field = r.field) {c : ColumnDef}
    (column : e.column? r.primaryKey = some c) :
    (∀ (store : Store) rows resource, rows ≠ [] →
      (Related.attach store e r rows resource).2.1 =
        store.after [.rows (r.lookup (rows.map (Model.get · c)))]) ∧
      (∀ s ∈ [(compile cfg base n).counted, (compile cfg base n).paged],
        s.joins = base.joins ++ [r.joinOn base.table r.primaryKey] ∧
          (s.joins = base.joins ++ [r.joinOn base.table c.name] ↔ r.primaryKey = c.name)) ∧
      (e.Unambiguous → r.primaryKey ≠ c.name → ∀ d ∈ e.columns, d.name ≠ r.primaryKey) := by
  refine ⟨?_, ?_, ?_⟩
  · intro store rows resource some_rows
    exact Related.attach_sends store e r some_rows resource column
  · intro s hs
    have joins := joins_of_filter relation filtered hs
    refine ⟨joins, ?_⟩
    rw [joins, List.append_right_inj]
    simp [Relation.joinOn, Relation.join, Column.of]
  · intro unambiguous other d hd same
    exact other ((unambiguous.name_eq_iff column).2 ⟨d, hd, same⟩)

/-- Labels by the code of products, in a spelling of the column. -/
def codeLabels (spelling : String) : Relation where
  field := "labels"
  joinTable := "products_labels"
  localKey := "product_code"
  foreignKey := "label_id"
  primaryKey := spelling

def askedLabel : Resolved NoExtras where
  page := 1
  limit := 10
  q := none
  sort := []
  filters := [⟨"labels", "l1", some .oneOf, none⟩]
  extras := {}
  passthrough := []

theorem joined_on_product_code :
    let r := codeLabels "product_code"
    let cfg := { Catalog.products.config .sqlite with relation := some r }
    let code := Catalog.stringColumn "product_code"
    let c := compile cfg Catalog.products.base askedLabel
    (cfg.relation = some r ∧ (∃ f ∈ askedLabel.filters, f.field = r.field) ∧
        Catalog.productEntity.column? r.primaryKey = some code ∧
        Catalog.productEntity.Unambiguous) ∧
      ∀ s ∈ [c.counted, c.paged], s.joins = [r.joinOn "products" code.name] := by
  intro r cfg code c
  have filtered : ∃ f ∈ askedLabel.filters, f.field = r.field := by decide
  have column : Catalog.productEntity.column? r.primaryKey = some code := by decide
  refine ⟨⟨rfl, filtered, column, by decide⟩, ?_⟩
  intro s hs
  obtain ⟨-, joined, -⟩ := joined_on_key_iff cfg Catalog.products.base askedLabel
    Catalog.productEntity rfl filtered column
  exact (joined s hs).2.2 rfl

/-- The lookup binds product codes, and the join is on a column that products do not have. -/
theorem joined_on_productCode :
    let r := codeLabels "productCode"
    let cfg := { Catalog.products.config .sqlite with relation := some r }
    let code := Catalog.stringColumn "product_code"
    let c := compile cfg Catalog.products.base askedLabel
    Catalog.productEntity.column? r.primaryKey = some code ∧
      ∀ s ∈ [c.counted, c.paged],
        s.joins = [r.joinOn "products" "productCode"] ∧
          s.joins ≠ [r.joinOn "products" code.name] ∧
          ∀ d ∈ Catalog.productEntity.columns, d.name ≠ "productCode" := by
  intro r cfg code c
  refine ⟨by decide, ?_⟩
  intro s hs
  have joins : s.joins = [r.joinOn "products" "productCode"] :=
    joins_of_filter rfl (by decide) hs
  rw [joins]
  exact ⟨rfl, by decide, by decide⟩

end ListQuery
