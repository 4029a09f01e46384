import ListQuery.Listing.Catalog
import ListQuery.Proofs.Compile.Conjuncts
import ListQuery.Proofs.Filter.Truncation

/-! The free-text search of a request. It narrows the list as soon as there are columns to search
and something of the query is looked at; a query that starts late is kept and narrows nothing. -/
namespace ListQuery

open Sql

namespace TextSearch

/-- The text in any of the columns. -/
def anyLike (columns : List Column) (text : List Char) : Condition :=
  .group false .any (columns.map fun c => .test (like c (String.ofList text)))

theorem freeText?_eq (query : String) (columns : List Column) :
    freeText? query columns =
      if truncated query.toList = [] ∨ columns = [] then none
      else some (anyLike columns (truncated query.toList)) := by
  unfold freeText? anyLike
  simp only [Bool.or_eq_true, List.isEmpty_iff]
  rw [Condition.any, Condition.foldl_add]
  rfl

theorem freeText?_eq_none_iff (query : String) (columns : List Column) :
    freeText? query columns = none ↔
      (Text.trimmed query.toList = [] ∨ StartsLate query.toList) ∨ columns = [] := by
  rw [freeText?_eq, ← truncated_eq_nil_iff]
  split <;> simp_all

end TextSearch

/-- A query is kept exactly if it is there and not blank. -/
theorem Request.resolve_q_eq_some_iff {X : Type} [Extras X] {r : Request X} {d : Defaults}
    {q : String} : (r.resolve d).q = some q ↔ r.q = some q ∧ Text.trimmed q.toList ≠ [] := by
  simp [resolve, resolveWith, Option.filter_eq_some_iff]

namespace ListConfig

variable {X : Type} [Extras X] {cfg : ListConfig} {table : String}

/-- What is asked before the free-text search: the filters. -/
def filterConditions (cfg : ListConfig) (table : String) (fs : List Filter) : List Condition :=
  cfg.relationConditions fs ++ cfg.ownConditions table fs

theorem freeTextConditions_of_looked {q : String} (columns : cfg.searchColumns ≠ [])
    (text : Text.trimmed q.toList ≠ []) (early : ¬ TextSearch.StartsLate q.toList) :
    cfg.freeTextConditions table (some q) =
      [TextSearch.anyLike (cfg.searchColumns.map (.of table ·))
        (TextSearch.truncated q.toList)] := by
  have looked : TextSearch.truncated q.toList ≠ [] := by
    rw [Ne, TextSearch.truncated_eq_nil_iff]
    exact not_or.2 ⟨text, early⟩
  simp [freeTextConditions, TextSearch.freeText?_eq, looked, columns]

theorem freeTextConditions_of_late {q : Option String}
    (late : ∀ text ∈ q, TextSearch.StartsLate text.toList) :
    cfg.freeTextConditions table q = [] := by
  cases q with
  | none => rfl
  | some text =>
    have none := (TextSearch.freeText?_eq_none_iff text (cfg.searchColumns.map (.of table ·))).2
      (.inl (.inr (late text rfl)))
    rw [freeTextConditions, Option.bind_some, none]
    rfl

end ListConfig

section Compiled

variable {X : Type} [Extras X] {cfg : ListConfig} {base : Select} {n : Resolved X}

/-- The search stands between the filters and the extras. -/
theorem conjuncts_around_search {s : Select}
    (hs : s ∈ [(compile cfg base n).counted, (compile cfg base n).paged]) :
    s.conjuncts =
      base.conjuncts ++ (cfg.filterConditions base.table n.filters).flatMap Condition.conjuncts ++
        (cfg.freeTextConditions base.table n.q).flatMap Condition.conjuncts ++
        (ListConfig.extrasConditions base.table (Extras.pairs n.extras)).flatMap
          Condition.conjuncts := by
  simp only [Compile.conjuncts_of_mem hs, ListConfig.conditions, ListConfig.filterConditions,
    List.flatMap_append, List.append_assoc]

theorem compile_of_no_search (h : cfg.freeTextConditions base.table n.q = []) :
    compile cfg base n = compile cfg base { n with q := none } := by
  have conditions : cfg.conditions base.table n =
      cfg.conditions base.table { n with q := none } := by
    rw [ListConfig.conditions, h]
    rfl
  have counted : Compile.counted cfg n (cfg.byKind n.filters) base =
      Compile.counted cfg { n with q := none } (cfg.byKind n.filters) base := by
    rw [Compile.counted_eq_restrictAll, conditions]
    exact (Compile.counted_eq_restrictAll cfg { n with q := none } base).symm
  simp only [compile, counted]

end Compiled

/-- Nothing is searched for exactly if the query is blank or starts late or there are no columns,
and no query within the limit starts late. With columns to search, a query that is kept and does
not start late adds the search of its text in any of them to both statements; otherwise the request
compiles as without a query. -/
theorem kept_query_searched {X : Type} [Extras X] (cfg : ListConfig) (base : Select) (d : Defaults)
    (r : Request X) (query : String) (columns : List Column) :
    let n := r.resolve d
    let c := compile cfg base n
    let plain := compile cfg base { n with q := none }
    (TextSearch.freeText? query columns = none ↔
      (Text.trimmed query.toList = [] ∨ TextSearch.StartsLate query.toList) ∨ columns = []) ∧
    ((Utf8.encode query.toList).length ≤ TextSearch.maxBytes →
      ¬ TextSearch.StartsLate query.toList) ∧
    (cfg.searchColumns ≠ [] → ∃ before after,
      (∀ s ∈ [plain.counted, plain.paged], s.conjuncts = before ++ after) ∧
      (∀ q ∈ n.q, ¬ TextSearch.StartsLate q.toList → ∀ s ∈ [c.counted, c.paged],
        s.conjuncts = before ++
          (TextSearch.anyLike (cfg.searchColumns.map (.of base.table ·))
            (TextSearch.truncated q.toList)).conjuncts ++ after) ∧
      ((∀ q ∈ n.q, TextSearch.StartsLate q.toList) → c = plain)) := by
  intro n c plain
  refine ⟨TextSearch.freeText?_eq_none_iff query columns, TextSearch.not_startsLate_of_short, ?_⟩
  intro searchable
  refine ⟨base.conjuncts ++
      (cfg.filterConditions base.table n.filters).flatMap Condition.conjuncts,
    (ListConfig.extrasConditions base.table (Extras.pairs n.extras)).flatMap Condition.conjuncts,
    ?_, ?_, ?_⟩
  · intro s hs
    have around := conjuncts_around_search hs
    rw [show cfg.freeTextConditions base.table none = [] from rfl, List.flatMap_nil,
      List.append_nil] at around
    exact around
  · intro q kept early s hs
    have text := (Request.resolve_q_eq_some_iff.1 kept).2
    rw [conjuncts_around_search hs, Option.mem_def.1 kept,
      ListConfig.freeTextConditions_of_looked searchable text early, List.flatMap_singleton]
  · intro late
    exact compile_of_no_search (ListConfig.freeTextConditions_of_late late)

/-- Phones with blanks around them. -/
def phones : Request NoExtras where
  q := some "  phone "
  extras := {}

theorem phones_searched :
    let cfg := Catalog.products.config .sqlite
    let n := phones.resolve Catalog.products.defaults
    let c := compile cfg Catalog.products.base n
    (cfg.searchColumns ≠ [] ∧ "  phone " ∈ n.q ∧
        (Utf8.encode "  phone ".toList).length ≤ TextSearch.maxBytes) ∧
      ∀ s ∈ [c.counted, c.paged],
        s.conjuncts =
          [.group false .any
            [.test (.like (.of "products" "name") "%PHONE%"),
              .test (.like (.of "products" "product_code") "%PHONE%")]] := by
  intro cfg n c
  have columns : cfg.searchColumns ≠ [] := by decide
  have kept : "  phone " ∈ n.q := by decide
  have short : (Utf8.encode "  phone ".toList).length ≤ TextSearch.maxBytes := by decide
  refine ⟨⟨columns, kept, short⟩, ?_⟩
  obtain ⟨-, early, compiled⟩ := kept_query_searched cfg Catalog.products.base
    Catalog.products.defaults phones "  phone " (cfg.searchColumns.map (.of "products" ·))
  obtain ⟨before, after, plain, searched, -⟩ := compiled columns
  have nothing : before ++ after = [] := (plain _ List.mem_cons_self).symm
  obtain ⟨rfl, rfl⟩ := List.append_eq_nil_iff.1 nothing
  intro s hs
  rw [searched _ kept (early short) s hs]
  rfl

section Late

/-- A letter behind blanks. -/
def letterBehind (blanks : Nat) : String := String.ofList (List.replicate blanks ' ' ++ ['a'])

theorem trimmed_letterBehind (blanks : Nat) : Text.trimmed (letterBehind blanks).toList ≠ [] := by
  rw [letterBehind, String.toList_ofList, Ne, Text.trimmed_eq_nil_iff]
  intro all
  exact absurd (all 'a' (by simp)) (by decide)

theorem startsLate_letterBehind {blanks : Nat} (past : TextSearch.maxBytes ≤ blanks) :
    TextSearch.StartsLate (letterBehind blanks).toList := by
  have blank : ∀ b ∈ List.replicate blanks ' ', Text.isBlank b = true := by
    intro b hb
    obtain rfl := List.eq_of_mem_replicate hb
    rfl
  have letter : Text.isBlank 'a' = false := by decide
  have bytes : (Utf8.encode (List.replicate blanks ' ' ++ ['a'])).length = blanks + 1 := by
    simp [Utf8.encode, Utf8.width]
  rw [letterBehind, String.toList_ofList, TextSearch.startsLate_iff blank letter, bytes]
  omega

/-- A query behind ten thousand blanks is not blank and is kept, and nothing is searched for. -/
theorem late_query_unsearched :
    let q := letterBehind 10000
    let cfg := Catalog.products.config .sqlite
    let n := Request.resolve Catalog.products.defaults
      ({ q := some q, extras := {} } : Request NoExtras)
    let columns := cfg.searchColumns.map (Column.of "products" ·)
    (Text.trimmed q.toList ≠ [] ∧ n.q = some q ∧ columns ≠ []) ∧
      TextSearch.freeText? q columns = none ∧
        compile cfg Catalog.products.base n =
          compile cfg Catalog.products.base { n with q := none } := by
  intro q cfg n columns
  have text := trimmed_letterBehind 10000
  have late : TextSearch.StartsLate (letterBehind 10000).toList :=
    startsLate_letterBehind (by decide)
  have kept : n.q = some q := Request.resolve_q_eq_some_iff.2 ⟨rfl, text⟩
  refine ⟨⟨text, kept, by decide⟩, ?_, ?_⟩
  · exact (TextSearch.freeText?_eq_none_iff ..).2 (.inl (.inr late))
  · apply compile_of_no_search
    apply ListConfig.freeTextConditions_of_late
    intro text ht
    rw [kept, Option.mem_some_iff] at ht
    rw [← ht]
    exact late

end Late

end ListQuery
