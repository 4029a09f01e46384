import ListQuery.Proofs.Compile.Outline
import ListQuery.Proofs.Compile.Rows
import ListQuery.Proofs.Sql.Values

/-! The page statement beside the count statement. Both select the same rows: the page only adds an
order and a range, after everything else in the text and in the values, and nothing that chooses a
page is seen in the count. -/
namespace ListQuery

open Sql

namespace Sql

/-- The rows of a statement are all there, in no order. -/
structure Select.IsWhole (s : Select) : Prop where
  order : s.order = []
  limit : s.limit = none
  offset : s.offset = none

/-- The tokens of an order and a range. -/
def pageTokens (keys : List (Column × Direction)) (limit offset : UInt64) : List Token :=
  orderByTokens keys ++ boundTokens " LIMIT " (some limit) ++ boundTokens " OFFSET " (some offset)

namespace Select

variable {s : Select} (keys : List (Column × Direction)) (limit offset : UInt64)

def page (s : Select) (keys : List (Column × Direction)) (limit offset : UInt64) : Select :=
  { s with order := keys, limit := some limit, offset := some offset }

theorem IsWhole.unpaged (h : s.IsWhole) : s.unpaged = s := by
  obtain ⟨order, limit, offset⟩ := h
  cases s
  simp_all only [Select.unpaged]

theorem IsWhole.tokens_page (h : s.IsWhole) :
    (s.page keys limit offset).tokens = s.tokens ++ pageTokens keys limit offset := by
  have order : orderByTokens s.order = [] := by
    rw [h.order]
    rfl
  rw [Select.tokens, Select.tokens, order, h.limit, h.offset]
  simp only [pageTokens, boundTokens, List.append_nil, List.append_assoc, List.cons_append]
  rfl

end Select

theorem values_pageTokens (keys : List (Column × Direction)) (limit offset : UInt64) :
    (pageTokens keys limit offset).filterMap Token.value? =
      [.int .bigUnsigned limit.toNat, .int .bigUnsigned offset.toNat] := by
  rw [pageTokens, List.filterMap_append, List.filterMap_append, values_orderByTokens]
  rfl

/-- A page of a statement is its text with more at the end, and its values with the range behind
them. -/
theorem Select.IsWhole.statement_page {s : Select} (h : s.IsWhole)
    (keys : List (Column × Direction)) (limit offset : UInt64) (d : Dialect) :
    let all := (Query.rows s).statement d
    let page := (Query.rows (s.page keys limit offset)).statement d
    page.text = all.text ++
        String.ofList (d.chars all.values.length (pageTokens keys limit offset)) ∧
      page.values = all.values ++
        [.int .bigUnsigned limit.toNat, .int .bigUnsigned offset.toNat] := by
  simp only [Query.statement, Query.tokens, h.tokens_page, Dialect.chars_append,
    List.filterMap_append, values_pageTokens, String.ofList_append, Nat.zero_add, and_self]

end Sql

variable {X : Type} [Extras X] {cfg : ListConfig} {base : Select}

theorem counted_isWhole (cfg : ListConfig) (n : Resolved X) (whole : base.IsWhole) :
    (compile cfg base n).counted.IsWhole := by
  rw [counted_frame, Compile.withJoin_frame]
  exact ⟨whole.order, whole.limit, whole.offset⟩

/-- The page statement is a page of the count statement, ordered as the base statement is and then
by the keys of the request. -/
theorem paged_eq_page (cfg : ListConfig) (base : Select) (n : Resolved X) :
    (compile cfg base n).paged = (compile cfg base n).counted.page
      (base.order ++ n.orderOn base.table) n.limit (compile cfg base n).range.1 := by
  have order : (Compile.sorted n.sort (compile cfg base n).counted).order =
      base.order ++ n.orderOn base.table := Compile.paged_order cfg base n
  rw [Select.page, ← order]
  show { Compile.sorted n.sort (compile cfg base n).counted with
    limit := some n.limit, offset := some (compile cfg base n).range.1 } = _
  rw [Compile.sorted_frame]

/-- Neither the page nor the order of a request is seen in what it counts. -/
theorem counted_congr (cfg : ListConfig) (base : Select) {n n' : Resolved X} (q : n.q = n'.q)
    (filters : n.filters = n'.filters) (extras : n.extras = n'.extras) :
    (compile cfg base n).counted = (compile cfg base n').counted := by
  simp only [compile, Compile.counted, q, filters, extras]

/-- The page of a request is its count with nothing changed but for an order and a range: the sort
keys with a field, in order, and the limit and the offset, whose values come after those of the
count. Requests that differ in their page, their order or what they pass through count the same. -/
theorem compile_paged (cfg : ListConfig) (base : Select) (n : Resolved X) (whole : base.IsWhole) :
    let c := compile cfg base n
    (c.counted.IsWhole ∧ c.range = Page.range n.page n.limit ∧
      c.paged = { c.counted with
        order := (n.sort.filter (·.field ≠ "")).map fun k => (.of base.table k.field, k.direction)
        limit := some n.limit
        offset := some c.range.1 }) ∧
      (∀ d, ∀ q ∈ [Query.rows c.counted, Query.count c.counted],
        ((Query.rows c.paged).statement d).values = (q.statement d).values ++
          [.int .bigUnsigned n.limit.toNat, .int .bigUnsigned c.range.1.toNat]) ∧
      (∀ d, ((Query.rows c.paged).statement d).text = ((Query.rows c.counted).statement d).text ++
        String.ofList (d.chars ((Query.rows c.counted).statement d).values.length
          (pageTokens c.paged.order n.limit c.range.1))) ∧
      ∀ n' : Resolved X, n'.q = n.q → n'.filters = n.filters → n'.extras = n.extras →
        (compile cfg base n').counted = c.counted := by
  intro c
  have counted := counted_isWhole cfg n whole
  have paged := paged_eq_page cfg base n
  rw [whole.order, List.nil_append] at paged
  have statement := counted.statement_page (n.orderOn base.table) n.limit c.range.1
  have order : c.paged.order = n.orderOn base.table := by
    rw [paged]
    rfl
  rw [← paged, ← order] at statement
  refine ⟨⟨counted, rfl, paged⟩, ?_, fun d => (statement d).1, ?_⟩
  · intro d q hq
    have values : (q.statement d).values = ((Query.rows c.counted).statement d).values := by
      rcases List.mem_pair.1 hq with rfl | rfl
      · rfl
      · rw [values_count, counted.unpaged]
    rw [values]
    exact (statement d).2
  · intro n' q filters extras
    exact counted_congr cfg base q filters extras

/-- A request that joins, orders by two keys of which one has no field, and has a page to itself. -/
def taggedThings : Resolved NoExtras where
  page := 3
  limit := 5
  q := some "x"
  sort := [⟨"", .asc⟩, ⟨"small", .desc⟩]
  filters := [⟨"tags", "t1", none, none⟩, ⟨"tiny", "1,2", some .oneOf, none⟩]
  extras := {}
  passthrough := []

theorem taggedThings_paged :
    let cfg := Catalog.things.config .postgres
    let c := compile cfg Catalog.things.base taggedThings
    Catalog.things.base.IsWhole ∧
      c.paged.order = [(.of "wide_things" "small", .desc)] ∧
      ((Query.rows c.paged).statement .postgres).values =
        ((Query.count c.counted).statement .postgres).values ++
          [.int .bigUnsigned 5, .int .bigUnsigned 10] ∧
      (compile cfg Catalog.things.base
        { taggedThings with page := 1, limit := 9, sort := [] }).counted = c.counted := by
  intro cfg c
  have whole : Catalog.things.base.IsWhole := ⟨rfl, rfl, rfl⟩
  obtain ⟨⟨-, -, paged⟩, values, -, same⟩ := compile_paged cfg Catalog.things.base taggedThings whole
  refine ⟨whole, ?_, ?_, same _ rfl rfl rfl⟩
  · rw [paged]
    decide
  · exact values .postgres (.count c.counted) (by simp [c])

end ListQuery
