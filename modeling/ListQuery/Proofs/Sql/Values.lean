import ListQuery.Relation
import ListQuery.Sql.Statement

/-! The values that statements bind, in the order of their tokens. Names and words bind nothing. -/
namespace ListQuery
namespace Sql

/-- Later tokens go on counting placeholders where earlier ones stopped. -/
theorem Dialect.chars_append (d : Dialect) (k : Nat) (ts us : List Token) :
    d.chars k (ts ++ us) = d.chars k ts ++ d.chars (k + (ts.filterMap Token.value?).length) us := by
  induction ts generalizing k with
  | nil => rfl
  | cons t ts ih =>
    cases t with
    | word w => simp [Dialect.chars, ih, List.filterMap_cons, Token.value?]
    | name s => simp [Dialect.chars, ih, List.filterMap_cons, Token.value?]
    | bind v =>
      simp only [List.cons_append, Dialect.chars, ih, List.filterMap_cons, Token.value?,
        List.length_cons, List.append_assoc]
      rw [Nat.add_right_comm, Nat.add_assoc]

theorem values_column (c : Column) : c.tokens.filterMap Token.value? = [] := by
  unfold Column.tokens
  split <;> rfl

theorem values_output (o : Output) : o.tokens.filterMap Token.value? = [] := by
  cases o with
  | column c => exact values_column c
  | star table => rfl

theorem values_join (j : Join) : j.tokens.filterMap Token.value? = [] := by
  simp only [Join.tokens, List.filterMap_cons, Token.value?, List.filterMap_append, values_column,
    List.append_nil]

theorem values_order (k : Column × Direction) : (orderTokens k).filterMap Token.value? = [] := by
  rw [orderTokens, List.filterMap_append, values_column]
  rfl

/-- Separators bind nothing. -/
theorem values_separated (separator : String) (tss : List (List Token)) :
    (separated separator tss).filterMap Token.value? =
      tss.flatMap (·.filterMap Token.value?) := by
  induction tss with
  | nil => rfl
  | cons ts tss ih =>
    cases tss with
    | nil => simp [separated]
    | cons us tss =>
      have split : separated separator (ts :: us :: tss) =
          ts ++ .word separator :: separated separator (us :: tss) := rfl
      rw [split, List.filterMap_append, List.flatMap_cons, ← ih]
      rfl

/-- Columns to order by bind nothing. -/
theorem values_orderByTokens (keys : List (Column × Direction)) :
    (orderByTokens keys).filterMap Token.value? = [] := by
  have each : (keys.map orderTokens).flatMap (·.filterMap Token.value?) = [] := by
    simp only [List.flatMap_map, values_order, List.flatMap_eq_nil_iff, implies_true]
  unfold orderByTokens
  split
  · rfl
  · rw [List.filterMap_cons, values_separated, each]
    rfl

/-- A count binds what the counted statement binds without its range. -/
theorem values_count (s : Select) (d : Dialect) :
    ((Query.count s).statement d).values = ((Query.rows s.unpaged).statement d).values := by
  simp only [Query.statement, Query.tokens, List.filterMap_cons, List.filterMap_append]
  simp [Token.value?]

/-- Values to be among are bound in order. Without any, no list is written. -/
theorem values_oneOf (c : Column) {values : List Value} (h : values ≠ []) :
    (Predicate.oneOf c values).tokens.filterMap Token.value? = values := by
  have listed : (values.map ([Token.bind ·])).flatMap (·.filterMap Token.value?) = values := by
    simp [List.flatMap_map, Token.value?]
  cases values with
  | nil => exact absurd rfl h
  | cons v vs =>
    have tokens : (Predicate.oneOf c (v :: vs)).tokens =
        c.tokens ++ .word " IN (" ::
          (separated ", " ((v :: vs).map ([.bind ·])) ++ [.word ")"]) := rfl
    rw [tokens, List.filterMap_append, values_column, List.filterMap_cons,
      List.filterMap_append, values_separated, listed]
    simp [Token.value?]

end Sql

/-- The lookup of a relation binds its keys and nothing else. -/
theorem Relation.values_lookup (r : Relation) {keys : List Sql.Value} (h : keys ≠ [])
    (d : Sql.Dialect) : ((Sql.Query.rows (r.lookup keys)).statement d).values = keys := by
  have outputs : ((r.lookup keys).outputs.map Sql.Output.tokens).flatMap
      (·.filterMap Sql.Token.value?) = [] := by
    simp only [List.flatMap_map, Sql.values_output, List.flatMap_eq_nil_iff, implies_true]
  have joins : ((r.lookup keys).joins.flatMap Sql.Join.tokens).filterMap Sql.Token.value? = [] := by
    simp only [List.filterMap_flatMap, Sql.values_join, List.flatMap_eq_nil_iff, implies_true]
  have condition : (Sql.conditionTokens (r.lookup keys).condition).filterMap Sql.Token.value? =
      keys := by
    exact Sql.values_oneOf r.localColumn h
  simp only [Sql.Query.statement, Sql.Query.tokens, Sql.Select.tokens, List.filterMap_cons,
    List.filterMap_append, Sql.values_separated, outputs, joins, condition,
    Sql.values_orderByTokens]
  simp [Sql.Token.value?, Sql.boundTokens, Relation.lookup]

end ListQuery
