import ListQuery.Proofs.Sql.Lexical
import ListQuery.Proofs.Sql.Truth

/-! What the text of a statement is made of: all predicates of its condition and all keys of its
order, with the names of their columns. -/
namespace ListQuery
namespace Sql

/-- A condition has a predicate, at any depth. -/
inductive Condition.Tests : Condition → Predicate → Prop where
  | test (p : Predicate) : Tests (.test p) p
  | member {negated : Bool} {j : Junction} {members : List Condition} {c : Condition}
      {p : Predicate} (mem : c ∈ members) (h : Tests c p) : Tests (.group negated j members) p

namespace Condition

variable {root c : Condition} {p : Predicate}

theorem tests_only (p : Predicate) : (only p).Tests p := .member List.mem_cons_self (.test p)

theorem Tests.unwrapped (h : c.Tests p) : c.unwrapped.Tests p := by
  unfold Condition.unwrapped
  split
  next =>
    cases h with
    | member mem h => rwa [← List.mem_singleton.1 mem]
  next => exact h

theorem Tests.add_left (h : root.Tests p) (c : Condition) : (root.add c).Tests p := by
  cases h with
  | test p => exact .member List.mem_cons_self (.test p)
  | member mem h => exact .member (List.mem_append_left _ mem) h

theorem Tests.add_right (h : c.Tests p) (root : Condition) : (root.add c).Tests p := by
  cases root with
  | test p => exact .member (List.mem_cons_of_mem _ List.mem_cons_self) h.unwrapped
  | group negated j members =>
    exact .member (List.mem_append_right _ List.mem_cons_self) h.unwrapped

theorem Tests.negate (h : c.Tests p) : c.negate.Tests p := by
  cases h with
  | test p => exact .member List.mem_cons_self (.test p)
  | member mem h => exact .member mem h

theorem Tests.narrow_left (h : root.Tests p) (c : Condition) : (root.narrow c).Tests p := by
  unfold narrow
  split
  next =>
    cases h with
    | member mem h => exact .member (List.mem_append_left _ mem) h
  next => exact h.add_left c
  next => exact (h.add_right all).add_left c

theorem Tests.narrow_right (h : c.Tests p) (root : Condition) : (root.narrow c).Tests p := by
  unfold narrow
  split
  next =>
    cases h with
    | member mem h => exact .member (List.mem_append_right _ mem) h
  next => exact h.add_right _
  next => exact h.add_right _

theorem Tests.foldl_add {α : Type} {f : α → Condition} {as : List α} {root : Condition}
    (h : root.Tests p ∨ ∃ a ∈ as, (f a).Tests p) :
    (as.foldl (fun g a => g.add (f a)) root).Tests p := by
  induction as generalizing root with
  | nil => simpa using h
  | cons a as ih =>
    apply ih
    rcases h with h | ⟨b, mem, h⟩
    · exact .inl (h.add_left _)
    · rcases List.mem_cons.1 mem with rfl | mem
      · exact .inl (h.add_right _)
      · exact .inr ⟨b, mem, h⟩

end Condition

section Tokens

variable {t : Token}

theorem mem_operand {b : Bool} {e : Expr} (h : t ∈ e.tokens) :
    t ∈ if b then e.tokens else parenthesized e.tokens := by
  cases b with
  | true => exact h
  | false => exact List.mem_cons_of_mem _ (List.mem_append_left _ h)

/-- What joins two expressions keeps the tokens of both, and so does a chain. -/
theorem mem_tokens_foldl {op : Expr → Expr → Expr} {es : List Expr} {e : Expr}
    (left : ∀ l r : Expr, t ∈ l.tokens → t ∈ (op l r).tokens)
    (right : ∀ l r : Expr, t ∈ r.tokens → t ∈ (op l r).tokens)
    (h : t ∈ e.tokens ∨ ∃ e ∈ es, t ∈ e.tokens) : t ∈ (es.foldl op e).tokens := by
  induction es generalizing e with
  | nil => simpa using h
  | cons e' es ih =>
    apply ih
    rcases h with h | ⟨i, mem, h⟩
    · exact .inl (left e e' h)
    · rcases List.mem_cons.1 mem with rfl | mem
      · exact .inl (right e i h)
      · exact .inr ⟨i, mem, h⟩

theorem mem_tokens_chain (j : Junction) {es : List Expr} {e : Expr} (mem : e ∈ es)
    (h : t ∈ e.tokens) : t ∈ (j.chain es).tokens := by
  cases es with
  | nil => cases mem
  | cons e' es =>
    have found : t ∈ e'.tokens ∨ ∃ e ∈ es, t ∈ e.tokens := by
      rcases List.mem_cons.1 mem with rfl | mem
      · exact .inl h
      · exact .inr ⟨e, mem, h⟩
    cases j with
    | all =>
      refine mem_tokens_foldl (fun l r h => ?_) (fun l r h => ?_) found
      · exact List.mem_append_left _ (mem_operand h)
      · exact List.mem_append_right _ (List.mem_cons_of_mem _ (mem_operand h))
    | any =>
      refine mem_tokens_foldl (fun l r h => ?_) (fun l r h => ?_) found
      · exact List.mem_append_left _ (mem_operand h)
      · exact List.mem_append_right _ (List.mem_cons_of_mem _ (mem_operand h))

theorem Condition.Tests.mem_tokens {c : Condition} {p : Predicate} (h : c.Tests p)
    (mem : t ∈ p.tokens) : t ∈ c.expr.tokens := by
  induction h with
  | test p =>
    rw [Condition.expr]
    exact mem
  | @member negated j members c p inside _ ih =>
    have chain : t ∈ (j.chain (exprs members)).tokens := by
      rw [exprs_value]
      exact mem_tokens_chain j (List.mem_map_of_mem inside) (ih mem)
    rw [Condition.expr]
    cases negated with
    | true => exact List.mem_cons_of_mem _ (mem_operand chain)
    | false => exact chain

theorem mem_separated {separator : String} {tss : List (List Token)} {ts : List Token}
    (listed : ts ∈ tss) (mem : t ∈ ts) : t ∈ separated separator tss := by
  induction tss with
  | nil => cases listed
  | cons us tss ih =>
    cases tss with
    | nil => rwa [← List.mem_singleton.1 listed]
    | cons us' tss =>
      rcases List.mem_cons.1 listed with rfl | later
      · exact List.mem_append_left _ mem
      · exact List.mem_append_right _ (List.mem_cons_of_mem _ (ih later))

end Tokens

theorem Column.name_mem_tokens (c : Column) : .name c.name ∈ c.tokens := by
  unfold Column.tokens
  split <;> simp

/-- A predicate names its column, unless it asks for one of no values. -/
theorem Predicate.name_mem_tokens {p : Predicate} (h : ∀ c, p ≠ .oneOf c []) :
    .name p.column.name ∈ p.tokens := by
  have column := p.column.name_mem_tokens
  cases p with
  | like c pattern => exact List.mem_cons_of_mem _ (List.mem_append_left _ column)
  | oneOf c values =>
    cases values with
    | nil => exact absurd rfl (h c)
    | cons v vs => exact List.mem_append_left _ column
  | _ => exact List.mem_append_left _ column

namespace Select

variable {s : Select} {c : Condition} {p : Predicate} {t : Token}

/-- The condition of a statement has a predicate. -/
def Tests (s : Select) (p : Predicate) : Prop := ∃ c ∈ s.condition, c.Tests p

theorem Tests.restrict_left (h : s.Tests p) (c : Condition) : (s.restrict c).Tests p := by
  obtain ⟨root, found, h⟩ := h
  refine ⟨_, rfl, ?_⟩
  rw [Option.mem_def.1 found]
  exact h.narrow_left c

theorem tests_restrict (h : c.Tests p) (s : Select) : (s.restrict c).Tests p := by
  refine ⟨_, rfl, ?_⟩
  cases s.condition with
  | none => exact h
  | some root => exact h.narrow_right root

theorem Tests.mem_tokens (h : s.Tests p) (mem : t ∈ p.tokens) : t ∈ s.tokens := by
  obtain ⟨c, found, h⟩ := h
  have inside : t ∈ conditionTokens s.condition := by
    rw [Option.mem_def.1 found]
    exact List.mem_cons_of_mem _ (h.mem_tokens mem)
  simp only [Select.tokens, List.mem_cons, List.mem_append, inside, true_or, or_true]

/-- An order and a range take nothing from the condition. -/
theorem Tests.mem_tokens_count (h : s.Tests p) (mem : t ∈ p.tokens) :
    t ∈ (Query.count s).tokens := by
  have unpaged : s.unpaged.Tests p := h
  exact List.mem_cons_of_mem _ (List.mem_append_left _ (unpaged.mem_tokens mem))

theorem mem_tokens_of_order {k : Column × Direction} (key : k ∈ s.order) (mem : t ∈ k.1.tokens) :
    t ∈ s.tokens := by
  have inside : t ∈ orderByTokens s.order := by
    rw [orderByTokens, if_neg (by simpa using List.ne_nil_of_mem key)]
    exact List.mem_cons_of_mem _ (mem_separated (List.mem_map_of_mem key)
      (List.mem_append_left _ mem))
  simp only [Select.tokens, List.mem_cons, List.mem_append, inside, true_or, or_true]

end Select
end Sql
end ListQuery
