import ListQuery.Filter.Predicate
import ListQuery.Proofs.Sql.Alike
import ListQuery.Proofs.Sql.Naming

/-! What of a filter decides the build of its condition: the operator, and of the value only how
many items it lists, whether it is null, and which terms it asks for. All the rest of the value is
bound, and the field is a name. -/
namespace ListQuery

open Sql

variable {R : String → String → Prop} {column column' : Column}

/-- What of an operand is seen in the condition that is built with it. -/
structure OperandOutline where
  /-- The length of a list. -/
  items : Nat := 0
  null : Bool := false
  /-- The terms of a search by patterns, alternative by alternative: negated or not. -/
  terms : List (List Bool) := []
deriving DecidableEq

namespace TextSearch

def outline (mode : TextSearch) (query : List Char) : List (List Bool) :=
  match mode with
  | .phrase => []
  | .plain => [(Text.wordsOf query).map fun _ => false]
  | .web => (WebQuery.groups query).map (·.map (·.negated))

theorem alike_like (h : column.Alike R column') (text text' : String) :
    (Condition.test (like column text)).Alike R (.test (like column' text')) :=
  Condition.alike_test (.like h _ _)

theorem alike_groupCondition (h : column.Alike R column') {g g' : List WebQuery.Term}
    (hg : g.map (·.negated) = g'.map (·.negated)) :
    (groupCondition column g).Alike R (groupCondition column' g') := by
  apply Condition.alike_foldl_add _ (forall₂_of_map_eq hg) Condition.alike_all
  intro t t' ht
  have term := alike_like h (String.ofList t.text) (String.ofList t'.text)
  rw [ht]
  cases t'.negated with
  | false => exact term
  | true => exact (Condition.alike_all.add term).negate

theorem alike_byPatterns (mode : TextSearch) (h : column.Alike R column') {query query' : List Char}
    (outline_eq : outline mode query = outline mode query') :
    (byPatterns mode column query).Alike R (byPatterns mode column' query') := by
  cases mode with
  | phrase => exact Condition.alike_only (.like h _ _)
  | plain =>
    simp only [outline, List.cons.injEq, and_true] at outline_eq
    apply Condition.alike_foldl_add _ (forall₂_of_map_eq outline_eq) Condition.alike_all
    intro w w' _
    exact alike_like h _ _
  | web =>
    have groups := forall₂_of_map_eq outline_eq
    simp only [byPatterns]
    generalize WebQuery.groups query = gs at groups
    generalize WebQuery.groups query' = gs' at groups
    cases groups with
    | nil => exact Condition.alike_all
    | cons first rest =>
      refine Condition.alike_foldl_add ?_ (List.Forall₂.cons first rest) Condition.alike_any
      intro g g' hg
      exact alike_groupCondition h hg

/-- Where the database has full-text search, the query is bound as it is. -/
def outlineIn (d : Dialect) (mode : TextSearch) (query : String) : List (List Bool) :=
  match d with
  | .postgres => []
  | _ => outline mode (truncated query.toList)

theorem alike_fulltext (ctx : SearchContext) (mode : TextSearch) (h : column.Alike R column')
    {query query' : String}
    (outline_eq : outlineIn ctx.dialect mode query = outlineIn ctx.dialect mode query') :
    (fulltext ctx mode column query).Alike R (fulltext ctx mode column' query') := by
  unfold fulltext
  cases hd : ctx.dialect with
  | postgres => exact Condition.alike_only (.fulltext mode h _ _ _ _)
  | sqlite | mysql =>
    rw [hd] at outline_eq
    exact alike_byPatterns mode h outline_eq

/-- A search by patterns has a pattern for its phrase, and for every term or word that it asks
for. -/
theorem tests_byPatterns (mode : TextSearch) (column : Column) {query : List Char}
    (h : mode = .phrase ∨ (outline mode query).flatten ≠ []) :
    ∃ text, (byPatterns mode column query).Tests (like column text) := by
  cases mode with
  | phrase => exact ⟨_, Condition.tests_only _⟩
  | plain =>
    have words : Text.wordsOf query ≠ [] := by simpa [outline] using h
    obtain ⟨w, hw⟩ := List.exists_mem_of_ne_nil _ words
    exact ⟨_, Condition.Tests.foldl_add (.inr ⟨w, hw, .test _⟩)⟩
  | web =>
    have terms : (outline .web query).flatten ≠ [] := h.resolve_left (by simp)
    obtain ⟨b, hb⟩ := List.exists_mem_of_ne_nil _ terms
    obtain ⟨_, listed, hb⟩ := List.mem_flatten.1 hb
    obtain ⟨g, hg, rfl⟩ := List.mem_map.1 listed
    obtain ⟨t, ht, -⟩ := List.mem_map.1 hb
    have term : (groupCondition column g).Tests (like column (String.ofList t.text)) := by
      refine Condition.Tests.foldl_add (.inr ⟨t, ht, ?_⟩)
      cases t.negated with
      | false => exact .test _
      | true =>
        exact (Condition.Tests.add_right (.test _) Condition.all).negate
    refine ⟨String.ofList t.text, ?_⟩
    simp only [byPatterns]
    generalize WebQuery.groups query = gs at hg
    cases gs with
    | nil => cases hg
    | cons first rest => exact Condition.Tests.foldl_add (.inr ⟨g, hg, term⟩)

theorem tests_fulltext (ctx : SearchContext) (mode : TextSearch) (column : Column) {query : String}
    (h : mode = .phrase ∨ ctx.dialect = .postgres ∨
      (outlineIn ctx.dialect mode query).flatten ≠ []) :
    ∃ p, (fulltext ctx mode column query).Tests p ∧ .name column.name ∈ p.tokens := by
  unfold fulltext
  cases hd : ctx.dialect with
  | postgres =>
    exact ⟨_, Condition.tests_only _, Predicate.name_mem_tokens (by intro c h; cases h)⟩
  | sqlite | mysql =>
    rw [hd] at h
    obtain ⟨text, tests⟩ := tests_byPatterns mode column (by simpa [outlineIn] using h)
    exact ⟨_, tests, Predicate.name_mem_tokens (by intro c h; cases h)⟩

end TextSearch

namespace Operator

def outline (o : Operator) (d : Dialect) (text : String) : OperandOutline :=
  match o with
  | .oneOf => { items := (Operand.itemsOf text.toList).length }
  | .is => { null := text = "null" }
  | .web => { terms := TextSearch.outlineIn d .web (Operand.coerce text o).asText }
  | .plain => { terms := TextSearch.outlineIn d .plain (Operand.coerce text o).asText }
  | .phrase => { terms := TextSearch.outlineIn d .phrase (Operand.coerce text o).asText }
  | _ => {}

theorem conditionOf_is_of_ne (ctx : SearchContext) (column : Column) {text : String}
    (h : text ≠ "null") :
    Operator.is.conditionOf ctx column text =
      .only (.is column (Operand.coerce text .is).toValue) := by
  have notNull : Operand.coerce text .is ≠ .null := by
    simp only [Operand.coerce, if_neg h]
    split
    · simp
    · split <;> simp
  unfold conditionOf
  cases operand : Operand.coerce text .is with
  | null => exact absurd operand notNull
  | _ => rfl

/-- Conditions with one operator are alike if their operands are seen alike. -/
theorem alike_conditionOf (o : Operator) (ctx : SearchContext) (h : column.Alike R column')
    {text text' : String} (outline_eq : o.outline ctx.dialect text = o.outline ctx.dialect text') :
    (o.conditionOf ctx column text).Alike R (o.conditionOf ctx column' text') := by
  cases o with
  | eq | ne | lt | le | gt | ge => exact Condition.alike_only (.compare _ h _ _)
  | like | ilike => exact Condition.alike_only (.like h _ _)
  | oneOf =>
    have length : (Operand.itemsOf text.toList).length = (Operand.itemsOf text'.toList).length :=
      congrArg OperandOutline.items outline_eq
    apply Condition.alike_only
    apply Predicate.Alike.oneOf h
    simpa [Operand.coerce, Operand.toValues] using length
  | is =>
    have null : (text = "null") ↔ (text' = "null") :=
      decide_eq_decide.1 (congrArg OperandOutline.null outline_eq)
    by_cases ht : text = "null"
    · obtain rfl := ht
      obtain rfl := null.1 rfl
      exact Condition.alike_only (.isNull h)
    · rw [conditionOf_is_of_ne ctx column ht, conditionOf_is_of_ne ctx column' (mt null.2 ht)]
      exact Condition.alike_only (.is h _ _)
  | web | plain | phrase =>
    exact TextSearch.alike_fulltext ctx _ h (congrArg OperandOutline.terms outline_eq)

/-- Whether the condition with such an operand looks at its column. To be one of an empty list is a
constant, and so is a search for no terms. -/
def Looks (o : Operator) (d : Dialect) (operand : OperandOutline) : Prop :=
  match o with
  | .oneOf => operand.items ≠ 0
  | .web | .plain => d = .postgres ∨ operand.terms.flatten ≠ []
  | _ => True

theorem tests_conditionOf (o : Operator) (ctx : SearchContext) (column : Column) {text : String}
    (looks : o.Looks ctx.dialect (o.outline ctx.dialect text)) :
    ∃ p, (o.conditionOf ctx column text).Tests p ∧ .name column.name ∈ p.tokens := by
  have single {p : Predicate} (on : p.column = column) (h : ∀ c, p ≠ .oneOf c []) :
      ∃ q, (Condition.only p).Tests q ∧ .name column.name ∈ q.tokens :=
    ⟨p, Condition.tests_only p, on ▸ p.name_mem_tokens h⟩
  cases o with
  | eq | ne | lt | le | gt | ge | like | ilike => exact single rfl (by intro c h; cases h)
  | oneOf =>
    refine single rfl fun c same => looks ?_
    have none : Operand.toValues (Operand.coerce text .oneOf) = [] := (Predicate.oneOf.inj same).2
    simpa [outline, Operand.coerce, Operand.toValues] using none
  | is =>
    by_cases ht : text = "null"
    · obtain rfl := ht
      exact single (p := .isNull column) rfl (by intro c h; cases h)
    · rw [conditionOf_is_of_ne ctx column ht]
      exact single rfl (by intro c h; cases h)
  | web => exact TextSearch.tests_fulltext ctx .web column (.inr looks)
  | plain => exact TextSearch.tests_fulltext ctx .plain column (.inr looks)
  | phrase => exact TextSearch.tests_fulltext ctx .phrase column (.inl rfl)

end Operator

/-- Nothing of a value is seen under a negation. -/
theorem Negation.alike_conditionOf (n : Negation) (ctx : SearchContext)
    (h : column.Alike R column') (text text' : String) :
    (n.conditionOf ctx column text).Alike R (n.conditionOf ctx column' text') := by
  apply Condition.Alike.negate
  apply Operator.alike_conditionOf n.operator ctx h
  cases n <;> rfl

namespace Filter

variable {f f' : Filter} {s s' : Select}

theorem alike_restrictNegation (ctx : SearchContext) (h : column.Alike R column')
    (negation : f.negation = f'.negation) (hs : s.Alike R s') :
    (f.restrictNegation ctx column s).Alike R (f'.restrictNegation ctx column' s') := by
  unfold restrictNegation
  rw [negation]
  cases f'.negation with
  | none => exact hs
  | some n => exact hs.restrict (n.alike_conditionOf ctx h _ _)

theorem alike_restrict (ctx : SearchContext) (h : column.Alike R column')
    (operator : f.operator = f'.operator) (negation : f.negation = f'.negation)
    (outline_eq : (f.operator.getD .eq).outline ctx.dialect f.value =
      (f.operator.getD .eq).outline ctx.dialect f'.value) (hs : s.Alike R s') :
    (f.restrict ctx column s).Alike R (f'.restrict ctx column' s') := by
  unfold restrict
  rw [← operator]
  apply alike_restrictNegation ctx h negation
  exact hs.restrict ((f.operator.getD .eq).alike_conditionOf ctx h outline_eq)

end Filter
end ListQuery
