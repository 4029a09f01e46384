import ListQuery.Compile
import ListQuery.Proofs.Sql.Truth

/-! What filters ask of a column, said without conditions: the truth of operators, of text searches
and of filters from the truth of predicates. The conditions they compile to have this truth. -/
namespace ListQuery

open Sql

variable (v : Predicate → Truth)

namespace TextSearch

def likeTruth (column : Column) (text : List Char) : Truth :=
  v (like column (String.ofList text))

def termTruth (column : Column) (t : WebQuery.Term) : Truth :=
  if t.negated then (likeTruth v column t.text).not else likeTruth v column t.text

/-- A web query without a term asks for nothing. -/
def patternsTruth (mode : TextSearch) (column : Column) (query : List Char) : Truth :=
  match mode with
  | .phrase => likeTruth v column query
  | .plain => .all ((Text.wordsOf query).map (likeTruth v column))
  | .web =>
    if WebQuery.groups query = [] then .true
    else .any ((WebQuery.groups query).map fun g => .all (g.map (termTruth v column)))

def fulltextTruth (ctx : SearchContext) (mode : TextSearch) (column : Column) (query : String) :
    Truth :=
  match ctx.dialect with
  | .postgres =>
    v (.fulltext mode column ctx.language (String.ofList (truncated query.toList)))
  | _ => patternsTruth v mode column (truncated query.toList)

/-- Free text in any of the columns; blank text and a search without columns ask for nothing. -/
def freeTextTruth (query : String) (columns : List Column) : Truth :=
  if truncated query.toList = [] ∨ columns = [] then .true
  else .any (columns.map fun c => likeTruth v c (truncated query.toList))

theorem holds_like (column : Column) (text : List Char) :
    v (like column (String.ofList text)) = likeTruth v column text := rfl

theorem truth_groupCondition (column : Column) (g : List WebQuery.Term) :
    (groupCondition column g).truth v = .all (g.map (termTruth v column)) := by
  have absent (text : List Char) :
      (Condition.all.add (.test (like column (String.ofList text)))).negate.truth v =
        (likeTruth v column text).not := by
    rw [Condition.truth_negate, Condition.all, Condition.truth_add_all]
    simp [Condition.truth_group, Junction.truth, holds_like]
  unfold groupCondition
  rw [Condition.all, Condition.foldl_add, Condition.truth_group, ← Condition.all]
  simp only [Junction.truth, List.nil_append, List.map_map, Bool.false_eq_true, if_false]
  apply congrArg Truth.all
  apply List.map_congr_left
  intro t _
  rw [Function.comp, Condition.truth_unwrapped, termTruth]
  split
  · exact absent t.text
  · exact Condition.truth_test v _

theorem truth_byPatterns (mode : TextSearch) (column : Column) (query : List Char) :
    (byPatterns mode column query).truth v = patternsTruth v mode column query := by
  cases mode with
  | phrase => simp [byPatterns, patternsTruth, holds_like]
  | plain =>
    simp [byPatterns, patternsTruth, Condition.all, Condition.foldl_add, Condition.truth_group,
      Junction.truth, Function.comp_def, holds_like]
  | web =>
    simp only [byPatterns, patternsTruth]
    split
    next h => simp [h]
    next h =>
      rw [if_neg h, Condition.any, Condition.foldl_add]
      simp [Condition.truth_group, Junction.truth, Function.comp_def, truth_groupCondition]

theorem truth_fulltext (ctx : SearchContext) (mode : TextSearch) (column : Column)
    (query : String) :
    (fulltext ctx mode column query).truth v = fulltextTruth v ctx mode column query := by
  unfold fulltext fulltextTruth
  cases ctx.dialect <;> simp [truth_byPatterns]

/-- Where there is no condition for free text, it asks for nothing. -/
theorem truth_freeText (query : String) (columns : List Column) :
    ((freeText? query columns).map (Condition.truth v)).getD .true =
      freeTextTruth v query columns := by
  unfold freeText? freeTextTruth
  simp only [Bool.or_eq_true, List.isEmpty_iff]
  split
  next h => rfl
  next h =>
    rw [Condition.any, Option.map_some, Option.getD_some, Condition.foldl_add]
    simp [Condition.truth_group, Junction.truth, Function.comp_def, holds_like]

section Congruence

variable {v v' : Predicate → Truth} {column : Column}

theorem likeTruth_congr (h : ∀ p, p.column = column → v p = v' p) :
    likeTruth v column = likeTruth v' column := by
  funext text
  exact h _ rfl

theorem termTruth_congr (h : ∀ p, p.column = column → v p = v' p) :
    termTruth v column = termTruth v' column := by
  funext t
  simp only [termTruth, likeTruth_congr h]

theorem fulltextTruth_congr (h : ∀ p, p.column = column → v p = v' p) (ctx : SearchContext)
    (mode : TextSearch) (query : String) :
    fulltextTruth v ctx mode column query = fulltextTruth v' ctx mode column query := by
  unfold fulltextTruth
  split
  · exact h _ rfl
  · simp only [patternsTruth, likeTruth_congr h, termTruth_congr h]

theorem freeTextTruth_congr {columns : List Column}
    (h : ∀ p, p.column ∈ columns → v p = v' p) (query : String) :
    freeTextTruth v query columns = freeTextTruth v' query columns := by
  have each : columns.map (fun c => likeTruth v c (truncated query.toList)) =
      columns.map (fun c => likeTruth v' c (truncated query.toList)) := by
    apply List.map_congr_left
    intro c hc
    exact h _ hc
  simp only [freeTextTruth, each]

end Congruence

end TextSearch

namespace Operator

def truth (o : Operator) (ctx : SearchContext) (column : Column) (operand : Operand) : Truth :=
  match o with
  | .eq => v (.compare .eq column operand.toValue)
  | .ne => v (.compare .ne column operand.toValue)
  | .lt => v (.compare .lt column operand.toValue)
  | .le => v (.compare .le column operand.toValue)
  | .gt => v (.compare .gt column operand.toValue)
  | .ge => v (.compare .ge column operand.toValue)
  | .like | .ilike => v (TextSearch.like column operand.asText)
  | .oneOf => v (.oneOf column operand.toValues)
  | .is =>
    match operand with
    | .null => v (.isNull column)
    | o => v (.is column o.toValue)
  | .web => TextSearch.fulltextTruth v ctx .web column operand.asText
  | .plain => TextSearch.fulltextTruth v ctx .plain column operand.asText
  | .phrase => TextSearch.fulltextTruth v ctx .phrase column operand.asText

/-- The truth for the text of a filter, coerced for the operator. -/
def truthOf (o : Operator) (ctx : SearchContext) (column : Column) (text : String) : Truth :=
  o.truth v ctx column (Operand.coerce text o)

theorem truth_condition (o : Operator) (ctx : SearchContext) (column : Column)
    (operand : Operand) :
    (o.condition ctx column operand).truth v = o.truth v ctx column operand := by
  cases o with
  | is => cases operand <;> simp [condition, truth]
  | web | plain | phrase => exact TextSearch.truth_fulltext v ctx _ column _
  | _ => simp [condition, truth]

@[simp] theorem truth_conditionOf (o : Operator) (ctx : SearchContext) (column : Column)
    (text : String) : (o.conditionOf ctx column text).truth v = o.truthOf v ctx column text :=
  truth_condition v o ctx column _

theorem truthOf_congr {v v' : Predicate → Truth} {column : Column}
    (h : ∀ p, p.column = column → v p = v' p) (o : Operator) (ctx : SearchContext)
    (text : String) : o.truthOf v ctx column text = o.truthOf v' ctx column text := by
  unfold truthOf truth
  cases o with
  | is =>
    simp only
    split <;> exact h _ rfl
  | web | plain | phrase => exact TextSearch.fulltextTruth_congr h ..
  | _ => exact h _ rfl

end Operator

@[simp] theorem Negation.truth_conditionOf (n : Negation) (ctx : SearchContext) (column : Column)
    (text : String) :
    (n.conditionOf ctx column text).truth v = (n.operator.truthOf v ctx column text).not := by
  simp [conditionOf, condition, Operator.truth_condition, Operator.truthOf]

namespace Filter

/-- The operator that a filter asks for: equality if nothing is set, none with a negation alone. -/
def positive? (f : Filter) : Option Operator :=
  match f.operator, f.negation with
  | some o, _ => some o
  | none, none => some .eq
  | none, some _ => none

def positiveTruth (f : Filter) (ctx : SearchContext) (column : Column) : Truth :=
  match f.positive? with
  | some o => o.truthOf v ctx column f.value
  | none => .true

def negationTruth (f : Filter) (ctx : SearchContext) (column : Column) : Truth :=
  match f.negation with
  | some n => (n.operator.truthOf v ctx column f.value).not
  | none => .true

/-- The truth of a filter on a column: its operator holds and its negation does not. -/
def truth (f : Filter) (ctx : SearchContext) (column : Column) : Truth :=
  (f.positiveTruth v ctx column).and (f.negationTruth v ctx column)

theorem restrictNegation_narrowed (f : Filter) (ctx : SearchContext) (column : Column)
    (s : Select) :
    s.Narrowed v (f.negationTruth v ctx column) (f.restrictNegation ctx column s) := by
  unfold restrictNegation negationTruth
  cases f.negation with
  | none => exact .refl v s
  | some n => simpa using Select.Narrowed.restrict v s (n.conditionOf ctx column f.value)

/-- A filter that is not a negation alone narrows by its truth. -/
theorem restrict_narrowed {f : Filter} (h : ¬ (f.operator.isNone && f.negation.isSome) = true)
    (ctx : SearchContext) (column : Column) (s : Select) :
    s.Narrowed v (f.truth v ctx column) (f.restrict ctx column s) := by
  have positive : f.positiveTruth v ctx column =
      (f.operator.getD .eq).truthOf v ctx column f.value := by
    unfold positiveTruth positive?
    rcases ho : f.operator with _ | o <;> rcases hn : f.negation with _ | n <;> simp_all
  have step := Select.Narrowed.restrict v s
    ((f.operator.getD .eq).conditionOf ctx column f.value)
  rw [Operator.truth_conditionOf, ← positive] at step
  exact step.trans (restrictNegation_narrowed v f ctx column _)

/-- A negation alone is the whole truth of its filter. -/
theorem truth_of_negation_alone {f : Filter} (h : (f.operator.isNone && f.negation.isSome) = true)
    (ctx : SearchContext) (column : Column) :
    f.truth v ctx column = f.negationTruth v ctx column := by
  unfold truth positiveTruth positive?
  rcases ho : f.operator with _ | o <;> rcases hn : f.negation with _ | n <;> simp_all

theorem truth_congr {v v' : Predicate → Truth} {column : Column}
    (h : ∀ p, p.column = column → v p = v' p) (f : Filter) (ctx : SearchContext) :
    f.truth v ctx column = f.truth v' ctx column := by
  simp only [truth, positiveTruth, negationTruth, Operator.truthOf_congr h]

end Filter

namespace Relation

/-- The truth of a filter on the relation field: membership with the list operator, a negation
where it stands alone, and equality otherwise. -/
def truth (r : Relation) (ctx : SearchContext) (f : Filter) : Truth :=
  match f.operator, f.negation with
  | some .oneOf, _ => v (.oneOf r.foreignColumn (Operand.coerce f.value .oneOf).toValues)
  | none, some n => (n.operator.truthOf v ctx r.foreignColumn f.value).not
  | _, _ => v (.compare .eq r.foreignColumn (Operand.coerce f.value .eq).toValue)

theorem truth_relationCondition (r : Relation) (ctx : SearchContext) (f : Filter) :
    (Compile.relationCondition ctx r f).truth v = r.truth v ctx f := by
  unfold Compile.relationCondition truth
  rcases f.operator with _ | o
  · rcases f.negation with _ | n
    · exact Operator.truth_conditionOf v .eq ctx _ _
    · exact Negation.truth_conditionOf v n ctx _ _
  · cases o <;> simp [Operator.truthOf, Operator.truth]

theorem truth_congr {v v' : Predicate → Truth} {r : Relation}
    (h : ∀ p, p.column = r.foreignColumn → v p = v' p) (ctx : SearchContext) (f : Filter) :
    r.truth v ctx f = r.truth v' ctx f := by
  unfold truth
  split
  · exact h _ rfl
  · rw [Operator.truthOf_congr h]
  · exact h _ rfl

end Relation
end ListQuery
