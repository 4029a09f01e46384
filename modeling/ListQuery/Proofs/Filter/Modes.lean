import ListQuery.Proofs.Filter.Truth
import ListQuery.Proofs.Filter.Words

/-! Full-text search by patterns, mode by mode: what the condition of a web query says, and where it
says the same as the conditions of the two plainer modes. -/
namespace ListQuery
namespace TextSearch

open Sql WebQuery

section Web

variable (column : Column)

/-- A term as a member of its alternative. -/
def literal (t : Term) : Condition :=
  let matched := Condition.test (like column (String.ofList t.text))
  if t.negated then .group true .all [matched] else matched

/-- An alternative as a member of the whole; one of a single term is that term. -/
def alternative : List Term → Condition
  | [t] => literal column t
  | g => .group false .all (g.map (literal column))

theorem groupCondition_eq (g : List Term) :
    groupCondition column g = .group false .all (g.map (literal column)) := by
  unfold groupCondition
  rw [Condition.all, Condition.foldl_add, List.nil_append]
  apply congrArg (Condition.group false .all)
  apply List.map_congr_left
  intro t _
  unfold literal
  cases t.negated <;> rfl

theorem unwrapped_groupCondition (g : List Term) :
    (groupCondition column g).unwrapped = alternative column g := by
  rw [groupCondition_eq]
  match g with
  | [] => rfl
  | [t] => rfl
  | t :: u :: g => rfl

/-- Alternatives and terms that stand alone are not wrapped, and no negation is lost thereby. -/
theorem byPatterns_web (query : List Char) :
    byPatterns .web column query =
      if groups query = [] then .all
      else .group false .any ((groups query).map (alternative column)) := by
  simp only [byPatterns]
  split
  next none => rw [if_pos none]
  next some =>
    rw [if_neg some, Condition.any, Condition.foldl_add, List.nil_append]
    simp only [unwrapped_groupCondition]

end Web

variable (v : Predicate → Truth) (column : Column)

/-- The condition of a web query asks for one of its alternatives, and each alternative for all of
its terms, the negated ones absent; without alternatives it asks for nothing. So does the expression
that is written for it. -/
theorem byPatterns_web_means (query : List Char) :
    let condition := byPatterns .web column query
    let meaning :=
      if groups query = [] then Truth.true
      else .any ((groups query).map fun g => .all (g.map fun t =>
        let matched := v (like column (String.ofList t.text))
        if t.negated then matched.not else matched))
    condition =
        (if groups query = [] then .all
        else .group false .any ((groups query).map (alternative column))) ∧
      condition.truth v = meaning ∧ condition.expr.eval v = meaning := by
  intro condition meaning
  have tree : condition.truth v = meaning := truth_byPatterns v .web column query
  exact ⟨byPatterns_web column query, tree, (condition.eval_expr v).trans tree⟩

/-- A query of plain words is one alternative of them all. -/
theorem patternsTruth_of_isPlain {query : List Char} (h : IsPlain query) :
    patternsTruth v .web column query = patternsTruth v .plain column query := by
  have scanned : scan query = ((Text.wordsOf query).map fun word => ⟨word, false⟩).map .term := by
    rw [scan_plain h, List.map_map]
    rfl
  unfold patternsTruth
  rw [groups_of_scan scanned]
  by_cases none : Text.wordsOf query = []
  · simp [none]
  · simp [none, Function.comp_def, termTruth]

/-- A phrase between quotes is one term. -/
theorem patternsTruth_of_quoted {phrase : List Char} (nonempty : phrase ≠ [])
    (trimmed : Text.trimmed phrase = phrase) (quote : '"' ∉ phrase) :
    patternsTruth v .web column ('"' :: (phrase ++ ['"'])) =
      patternsTruth v .phrase column phrase := by
  have read := lexeme_quote [] false quote
  have scanned : scan ('"' :: (phrase ++ ['"'])) = [⟨phrase, false⟩].map .term := by
    rw [scan_lexeme _ (by decide) (by decide), read, scan_nil]
    simp [termOf?, trimmed, nonempty]
  unfold patternsTruth
  rw [groups_of_scan scanned]
  simp [termTruth]

/-- The three modes agree where their languages meet: on plain words a web query asks for every
word, and a phrase between quotes is the phrase. -/
theorem byPatterns_modes_agree :
    (∀ query, IsPlain query →
      (byPatterns .web column query).truth v = (byPatterns .plain column query).truth v) ∧
      ∀ phrase, phrase ≠ [] → Text.trimmed phrase = phrase → '"' ∉ phrase →
        (byPatterns .web column ('"' :: (phrase ++ ['"']))).truth v =
          (byPatterns .phrase column phrase).truth v := by
  simp only [truth_byPatterns]
  exact ⟨fun _ => patternsTruth_of_isPlain v column,
    fun _ => patternsTruth_of_quoted v column⟩

/-- Words with a dash inside, apart by a wide blank, and a phrase of words that mean more without
quotes. -/
theorem byPatterns_modes_agree_dashes :
    let v : Predicate → Truth := fun p =>
      match p with
      | .like _ pattern => if pattern = "%X-OR%" then .unknown else .true
      | _ => .false
    let column := Column.of "t" "c"
    let query := "phone\u2003x-or ".toList
    let phrase := "or -phone".toList
    (IsPlain query ∧ (byPatterns .web column query).truth v = .unknown) ∧
      (phrase ≠ [] ∧ Text.trimmed phrase = phrase ∧ '"' ∉ phrase) ∧
      (byPatterns .web column "\"or -phone\"".toList).truth v = .true := by
  intro v column query phrase
  have plain : IsPlain query := ⟨by decide, by decide, by decide⟩
  have bare : phrase ≠ [] ∧ Text.trimmed phrase = phrase ∧ '"' ∉ phrase := by decide
  obtain ⟨onWords, onPhrases⟩ := byPatterns_modes_agree v column
  refine ⟨⟨plain, (onWords query plain).trans ?_⟩, bare,
    (onPhrases phrase bare.1 bare.2.1 bare.2.2).trans ?_⟩
  · decide +kernel
  · decide +kernel

end TextSearch
end ListQuery
