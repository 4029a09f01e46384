import ListQuery.Proofs.Sql.Truth

/-! The conjuncts of conditions. Narrowing merges some conditions member by member and unwraps
others, but it loses no conjunct and adds none. -/
namespace ListQuery
namespace Sql

mutual

/-- The conditions that a condition is the conjunction of, however they are grouped. -/
def Condition.conjuncts : Condition → List Condition
  | .group false .all members => conjunctsOf members
  | .group false .any [c] => c.conjuncts
  | c => [c]

def conjunctsOf : List Condition → List Condition
  | [] => []
  | c :: cs => c.conjuncts ++ conjunctsOf cs

end

theorem conjunctsOf_eq (cs : List Condition) : conjunctsOf cs = cs.flatMap Condition.conjuncts := by
  induction cs with
  | nil => rfl
  | cons c cs ih => rw [conjunctsOf, ih, List.flatMap_cons]

namespace Condition

@[simp] theorem conjuncts_test (p : Predicate) : (test p).conjuncts = [.test p] := by
  simp [conjuncts]

@[simp] theorem conjuncts_group_all (members : List Condition) :
    (group false .all members).conjuncts = members.flatMap conjuncts := by
  rw [conjuncts, conjunctsOf_eq]

@[simp] theorem conjuncts_group_not (j : Junction) (members : List Condition) :
    (group true j members).conjuncts = [.group true j members] := by
  simp [conjuncts]

@[simp] theorem conjuncts_only (p : Predicate) : (only p).conjuncts = [.test p] := by
  simp [only]

@[simp] theorem conjuncts_unwrapped (c : Condition) : c.unwrapped.conjuncts = c.conjuncts := by
  unfold unwrapped
  split
  next j c => cases j <;> simp [conjuncts, conjunctsOf]
  next => rfl

@[simp] theorem conjuncts_narrow (root c : Condition) :
    (root.narrow c).conjuncts = root.conjuncts ++ c.conjuncts := by
  unfold narrow
  split
  · simp
  · simp
  · have merged : all.add root = .group false .all [root.unwrapped] := rfl
    simp [merged]

end Condition

mutual

/-- A condition is the conjunction of its conjuncts. -/
theorem Condition.truth_conjuncts (v : Predicate → Truth) :
    (c : Condition) → Truth.all (c.conjuncts.map (Condition.truth v)) = c.truth v
  | .test p => by simp
  | .group true j members => by simp
  | .group false .all members => by
    rw [Condition.conjuncts, truth_conjunctsOf v members, Condition.truth_group]
    rfl
  | .group false .any [] => by simp [Condition.conjuncts]
  | .group false .any [c] => by
    rw [Condition.conjuncts, Condition.truth_conjuncts v c, Condition.truth_group]
    exact (Junction.truth_singleton .any _).symm
  | .group false .any (c :: c' :: cs) => by simp [Condition.conjuncts]

theorem truth_conjunctsOf (v : Predicate → Truth) :
    (cs : List Condition) →
      Truth.all ((conjunctsOf cs).map (Condition.truth v)) = .all (cs.map (Condition.truth v))
  | [] => rfl
  | c :: cs => by
    rw [conjunctsOf, List.map_append, Truth.all_append, Condition.truth_conjuncts v c,
      truth_conjunctsOf v cs]
    rfl

end

namespace Select

/-- The conjuncts of the condition of a statement. -/
def conjuncts (s : Select) : List Condition := (s.condition.map Condition.conjuncts).getD []

theorem truth_conjuncts (v : Predicate → Truth) (s : Select) :
    .all (s.conjuncts.map (Condition.truth v)) = s.truth v := by
  unfold conjuncts truth
  cases s.condition with
  | none => rfl
  | some c => exact c.truth_conjuncts v

@[simp] theorem conjuncts_restrict (s : Select) (c : Condition) :
    (s.restrict c).conjuncts = s.conjuncts ++ c.conjuncts := by
  unfold conjuncts restrict
  cases s.condition <;> simp

end Select
end Sql
end ListQuery
