import ListQuery.Sql.Statement

/-! The three truth values of SQL and the truth of conditions. However conditions are merged when a
statement is narrowed, the result is the conjunction of both. -/
namespace ListQuery
namespace Sql

inductive Truth where
  | false
  | unknown
  | true
deriving DecidableEq

namespace Truth

def not : Truth → Truth
  | .false => .true
  | .unknown => .unknown
  | .true => .false

def and : Truth → Truth → Truth
  | .false, _ => .false
  | _, .false => .false
  | .true, .true => .true
  | _, _ => .unknown

def or : Truth → Truth → Truth
  | .true, _ => .true
  | _, .true => .true
  | .false, .false => .false
  | _, _ => .unknown

def all (ts : List Truth) : Truth := ts.foldr and .true

def any (ts : List Truth) : Truth := ts.foldr or .false

theorem and_assoc (a b c : Truth) : (a.and b).and c = a.and (b.and c) := by
  cases a <;> cases b <;> cases c <;> rfl

theorem and_comm (a b : Truth) : a.and b = b.and a := by
  cases a <;> cases b <;> rfl

theorem or_assoc (a b c : Truth) : (a.or b).or c = a.or (b.or c) := by
  cases a <;> cases b <;> cases c <;> rfl

instance : Std.Associative and := ⟨and_assoc⟩

instance : Std.Commutative and := ⟨and_comm⟩

@[simp] theorem true_and (a : Truth) : and .true a = a := by cases a <;> rfl

@[simp] theorem and_true (a : Truth) : and a .true = a := by cases a <;> rfl

@[simp] theorem or_false (a : Truth) : or a .false = a := by cases a <;> rfl

@[simp] theorem false_or (a : Truth) : or .false a = a := by cases a <;> rfl

@[simp] theorem not_not (a : Truth) : not (not a) = a := by cases a <;> rfl

theorem and_eq_true_iff {a b : Truth} : and a b = .true ↔ a = .true ∧ b = .true := by
  cases a <;> cases b <;> simp [and]

@[simp] theorem all_nil : all [] = .true := rfl

@[simp] theorem any_nil : any [] = .false := rfl

@[simp] theorem all_cons (a : Truth) (ts : List Truth) : all (a :: ts) = and a (all ts) := rfl

@[simp] theorem any_cons (a : Truth) (ts : List Truth) : any (a :: ts) = or a (any ts) := rfl

@[simp] theorem all_append (as bs : List Truth) : all (as ++ bs) = and (all as) (all bs) := by
  induction as with
  | nil => simp
  | cons a as ih => simp [ih, and_assoc]

@[simp] theorem any_append (as bs : List Truth) : any (as ++ bs) = or (any as) (any bs) := by
  induction as with
  | nil => simp
  | cons a as ih => simp [ih, or_assoc]

theorem all_map_eq_true_iff {α : Type} {g : α → Truth} {as : List α} :
    all (as.map g) = .true ↔ ∀ a ∈ as, g a = .true := by
  induction as with
  | nil => simp
  | cons a as ih => simp [and_eq_true_iff, ih]

end Truth

def Junction.truth : Junction → List Truth → Truth
  | .all, ts => .all ts
  | .any, ts => .any ts

theorem Junction.truth_singleton (j : Junction) (a : Truth) : j.truth [a] = a := by
  cases j <;> simp [truth]

mutual

/-- The truth of a condition under an assignment of truth to the predicates. -/
def Condition.truth (v : Predicate → Truth) : Condition → Truth
  | .test p => v p
  | .group negated j members =>
    let t := j.truth (truths v members)
    if negated then t.not else t

def truths (v : Predicate → Truth) : List Condition → List Truth
  | [] => []
  | c :: cs => c.truth v :: truths v cs

end

@[simp] theorem truths_value (v : Predicate → Truth) (cs : List Condition) :
    truths v cs = cs.map (Condition.truth v) := by
  induction cs with
  | nil => simp [truths]
  | cons c cs ih => simp [truths, ih]

namespace Condition

variable (v : Predicate → Truth)

@[simp] theorem truth_test (p : Predicate) : (Condition.test p).truth v = v p := by
  simp [truth]

theorem truth_group (negated : Bool) (j : Junction) (members : List Condition) :
    (Condition.group negated j members).truth v =
      if negated then (j.truth (members.map (truth v))).not
      else j.truth (members.map (truth v)) := by
  simp [truth]

@[simp] theorem truth_all : all.truth v = .true := by
  simp [all, truth_group, Junction.truth]

@[simp] theorem truth_any : any.truth v = .false := by
  simp [any, truth_group, Junction.truth]

@[simp] theorem truth_only (p : Predicate) : (only p).truth v = v p := by
  simp [only, truth_group, Junction.truth]

@[simp] theorem truth_unwrapped (c : Condition) : c.unwrapped.truth v = c.truth v := by
  unfold unwrapped
  split
  next j d => simp [truth_group, Junction.truth_singleton]
  next => rfl

@[simp] theorem truth_negate (c : Condition) : c.negate.truth v = (c.truth v).not := by
  cases c with
  | test p => simp [negate, truth_group, Junction.truth]
  | group negated j members => cases negated <;> simp [truth_group]

theorem truth_add_all (members : List Condition) (c : Condition) :
    ((Condition.group false .all members).add c).truth v =
      ((Condition.group false .all members).truth v).and (c.truth v) := by
  simp [truth_group, Junction.truth]

theorem foldl_add {α : Type} (c : α → Condition) (as : List α) (negated : Bool) (j : Junction)
    (members : List Condition) :
    as.foldl (fun g a => g.add (c a)) (group negated j members) =
      group negated j (members ++ as.map fun a => (c a).unwrapped) := by
  induction as generalizing members with
  | nil => simp
  | cons a as ih =>
    rw [List.foldl_cons, add_group, ih]
    simp

/-- A condition that is not merged member by member becomes one more member. -/
theorem truth_all_add_add (root c : Condition) :
    ((all.add root).add c).truth v = (root.truth v).and (c.truth v) := by
  have h : all.add root = .group false .all [root.unwrapped] := rfl
  rw [h, truth_add_all, truth_group]
  simp [Junction.truth]

/-- Narrowing is conjunction, whatever the two conditions are. -/
theorem truth_narrow (root c : Condition) :
    (root.narrow c).truth v = (root.truth v).and (c.truth v) := by
  unfold narrow
  split
  · simp [truth_group, Junction.truth]
  · exact truth_add_all v _ _
  · exact truth_all_add_add v _ _

end Condition

def Predicate.column : Predicate → Column
  | .compare _ c _ | .like c _ | .oneOf c _ | .isNull c | .is c _ | .fulltext _ c _ _ => c

mutual

def Condition.columns : Condition → List Column
  | .test p => [p.column]
  | .group _ _ members => columnsOf members

def columnsOf : List Condition → List Column
  | [] => []
  | c :: cs => c.columns ++ columnsOf cs

end

mutual

/-- Only the predicates on the columns of a condition count for its truth. -/
theorem Condition.truth_congr {v v' : Predicate → Truth} : (c : Condition) →
    (∀ p, p.column ∈ c.columns → v p = v' p) → c.truth v = c.truth v'
  | .test p, h => by simpa using h p (by simp [columns])
  | .group negated j members, h => by
    rw [truth_group, truth_group, map_truth_congr members (by simpa [columns] using h)]

theorem Condition.map_truth_congr {v v' : Predicate → Truth} : (cs : List Condition) →
    (∀ p, p.column ∈ columnsOf cs → v p = v' p) → cs.map (truth v) = cs.map (truth v')
  | [], _ => rfl
  | c :: cs, h => by
    rw [List.map_cons, List.map_cons,
      truth_congr c fun p hp => h p (List.mem_append_left _ hp),
      map_truth_congr cs fun p hp => h p (List.mem_append_right _ hp)]

end

def Expr.eval (v : Predicate → Truth) : Expr → Truth
  | .test p => v p
  | .truth b => if b then .true else .false
  | .not e => (e.eval v).not
  | .and l r => (l.eval v).and (r.eval v)
  | .or l r => (l.eval v).or (r.eval v)

theorem Junction.eval_chain (v : Predicate → Truth) (j : Junction) (es : List Expr) :
    (j.chain es).eval v = j.truth (es.map (Expr.eval v)) := by
  cases es with
  | nil => cases j <;> rfl
  | cons e es =>
    simp only [chain]
    induction es generalizing e with
    | nil => simp [truth_singleton]
    | cons e' es ih =>
      rw [List.foldl_cons, ih]
      cases j <;> simp [Expr.eval, truth, Truth.and_assoc, Truth.or_assoc]

mutual

theorem Condition.eval_expr (v : Predicate → Truth) :
    (c : Condition) → c.expr.eval v = c.truth v
  | .test p => by simp [expr, Expr.eval]
  | .group negated j members => by
    rw [truth_group, ← map_eval_expr v members, ← Junction.eval_chain]
    cases negated <;> simp [expr, Expr.eval]

theorem Condition.map_eval_expr (v : Predicate → Truth) :
    (cs : List Condition) → (cs.map expr).map (Expr.eval v) = cs.map (truth v)
  | [] => rfl
  | c :: cs => by simp [eval_expr v c, map_eval_expr v cs]

end

namespace Select

/-- The truth of the condition of a statement; a statement without one takes every row. -/
def truth (v : Predicate → Truth) (s : Select) : Truth :=
  match s.condition with
  | some c => c.truth v
  | none => .true

/-- The truth of the expression that is written for the condition. -/
def written (v : Predicate → Truth) (s : Select) : Truth :=
  match s.condition with
  | some c => c.expr.eval v
  | none => .true

theorem written_eq_truth (v : Predicate → Truth) (s : Select) : s.written v = s.truth v := by
  unfold written truth
  cases s.condition with
  | none => rfl
  | some c => exact c.eval_expr v

theorem truth_restrict (v : Predicate → Truth) (s : Select) (c : Condition) :
    (s.restrict c).truth v = (s.truth v).and (c.truth v) := by
  unfold truth restrict
  cases s.condition with
  | none => simp
  | some root => simp [Condition.truth_narrow]

/-- `s'` is `s` with one more conjunct of truth `t`; nothing but the condition differs. -/
structure Narrowed (v : Predicate → Truth) (t : Truth) (s s' : Select) : Prop where
  frame : s' = { s with condition := s'.condition }
  truth : s'.truth v = (s.truth v).and t

namespace Narrowed

variable {v : Predicate → Truth} {t u : Truth} {s s' s'' : Select}

theorem refl (v : Predicate → Truth) (s : Select) : Narrowed v .true s s := ⟨rfl, by simp⟩

theorem trans (h : Narrowed v t s s') (h' : Narrowed v u s' s'') :
    Narrowed v (t.and u) s s'' := by
  constructor
  · rw [h'.frame, h.frame]
  · rw [h'.truth, h.truth, Truth.and_assoc]

theorem restrict (v : Predicate → Truth) (s : Select) (c : Condition) :
    Narrowed v (c.truth v) s (s.restrict c) := ⟨rfl, truth_restrict v s c⟩

theorem table (h : Narrowed v t s s') : s'.table = s.table := by
  rw [h.frame]

/-- Steps that each narrow by the truth of their item narrow by all of them together. -/
theorem foldl {α : Type} {step : Select → α → Select} {g : α → Truth} {as : List α} {s : Select}
    (h : ∀ s' a, s'.table = s.table → a ∈ as → Narrowed v (g a) s' (step s' a)) :
    Narrowed v (.all (as.map g)) s (as.foldl step s) := by
  induction as generalizing s with
  | nil => exact refl v s
  | cons a as ih =>
    have first := h s a rfl (List.mem_cons_self ..)
    apply first.trans
    apply ih
    intro s' b hs hb
    exact h s' b (hs.trans first.table) (List.mem_cons_of_mem a hb)

end Narrowed
end Select
end Sql
end ListQuery
