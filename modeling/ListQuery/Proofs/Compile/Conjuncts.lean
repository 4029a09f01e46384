import ListQuery.Proofs.Compile.Paging
import ListQuery.Proofs.Compile.Conditions
import ListQuery.Proofs.Sql.Conjuncts

/-! The conjuncts of what is compiled: those of the base statement and of every condition of the
request, in the order in which they are applied. -/
namespace ListQuery

open Sql

theorem Sql.Select.conjuncts_restrictAll (s : Select) (cs : List Condition) :
    (s.restrictAll cs).conjuncts = s.conjuncts ++ cs.flatMap Condition.conjuncts := by
  induction cs generalizing s with
  | nil => simp
  | cons c cs ih => simp [ih]

namespace Compile

variable {X : Type} [Extras X]

theorem conjuncts_counted (cfg : ListConfig) (base : Select) (n : Resolved X) :
    (compile cfg base n).counted.conjuncts =
      base.conjuncts ++ (cfg.conditions base.table n).flatMap Condition.conjuncts := by
  have counted : (compile cfg base n).counted =
      (withJoin cfg (cfg.byKind n.filters) base).restrictAll (cfg.conditions base.table n) :=
    counted_eq_restrictAll cfg n base
  rw [counted, Select.conjuncts_restrictAll, withJoin_frame]
  rfl

theorem conjuncts_paged (cfg : ListConfig) (base : Select) (n : Resolved X) :
    (compile cfg base n).paged.conjuncts = (compile cfg base n).counted.conjuncts := by
  rw [paged_eq_page]
  rfl

theorem conjuncts_of_mem {cfg : ListConfig} {base s : Select} {n : Resolved X}
    (hs : s ∈ [(compile cfg base n).counted, (compile cfg base n).paged]) :
    s.conjuncts = base.conjuncts ++ (cfg.conditions base.table n).flatMap Condition.conjuncts := by
  rw [← conjuncts_counted]
  rcases List.mem_pair.1 hs with rfl | rfl
  · rfl
  · exact conjuncts_paged cfg base n

end Compile

end ListQuery
