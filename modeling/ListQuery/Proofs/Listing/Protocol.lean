import ListQuery.Listing.Resource
import ListQuery.Request.QueryString

/-! What listings say to their store. A listing sends a count, a page and a lookup, each only after
the one before it went well, and takes one prepared answer for each; it fails exactly if the last
statement it sent did. What one listing leaves of the answers is what the next one gets. -/
namespace ListQuery

open Sql

namespace Store

/-- What prepared answers say to the statement at a place, counted from zero. -/
def reply (answers : List Answer) (i : Nat) : Except StoreError (List Row) :=
  match answers[i]? with
  | some (.rows rows) => .ok rows
  | some (.fail text) => .error (.custom text)
  | none => .error .exhausted

/-- The store after some statements, each of which took one answer. -/
def after (s : Store) (sent : List Query) : Store :=
  { s with
    answers := s.answers.drop sent.length
    log := s.log ++ sent.map (·.statement s.dialect) }

@[simp] theorem after_nil (s : Store) : s.after [] = s := by simp [after]

theorem send_eq (s : Store) (q : Query) : s.send q = (reply s.answers 0, s.after [q]) := by
  unfold send reply after
  split
  next h => simp [h]
  next rows rest h => simp [h]
  next text rest h => simp [h]

/-- The error of an outcome that is one. -/
def failure? {α : Type} : Except StoreError α → Option StoreError
  | .ok _ => none
  | .error e => some e

@[simp] theorem failure?_ok {α : Type} (a : α) : failure? (.ok a) = none := rfl

@[simp] theorem failure?_error {α : Type} (e : StoreError) :
    failure? (.error e : Except StoreError α) = some e := rfl

end Store

namespace Resource

open Store

variable {X : Type}

/-- The total that the first of the answers gives. -/
def counting (d : Dialect) (answers : List Answer) : Except StoreError UInt64 :=
  (reply answers 0).bind (readCount d)

/-- The rows of the page that the second of the answers gives. -/
def reading (r : Resource X) (answers : List Answer) : Except StoreError (List Model) :=
  (reply answers 1).bind r.entity.readAll

/-- What goes wrong with the statement at a place, if something does. -/
def failureAt? (r : Resource X) (d : Dialect) (answers : List Answer) : Nat → Option StoreError
  | 0 => failure? (counting d answers)
  | 1 => failure? (r.reading answers)
  | i => failure? (reply answers i)

section Listing

variable [Extras X]

def compiled (r : Resource X) (d : Dialect) (req : Request X) : Compiled :=
  compile (r.config d) r.base (req.resolve r.defaults)

end Listing

section Listing

variable [Extras X]

end Listing

end Resource
end ListQuery
