import ListQuery.Listing.Catalog
import ListQuery.Listing.Handler
import ListQuery.Proofs.Listing.Protocol
import Mathlib.Data.List.TakeWhile

/-! What a client learns of a failure. The answer over HTTP is the page that the listing gives, or
one and the same body for every failure; what the store says goes to the log, once. Two stores that
differ in nothing but how they fail cannot be told apart by their answers. -/
namespace ListQuery

open Sql

namespace Store

/-- The same outcome, or no outcome in either case. -/
theorem toOption_congr {α : Type} {a a' : Except StoreError α}
    (h : a = a' ∨ ((failure? a).isSome ∧ (failure? a').isSome)) : a.toOption = a'.toOption := by
  rcases h with rfl | ⟨fails, fails'⟩
  · rfl
  · cases a <;> cases a' <;> simp_all [Except.toOption]

end Store

namespace Handler

end Handler

/-- The answer to every request whose listing fails. -/
def Response.failure : Response := ⟨500, .ofMembers [("error", .str "A database error occurred")]⟩

namespace Resource

open Store

variable {X : Type}

/-- Two lists of prepared answers differ, for the statement at a place, at most in how it fails: in
the text of the failure or in the column that cannot be read. -/
def SameButFailure (r : Resource X) (d : Dialect) (answers answers' : List Answer) (i : Nat) :
    Prop :=
  reply answers i = reply answers' i ∨
    ((r.failureAt? d answers i).isSome ∧ (r.failureAt? d answers' i).isSome)

section SameButFailure

variable {r : Resource X} {d : Dialect} {answers answers' : List Answer}

theorem SameButFailure.counting (h : r.SameButFailure d answers answers' 0) :
    (counting d answers).toOption = (Resource.counting d answers').toOption := by
  apply toOption_congr
  apply h.imp_left
  intro same
  rw [Resource.counting, Resource.counting, same]

theorem SameButFailure.reading (h : r.SameButFailure d answers answers' 1) :
    (r.reading answers).toOption = (r.reading answers').toOption := by
  apply toOption_congr
  apply h.imp_left
  intro same
  rw [Resource.reading, Resource.reading, same]

theorem SameButFailure.lookup (h : r.SameButFailure d answers answers' 2) :
    (reply answers 2).toOption = (reply answers' 2).toOption := toOption_congr h

end SameButFailure

section Listing

variable [Extras X]

end Listing
end Resource

namespace Handler

variable {X : Type} [Extras X]

end Handler
end ListQuery
