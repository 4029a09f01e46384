/-! Keys of a request that belong to one kind of resource and stand beside the general grammar. -/
namespace ListQuery

/-- A record of resource-specific keys. A key that `claim` does not claim is left to the caller;
`restrict` drops values outside the allowed set. -/
class Extras (X : Type) where
  empty : X
  claim : X → String → String → Option X
  restrict : X → X
  /-- Every key of the record in order, with its value if it is set. -/
  entries : X → List (String × Option String)

namespace Extras

/-- The keys that are set: the pairs to write into a query string, and the columns to compare. -/
def pairs {X : Type} [Extras X] (x : X) : List (String × String) :=
  (entries x).filterMap fun e => e.2.map (e.1, ·)

end Extras

/-- Keeps a value only if it is one of `allowed`. -/
def choice (allowed : List String) (value : Option String) : Option String :=
  value.filter allowed.contains

structure NoExtras where
deriving DecidableEq

instance : Extras NoExtras where
  empty := {}
  claim _ _ _ := none
  restrict x := x
  entries _ := []

structure OrderExtras where
  status : Option String
deriving DecidableEq

def orderStatuses : List String :=
  ["draft", "wait_for_confirmation", "in_processing", "in_delivery", "completed", "canceled",
    "canceled_by_customer"]

instance : Extras OrderExtras where
  empty := ⟨none⟩
  claim _ key value := if key = "status" then some ⟨some value⟩ else none
  restrict x := ⟨choice orderStatuses x.status⟩
  entries x := [("status", x.status)]

structure LabelExtras where
  kind : Option String
  owner : Option String
deriving DecidableEq

def labelKinds : List String := ["order_attribute", "product_attribute"]

/-- An owner is claimed only with a value. -/
instance : Extras LabelExtras where
  empty := ⟨none, none⟩
  claim x key value :=
    if key = "type" then some { x with kind := some value }
    else if key = "owner" ∧ value ≠ "" then some { x with owner := some value }
    else none
  restrict x := { x with kind := choice labelKinds x.kind }
  entries x := [("type", x.kind), ("owner", x.owner)]

end ListQuery
