import ListQuery.Request.Extras
import ListQuery.Request.Operator
import ListQuery.Text.Blank

/-! Requests for a page of a list, as received and with every default resolved. -/
namespace ListQuery

/-- Earlier keys take precedence over later ones. -/
structure SortKey where
  field : String
  direction : Direction
deriving DecidableEq

/-- An operator and a negation are independent: either may be set, and both compare with the one
value. -/
structure Filter where
  field : String
  value : String
  operator : Option Operator := none
  negation : Option Negation := none
deriving DecidableEq

/-- A request as received. An empty `sort` or `filters` means that none was given. -/
structure Request (X : Type) where
  page : Option Int64 := none
  limit : Option Int64 := none
  q : Option String := none
  sort : List SortKey := []
  filters : List Filter := []
  extras : X
  /-- Pairs outside the grammar in the order of their arrival. -/
  passthrough : List (String × String) := []
deriving DecidableEq

/-- What stands in for parts of a request that are missing or out of range. -/
structure Defaults where
  page : UInt64 := 1
  limit : UInt64 := 10
  maxLimit : UInt64 := 100
  sort : List SortKey := [⟨"created_at", .desc⟩]

/-- A request with every default resolved. -/
structure Resolved (X : Type) where
  page : UInt64
  limit : UInt64
  q : Option String
  sort : List SortKey
  filters : List Filter
  extras : X
  passthrough : List (String × String)
deriving DecidableEq

/-- The unsigned number equal to `n`, if there is one. -/
def unsigned? (n : Int64) : Option UInt64 :=
  if 0 ≤ n.toInt then some (.ofNat n.toInt.toNat) else none

/-- The greatest signed number up to `n`. -/
def signedCap (n : UInt64) : Int64 := .ofInt (min n.toNat 0x7FFFFFFFFFFFFFFF)

namespace Request

variable {X : Type}

/-- Resolves the defaults, with `extra` to bring the extras into shape. A page or limit out of range
takes the default; a limit is never lowered to the maximum. -/
def resolveWith (extra : X → X) (d : Defaults) (r : Request X) : Resolved X where
  page := ((r.page.bind unsigned?).filter fun p => 0 < p).getD d.page
  limit := ((r.limit.bind unsigned?).filter fun l => 1 ≤ l && l ≤ d.maxLimit).getD d.limit
  q := r.q.filter fun q => !(Text.trimmed q.toList).isEmpty
  sort := if r.sort.isEmpty then d.sort else r.sort
  filters := r.filters
  extras := extra r.extras
  passthrough := r.passthrough

def resolve [Extras X] (d : Defaults) (r : Request X) : Resolved X :=
  r.resolveWith Extras.restrict d

/-- The request that asks for what is resolved. -/
def ofResolved (n : Resolved X) : Request X where
  page := some (signedCap n.page)
  limit := some (signedCap n.limit)
  q := n.q
  sort := n.sort
  filters := n.filters
  extras := n.extras
  passthrough := n.passthrough

end Request
end ListQuery
