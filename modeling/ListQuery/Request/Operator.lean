/-! The tokens of a request: sort directions, filter operators and negated operators. -/
namespace ListQuery

inductive Direction where
  | asc
  | desc
deriving DecidableEq, Repr

namespace Direction

def token : Direction → String
  | .asc => "asc"
  | .desc => "desc"

def all : List Direction := [.asc, .desc]

/-- Only the exact lower-case tokens are directions. -/
def ofToken? (t : String) : Option Direction := all.find? (·.token == t)

end Direction

inductive Operator where
  | eq
  | ne
  | lt
  | le
  | gt
  | ge
  /-- Substring match that ignores case. -/
  | like
  /-- The same match under its second name. -/
  | ilike
  /-- Membership in a list separated by commas. -/
  | oneOf
  /-- Null and truth tests. -/
  | is
  /-- Full-text search with quoted phrases, exclusions and alternatives. -/
  | web
  /-- Full-text search for every word. -/
  | plain
  /-- Full-text search for the whole phrase. -/
  | phrase
deriving DecidableEq, Repr

namespace Operator

def token : Operator → String
  | .eq => "eq"
  | .ne => "neq"
  | .lt => "lt"
  | .le => "lte"
  | .gt => "gt"
  | .ge => "gte"
  | .like => "like"
  | .ilike => "ilike"
  | .oneOf => "in"
  | .is => "is"
  | .web => "fts"
  | .plain => "plfts"
  | .phrase => "phfts"

def all : List Operator :=
  [.eq, .ne, .lt, .le, .gt, .ge, .like, .ilike, .oneOf, .is, .web, .plain, .phrase]

def ofToken? (t : String) : Option Operator := all.find? (·.token == t)

def isFulltext : Operator → Bool
  | .web | .plain | .phrase => true
  | _ => false

@[simp] theorem ofToken?_token (o : Operator) : ofToken? o.token = some o := by
  cases o <;> decide

end Operator

/-- The operators with a negated form. -/
inductive Negation where
  | eq
  | lt
  | le
  | gt
  | ge
  | like
  | ilike
deriving DecidableEq, Repr

namespace Negation

/-- What is negated. -/
def operator : Negation → Operator
  | .eq => .eq
  | .lt => .lt
  | .le => .le
  | .gt => .gt
  | .ge => .ge
  | .like => .like
  | .ilike => .ilike

def token (n : Negation) : String := n.operator.token

def all : List Negation := [.eq, .lt, .le, .gt, .ge, .like, .ilike]

def ofToken? (t : String) : Option Negation := all.find? (·.token == t)

@[simp] theorem ofToken?_token (n : Negation) : ofToken? n.token = some n := by
  cases n <;> decide

end Negation

@[simp] theorem Direction.ofToken?_token (d : Direction) : ofToken? d.token = some d := by
  cases d <;> decide

end ListQuery
