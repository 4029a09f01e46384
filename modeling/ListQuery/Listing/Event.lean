import ListQuery.Filter.Kind
import ListQuery.Json.Basic
import ListQuery.Request.Notice

/-! Log events of a listing. -/
namespace ListQuery

inductive Level where
  | trace
  | debug
  | warn
  | error
deriving DecidableEq

inductive Event where
  /-- Something in the query string was passed over. -/
  | noticed (n : Notice)
  | compiled (resource : String) (join : JoinKind) (relation base negation fulltext : Nat)
      (page limit : UInt64)
  | listed (resource : String) (returned : Nat) (total : UInt64)
  /-- The primary key of a relation is no column of the listed rows. -/
  | keyNotColumn (resource primaryKey : String)
  | failed (resource error : String)
deriving DecidableEq

namespace Event

def level : Event → Level
  | .noticed _ => .trace
  | .compiled .. => .debug
  | .listed .. => .debug
  | .keyNotColumn .. => .warn
  | .failed .. => .error

def message : Event → String
  | .noticed (.unreadableNumber ..) => "ignoring non-integer pagination value"
  | .noticed (.unknownDirection ..) => "unknown sort direction"
  | .noticed (.unknownOperator ..) => "unknown filter operator"
  | .noticed (.unknownNegation ..) => "unknown negated operator"
  | .noticed (.valuelessFilter _) => "dropping filter without a value"
  | .compiled .. => "Compiled list query"
  | .listed .. => "Listed resources"
  | .keyNotColumn .. =>
    "Relation primary key is not a column of the entity, skipping related lookup"
  | .failed .. => "List query failed"

/-- What an event says besides its message. -/
def details : Event → List (String × Json)
  | .noticed (.unreadableNumber key value) => [("key", .str key), ("value", .str value)]
  | .noticed (.unknownDirection field direction) =>
    [("field", .str field), ("direction", .str direction)]
  | .noticed (.unknownOperator field operator) =>
    [("field", .str field), ("operator", .str operator)]
  | .noticed (.unknownNegation field negation) =>
    [("field", .str field), ("not_op", .str negation)]
  | .noticed (.valuelessFilter field) => [("field", .str field)]
  | .compiled resource join relation base negation fulltext page limit =>
    [("resource", .str resource),
      ("join", .str (match join with | .inner => "Inner" | .left => "Left")),
      ("relation_filters", .int relation), ("base_filters", .int base),
      ("not_only_filters", .int negation), ("fulltext_filters", .int fulltext),
      ("page", .int page.toNat), ("limit", .int limit.toNat)]
  | .listed resource returned total =>
    [("resource", .str resource), ("returned", .int returned), ("total", .int total.toNat)]
  | .keyNotColumn resource primaryKey =>
    [("resource", .str resource), ("primary_key", .str primaryKey)]
  | .failed resource error => [("resource", .str resource), ("error", .str error)]

end Event
end ListQuery
