import ListQuery.Json.Embedded
import ListQuery.Page
import ListQuery.Request.Basic

/-! The JSON forms of requests and pages. Objects are read by the names of their members, in any
order and with members besides; arrays are read by position and must be complete. -/
namespace ListQuery
namespace Shape

/-- The token of a plain choice: a string, or an object with the token as its only name and null as
its value. -/
def token? : Json → Option String
  | .str s => some s
  | .obj [(name, .null)] => some name
  | _ => none

/-- The members of a record by name, or its items by position. -/
def fields? (names : List String) : Json → Option (List (Option Json))
  | .obj ms => some (names.map fun n => ms.lookup n)
  | .arr items => if items.length = names.length then some (items.map some) else none
  | _ => none

def string? : Option Json → Option String
  | some (.str s) => some s
  | _ => none

def unsigned? : Option Json → Option UInt64
  | some (.int n) => if 0 ≤ n ∧ n ≤ 0xFFFFFFFFFFFFFFFF then some (.ofNat n.toNat) else none
  | _ => none

/-- A part that may be left out or null. -/
def optional? {α : Type} (read : Json → Option α) : Option Json → Option (Option α)
  | none | some .null => some none
  | some j => (read j).map some

def direction? (j : Json) : Option Direction := (token? j).bind Direction.ofToken?

def operator? (j : Json) : Option Operator := (token? j).bind Operator.ofToken?

def negation? (j : Json) : Option Negation := (token? j).bind Negation.ofToken?

def ofDirection (d : Direction) : Json := .str d.token

def ofOperator (o : Operator) : Json := .str o.token

def ofNegation (n : Negation) : Json := .str n.token

def ofSortKey (k : SortKey) : Json :=
  .ofMembers [("field", .str k.field), ("dir", ofDirection k.direction)]

def sortKey? (j : Json) : Option SortKey :=
  match fields? ["field", "dir"] j with
  | some [field, dir] =>
    match string? field, dir.bind direction? with
    | some f, some d => some ⟨f, d⟩
    | _, _ => none
  | _ => none

/-- Parts that are not set are left out. -/
def ofFilter (f : Filter) : Json :=
  .ofMembers ([("field", .str f.field), ("value", .str f.value)] ++
    (f.operator.map fun o => ("operator", ofOperator o)).toList ++
    (f.negation.map fun n => ("notOp", ofNegation n)).toList)

def filter? (j : Json) : Option Filter :=
  match fields? ["field", "value", "operator", "notOp"] j with
  | some [field, value, operator, negation] =>
    match string? field, string? value, optional? operator? operator,
      optional? negation? negation with
    | some f, some v, some o, some n => some ⟨f, v, o, n⟩
    | _, _, _, _ => none
  | _ => none

def ofUnsigned (n : UInt64) : Json := .int n.toNat

def ofPagination (p : Pagination) : Json :=
  .ofMembers [("page", ofUnsigned p.page), ("pageSize", ofUnsigned p.pageSize),
    ("totalItems", ofUnsigned p.totalItems), ("totalPages", ofUnsigned p.totalPages)]

def pagination? (j : Json) : Option Pagination :=
  match fields? ["page", "pageSize", "totalItems", "totalPages"] j with
  | some [page, size, items, pages] =>
    match unsigned? page, unsigned? size, unsigned? items, unsigned? pages with
    | some p, some s, some i, some t => some ⟨p, s, i, t⟩
    | _, _, _, _ => none
  | _ => none

def ofEnvelope (e : Envelope Json) : Json :=
  .ofMembers [("data", .arr e.data), ("pagination", ofPagination e.pagination)]

/-- An envelope by its members; `rows?` reads the rows, which may be any JSON. -/
def envelopeWith? (rows? : List Json → Option (List Json)) (j : Json) : Option (Envelope Json) :=
  match fields? ["data", "pagination"] j with
  | some [some (.arr data), some p] =>
    match rows? data, pagination? p with
    | some rows, some totals => some ⟨rows, totals⟩
    | _, _ => none
  | _ => none

/-- Embedded documents among the rows are opened. -/
def envelope? : Json → Option (Envelope Json) := envelopeWith? Json.openedItems?

end Shape
end ListQuery
