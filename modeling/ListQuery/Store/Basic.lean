import ListQuery.Sql.Statement

/-! Stores that answer statements from a list of prepared answers and keep the statements. -/
namespace ListQuery

open Sql

inductive StoreError where
  | custom (text : String)
  | type (text : String)
  | json (text : String)
  | notFound (text : String)
  | query (text : String)
deriving DecidableEq

namespace StoreError

def message : StoreError → String
  | .custom t => "Custom Error: " ++ t
  | .type t => "Type Error: " ++ t
  | .json t => "Json Error: " ++ t
  | .notFound t => "RecordNotFound Error: " ++ t
  | .query t => "Query Error: " ++ t

/-- A column that holds no value of the type that is read from it. -/
def unreadable (column : String) : StoreError :=
  .type ("A null value was encountered while decoding \"" ++ column ++ "\"")

/-- A statement for which no answer is left. -/
def exhausted : StoreError := .query "\x60query_results\x60 buffer is empty."

end StoreError

inductive Answer where
  | rows (rows : List Row)
  | fail (text : String)

structure Store where
  dialect : Dialect
  /-- The answers yet to be given. -/
  answers : List Answer
  /-- The statements received. -/
  log : List Statement := []

namespace Store

/-- Sends a statement and takes the next answer. -/
def send (s : Store) (q : Query) : Except StoreError (List Row) × Store :=
  let log := s.log ++ [q.statement s.dialect]
  match s.answers with
  | [] => (.error .exhausted, { s with log := log })
  | .rows rows :: rest => (.ok rows, { s with answers := rest, log := log })
  | .fail text :: rest => (.error (.custom text), { s with answers := rest, log := log })

/-- The integer type in which a dialect counts. -/
def countType : Dialect → IntType
  | .postgres => .bigInt
  | _ => .int

/-- The count in the first row of an answer; no row counts nothing. -/
def readCount (d : Dialect) : List Row → Except StoreError UInt64
  | [] => .ok 0
  | row :: _ =>
    match row.lookup "num_items" with
    | some (.int t n) =>
      if t = countType d then .ok (.ofInt n) else .error (.unreadable "num_items")
    | _ => .error (.unreadable "num_items")

def count (s : Store) (q : Select) : Except StoreError UInt64 × Store :=
  match s.send (.count q) with
  | (.ok rows, s') => (readCount s.dialect rows, s')
  | (.error e, s') => (.error e, s')

end Store
end ListQuery
