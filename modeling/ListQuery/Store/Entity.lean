import ListQuery.Store.Basic

/-! Entities: tables with typed columns, and the rows read from them. -/
namespace ListQuery

open Sql

structure ColumnDef where
  /-- The name in the database. -/
  name : String
  /-- The name in the output. -/
  field : String
  type : ValueType
  optional : Bool := false
deriving DecidableEq

structure Entity where
  table : String
  columns : List ColumnDef

abbrev Model := List (ColumnDef × Value)

namespace ColumnDef

/-- Words joined by underscores with the underscores dropped and every word but the first
capitalised. -/
def camelCase (field : String) : String :=
  match field.toList.splitOnP (· == '_') with
  | [] => ""
  | w :: ws =>
    String.ofList (w ++ ws.flatMap fun w =>
      match w with
      | [] => []
      | c :: cs => c.toUpper :: cs)

/-- A column goes by its name, its field, and its field in camel case. -/
def isCalled (c : ColumnDef) (name : String) : Bool :=
  name == c.name || name == c.field || name == camelCase c.field

/-- Reads a column of a row. An optional column is null where it cannot be read. -/
def read (c : ColumnDef) (row : Row) : Except StoreError Value :=
  let missing : Except StoreError Value :=
    if c.optional then .ok (.null c.type) else .error (.unreadable c.name)
  match row.lookup c.name with
  | some v => if v.type = c.type && !v.isNull then .ok v else missing
  | none => missing

end ColumnDef

namespace Entity

def select (e : Entity) : Select where
  outputs := e.columns.map fun c => .column (.of e.table c.name)
  table := e.table

/-- The column that a name stands for. -/
def column? (e : Entity) (name : String) : Option ColumnDef := e.columns.find? (·.isCalled name)

/-- Reads the columns of a row in order, up to the first that cannot be read. -/
def read (e : Entity) (row : Row) : Except StoreError Model :=
  e.columns.mapM fun c => (c.read row).map (c, ·)

/-- Reads rows in order, up to the first that cannot be read. -/
def readAll (e : Entity) (rows : List Row) : Except StoreError (List Model) := rows.mapM e.read

end Entity

namespace Model

def get (m : Model) (c : ColumnDef) : Value := (m.lookup c).getD (.null c.type)

def members (m : Model) : Json.Members :=
  m.foldl (fun acc (c, v) => Json.insert c.field v.toJson acc) []

end Model
end ListQuery
