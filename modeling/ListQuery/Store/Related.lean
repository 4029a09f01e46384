import ListQuery.Listing.Event
import ListQuery.Relation
import ListQuery.Store.Entity

/-! Related collections: one lookup for all rows, grouped by the key of the row they belong to. -/
namespace ListQuery

open Sql

structure ListError where
  resource : String
  source : StoreError
deriving DecidableEq

def ListError.message (e : ListError) : String :=
  "Failed to list " ++ e.resource ++ ": " ++ e.source.message

/-- A listed item and its related collection, if it carries one. -/
structure Listed (α : Type) where
  item : α
  related : Option (String × List Json)

namespace Listed

/-- The members of an item with the related collection among them. -/
def extend (related : Option (String × List Json)) (ms : Json.Members) : Json.Members :=
  match related with
  | some (field, items) => Json.insert field (.arr items) ms
  | none => ms

/-- An item that carries a collection must be an object. -/
def toJson? (l : Listed Json) : Option Json :=
  match l.related, l.item with
  | none, j => some j
  | some _, .obj ms => some (.obj (extend l.related ms))
  | some _, _ => none

/-- A row of typed columns is an object, so that it can always carry a collection. -/
def modelJson (l : Listed Model) : Json := .obj (extend l.related (Model.members l.item))

theorem toJson?_model (l : Listed Model) :
    toJson? ⟨.obj (Model.members l.item), l.related⟩ = some l.modelJson := by
  obtain ⟨item, related⟩ := l
  cases related <;> rfl

end Listed

/-- Related items by the text of the key they belong to. -/
abbrev Groups := List (String × List Json)

namespace Groups

def push (key : String) (item : Json) : Groups → Groups
  | [] => [(key, [item])]
  | (k, items) :: rest =>
    if k = key then (k, items ++ [item]) :: rest else (k, items) :: push key item rest

/-- The group of a key, and the groups without it. -/
def take (key : String) (g : Groups) : List Json × Groups :=
  ((g.lookup key).getD [], g.filter (·.1 != key))

end Groups

namespace Related

/-- The text by which a row is found; none for null and for types that are not keys. -/
def valueKey : Value → Option String
  | .string s => some s
  | .char c => some (String.ofList [c])
  | .int _ n => some n.repr
  | .uuid u => some u.text
  | _ => none

def jsonKey : Json → Option String
  | .null => none
  | .str s => some s
  | j => some j.text

/-- Splits a lookup row into its local key and the related item. -/
def entry? (r : Relation) (row : Json.Members) : Option (String × Json) :=
  match (row.lookup r.localKey).bind jsonKey with
  | none => none
  | some key =>
    let rest := Json.erase r.localKey row
    match r.relatedTable with
    | some _ => some (key, .obj rest)
    | none =>
      match rest.lookup r.foreignKey with
      | none | some .null => none
      | some item => some (key, item)

def membersOf (row : Row) : Json.Members :=
  row.foldl (fun acc (c, v) => Json.insert c v.toJson acc) []

def group (r : Relation) (rows : List Row) : Groups :=
  (rows.filterMap fun row => entry? r (membersOf row)).foldl (fun g e => g.push e.1 e.2) []

/-- Looks up the related items of some keys. Without keys nothing is sent. -/
def load (s : Store) (r : Relation) (keys : List Value) (resource : String) :
    Except ListError Groups × Store :=
  if keys.isEmpty then (.ok [], s)
  else
    match s.send (.rows (r.lookup keys)) with
    | (.ok rows, s) => (.ok (group r rows), s)
    | (.error e, s) => (.error ⟨resource, e⟩, s)

/-- Gives each row the group of its key. A group goes to the first row with its key. -/
def distribute (field : String) : Groups → List (Model × Value) → List (Listed Model)
  | _, [] => []
  | g, (m, v) :: rest =>
    match valueKey v with
    | some key =>
      let (items, g) := g.take key
      ⟨m, some (field, items)⟩ :: distribute field g rest
    | none => ⟨m, some (field, [])⟩ :: distribute field g rest

/-- Attaches to each row its related collection, which may be empty. -/
def attach (s : Store) (e : Entity) (r : Relation) (rows : List Model) (resource : String) :
    Except ListError (List (Listed Model)) × Store × List Event :=
  match e.column? r.primaryKey with
  | none =>
    (.ok (rows.map fun m => ⟨m, some (r.field, [])⟩), s,
      [.keyNotColumn resource r.primaryKey])
  | some c =>
    let keys := rows.map (Model.get · c)
    match load s r keys resource with
    | (.ok g, s) => (.ok (distribute r.field g (rows.zip keys)), s, [])
    | (.error err, s) => (.error err, s, [])

end Related
end ListQuery
