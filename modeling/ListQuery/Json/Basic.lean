import ListQuery.Binary64.Basic

/-! JSON values. The members of an object are kept in the order of their names, one per name. -/
namespace ListQuery

/-- Integers between `-2 ^ 63` and `2 ^ 64 - 1` are exact, all other numbers are binary. -/
inductive Json where
  | null
  | bool (b : Bool)
  | int (n : Int)
  | float (x : Binary64)
  | str (s : String)
  | arr (items : List Json)
  | obj (members : List (String × Json))
deriving Inhabited

namespace Json

abbrev Members := List (String × Json)

/-- Puts a member in its place; a member of the same name gives way to it. -/
def insert (name : String) (value : Json) : Members → Members
  | [] => [(name, value)]
  | (n, v) :: rest =>
    if name < n then (name, value) :: (n, v) :: rest
    else if name = n then (name, value) :: rest
    else (n, v) :: insert name value rest

/-- The object with the given members; the last of several with one name counts. -/
def ofMembers (members : Members) : Json :=
  .obj (members.foldl (fun acc m => insert m.1 m.2 acc) [])

/-- Takes a member out. -/
def erase (name : String) (members : Members) : Members := members.filter (·.1 != name)

def isNull : Json → Bool
  | .null => true
  | _ => false

/-- The reserved name of an embedded document: an object whose first name this is has no other
member, and stands for the document that is the text of its value. -/
def embeddedName : String := "$serde_json::private::RawValue"

/-- A float that is not finite has no JSON form. -/
def ofFloat (x : Binary64) : Json := if x.isFinite then .float x else .null

end Json
end ListQuery
