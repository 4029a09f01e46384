/-! The keys of a query string and their reading: paging, free text, sort keys and the parts of
filters. -/
namespace ListQuery

/-- Which part of a filter a pair gives. -/
inductive Part where
  | value
  | operator
  | negation
deriving DecidableEq

namespace Part

def token : Part → String
  | .value => "value"
  | .operator => "operator"
  | .negation => "notOp"

def all : List Part := [.value, .operator, .negation]

def ofToken? (t : String) : Option Part := all.find? (·.token == t)

@[simp] theorem ofToken?_token (p : Part) : ofToken? p.token = some p := by
  cases p <;> decide

end Part

inductive Key where
  | page
  | limit
  | q
  | sort (field : String)
  | filter (field : String) (part : Part)
  /-- Outside the grammar. -/
  | other
deriving DecidableEq

namespace Key

def isBracket (c : Char) : Bool := c == '[' || c == ']'

/-- Reads `stem[field]` or `stem[field][part]`, where field and part are not empty and hold no
brackets. -/
def bracketed? (stem key : List Char) : Option (List Char × Option (List Char)) :=
  match (stem ++ ['[']).isPrefixOf? key with
  | none => none
  | some rest =>
    let field := rest.takeWhile (!isBracket ·)
    if field.isEmpty then none
    else
      match rest.dropWhile (!isBracket ·) with
      | [']'] => some (field, none)
      | ']' :: '[' :: inner =>
        let part := inner.takeWhile (!isBracket ·)
        if part.isEmpty then none
        else if inner.dropWhile (!isBracket ·) = [']'] then some (field, some part)
        else none
      | _ => none

/-- A bare filter key means its value. -/
def ofString (s : String) : Key :=
  if s = "page" then .page
  else if s = "limit" then .limit
  else if s = "q" then .q
  else
    match bracketed? "sort".toList s.toList with
    | some (field, none) => .sort (String.ofList field)
    | _ =>
      match bracketed? "filter".toList s.toList with
      | some (field, none) => .filter (String.ofList field) .value
      | some (field, some part) =>
        match Part.ofToken? (String.ofList part) with
        | some p => .filter (String.ofList field) p
        | none => .other
      | none => .other

def sortText (field : String) : String := "sort[" ++ field ++ "]"

def filterText (field : String) (part : Part) : String :=
  "filter[" ++ field ++ "][" ++ part.token ++ "]"

end Key
end ListQuery
