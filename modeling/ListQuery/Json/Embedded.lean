import ListQuery.Json.Parser

/-! Embedded documents inside a value that is at hand. Reading text opens those whose name comes
first in the text; in a value the names stand in order, so that other objects may begin with it. -/
namespace ListQuery
namespace Json

mutual

/-- The value with its embedded documents opened; none if one has other members or no text that is
a document. What a document holds is left as it was read. -/
def opened? : Json → Option Json
  | .null => some .null
  | .bool b => some (.bool b)
  | .int n => some (.int n)
  | .float x => some (.float x)
  | .str s => some (.str s)
  | .arr items => (openedItems? items).map .arr
  | .obj members =>
    if members.head?.map (·.1) = some embeddedName then
      match members with
      | [(_, .str s)] => ofText? s
      | _ => none
    else (openedMembers? members).map .obj

/-- The items with their embedded documents opened. -/
def openedItems? : List Json → Option (List Json)
  | [] => some []
  | j :: rest =>
    match opened? j, openedItems? rest with
    | some i, some is => some (i :: is)
    | _, _ => none

/-- The members with the embedded documents of their values opened. -/
def openedMembers? : List (String × Json) → Option (List (String × Json))
  | [] => some []
  | (n, j) :: rest =>
    match opened? j, openedMembers? rest with
    | some v, some ms => some ((n, v) :: ms)
    | _, _ => none

end

end Json
end ListQuery
