import ListQuery.Json.Ignoring
import ListQuery.Shape

/-! Records read from JSON text. The members that a record knows are read as they come, each by a
reader for its type; a known name may not come twice, and other members are passed over, however
deep they are nested. -/
namespace ListQuery
namespace Shape

open Json

/-- Reads a part at the start of a text and returns what follows it; `depth` more arrays or objects
may be opened. -/
abbrev Reader := (depth : Nat) → List Char → Option (Json × List Char)

def textPart : Reader := fun _ cs =>
  match skip cs with
  | '"' :: rest => (stringRest rest).map fun r => (.str (String.ofList r.1), r.2)
  | _ => none

/-- A token, or an object that gives null to it, which is read as the token too. -/
def tokenPart : Reader := fun depth cs =>
  match skip cs with
  | '\x7b' :: rest =>
    if depth = 0 then none
    else
      match nameRest rest with
      | none => none
      | some (name, rest) =>
        match skip rest with
        | 'n' :: 'u' :: 'l' :: 'l' :: rest =>
          match skip rest with
          | '\x7d' :: rest => some (.str name, rest)
          | _ => none
        | _ => none
  | rest => textPart depth rest

def unsignedPart : Reader := fun _ cs =>
  match skip cs with
  | '-' :: rest => unsignedRest true rest
  | rest => unsignedRest false rest

def optionalPart (read : Reader) : Reader := fun depth cs =>
  match skip cs with
  | 'n' :: 'u' :: 'l' :: 'l' :: rest => some (.null, rest)
  | rest => read depth rest

/-- An array of values of any kind; embedded documents among them are opened as they are read. -/
def rowsPart : Reader := fun depth cs =>
  match skip cs with
  | '[' :: rest => Json.value (2 * cs.length + 2) depth ('[' :: rest)
  | _ => none

section Records

variable (parts : List (String × Reader)) (depth : Nat)

/-- Reads the value of one member; that of an unknown one is passed over. -/
def memberRest (name : String) (cs : List Char) : Option (Members × List Char) :=
  match parts.lookup name with
  | some read => (read depth cs).map fun r => ([(name, r.1)], r.2)
  | none => (ignored? cs).map fun rest => ([], rest)

/-- Reads members up to and including the closing brace and keeps those that are known. -/
def membersRest (fuel : Nat) (cs : List Char) : Option (Members × List Char) :=
  match fuel with
  | 0 => none
  | fuel + 1 =>
    match nameRest cs with
    | none => none
    | some (name, rest) =>
      match memberRest parts depth name rest with
      | none => none
      | some (known, rest) =>
        match skip rest with
        | ',' :: rest => (membersRest fuel rest).map fun r => (known ++ r.1, r.2)
        | '\x7d' :: rest => some (known, rest)
        | _ => none

end Records

/-- Reads all parts in their order up to and including the closing bracket. -/
def itemsRest (depth : Nat) : List (String × Reader) → List Char → Option (Members × List Char)
  | [], _ => none
  | (name, read) :: parts, cs =>
    match read depth cs with
    | none => none
    | some (j, rest) =>
      match parts, skip rest with
      | [], ']' :: rest => some ([(name, j)], rest)
      | _ :: _, ',' :: rest => (itemsRest depth parts rest).map fun r => ((name, j) :: r.1, r.2)
      | _, _ => none

/-- A record as an object with its parts by name, or as an array with its parts by position. -/
def recordPart (parts : List (String × Reader)) : Reader := fun depth cs =>
  match depth, skip cs with
  | depth + 1, '[' :: rest => (itemsRest depth parts rest).map fun r => (.obj r.1, r.2)
  | depth + 1, '\x7b' :: rest =>
    match skip rest with
    | '\x7d' :: rest => some (.obj [], rest)
    | rest =>
      match membersRest parts depth rest.length rest with
      | some (known, rest) => if (known.map Prod.fst).Nodup then some (.obj known, rest) else none
      | none => none
  | _, _ => none

def sortKeyParts : List (String × Reader) := [("field", textPart), ("dir", tokenPart)]

def filterParts : List (String × Reader) :=
  [("field", textPart), ("value", textPart), ("operator", optionalPart tokenPart),
    ("notOp", optionalPart tokenPart)]

def paginationParts : List (String × Reader) :=
  [("page", unsignedPart), ("pageSize", unsignedPart), ("totalItems", unsignedPart),
    ("totalPages", unsignedPart)]

def envelopeParts : List (String × Reader) :=
  [("data", rowsPart), ("pagination", recordPart paginationParts)]

/-- Reads a text that holds a record and blanks around it. -/
def partsOf? (parts : List (String × Reader)) (text : String) : Option Json :=
  match recordPart parts maxDepth text.toList with
  | some (j, rest) => if (skip rest).isEmpty then some j else none
  | none => none

def sortKeyOfText? (text : String) : Option SortKey := (partsOf? sortKeyParts text).bind sortKey?

def filterOfText? (text : String) : Option Filter := (partsOf? filterParts text).bind filter?

def paginationOfText? (text : String) : Option Pagination :=
  (partsOf? paginationParts text).bind pagination?

/-- The rows are opened already when their text is read. -/
def envelopeOfText? (text : String) : Option (Envelope Json) :=
  (partsOf? envelopeParts text).bind (envelopeWith? some)

end Shape
end ListQuery
