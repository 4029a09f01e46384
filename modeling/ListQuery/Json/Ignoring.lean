import ListQuery.Json.Parser

/-! Passing over JSON text whose value is not wanted. Only the grammar counts: a value may be nested
to any depth, its numbers may be of any size and its code units need not form pairs. -/
namespace ListQuery
namespace Json

/-- What follows a string, after its opening quote. -/
def afterString : List Char → Option (List Char)
  | [] => none
  | c :: cs =>
    if c = '"' then some cs
    else if c = '\\' then
      match cs with
      | 'u' :: h₁ :: h₂ :: h₃ :: h₄ :: rest =>
        if (unitOf? h₁ h₂ h₃ h₄).isSome then afterString rest else none
      | e :: rest => if (escaped? e).isSome then afterString rest else none
      | [] => none
    else if c.toNat < 0x20 then none
    else afterString cs

/-- What follows some digits, of which there must be one. -/
def afterDigits (cs : List Char) : Option (List Char) :=
  if (cs.takeWhile Char.isDigit).isEmpty then none else some (cs.dropWhile Char.isDigit)

/-- What follows an exponent, where there is one. -/
def afterExponent (cs : List Char) : Option (List Char) :=
  match cs with
  | c :: rest =>
    if c = 'e' ∨ c = 'E' then
      match rest with
      | '-' :: rest => afterDigits rest
      | '+' :: rest => afterDigits rest
      | rest => afterDigits rest
    else some cs
  | [] => some []

/-- What follows a number, after its sign. -/
def afterNumber (cs : List Char) : Option (List Char) :=
  let whole := cs.takeWhile Char.isDigit
  if whole.isEmpty || (whole.head? == some '0' && 1 < whole.length) then none
  else
    match cs.dropWhile Char.isDigit with
    | '.' :: rest => (afterDigits rest).bind afterExponent
    | rest => afterExponent rest

/-- What follows a member's name and the colon after it. -/
def afterName (cs : List Char) : Option (List Char) :=
  match skip cs with
  | '"' :: rest =>
    match afterString rest with
    | some rest =>
      match skip rest with
      | ':' :: rest => some rest
      | _ => none
    | none => none
  | _ => none

mutual

/-- What follows a value. -/
def afterValue (fuel : Nat) (cs : List Char) : Option (List Char) :=
  match fuel with
  | 0 => none
  | fuel + 1 =>
    match skip cs with
    | 'n' :: 'u' :: 'l' :: 'l' :: rest => some rest
    | 't' :: 'r' :: 'u' :: 'e' :: rest => some rest
    | 'f' :: 'a' :: 'l' :: 's' :: 'e' :: rest => some rest
    | '"' :: rest => afterString rest
    | '-' :: rest => afterNumber rest
    | '[' :: rest =>
      match skip rest with
      | ']' :: rest => some rest
      | rest => afterItems fuel rest
    | '\x7b' :: rest =>
      match skip rest with
      | '\x7d' :: rest => some rest
      | rest => afterMembers fuel rest
    | rest => afterNumber rest

/-- What follows items and the closing bracket. -/
def afterItems (fuel : Nat) (cs : List Char) : Option (List Char) :=
  match fuel with
  | 0 => none
  | fuel + 1 =>
    match afterValue fuel cs with
    | none => none
    | some rest =>
      match skip rest with
      | ',' :: rest => afterItems fuel rest
      | ']' :: rest => some rest
      | _ => none

/-- What follows members and the closing brace. -/
def afterMembers (fuel : Nat) (cs : List Char) : Option (List Char) :=
  match fuel with
  | 0 => none
  | fuel + 1 =>
    match (afterName cs).bind (afterValue fuel) with
    | none => none
    | some rest =>
      match skip rest with
      | ',' :: rest => afterMembers fuel rest
      | '\x7d' :: rest => some rest
      | _ => none

end

/-- What follows a value at the start of a text; every step takes at least half a character. -/
def ignored? (cs : List Char) : Option (List Char) := afterValue (2 * cs.length + 2) cs

end Json
end ListQuery
