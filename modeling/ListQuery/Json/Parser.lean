import ListQuery.Binary64.Basic
import ListQuery.Json.Basic
import ListQuery.Text.Integer

/-! Reading JSON text: recursive descent on the characters. Fuel bounds the number of steps and is
computed from the length of the text; nesting is limited on its own. An object that begins with the
reserved name of an embedded document is read as that document. -/
namespace ListQuery
namespace Json

def isSpace (c : Char) : Bool := c == ' ' || c == '\t' || c == '\n' || c == '\r'

def skip (cs : List Char) : List Char := cs.dropWhile isSpace

def hexValue? (c : Char) : Option Nat :=
  let n := c.toNat
  if 0x30 ≤ n && n ≤ 0x39 then some (n - 0x30)
  else if 0x41 ≤ n && n ≤ 0x46 then some (n - 0x37)
  else if 0x61 ≤ n && n ≤ 0x66 then some (n - 0x57)
  else none

/-- The code unit of four hexadecimal digits. -/
def unitOf? (a b c d : Char) : Option Nat :=
  match hexValue? a, hexValue? b, hexValue? c, hexValue? d with
  | some w, some x, some y, some z => some (4096 * w + 256 * x + 16 * y + z)
  | _, _, _, _ => none

/-- Characters that a backslash introduces, apart from code units. -/
def escaped? (c : Char) : Option Char :=
  if c = '"' ∨ c = '\\' ∨ c = '/' then some c
  else if c = 'b' then some (Char.ofNat 8)
  else if c = 't' then some '\t'
  else if c = 'n' then some '\n'
  else if c = 'f' then some (Char.ofNat 12)
  else if c = 'r' then some '\r'
  else none

/-- Reads a string after its opening quote. Controls must be escaped, and a high surrogate must be
followed by a low one. -/
def stringRest : List Char → Option (List Char × List Char)
  | [] => none
  | c :: cs =>
    if c = '"' then some ([], cs)
    else if c = '\\' then
      match cs with
      | 'u' :: h₁ :: h₂ :: h₃ :: h₄ :: rest =>
        match unitOf? h₁ h₂ h₃ h₄ with
        | none => none
        | some u =>
          if u < 0xD800 ∨ 0xDFFF < u then
            (stringRest rest).map fun r => (Char.ofNat u :: r.1, r.2)
          else if 0xDBFF < u then none
          else
            match rest with
            | '\\' :: 'u' :: l₁ :: l₂ :: l₃ :: l₄ :: rest =>
              match unitOf? l₁ l₂ l₃ l₄ with
              | none => none
              | some l =>
                if 0xDC00 ≤ l ∧ l ≤ 0xDFFF then
                  (stringRest rest).map fun r =>
                    (Char.ofNat (0x10000 + (u - 0xD800) * 0x400 + (l - 0xDC00)) :: r.1, r.2)
                else none
            | _ => none
      | e :: rest =>
        match escaped? e with
        | some d => (stringRest rest).map fun r => (d :: r.1, r.2)
        | none => none
      | [] => none
    else if c.toNat < 0x20 then none
    else (stringRest cs).map fun r => (c :: r.1, r.2)

def maxUnsigned : Nat := 0xFFFFFFFFFFFFFFFF

/-- Appends digits to a number as long as it fits into 64 bits; returns it with the count of digits
left over. -/
def absorb (n : Nat) : List Char → Nat × Nat
  | [] => (n, 0)
  | c :: cs =>
    let next := 10 * n + (c.toNat - 0x30)
    if next ≤ maxUnsigned then absorb next cs else (n, cs.length + 1)

def powerOfTen (e : Int) : Binary64 := .ofDecimal false 1 e

/-- A power of ten times `x`, rounded at each step; none where the result is too large. -/
def scaled? (x : Binary64) (e : Int) : Option Binary64 :=
  if 308 < e then if x.isZero then some x else none
  else if 0 ≤ e then
    let y := x.mul (powerOfTen e)
    if y.isFinite then some y else none
  else if -308 ≤ e then some (x.div (powerOfTen (-e)))
  else if -616 ≤ e then some ((x.div (powerOfTen 308)).div (powerOfTen (-e - 308)))
  else some (.zero false)

/-- The float of the digits before and after the point; as many count as fit into 64 bits. -/
def floatOf? (negative : Bool) (whole fraction : List Char) (exponent : Int) : Option Json :=
  let (n, dropped) := absorb 0 whole
  let (n, unused) := absorb n fraction
  let e := exponent + dropped - ((fraction.length : Int) - unused)
  (scaled? (.ofNat n) e).map fun x => .float (if negative then x.neg else x)

/-- A number without point and exponent. -/
def integerOf? (negative : Bool) (whole : List Char) : Option Json :=
  let n := Nat.ofDigitChars 10 whole 0
  if negative then
    if 0 < n ∧ n ≤ 0x8000000000000000 then some (.int (-n)) else floatOf? true whole [] 0
  else if n ≤ maxUnsigned then some (.int n)
  else floatOf? false whole [] 0

/-- The exponent after its mark. -/
def exponentRest (cs : List Char) : Option (Int × List Char) :=
  let (negative, body) : Bool × List Char :=
    match cs with
    | '-' :: rest => (true, rest)
    | '+' :: rest => (false, rest)
    | _ => (false, cs)
  let digits := body.takeWhile Char.isDigit
  if digits.isEmpty then none
  else
    let n := Nat.ofDigitChars 10 digits 0
    some (if negative then -n else n, body.dropWhile Char.isDigit)

def fractional (negative : Bool) (whole fraction rest : List Char) : Option (Json × List Char) :=
  match rest with
  | c :: more =>
    if c = 'e' ∨ c = 'E' then
      (exponentRest more).bind fun (e, rest) =>
        (floatOf? negative whole fraction e).map (·, rest)
    else (floatOf? negative whole fraction 0).map (·, rest)
  | [] => (floatOf? negative whole fraction 0).map (·, [])

/-- Reads a number after its sign. -/
def unsignedRest (negative : Bool) (cs : List Char) : Option (Json × List Char) :=
  let whole := cs.takeWhile Char.isDigit
  let rest := cs.dropWhile Char.isDigit
  if whole.isEmpty || (whole.head? == some '0' && 1 < whole.length) then none
  else
    match rest with
    | '.' :: more =>
      let fraction := more.takeWhile Char.isDigit
      if fraction.isEmpty then none
      else fractional negative whole fraction (more.dropWhile Char.isDigit)
    | c :: _ =>
      if c = 'e' ∨ c = 'E' then fractional negative whole [] rest
      else (integerOf? negative whole).map (·, rest)
    | [] => (integerOf? negative whole).map (·, [])

/-- Reads a member's name and the colon after it. -/
def nameRest (cs : List Char) : Option (String × List Char) :=
  match skip cs with
  | '"' :: rest =>
    match stringRest rest with
    | some (name, rest) =>
      match skip rest with
      | ':' :: rest => some (String.ofList name, rest)
      | _ => none
    | none => none
  | _ => none

/-- Reads the text of an embedded document and the brace after it. -/
def embeddedRest (cs : List Char) : Option (List Char × List Char) :=
  match skip cs with
  | '"' :: rest =>
    match stringRest rest with
    | some (text, rest) =>
      match skip rest with
      | '\x7d' :: rest => some (text, rest)
      | _ => none
    | none => none
  | _ => none

/-- How many arrays and objects may stand inside one another in one document. -/
def maxDepth : Nat := 127

mutual

/-- Reads a value and returns what follows it; `depth` more arrays or objects may be opened. -/
def value (fuel depth : Nat) (cs : List Char) : Option (Json × List Char) :=
  match fuel with
  | 0 => none
  | fuel + 1 =>
    match skip cs with
    | 'n' :: 'u' :: 'l' :: 'l' :: rest => some (.null, rest)
    | 't' :: 'r' :: 'u' :: 'e' :: rest => some (.bool true, rest)
    | 'f' :: 'a' :: 'l' :: 's' :: 'e' :: rest => some (.bool false, rest)
    | '"' :: rest => (stringRest rest).map fun r => (.str (String.ofList r.1), r.2)
    | '-' :: rest => unsignedRest true rest
    | '[' :: rest =>
      match depth with
      | 0 => none
      | depth + 1 =>
        match skip rest with
        | ']' :: rest => some (.arr [], rest)
        | rest => (items fuel depth rest).map fun r => (.arr r.1, r.2)
    | '\x7b' :: rest =>
      match depth with
      | 0 => none
      | depth + 1 =>
        match skip rest with
        | '\x7d' :: rest => some (.obj [], rest)
        | rest =>
          match nameRest rest with
          | none => none
          | some (name, after) =>
            if name = embeddedName then
              match embeddedRest after with
              | none => none
              | some (text, rest) => (document fuel text).map (·, rest)
            else (members fuel depth rest).map fun r => (ofMembers r.1, r.2)
    | rest => unsignedRest false rest

/-- Reads items up to and including the closing bracket. -/
def items (fuel depth : Nat) (cs : List Char) : Option (List Json × List Char) :=
  match fuel with
  | 0 => none
  | fuel + 1 =>
    match value fuel depth cs with
    | none => none
    | some (j, rest) =>
      match skip rest with
      | ',' :: rest => (items fuel depth rest).map fun r => (j :: r.1, r.2)
      | ']' :: rest => some ([j], rest)
      | _ => none

/-- Reads members up to and including the closing brace. -/
def members (fuel depth : Nat) (cs : List Char) : Option (List (String × Json) × List Char) :=
  match fuel with
  | 0 => none
  | fuel + 1 =>
    match nameRest cs with
    | none => none
    | some (name, rest) =>
      match value fuel depth rest with
      | none => none
      | some (j, rest) =>
        match skip rest with
        | ',' :: rest => (members fuel depth rest).map fun r => ((name, j) :: r.1, r.2)
        | '\x7d' :: rest => some ([(name, j)], rest)
        | _ => none

/-- Reads a whole document: a value with nothing but blanks after it. -/
def document (fuel : Nat) (cs : List Char) : Option Json :=
  match fuel with
  | 0 => none
  | fuel + 1 =>
    match value fuel maxDepth cs with
    | some (j, rest) => if (skip rest).isEmpty then some j else none
    | none => none

end

def ofChars? (cs : List Char) : Option Json := document (2 * cs.length + 3) cs

def ofText? (s : String) : Option Json := ofChars? s.toList

end Json
end ListQuery
