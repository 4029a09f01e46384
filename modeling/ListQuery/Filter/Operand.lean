import ListQuery.Binary64.Text
import ListQuery.Json.Parser
import ListQuery.Request.Operator
import ListQuery.Sql.Value
import ListQuery.Text.Blank

/-! Operands: what the text of a filter stands for under its operator. -/
namespace ListQuery

inductive Operand where
  | null
  | bool (b : Bool)
  | int (n : Int64)
  | float (x : Binary64)
  | text (s : String)
  | list (items : List String)
  | json (j : Json)

namespace Operand

def isDigits (cs : List Char) : Bool := !cs.isEmpty && cs.all Char.isDigit

/-- Digits with a minus sign at most in front are an integer, and with digits after a point a float.
An integer past 64 bits is neither. -/
def numeric? (cs : List Char) : Option Operand :=
  let (negative, body) : Bool × List Char :=
    match cs with
    | '-' :: rest => (true, rest)
    | _ => (false, cs)
  let whole := body.takeWhile (· != '.')
  if !isDigits whole then none
  else
    match body.dropWhile (· != '.') with
    | [] =>
      let n : Int := Nat.ofDigitChars 10 whole 0
      (Text.int64? (if negative then -n else n)).map .int
    | _ :: fraction =>
      if !isDigits fraction then none
      else
        some (.float (.ofDecimal negative (Nat.ofDigitChars 10 (whole ++ fraction) 0)
          (-(fraction.length : Int))))

/-- Text between brackets or braces that is JSON; the two ends need not match for it to be tried. -/
def json? (cs : List Char) : Option Operand :=
  match cs.head?, cs.getLast? with
  | some a, some z =>
    if 2 ≤ cs.length ∧ (a = '[' ∨ a = '\x7b') ∧ (z = ']' ∨ z = '\x7d') then
      (Json.ofChars? cs).map .json
    else none
  | _, _ => none

/-- Numbers and JSON for what they stand for, everything else as text. -/
def scalar (s : String) : Operand :=
  match numeric? s.toList with
  | some o => o
  | none => (json? s.toList).getD (.text s)

/-- The pieces between commas without the blanks around them; empty ones are left out. -/
def itemsOf (cs : List Char) : List (List Char) :=
  ((cs.splitOnP (· == ',')).map Text.trimmed).filter (!·.isEmpty)

/-- What `s` stands for under an operator. -/
def coerce (s : String) : Operator → Operand
  | .oneOf => .list ((itemsOf s.toList).map String.ofList)
  | .is =>
    if s = "null" then .null
    else if s = "true" then .bool true
    else if s = "false" then .bool false
    else .text s
  | _ => scalar s

/-- The text that patterns and full-text queries are made of. -/
def asText : Operand → String
  | .null => "null"
  | .bool b => if b then "true" else "false"
  | .int n => n.toInt.repr
  | .float x => x.plain
  | .text s => s
  | .list items => ",".intercalate items
  | .json j => j.text

/-- The value that a comparison binds. -/
def toValue : Operand → Sql.Value
  | .null => .null .string
  | .bool b => .bool b
  | .int n => .int .bigInt n.toInt
  | .float x => .double x
  | .text s => .string s
  | .list items => .string (",".intercalate items)
  | .json j => .json j

/-- An item of a list binds a number if it looks like one, and its text otherwise. -/
def itemValue (item : String) : Sql.Value :=
  match numeric? item.toList with
  | some o => o.toValue
  | none => .string item

/-- The values that a membership test binds. -/
def toValues : Operand → List Sql.Value
  | .list items => items.map itemValue
  | o => [o.toValue]

end Operand
end ListQuery
