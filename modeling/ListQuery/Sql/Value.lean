import ListQuery.Binary64.Text
import ListQuery.Json.Printer

/-! Database values: what statements bind and what rows hold. -/
namespace ListQuery

/-- A universally unique identifier by its thirty-two hexadecimal digits. -/
structure Uuid where
  digits : List (Fin 16)
  length_digits : digits.length = 32
deriving DecidableEq

namespace Uuid

def digitChars (ds : List (Fin 16)) : List Char := ds.map fun d => Json.hexDigit d.val

/-- Lower case, with hyphens after the eighth, twelfth, sixteenth and twentieth digit. -/
def chars (u : Uuid) : List Char :=
  let cs := digitChars u.digits
  cs.take 8 ++ '-' :: ((cs.drop 8).take 4 ++ '-' :: ((cs.drop 12).take 4 ++
    '-' :: ((cs.drop 16).take 4 ++ '-' :: cs.drop 20)))

def text (u : Uuid) : String := String.ofList (chars u)

end Uuid

namespace Sql

inductive IntType where
  | tinyInt
  | smallInt
  | int
  | bigInt
  | tinyUnsigned
  | smallUnsigned
  | unsigned
  | bigUnsigned
deriving DecidableEq

namespace IntType

def min : IntType → Int
  | .tinyInt => -128
  | .smallInt => -32768
  | .int => -2147483648
  | .bigInt => -9223372036854775808
  | _ => 0

def max : IntType → Int
  | .tinyInt => 127
  | .smallInt => 32767
  | .int => 2147483647
  | .bigInt => 9223372036854775807
  | .tinyUnsigned => 255
  | .smallUnsigned => 65535
  | .unsigned => 4294967295
  | .bigUnsigned => 18446744073709551615

end IntType

inductive ValueType where
  | bool
  | int (type : IntType)
  | string
  | char
  | double
  | json
  | uuid
deriving DecidableEq

/-- A value with its type; null has a type too. -/
inductive Value where
  | null (type : ValueType)
  | bool (b : Bool)
  | int (type : IntType) (n : Int)
  | string (s : String)
  | char (c : Char)
  | double (x : Binary64)
  | json (j : Json)
  | uuid (u : Uuid)
deriving Inhabited

namespace Value

def type : Value → ValueType
  | .null t => t
  | .bool _ => .bool
  | .int t _ => .int t
  | .string _ => .string
  | .char _ => .char
  | .double _ => .double
  | .json _ => .json
  | .uuid _ => .uuid

def isNull : Value → Bool
  | .null _ => true
  | _ => false

def toJson : Value → Json
  | .null _ => .null
  | .bool b => .bool b
  | .int _ n => .int n
  | .string s => .str s
  | .char c => .str (String.ofList [c])
  | .double x => Json.ofFloat x
  | .json j => j
  | .uuid u => .str u.text

end Value

/-- A row of an answer: values by column name. -/
abbrev Row := List (String × Value)

def Row.toJson (row : Row) : Json := Json.ofMembers (row.map fun (c, v) => (c, v.toJson))

end Sql
end ListQuery
