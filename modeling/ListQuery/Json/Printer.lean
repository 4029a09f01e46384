import ListQuery.Binary64.Text
import ListQuery.Json.Basic

/-! Compact JSON text. -/
namespace ListQuery
namespace Json

/-- The lower-case hexadecimal digit of a number below sixteen. -/
def hexDigit (n : Nat) : Char :=
  if n < 10 then Char.ofNat (0x30 + n) else Char.ofNat (0x57 + n)

/-- Quotes, backslashes and controls are escaped, everything else is written as it is. -/
def escapeChar (c : Char) : List Char :=
  if c = '"' then ['\\', '"']
  else if c = '\\' then ['\\', '\\']
  else if c.toNat < 0x20 then
    if c.toNat = 8 then ['\\', 'b']
    else if c.toNat = 9 then ['\\', 't']
    else if c.toNat = 10 then ['\\', 'n']
    else if c.toNat = 12 then ['\\', 'f']
    else if c.toNat = 13 then ['\\', 'r']
    else ['\\', 'u', '0', '0', hexDigit (c.toNat / 16), hexDigit (c.toNat % 16)]
  else [c]

def quoted (s : String) : List Char := '"' :: (s.toList.flatMap escapeChar ++ ['"'])

def signed (e : Int) : List Char :=
  (if e < 0 then '-' else '+') :: Nat.toDigits 10 e.natAbs

/-- Finite floats: positional with at least one decimal while the leading digit stands between the
fifth decimal and the sixteenth place, in exponent form otherwise. -/
def floatChars (x : Binary64) : List Char :=
  let size :=
    if x.isZero then ['0', '.', '0']
    else
      let (d, e) := x.shortest .even
      let digits := Nat.toDigits 10 d
      let lead : Int := (digits.length : Int) + e - 1
      if -5 ≤ lead ∧ lead ≤ 15 then
        Binary64.positional digits e ++ (if 0 ≤ e then ['.', '0'] else [])
      else
        let tail := digits.drop 1
        digits.take 1 ++ (if tail.isEmpty then [] else '.' :: tail) ++ 'e' :: signed lead
  if x.isNegative then '-' :: size else size

mutual

def chars : Json → List Char
  | .null => "null".toList
  | .bool b => (if b then "true" else "false").toList
  | .int n => n.repr.toList
  | .float x => if x.isFinite then floatChars x else "null".toList
  | .str s => quoted s
  | .arr items => '[' :: (itemChars items ++ [']'])
  | .obj members => '\x7b' :: (memberChars members ++ ['\x7d'])

/-- Items with commas between them. -/
def itemChars : List Json → List Char
  | [] => []
  | [j] => chars j
  | j :: rest => chars j ++ ',' :: itemChars rest

/-- Members with commas between them. -/
def memberChars : List (String × Json) → List Char
  | [] => []
  | [(n, j)] => quoted n ++ ':' :: chars j
  | (n, j) :: rest => quoted n ++ ':' :: (chars j ++ ',' :: memberChars rest)

end

def text (j : Json) : String := String.ofList (chars j)

end Json
end ListQuery
