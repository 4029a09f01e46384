import ListQuery.Text.Utf8

/-! Form-encoded pairs: `key=value` joined by `&`, a plus sign for a space and percent escapes for
every other byte outside a small safe set. Reading accepts any text. -/
namespace ListQuery
namespace Form

/-- A key and its value, unescaped. -/
abbrev Pair := String × String

/-- Bytes written as they are. -/
def isSafe (b : UInt8) : Bool :=
  let n := b.toNat
  (0x30 ≤ n && n ≤ 0x39) || (0x41 ≤ n && n ≤ 0x5A) || (0x61 ≤ n && n ≤ 0x7A) ||
    n == 0x2A || n == 0x2D || n == 0x2E || n == 0x5F

/-- The capital hexadecimal digit of a number below sixteen. -/
def hexDigit (n : Nat) : Char :=
  if n < 10 then Char.ofNat (0x30 + n) else Char.ofNat (0x37 + n)

def escapeByte (b : UInt8) : List Char :=
  if isSafe b then [Char.ofNat b.toNat]
  else if b.toNat == 0x20 then ['+']
  else ['%', hexDigit (b.toNat / 16), hexDigit (b.toNat % 16)]

def escape (cs : List Char) : List Char := (Utf8.encode cs).flatMap escapeByte

def renderPair (p : Pair) : List Char := escape p.1.toList ++ '=' :: escape p.2.toList

/-- The pairs in order, with no separator at either end. -/
def render (ps : List Pair) : String :=
  String.ofList (['&'].intercalate (ps.map renderPair))

def hexValue? (b : UInt8) : Option Nat :=
  let n := b.toNat
  if 0x30 ≤ n && n ≤ 0x39 then some (n - 0x30)
  else if 0x41 ≤ n && n ≤ 0x46 then some (n - 0x37)
  else if 0x61 ≤ n && n ≤ 0x66 then some (n - 0x57)
  else none

/-- Undoes the escapes; a percent sign that starts no escape stands for itself. -/
def unescape : List UInt8 → List UInt8
  | [] => []
  | b :: bs =>
    if b.toNat == 0x2B then 0x20 :: unescape bs
    else if b.toNat == 0x25 then
      match bs with
      | h :: l :: rest =>
        match hexValue? h, hexValue? l with
        | some x, some y => .ofNat (16 * x + y) :: unescape rest
        | _, _ => b :: unescape (h :: l :: rest)
      | short => b :: unescape short
    else b :: unescape bs

def unescapeText (bs : List UInt8) : String := String.ofList (Utf8.decode (unescape bs))

/-- Splits at the first `=`; without one the value is empty. -/
def readPair (bs : List UInt8) : Pair :=
  let isEquals := fun b : UInt8 => b.toNat == 0x3D
  (unescapeText (bs.takeWhile (!isEquals ·)), unescapeText ((bs.dropWhile (!isEquals ·)).drop 1))

/-- The pairs between the `&` signs; empty pieces count for nothing. -/
def parse (cs : List Char) : List Pair :=
  (((Utf8.encode cs).splitOnP fun b => b.toNat == 0x26).filter (!·.isEmpty)).map readPair

@[simp] theorem render_nil : render [] = "" := rfl

end Form
end ListQuery
