import ListQuery.Binary64.Shortest
import ListQuery.Text.Integer

/-! Plain decimal text of binary numbers: never an exponent when written, optional when read. -/
namespace ListQuery
namespace Binary64

/-- Digits followed by zeros, or with a point among or before them. -/
def positional (digits : List Char) (exponent : Int) : List Char :=
  if 0 ≤ exponent then digits ++ List.replicate exponent.toNat '0'
  else
    let places := (-exponent).toNat
    if places < digits.length then
      digits.take (digits.length - places) ++ '.' :: digits.drop (digits.length - places)
    else '0' :: '.' :: (List.replicate (places - digits.length) '0' ++ digits)

/-- The shortest text that reads back, without an exponent and without a point for whole numbers. -/
def plain (x : Binary64) : String :=
  if x.isNaN then "NaN"
  else
    let size :=
      if !x.isFinite then "inf".toList
      else if x.isZero then ['0']
      else
        let (d, e) := x.shortest .up
        positional (Nat.toDigits 10 d) e
    String.ofList (if x.isNegative then '-' :: size else size)

/-- Digits with at most one point among them, and an optional exponent after `e` or `E`. -/
def magnitudeOf? (negative : Bool) (cs : List Char) : Option Binary64 :=
  let isMark := fun c : Char => c == 'e' || c == 'E'
  let mantissa := cs.takeWhile (!isMark ·)
  let whole := mantissa.takeWhile (· != '.')
  let fraction := (mantissa.dropWhile (· != '.')).drop 1
  let exponent? : Option Int :=
    match cs.dropWhile (!isMark ·) with
    | [] => some 0
    | _ :: digits => Text.intOf? digits
  match exponent?, Text.natOf? (whole ++ fraction) with
  | some e, some n => some (ofDecimal negative n (e - fraction.length))
  | _, _ => none

/-- Reads a number in decimal notation, an infinity or a NaN, with an optional sign. -/
def ofChars? (cs : List Char) : Option Binary64 :=
  let (negative, body) : Bool × List Char :=
    match cs with
    | '-' :: rest => (true, rest)
    | '+' :: rest => (false, rest)
    | _ => (false, cs)
  let name := String.ofList (body.map Char.toLower)
  if name == "inf" || name == "infinity" then some (infinity negative)
  else if name == "nan" then some nan
  else magnitudeOf? negative body

end Binary64
end ListQuery
