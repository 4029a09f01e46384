/-! Binary floating-point numbers of 64 bits: their exact values and rounding to the nearest. -/
namespace ListQuery

/-- A number by its bits: one for the sign, eleven for the exponent, fifty-two for the fraction. -/
structure Binary64 where
  bits : UInt64
deriving DecidableEq, Repr, Inhabited

namespace Binary64

def signBit : Nat := 0x8000000000000000

/-- The leading bit of a normal significand, which is not stored. -/
def hiddenBit : Nat := 0x10000000000000

def isNegative (x : Binary64) : Bool := signBit ≤ x.bits.toNat

/-- The bits below the sign; they order the magnitudes. -/
def magnitudeBits (x : Binary64) : Nat := x.bits.toNat % signBit

/-- The bits of the infinite magnitude. -/
def infinityBits : Nat := 0x7FF0000000000000

def ofMagnitude (negative : Bool) (bits : Nat) : Binary64 :=
  ⟨.ofNat ((if negative then signBit else 0) + min bits infinityBits)⟩

def zero (negative : Bool) : Binary64 := ofMagnitude negative 0

def infinity (negative : Bool) : Binary64 := ofMagnitude negative infinityBits

def nan : Binary64 := ⟨0x7FF8000000000000⟩

def isZero (x : Binary64) : Bool := x.magnitudeBits == 0

def isFinite (x : Binary64) : Bool := x.magnitudeBits < infinityBits

def isNaN (x : Binary64) : Bool := infinityBits < x.magnitudeBits

/-- The significand of a finite number. -/
def significand (x : Binary64) : Nat :=
  let e : Nat := x.magnitudeBits / hiddenBit
  let f := x.magnitudeBits % hiddenBit
  if e = 0 then f else f + hiddenBit

/-- The power of two that scales the significand. -/
def scale (x : Binary64) : Int :=
  let e : Nat := x.magnitudeBits / hiddenBit
  if e = 0 then -1074 else (e : Int) - 1075

/-- The number `m · 2 ^ q` as a numerator and a denominator. -/
def ratio (m : Nat) (q : Int) : Nat × Nat :=
  if 0 ≤ q then (m * Nat.pow 2 q.toNat, 1) else (m, Nat.pow 2 (-q).toNat)

/-- Integer quotient to the nearest, a half to the even neighbour. -/
def divNearest (n d : Nat) : Nat :=
  let k := n / d
  let r := n % d
  if d < 2 * r || (2 * r == d && k % 2 == 1) then k + 1 else k

/-- The number nearest to `n / d`, a tie going to the even significand. -/
def ofRatio (negative : Bool) (n d : Nat) : Binary64 :=
  if n = 0 then zero negative
  else
    let guess : Int := (Nat.log2 n : Int) - Nat.log2 d - 52
    let fits (q : Int) : Bool :=
      let (a, b) := ratio d (q + 52)
      a ≤ n * b
    let q := max (if fits guess then guess else guess - 1) (-1074)
    let (a, b) := ratio d q
    ofMagnitude negative ((q + 1074).toNat * hiddenBit + divNearest (n * b) a)

def ofNat (n : Nat) : Binary64 := ofRatio false n 1

def neg (x : Binary64) : Binary64 := ofMagnitude (!x.isNegative) x.magnitudeBits

def mul (x y : Binary64) : Binary64 :=
  let (n, d) := ratio (x.significand * y.significand) (x.scale + y.scale)
  ofRatio (x.isNegative != y.isNegative) n d

/-- Quotient of two finite numbers, the second not zero. -/
def div (x y : Binary64) : Binary64 :=
  let (n, d) := ratio x.significand (x.scale - y.scale)
  ofRatio (x.isNegative != y.isNegative) n (d * y.significand)

/-- The number nearest to `digits · 10 ^ exponent`. -/
def ofDecimal (negative : Bool) (digits : Nat) (exponent : Int) : Binary64 :=
  let size : Int := ((Nat.toDigits 10 digits).length : Int) + exponent
  if digits = 0 || size < -330 then zero negative
  else if 320 < size then infinity negative
  else if 0 ≤ exponent then ofRatio negative (digits * Nat.pow 10 exponent.toNat) 1
  else ofRatio negative digits (Nat.pow 10 (-exponent).toNat)

end Binary64
end ListQuery
