import ListQuery.Binary64.Basic

/-! The shortest decimal that reads back as a given number: the coarsest power of ten of which some
multiple lies among the reals that round to it, and the multiple nearest to it. -/
namespace ListQuery
namespace Binary64

/-- What to do with two multiples equally near. -/
inductive Tie where
  | up
  | even
deriving DecidableEq

/-- The positive reals that round to a finite number other than zero lie between `low / den` and
`high / den`, and the number itself is `mid / den`. -/
structure Interval where
  low : Nat
  mid : Nat
  high : Nat
  den : Nat
  closed : Bool

def interval (x : Binary64) : Interval :=
  let m := x.significand
  let below := if m == hiddenBit && -1074 < x.scale then 1 else 2
  let (unit, den) := ratio 1 (x.scale - 2)
  ⟨(4 * m - below) * unit, 4 * m * unit, (4 * m + 2) * unit, den, m % 2 == 0⟩

/-- Whether `n / d` rounds to the number. -/
def Interval.contains (i : Interval) (n d : Nat) : Bool :=
  if i.closed then i.low * d ≤ n * i.den && n * i.den ≤ i.high * d
  else i.low * d < n * i.den && n * i.den < i.high * d

/-- The multiple of `10 ^ e` to print, if one rounds to the number. -/
def Interval.onGrid? (i : Interval) (tie : Tie) (e : Int) : Option Nat :=
  let (p, s) := if 0 ≤ e then (Nat.pow 10 e.toNat, 1) else (1, Nat.pow 10 (-e).toNat)
  let k := i.mid * s / (i.den * p)
  let rest := i.mid * s - k * (i.den * p)
  let lower := 0 < k && i.contains (k * p) s
  let upper := i.contains ((k + 1) * p) s
  if lower && upper then
    let gap := i.den * p - rest
    if rest < gap then some k
    else if gap < rest then some (k + 1)
    else if tie = .even && k % 2 == 0 then some k
    else some (k + 1)
  else if lower then some k
  else if upper then some (k + 1)
  else none

/-- Digits and exponent of the shortest decimal of a finite number other than zero. -/
def shortest (tie : Tie) (x : Binary64) : Nat × Int :=
  let i := x.interval
  let top : Int := ((Nat.log2 i.mid : Int) - Nat.log2 i.den + 1) * 30103 / 100000 + 1
  let attempt (j : Nat) : Option (Nat × Int) := (i.onGrid? tie (top - j)).map (·, top - j)
  ((List.range 24).findSome? attempt).getD (0, 0)

end Binary64
end ListQuery
