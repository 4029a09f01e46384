/-! Decimal integers: reading digits with an optional sign, and the signed 64-bit range. -/
namespace ListQuery
namespace Text

/-- The number written by ASCII digits alone, at least one. -/
def natOf? (cs : List Char) : Option Nat :=
  if !cs.isEmpty && cs.all Char.isDigit then some (Nat.ofDigitChars 10 cs 0) else none

/-- An integer with at most one sign in front; leading zeros are allowed. -/
def intOf? : List Char → Option Int
  | '+' :: cs => (natOf? cs).map Int.ofNat
  | '-' :: cs => (natOf? cs).map fun n => -(n : Int)
  | cs => (natOf? cs).map Int.ofNat

/-- The signed 64-bit integer equal to `n`, if there is one. -/
def int64? (n : Int) : Option Int64 :=
  if -0x8000000000000000 ≤ n ∧ n ≤ 0x7FFFFFFFFFFFFFFF then some (Int64.ofInt n) else none

def int64Of? (cs : List Char) : Option Int64 := (intOf? cs).bind int64?

theorem natOf?_toDigits (n : Nat) : natOf? (Nat.toDigits 10 n) = some n := by
  have hall : (Nat.toDigits 10 n).all Char.isDigit = true :=
    List.all_eq_true.2 fun _ hc => Nat.isDigit_of_mem_toDigits (by decide) (by decide) hc
  have hne : Nat.toDigits 10 n ≠ [] := Nat.toDigits_ne_nil
  simp [natOf?, hall, hne]

end Text
end ListQuery
