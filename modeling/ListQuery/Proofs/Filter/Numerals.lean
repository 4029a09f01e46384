import ListQuery.Filter.Operand
import ListQuery.Proofs.Text.Digits
import Mathlib.Data.List.TakeWhile

/-! Numerals: the texts that an operand reads as numbers. -/
namespace ListQuery
namespace Operand

open Text

/-- The integer that digits behind a minus sign, or alone, stand for. -/
def integer (negative : Bool) (digits : List Char) : Int :=
  if negative then -(Nat.ofDigitChars 10 digits 0 : Int) else Nat.ofDigitChars 10 digits 0

/-- The number nearest to what a numeral with a point stands for. -/
def decimal (negative : Bool) (whole fraction : List Char) : Binary64 :=
  .ofDecimal negative (Nat.ofDigitChars 10 (whole ++ fraction) 0) (-(fraction.length : Int))

theorem isDigits_iff {cs : List Char} :
    isDigits cs = true ↔ cs ≠ [] ∧ ∀ c ∈ cs, c.isDigit = true := by
  simp [isDigits]

/-- What is read after the sign. -/
def unsigned? (negative : Bool) (body : List Char) : Option Operand :=
  let whole := body.takeWhile (· != '.')
  if !isDigits whole then none
  else
    match body.dropWhile (· != '.') with
    | [] => (Text.int64? (integer negative whole)).map .int
    | _ :: fraction =>
      if !isDigits fraction then none else some (.float (decimal negative whole fraction))

theorem numeric?_minus (cs : List Char) : numeric? ('-' :: cs) = unsigned? true cs := rfl

theorem numeric?_of_ne_minus {cs : List Char} (h : cs.head? ≠ some '-') :
    numeric? cs = unsigned? false cs := by
  unfold numeric?
  split
  next negative body split =>
    split at split
    next rest => exact absurd rfl h
    next =>
      cases split
      rfl

theorem numeric?_signed {negative : Bool} {body : List Char} (h : body.head? ≠ some '-') :
    numeric? (signed negative body) = unsigned? negative body := by
  cases negative with
  | true => exact numeric?_minus body
  | false => exact numeric?_of_ne_minus h

theorem exists_signed (cs : List Char) :
    ∃ negative body, cs = signed negative body ∧ numeric? cs = unsigned? negative body := by
  by_cases h : cs.head? = some '-'
  · obtain ⟨rest, rfl⟩ := List.head?_eq_some_iff.1 h
    exact ⟨true, rest, rfl, rfl⟩
  · exact ⟨false, cs, rfl, numeric?_of_ne_minus h⟩

section Reading

variable {negative : Bool} {digits whole fraction : List Char}

theorem ne_point_of_isDigits (h : isDigits digits = true) : ∀ c ∈ digits, (c != '.') = true := by
  intro c hc
  have digit := (isDigits_iff.1 h).2 c hc
  rw [bne_iff_ne]
  rintro rfl
  exact absurd digit (by decide)

theorem head?_ne_minus_of_isDigits (h : isDigits digits = true) (rest : List Char) :
    (digits ++ rest).head? ≠ some '-' := by
  obtain ⟨hne, digit⟩ := isDigits_iff.1 h
  obtain ⟨c, cs, rfl⟩ := List.exists_cons_of_ne_nil hne
  have first := digit c List.mem_cons_self
  intro minus
  rw [Option.some.inj minus] at first
  exact absurd first (by decide)

theorem numeric?_integer (negative : Bool) (h : isDigits digits = true) :
    numeric? (signed negative digits) =
      (Text.int64? (integer negative digits)).map .int := by
  have front := head?_ne_minus_of_isDigits h []
  have point := ne_point_of_isDigits h
  have whole : digits.takeWhile (· != '.') = digits := List.takeWhile_eq_self_iff.2 point
  have rest : digits.dropWhile (· != '.') = [] := List.dropWhile_eq_nil_iff.2 point
  rw [List.append_nil] at front
  rw [numeric?_signed front, unsigned?, whole, rest]
  simp [h]

theorem numeric?_decimal (negative : Bool) (hw : isDigits whole = true)
    (hf : isDigits fraction = true) :
    numeric? (signed negative (whole ++ '.' :: fraction)) =
      some (.float (decimal negative whole fraction)) := by
  have point := ne_point_of_isDigits hw
  have front : (whole ++ '.' :: fraction).takeWhile (· != '.') = whole := by
    rw [List.takeWhile_append_of_pos point]
    simp
  have rest : (whole ++ '.' :: fraction).dropWhile (· != '.') = '.' :: fraction := by
    rw [List.dropWhile_append_of_pos point]
    simp
  rw [numeric?_signed (head?_ne_minus_of_isDigits hw _), unsigned?, front, rest]
  simp [hw, hf]

/-- What is read after the sign is digits, or digits on both sides of a point. -/
theorem unsigned?_shape {body : List Char} {o : Operand} (h : unsigned? negative body = some o) :
    isDigits body = true ∨ ∃ whole fraction, isDigits whole = true ∧ isDigits fraction = true ∧
      body = whole ++ '.' :: fraction := by
  have parts := List.takeWhile_append_dropWhile (p := (· != '.')) (l := body)
  have stop := List.head?_dropWhile_not (· != '.') body
  unfold unsigned? at h
  cases hw : isDigits (body.takeWhile (· != '.')) with
  | false => simp [hw] at h
  | true =>
    cases rest : body.dropWhile (· != '.') with
    | nil =>
      rw [rest, List.append_nil] at parts
      exact .inl (parts ▸ hw)
    | cons c fraction =>
      rw [rest] at parts stop
      obtain rfl : c = '.' := by simpa using stop
      cases hf : isDigits fraction with
      | false => simp [rest, hf] at h
      | true => exact .inr ⟨_, fraction, hw, hf, parts.symm⟩

/-- Integers and decimals are all that is read as a number. -/
theorem numeric?_shape {cs : List Char} {o : Operand} (h : numeric? cs = some o) :
    (∃ negative digits, isDigits digits = true ∧ cs = signed negative digits) ∨
      ∃ negative whole fraction, isDigits whole = true ∧ isDigits fraction = true ∧
        cs = signed negative (whole ++ '.' :: fraction) := by
  obtain ⟨negative, body, rfl, read⟩ := exists_signed cs
  rw [read] at h
  rcases unsigned?_shape h with hd | ⟨whole, fraction, hw, hf, rfl⟩
  · exact .inl ⟨negative, body, hd, rfl⟩
  · exact .inr ⟨negative, whole, fraction, hw, hf, rfl⟩

end Reading

end Operand
end ListQuery
