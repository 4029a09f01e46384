import ListQuery.Json.Parser
import ListQuery.Json.Printer
import ListQuery.Proofs.Text.Digits
import Mathlib.Tactic.SplitIfs

/-! Strings and integers in JSON text are read as they were written, whatever follows them. -/
namespace ListQuery
namespace Json

section Strings

variable (rest : List Char)

theorem hexValue?_hexDigit : ∀ n < 16, hexValue? (hexDigit n) = some n := by decide

theorem stringRest_quote : stringRest ('"' :: rest) = some ([], rest) := by
  rw [stringRest.eq_def]
  simp only [if_true]

theorem stringRest_plain {c : Char} (quote : c ≠ '"') (slash : c ≠ '\\')
    (control : ¬ c.toNat < 0x20) :
    stringRest (c :: rest) = (stringRest rest).map fun r => (c :: r.1, r.2) := by
  rw [stringRest.eq_def]
  simp only [if_neg quote, if_neg slash, if_neg control]

theorem stringRest_escaped {e d : Char} (unit : e ≠ 'u') (h : escaped? e = some d) :
    stringRest ('\\' :: e :: rest) = (stringRest rest).map fun r => (d :: r.1, r.2) := by
  have quote : '\\' ≠ '"' := by decide
  rw [stringRest.eq_def]
  simp only [if_neg quote, if_true]
  split
  next same => exact absurd (List.cons.inj same).1 unit
  next same =>
    obtain ⟨rfl, rfl⟩ := List.cons.inj same
    rw [h]
  next same => cases same

theorem stringRest_unit {h₁ h₂ h₃ h₄ : Char} {u : Nat} (h : unitOf? h₁ h₂ h₃ h₄ = some u)
    (low : u < 0xD800) : stringRest ('\\' :: 'u' :: h₁ :: h₂ :: h₃ :: h₄ :: rest) =
      (stringRest rest).map fun r => (Char.ofNat u :: r.1, r.2) := by
  have quote : '\\' ≠ '"' := by decide
  rw [stringRest.eq_def]
  simp only [if_neg quote, if_true, h, if_pos (Or.inl low)]

/-- The code unit of a control is its number. -/
theorem unitOf?_control {n : Nat} (h : n < 0x20) :
    unitOf? '0' '0' (hexDigit (n / 16)) (hexDigit (n % 16)) = some n := by
  have zero : hexValue? '0' = some 0 := rfl
  rw [unitOf?, zero, hexValue?_hexDigit _ (by omega), hexValue?_hexDigit _ (by omega)]
  simp only [Option.some.injEq]
  omega

/-- A character is read back from its writing between quotes. -/
theorem stringRest_escapeChar (c : Char) :
    stringRest (escapeChar c ++ rest) = (stringRest rest).map fun r => (c :: r.1, r.2) := by
  have named {e d : Char} (unit : e ≠ 'u') (read : escaped? e = some d) (same : c.toNat = d.toNat) :
      stringRest (['\\', e] ++ rest) = (stringRest rest).map fun r => (c :: r.1, r.2) := by
    rw [Char.toNat_inj.1 same]
    exact stringRest_escaped rest unit read
  unfold escapeChar
  split_ifs with quote slash control backspace tab newline feed carriage
  · exact named (by decide) rfl (congrArg Char.toNat quote)
  · exact named (by decide) rfl (congrArg Char.toNat slash)
  · exact named (by decide) rfl backspace
  · exact named (by decide) rfl tab
  · exact named (by decide) rfl newline
  · exact named (by decide) rfl feed
  · exact named (by decide) rfl carriage
  · have read := stringRest_unit rest (unitOf?_control control) (by omega)
    rwa [Char.ofNat_toNat] at read
  · exact stringRest_plain rest quote slash control

theorem stringRest_quoted (s : List Char) :
    stringRest (s.flatMap escapeChar ++ '"' :: rest) = some (s, rest) := by
  induction s with
  | nil => exact stringRest_quote rest
  | cons c s ih =>
    rw [List.flatMap_cons, List.append_assoc, stringRest_escapeChar, ih]
    rfl

end Strings

section Integers

theorem isSpace_of_isDigit {c : Char} (digit : c.isDigit = true) : isSpace c = false := by
  have other (c' : Char) (no : c'.isDigit = false) : (c == c') = false := by
    rw [beq_eq_false_iff_ne]
    rintro rfl
    exact absurd digit (Bool.eq_false_iff.1 no)
  rw [isSpace, other ' ' rfl, other '\t' rfl, other '\n' rfl, other '\r' rfl]
  rfl

/-- What can follow a number: nothing that would go on with it. -/
def Ends (rest : List Char) : Prop :=
  ∀ c ∈ rest.head?, c.isDigit = false ∧ c ≠ '.' ∧ c ≠ 'e' ∧ c ≠ 'E'

variable {rest : List Char}

theorem takeWhile_digits {ds : List Char} (digits : ∀ c ∈ ds, c.isDigit = true)
    (stop : ∀ c ∈ rest.head?, c.isDigit = false) :
    (ds ++ rest).takeWhile Char.isDigit = ds ∧ (ds ++ rest).dropWhile Char.isDigit = rest := by
  rw [List.takeWhile_append_of_pos digits, List.dropWhile_append_of_pos digits]
  cases rest with
  | nil => simp
  | cons c rest => simp [stop c rfl]

/-- Printed digits are taken as an integer, up to what follows them. -/
theorem unsignedRest_toDigits (negative : Bool) (n : Nat) (h : Ends rest) :
    unsignedRest negative (Nat.toDigits 10 n ++ rest) =
      (integerOf? negative (Nat.toDigits 10 n)).map (·, rest) := by
  obtain ⟨whole, behind⟩ :=
    takeWhile_digits (fun c => Text.isDigit_of_mem_toDigits) fun c head => (h c head).1
  have regular : ((Nat.toDigits 10 n).isEmpty ||
      ((Nat.toDigits 10 n).head? == some '0' && decide (1 < (Nat.toDigits 10 n).length))) =
        false := by
    rcases Nat.eq_zero_or_pos n with rfl | pos
    · rfl
    · simp [Nat.toDigits_ne_nil, Text.head?_toDigits pos]
  rw [unsignedRest, whole, behind, regular]
  cases rest with
  | nil => rfl
  | cons c rest =>
    obtain ⟨-, point, small, capital⟩ := h c rfl
    simp [small, capital]

theorem integerOf?_toDigits {n : Nat} (h : n ≤ 0xFFFFFFFFFFFFFFFF) :
    integerOf? false (Nat.toDigits 10 n) = some (.int n) := by
  have range : n ≤ maxUnsigned := h
  simp only [integerOf?, Nat.ofDigitChars_ten_toDigits, if_pos range]
  rfl

theorem integerOf?_minus_toDigits {n : Nat} (pos : 0 < n) (h : n ≤ 0x8000000000000000) :
    integerOf? true (Nat.toDigits 10 n) = some (.int (-n)) := by
  simp only [integerOf?, Nat.ofDigitChars_ten_toDigits, if_pos (And.intro pos h), if_true]

end Integers

end Json
end ListQuery
