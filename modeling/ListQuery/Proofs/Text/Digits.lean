import ListQuery.Proofs.Text.Integer

/-! Decimal digits as they are printed: a run of digits is what its number is printed as exactly if
it has no zero in front that could be left out. -/
namespace ListQuery
namespace Text

/-- The first digit is not zero, unless it is the only one. -/
def NoLeadingZero (digits : List Char) : Prop := digits.head? = some '0' → digits = ['0']

/-- Characters behind a minus sign, or alone. -/
def signed (negative : Bool) (cs : List Char) : List Char := if negative then '-' :: cs else cs

theorem signed_inj {negative : Bool} {cs cs' : List Char} :
    signed negative cs = signed negative cs' ↔ cs = cs' := by
  cases negative with
  | false => exact Iff.rfl
  | true => exact List.cons_inj_right '-'

theorem signed_append (negative : Bool) (cs more : List Char) :
    signed negative cs ++ more = signed negative (cs ++ more) := by
  cases negative <;> rfl

theorem toDigits_of_isDigit {c : Char} (h : c.isDigit = true) :
    Nat.toDigits 10 (c.toNat - 48) = [c] := by
  have range := toNat_of_isDigit h
  have same : Nat.digitChar (c.toNat - 48) = c := by
    apply Char.toNat_inj.1
    rw [Nat.toNat_digitChar_of_lt_ten (by omega)]
    omega
  rw [Nat.toDigits_of_lt_base (by omega), same]

/-- Digits behind a number that is not zero are printed behind it. -/
theorem toDigits_ofDigitChars_of_pos {digits : List Char} (h : ∀ c ∈ digits, c.isDigit = true)
    {n : Nat} (hn : 0 < n) :
    Nat.toDigits 10 (Nat.ofDigitChars 10 digits n) = Nat.toDigits 10 n ++ digits := by
  induction digits generalizing n with
  | nil => simp
  | cons c cs ih =>
    have digit := h c List.mem_cons_self
    have range := toNat_of_isDigit digit
    have next : Nat.toDigits 10 (10 * n + (c.toNat - 48)) = Nat.toDigits 10 n ++ [c] := by
      rw [← Nat.toDigits_append_toDigits (by decide) hn (by omega), toDigits_of_isDigit digit]
    rw [Nat.ofDigitChars_cons, ih (fun c hc => h c (List.mem_cons_of_mem _ hc)) (by omega)]
    exact (congrArg (· ++ cs) next).trans (List.append_cons ..).symm

theorem head?_toDigits {n : Nat} (h : 0 < n) : (Nat.toDigits 10 n).head? ≠ some '0' := by
  induction n using Nat.strongRecOn with
  | ind n ih =>
    rw [Nat.toDigits_eq_if (by decide)]
    split
    · rw [List.head?_cons, Ne, Option.some.injEq, Nat.digitChar_eq_zero]
      omega
    · have front := ih (n / 10) (by omega) (by omega)
      obtain ⟨c, cs, digits⟩ := List.exists_cons_of_ne_nil (Nat.toDigits_ne_nil (n := n / 10))
      rw [digits] at front ⊢
      exact front

/-- Digits are printed as they stand exactly if there is no leading zero. -/
theorem toDigits_ofDigitChars_iff {digits : List Char} (h : ∀ c ∈ digits, c.isDigit = true)
    (hne : digits ≠ []) :
    Nat.toDigits 10 (Nat.ofDigitChars 10 digits 0) = digits ↔ NoLeadingZero digits := by
  constructor
  · intro same head
    rcases Nat.eq_zero_or_pos (Nat.ofDigitChars 10 digits 0) with zero | pos
    · rw [zero, Nat.toDigits_zero] at same
      exact same.symm
    · rw [← same] at head
      exact absurd head (head?_toDigits pos)
  · intro noLeadingZero
    obtain ⟨c, cs, rfl⟩ := List.exists_cons_of_ne_nil hne
    by_cases zero : c = '0'
    · rw [noLeadingZero (congrArg some zero)]
      rfl
    · have digit := h c List.mem_cons_self
      have range := toNat_of_isDigit digit
      have pos : 0 < c.toNat - 48 := by
        have ne : c.toNat ≠ 48 := fun same => zero (Char.toNat_inj.1 same)
        omega
      have tail := toDigits_ofDigitChars_of_pos (fun c hc => h c (List.mem_cons_of_mem _ hc)) pos
      rw [toDigits_of_isDigit digit] at tail
      rw [Nat.ofDigitChars_cons]
      exact (congrArg _ (congrArg _ (Nat.zero_add _))).trans tail

theorem getLast?_toDigits (n : Nat) :
    (Nat.toDigits 10 n).getLast? = some (Nat.digitChar (n % 10)) := by
  rw [Nat.toDigits_eq_if (by decide)]
  split
  next small =>
    rw [Nat.mod_eq_of_lt small]
    rfl
  next => exact List.getLast?_concat ..

/-- The last digit is zero exactly for multiples of ten. -/
theorem getLast?_zero_iff {digits : List Char} (h : ∀ c ∈ digits, c.isDigit = true)
    (hne : digits ≠ []) :
    digits.getLast? = some '0' ↔ Nat.ofDigitChars 10 digits 0 % 10 = 0 := by
  obtain ⟨front, c, rfl⟩ : ∃ front c, digits = front ++ [c] :=
    ⟨_, _, (List.dropLast_concat_getLast hne).symm⟩
  have digit := h c (by simp)
  have range := toNat_of_isDigit digit
  rw [List.getLast?_concat, Nat.ofDigitChars_append, Option.some.injEq]
  generalize Nat.ofDigitChars 10 front 0 = n
  have value : Nat.ofDigitChars 10 [c] n = 10 * n + (c.toNat - 48) := rfl
  rw [value, ← Char.toNat_inj]
  have zero : '0'.toNat = 48 := rfl
  omega

/-- Zeros in front fill a number up to the digits that it was read from. -/
theorem replicate_append_toDigits {digits : List Char} (h : ∀ c ∈ digits, c.isDigit = true)
    (hpos : 0 < Nat.ofDigitChars 10 digits 0) :
    let printed := Nat.toDigits 10 (Nat.ofDigitChars 10 digits 0)
    printed.length ≤ digits.length ∧
      List.replicate (digits.length - printed.length) '0' ++ printed = digits := by
  induction digits with
  | nil => exact absurd hpos (by decide)
  | cons c cs ih =>
    have tail : ∀ c ∈ cs, c.isDigit = true := fun c hc => h c (List.mem_cons_of_mem _ hc)
    by_cases zero : c = '0'
    · subst zero
      have value : Nat.ofDigitChars 10 ('0' :: cs) 0 = Nat.ofDigitChars 10 cs 0 := rfl
      rw [value] at hpos ⊢
      obtain ⟨length, filled⟩ := ih tail hpos
      refine ⟨Nat.le_succ_of_le length, ?_⟩
      rw [List.length_cons, Nat.succ_sub length, List.replicate_succ, List.cons_append, filled]
    · have same := (toDigits_ofDigitChars_iff h (List.cons_ne_nil c cs)).2
        fun head => absurd (Option.some.inj head) zero
      simp only [same, Nat.sub_self, List.replicate_zero, List.nil_append]
      exact ⟨Nat.le_refl _, trivial⟩

end Text
end ListQuery
