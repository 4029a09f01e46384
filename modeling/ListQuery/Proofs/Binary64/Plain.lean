import ListQuery.Binary64.Text
import ListQuery.Proofs.Binary64.Decimal
import ListQuery.Proofs.Text.Digits
import Mathlib.Data.List.Basic
import Mathlib.Data.Nat.Digits.Defs

/-! Plain text of decimals. Up to fifteen digits a decimal is printed as it was written, if no zero
could be left out; otherwise it is not. -/
namespace ListQuery
namespace Binary64

open Text

section Rounded

variable {k L : Nat}

/-- Powers of ten in the range of the exponent, as `10 ^ 3 ≤ 2 ^ 10`. -/
theorem ten_pow_le (hL : L ≤ 300) : (10 : ℚ) ^ L ≤ 2 ^ (1022 : Int) := by
  calc (10 : ℚ) ^ L ≤ 10 ^ (3 * 100) := pow_le_pow_right₀ (by norm_num) hL
    _ = (10 ^ 3) ^ 100 := pow_mul ..
    _ ≤ (2 ^ 10) ^ 100 := pow_le_pow_left₀ (by norm_num) (by norm_num) 100
    _ = 2 ^ ((10 * 100 : ℕ) : Int) := by rw [zpow_natCast, pow_mul]
    _ ≤ 2 ^ (1022 : Int) := zpow_le_zpow_right₀ one_le_two (by decide)

/-- A decimal of at most fifteen digits is rounded to a number of fifty-three bits. -/
theorem ofDecimal_normal (negative : Bool) (hk : 0 < k) (hk' : k < 10 ^ 15) (hL : 0 < L)
    (hL' : L ≤ 300) :
    (ofDecimal negative k (-(L : Int))).IsNormal ∧
      (ofDecimal negative k (-(L : Int))).isNegative = negative ∧
      (ofDecimal negative k (-(L : Int))).interval.contains k (10 ^ L) = true := by
  have length := Nat.toDigits_length 10 k 15 (by decide) hk'
  have exponent : (-(-(L : Int))).toNat = L := by omega
  have quotient : ofDecimal negative k (-(L : Int)) = ofRatio negative k (10 ^ L) := by
    unfold ofDecimal
    simp only
    rw [if_neg, if_neg (by omega), if_neg (by omega), exponent]
    · rfl
    · simp
      omega
  have one : (1 : ℚ) ≤ k := by exact_mod_cast hk
  have small : (k : ℚ) < 10 ^ 15 := by exact_mod_cast hk'
  have power : (1 : ℚ) ≤ 10 ^ L := one_le_pow₀ (by norm_num)
  rw [quotient]
  apply ofRatio_normal negative hk (Nat.pow_pos (by decide))
  · rw [Nat.cast_pow, Nat.cast_ofNat, le_div_iff₀ (by positivity)]
    calc (2 : ℚ) ^ (-1022 : Int) * 10 ^ L ≤ 2 ^ (-1022 : Int) * 2 ^ (1022 : Int) :=
          mul_le_mul_of_nonneg_left (ten_pow_le hL') (by positivity)
      _ = 1 := by rw [← zpow_add₀ two_ne_zero, neg_add_cancel, zpow_zero]
      _ ≤ k := one
  · rw [Nat.cast_pow, Nat.cast_ofNat, div_lt_iff₀ (by positivity)]
    calc (k : ℚ) < 10 ^ 15 := small
      _ ≤ 2 ^ (50 : Int) := by norm_num
      _ ≤ 2 ^ (1023 : Int) := zpow_le_zpow_right₀ one_le_two (by decide)
      _ ≤ 2 ^ (1023 : Int) * 10 ^ L := le_mul_of_one_le_right (by positivity) power

/-- Behind its sign a number is printed as its shortest decimal. -/
theorem plain_of_normal {x : Binary64} (hx : x.IsNormal) {e : Int} (h : x.shortest .up = (k, e)) :
    x.plain.toList = signed x.isNegative (positional (Nat.toDigits 10 k) e) := by
  have finite := hx.finite
  have number : x.isNaN = false := by
    rw [isFinite, decide_eq_true_iff] at finite
    exact decide_eq_false (Nat.not_lt.2 finite.le)
  simp [plain, signed, number, finite, hx.nonzero, h]

theorem plain_zero (negative : Bool) :
    (zero negative).plain.toList = signed negative ['0'] := by
  cases negative <;> rfl

end Rounded

section Positional

variable {whole fraction : List Char}

theorem positional_neg (digits : List Char) {L : Nat} (hL : 0 < L) :
    positional digits (-(L : Int)) =
      if L < digits.length then
        digits.take (digits.length - L) ++ '.' :: digits.drop (digits.length - L)
      else '0' :: '.' :: (List.replicate (L - digits.length) '0' ++ digits) := by
  have places : (-(-(L : Int))).toNat = L := by omega
  rw [positional, if_neg (by omega)]
  simp only [places]

/-- Digits are printed on both sides of the point as they were read, if no leading zero could be
left out. -/
theorem positional_toDigits (hw : ∀ c ∈ whole, c.isDigit = true)
    (hf : ∀ c ∈ fraction, c.isDigit = true) (hw' : whole ≠ []) (hf' : fraction ≠ [])
    (hpos : 0 < Nat.ofDigitChars 10 (whole ++ fraction) 0) (h : NoLeadingZero whole) :
    positional (Nat.toDigits 10 (Nat.ofDigitChars 10 (whole ++ fraction) 0))
      (-(fraction.length : Int)) = whole ++ '.' :: fraction := by
  have places : 0 < fraction.length := List.length_pos_of_ne_nil hf'
  rw [positional_neg _ places]
  by_cases zero : whole = ['0']
  · subst zero
    have value : Nat.ofDigitChars 10 (['0'] ++ fraction) 0 = Nat.ofDigitChars 10 fraction 0 := rfl
    rw [value] at hpos ⊢
    obtain ⟨length, filled⟩ := replicate_append_toDigits hf hpos
    rw [if_neg (Nat.not_lt.2 length), filled]
    rfl
  · have all : ∀ c ∈ whole ++ fraction, c.isDigit = true := fun c hc =>
      (List.mem_append.1 hc).elim (hw c) (hf c)
    have front : (whole ++ fraction).head? = whole.head? := List.head?_append_of_ne_nil _ hw'
    have same := (toDigits_ofDigitChars_iff all (by simp [hw'])).2
      fun head => absurd (h (front ▸ head)) zero
    have length : (whole ++ fraction).length - fraction.length = whole.length := by
      rw [List.length_append, Nat.add_sub_cancel]
    have longer : fraction.length < (whole ++ fraction).length := by
      rw [List.length_append]
      exact Nat.lt_add_of_pos_left (List.length_pos_of_ne_nil hw')
    rw [same, if_pos longer, length, List.take_left, List.drop_left]

/-- Only fractions are printed with a point. -/
theorem exponent_neg {n : Nat} {e : Int}
    (h : positional (Nat.toDigits 10 n) e = whole ++ '.' :: fraction) : e < 0 := by
  by_contra integral
  rw [positional, if_pos (Int.not_lt.1 integral)] at h
  have point : '.' ∈ Nat.toDigits 10 n ++ List.replicate e.toNat '0' :=
    h ▸ List.mem_append_right _ List.mem_cons_self
  rcases List.mem_append.1 point with digit | zero
  · exact absurd (isDigit_of_mem_toDigits digit) (by decide)
  · exact absurd (List.eq_of_mem_replicate zero) (by decide)

/-- What is printed with a point has no leading zero that could be left out, and behind the point
the last digit of the number. -/
theorem of_positional {n L : Nat} (hn : 0 < n) (hL : 0 < L) (hw : '.' ∉ whole)
    (hf : '.' ∉ fraction)
    (h : positional (Nat.toDigits 10 n) (-(L : Int)) = whole ++ '.' :: fraction) :
    NoLeadingZero whole ∧ fraction.getLast? = some (Nat.digitChar (n % 10)) := by
  have last := getLast?_toDigits n
  have first := head?_toDigits hn
  have nonempty := Nat.toDigits_ne_nil (n := n) (b := 10)
  generalize Nat.toDigits 10 n = digits at *
  rw [positional_neg _ hL] at h
  split at h
  next longer =>
    obtain ⟨rfl, -, rfl⟩ := (List.append_cons_inj_of_notMem hw hf).1 h.symm
    constructor
    · intro head
      rw [List.head?_take, if_neg (by omega)] at head
      exact absurd head first
    · rw [List.getLast?_drop, if_neg (by omega), last]
  next =>
    rw [← List.singleton_append] at h
    obtain ⟨rfl, -, rfl⟩ := (List.append_cons_inj_of_notMem hw hf).1 h.symm
    refine ⟨fun _ => rfl, ?_⟩
    rw [List.getLast?_append_of_ne_nil _ nonempty, last]

theorem notMem_point {digits : List Char} (h : ∀ c ∈ digits, c.isDigit = true) : '.' ∉ digits :=
  fun point => absurd (h _ point) (by decide)

/-- A number that is printed with a point has no zero that could be left out. -/
theorem of_plain {x : Binary64} (hx : x.IsNormal) (hw : ∀ c ∈ whole, c.isDigit = true)
    (hf : ∀ c ∈ fraction, c.isDigit = true)
    (h : x.plain.toList = signed x.isNegative (whole ++ '.' :: fraction)) :
    NoLeadingZero whole ∧ fraction.getLast? ≠ some '0' := by
  rcases shortest : x.shortest .up with ⟨k, e⟩
  rw [plain_of_normal hx shortest, signed_inj] at h
  have fractional := exponent_neg h
  obtain ⟨L, hL⟩ := Int.eq_ofNat_of_zero_le (a := -e) (by omega)
  obtain rfl : e = -L := by omega
  obtain ⟨pos, nonzero⟩ := last_digit_of_shortest hx fractional shortest
  obtain ⟨noLeadingZero, last⟩ :=
    of_positional pos (by omega) (notMem_point hw) (notMem_point hf) h
  refine ⟨noLeadingZero, ?_⟩
  rw [last, Ne, Option.some.injEq, Nat.digitChar_eq_zero]
  exact nonzero

end Positional

/-- A decimal of at most fifteen digits is printed as it was written exactly if it has no leading
zero and no last zero that could be left out. -/
theorem plain_ofDecimal_iff (negative : Bool) {whole fraction : List Char}
    (hw : ∀ c ∈ whole, c.isDigit = true) (hf : ∀ c ∈ fraction, c.isDigit = true)
    (hw' : whole ≠ []) (hf' : fraction ≠ [])
    (size : Nat.ofDigitChars 10 (whole ++ fraction) 0 < 10 ^ 15) (length : fraction.length ≤ 300) :
    (ofDecimal negative (Nat.ofDigitChars 10 (whole ++ fraction) 0)
        (-(fraction.length : Int))).plain.toList =
      signed negative (whole ++ '.' :: fraction) ↔
      NoLeadingZero whole ∧ fraction.getLast? ≠ some '0' := by
  have all : ∀ c ∈ whole ++ fraction, c.isDigit = true := fun c hc =>
    (List.mem_append.1 hc).elim (hw c) (hf c)
  have last := getLast?_zero_iff all (by simp [hw'])
  rw [List.getLast?_append_of_ne_nil _ hf'] at last
  have places : 0 < fraction.length := List.length_pos_of_ne_nil hf'
  rw [Ne, last]
  rcases Nat.eq_zero_or_pos (Nat.ofDigitChars 10 (whole ++ fraction) 0) with zero | pos
  · have value : ofDecimal negative 0 (-(fraction.length : Int)) = .zero negative := by
      simp [ofDecimal]
    rw [zero, value, plain_zero, signed_inj]
    constructor
    · intro same
      have point : '.' ∈ ['0'] := same ▸ List.mem_append_right _ List.mem_cons_self
      exact absurd point (by decide)
    · rintro ⟨-, nonzero⟩
      exact absurd rfl nonzero
  · obtain ⟨normal, sign, holds⟩ := ofDecimal_normal negative pos size places length
    have digits := positional_toDigits hw hf hw' hf' pos
    generalize Nat.ofDigitChars 10 (whole ++ fraction) 0 = k at *
    generalize ofDecimal negative k (-(fraction.length : Int)) = x at *
    constructor
    · intro same
      rw [← last]
      exact of_plain normal hw hf (sign.symm ▸ same)
    · rintro ⟨noLeadingZero, nonzero⟩
      rw [plain_of_normal normal (shortest_of_decimal normal .up nonzero size length holds), sign,
        digits noLeadingZero]

end Binary64
end ListQuery
