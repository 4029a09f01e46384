import ListQuery.Proofs.Binary64.Shortest

/-! Decimals of at most fifteen digits are read back from what they are rounded to: the interval of
a number is too narrow for two of them. -/
namespace ListQuery
namespace Binary64

/-- Powers of two and of ten compared by their exponents, as `2 ^ 93 < 10 ^ 28` and
`10 ^ 59 < 2 ^ 196`. -/
theorem exponents_of_le {a b : Int} (h : (2 : ℚ) ^ a ≤ 10 ^ b) :
    (0 ≤ b → 59 * a ≤ 196 * b) ∧ (b ≤ 0 → 28 * a ≤ 93 * b) := by
  have two : (1 : ℚ) < 2 := one_lt_two
  constructor
  · intro hb
    obtain ⟨n, rfl⟩ := Int.eq_ofNat_of_zero_le hb
    have raised : (2 : ℚ) ^ (59 * a) ≤ 2 ^ (196 * (n : Int)) := by
      calc (2 : ℚ) ^ (59 * a) = (2 ^ a) ^ 59 := by rw [mul_comm, zpow_mul]; norm_cast
        _ ≤ (10 ^ (n : Int)) ^ 59 := pow_le_pow_left₀ (by positivity) h 59
        _ = (10 ^ 59) ^ n := by rw [zpow_natCast, ← pow_mul, ← pow_mul, mul_comm]
        _ ≤ (2 ^ 196) ^ n := pow_le_pow_left₀ (by positivity) (by norm_num) n
        _ = 2 ^ (196 * (n : Int)) := by rw [zpow_mul, zpow_natCast]; norm_cast
    exact (zpow_le_zpow_iff_right₀ two).1 raised
  · intro hb
    obtain ⟨n, hn⟩ := Int.eq_ofNat_of_zero_le (a := -b) (by omega)
    obtain rfl : b = -n := by omega
    have raised : (2 : ℚ) ^ (28 * a) ≤ 2 ^ (93 * -(n : Int)) := by
      calc (2 : ℚ) ^ (28 * a) = (2 ^ a) ^ 28 := by rw [mul_comm, zpow_mul]; norm_cast
        _ ≤ (10 ^ (-(n : Int))) ^ 28 := pow_le_pow_left₀ (by positivity) h 28
        _ = ((10 ^ 28) ^ n)⁻¹ := by
          rw [zpow_neg, zpow_natCast, inv_pow, ← pow_mul, ← pow_mul, mul_comm]
        _ ≤ ((2 ^ 93) ^ n)⁻¹ := by
          apply inv_anti₀ (by positivity)
          exact pow_le_pow_left₀ (by positivity) (by norm_num) n
        _ = 2 ^ (93 * -(n : Int)) := by
          rw [zpow_mul, zpow_neg, zpow_natCast]
          norm_cast
    exact (zpow_le_zpow_iff_right₀ two).1 raised

theorem double_hiddenBit (s : Int) : 2 * (hiddenBit : ℚ) * 2 ^ s = 2 ^ (s + 53) := by
  rw [zpow_add₀ two_ne_zero, mul_comm]
  norm_num [hiddenBit]

section

variable {x : Binary64} {k L : Nat}

/-- The logarithms of a number above and below its point. -/
theorem log2_interval (hx : hiddenBit ≤ x.significand) (hx' : x.significand < 2 * hiddenBit) :
    (Nat.log2 x.interval.mid : Int) - Nat.log2 x.interval.den = x.scale + 52 := by
  have positive := hiddenBit_pos
  have log (j : Nat) : Nat.log2 (4 * x.significand * 2 ^ j) = 54 + j := by
    have low : 4 * hiddenBit * 2 ^ j ≤ 4 * x.significand * 2 ^ j :=
      Nat.mul_le_mul_right _ (by omega)
    have high : 4 * x.significand * 2 ^ j < 8 * hiddenBit * 2 ^ j :=
      Nat.mul_lt_mul_of_pos_right (by omega) (Nat.pow_pos (by decide))
    have power : 4 * hiddenBit * 2 ^ j = 2 ^ (54 + j) := by
      rw [Nat.pow_add]
      rfl
    have next : 8 * hiddenBit * 2 ^ j = 2 ^ (54 + j + 1) := by
      rw [Nat.add_right_comm, Nat.pow_add]
      rfl
    rw [power] at low
    rw [next] at high
    have nonzero : 4 * x.significand * 2 ^ j ≠ 0 :=
      Nat.pos_iff_ne_zero.1 (Nat.lt_of_lt_of_le (Nat.pow_pos (by decide)) low)
    exact (Nat.log2_eq_iff nonzero).2 ⟨low, high⟩
  rw [interval_eq]
  simp only [ratio]
  split
  next h =>
    obtain ⟨j, hj⟩ := Int.eq_ofNat_of_zero_le h
    have mid := log j
    simp only [hj, Int.toNat_natCast, Nat.one_mul, Nat.pow_eq, mid]
    have one : Nat.log2 1 = 0 := by decide
    omega
  next h =>
    obtain ⟨j, hj⟩ := Int.eq_ofNat_of_zero_le (a := -(x.scale - 2)) (by omega)
    have mid := log 0
    rw [Nat.pow_zero] at mid
    simp only [hj, Int.toNat_natCast, Nat.pow_eq, mid, Nat.log2_two_pow]
    omega

/-- The ends of the interval, and the number between them. -/
theorem interval_bounds (x : Binary64) :
    0 < x.interval.den ∧ x.interval.low ≤ x.interval.mid ∧ x.interval.mid ≤ x.interval.high ∧
      (x.interval.low : ℚ) = x.lowEnd * x.interval.den ∧
      (x.interval.high : ℚ) = x.highEnd * x.interval.den := by
  rw [interval_eq]
  exact ⟨ratio_pos .., Nat.mul_le_mul_right _ (Nat.sub_le ..),
    Nat.mul_le_mul_right _ (Nat.le_add_right ..), cast_quarters .., cast_quarters ..⟩

/-- The interval of a number with fifty-three bits is at most a unit wide, and its ends are between
powers of two. -/
theorem ends_of_normal (hx : x.IsNormal) :
    (hiddenBit - 1 : ℚ) * 2 ^ x.scale ≤ x.lowEnd ∧ x.highEnd ≤ 2 * hiddenBit * 2 ^ x.scale ∧
      x.highEnd - x.lowEnd ≤ 2 ^ x.scale := by
  have unit : (0 : ℚ) < 2 ^ x.scale := by positivity
  have positive := hiddenBit_pos
  have low := hx.low
  have high := hx.high
  have below : x.below ≤ 2 := by
    rcases below_cases x with ⟨one, -⟩ | two <;> omega
  have lower : ((4 * hiddenBit - 2 : ℕ) : ℚ) ≤ (4 * x.significand - x.below : ℕ) :=
    Nat.cast_le.2 (by omega)
  have upper : ((4 * x.significand + 2 : ℕ) : ℚ) ≤ (8 * hiddenBit : ℕ) := Nat.cast_le.2 (by omega)
  have width : ((4 * x.significand + 2 : ℕ) : ℚ) ≤ (4 * x.significand - x.below : ℕ) + 4 := by
    exact_mod_cast (by omega : 4 * x.significand + 2 ≤ 4 * x.significand - x.below + 4)
  rw [Nat.cast_sub (by omega)] at lower
  push_cast at lower upper width
  rw [lowEnd, highEnd, quarter_unit]
  push_cast
  generalize (2 : ℚ) ^ x.scale = u at *
  generalize ((4 * x.significand - x.below : ℕ) : ℚ) = l at *
  have lower' := mul_le_mul_of_nonneg_right lower unit.le
  have upper' := mul_le_mul_of_nonneg_right upper unit.le
  have width' := mul_le_mul_of_nonneg_right width unit.le
  refine ⟨?_, ?_, ?_⟩ <;> linarith

theorem ends_of_contains {n d : Nat} (hd : 0 < d) (h : x.interval.contains n d = true) :
    x.lowEnd ≤ n / d ∧ (n / d : ℚ) ≤ x.highEnd := by
  rw [contains_iff x n hd] at h
  split at h
  · exact h
  · exact ⟨h.1.le, h.2.le⟩

/-- Where a decimal of at most fifteen digits lies in the interval of a number, the interval is
narrower than the unit of the decimal. -/
theorem scale_of_decimal (hx : x.IsNormal) (hk : k < 10 ^ 15)
    (holds : x.interval.contains k (10 ^ L) = true) : (2 : ℚ) ^ x.scale * 10 ^ L < 1 := by
  have ends := (ends_of_contains (Nat.pow_pos (by decide)) holds).1
  have low := (ends_of_normal hx).1.trans ends
  have power : (0 : ℚ) < 10 ^ L := by positivity
  push_cast at low
  rw [le_div_iff₀ power, mul_assoc] at low
  have small : (k : ℚ) < 10 ^ 15 := by exact_mod_cast hk
  have digits : (10 : ℚ) ^ 15 < hiddenBit - 1 := by norm_num [hiddenBit]
  by_contra wide
  rw [not_lt] at wide
  have : (hiddenBit - 1 : ℚ) * 1 ≤ (hiddenBit - 1) * (2 ^ x.scale * 10 ^ L) :=
    mul_le_mul_of_nonneg_left wide (by norm_num [hiddenBit])
  linarith

theorem top_of_decimal (hx : x.IsNormal) (hk : 0 < k) (hk' : k < 10 ^ 15) (hL : L ≤ 300)
    (holds : x.interval.contains k (10 ^ L) = true) : 0 ≤ x.top + L ∧ x.top + L < 24 := by
  have ends := ends_of_contains (Nat.pow_pos (by decide)) holds
  have bounds := ends_of_normal hx
  have log := log2_interval hx.low hx.high
  have power : (0 : ℚ) < 10 ^ L := by positivity
  have above : (2 : ℚ) ^ (-(x.scale + 53)) ≤ 10 ^ (L : Int) := by
    have one : (1 : ℚ) ≤ k := by exact_mod_cast hk
    have high := ends.2.trans bounds.2.1
    push_cast at high
    rw [div_le_iff₀ power] at high
    rw [double_hiddenBit] at high
    rw [zpow_neg, zpow_natCast, inv_le_iff_one_le_mul₀ (by positivity), mul_comm]
    exact one.trans high
  have below : (2 : ℚ) ^ (x.scale + 51) ≤ 10 ^ (15 - (L : Int)) := by
    have low := bounds.1.trans ends.1
    have small : (k : ℚ) ≤ 10 ^ 15 := by exact_mod_cast hk'.le
    have half : (2 : ℚ) ^ (x.scale + 51) ≤ (hiddenBit - 1) * 2 ^ x.scale := by
      rw [zpow_add₀ two_ne_zero, mul_comm]
      exact mul_le_mul_of_nonneg_right (by norm_num [hiddenBit]) (by positivity)
    push_cast at low
    calc (2 : ℚ) ^ (x.scale + 51) ≤ k / 10 ^ L := half.trans low
      _ ≤ 10 ^ 15 / 10 ^ L := div_le_div_of_nonneg_right small power.le
      _ = 10 ^ (15 - (L : Int)) := by
        rw [zpow_sub₀ (by norm_num), zpow_natCast]
        norm_cast
  have upper := (exponents_of_le above).1 (by omega)
  have lower := exponents_of_le below
  rw [top, log]
  omega

/-- A decimal of at most fifteen digits without a last zero is the shortest of the number in whose
interval it lies. -/
theorem shortest_of_decimal (hx : x.IsNormal) (tie : Tie) (hk : k % 10 ≠ 0) (hk' : k < 10 ^ 15)
    (hL : L ≤ 300) (holds : x.interval.contains k (10 ^ L) = true) :
    x.shortest tie = (k, -(L : Int)) := by
  obtain ⟨hden, low, high, lowEnd, highEnd⟩ := interval_bounds x
  have den : (0 : ℚ) < x.interval.den := Nat.cast_pos.2 hden
  have power : (0 : ℚ) < 10 ^ L := by positivity
  have narrow : x.interval.high * 10 ^ L < x.interval.low * 10 ^ L + x.interval.den := by
    have width : (x.highEnd - x.lowEnd) * 10 ^ L < 1 :=
      (mul_le_mul_of_nonneg_right (ends_of_normal hx).2.2 power.le).trans_lt
        (scale_of_decimal hx hk' holds)
    have scaled := mul_lt_mul_of_pos_right width den
    rw [← Nat.cast_lt (α := ℚ)]
    push_cast
    rw [lowEnd, highEnd]
    linarith
  exact shortest_of_narrow hk holds low high hden narrow
    (top_of_decimal hx (by omega) hk' hL holds)

theorem scale_ge (x : Binary64) : -1074 ≤ x.scale := by
  rw [scale]
  generalize x.magnitudeBits / hiddenBit = e
  split <;> omega

/-- On the coarsest grid there is one digit. -/
theorem digit_of_top (hx : x.IsNormal) (htop : x.top < 0)
    (holds : x.interval.holdsOn x.top k = true) : k < 10 := by
  obtain ⟨t, ht⟩ := Int.eq_ofNat_of_zero_le (a := -x.top) (by omega)
  have top : x.top = -t := by omega
  have log := log2_interval hx.low hx.high
  have scale := scale_ge x
  rw [Interval.holdsOn, top, grid_neg, Nat.mul_one] at holds
  have high := (ends_of_contains (Nat.pow_pos (by decide)) holds).2.trans (ends_of_normal hx).2.1
  by_contra ten
  have wide : (2 : ℚ) ^ (-(x.scale + 53)) ≤ 10 ^ ((t : Int) - 1) := by
    have digits : (10 : ℚ) ≤ k := by exact_mod_cast Nat.not_lt.1 ten
    push_cast at high
    rw [div_le_iff₀ (by positivity), double_hiddenBit] at high
    rw [zpow_neg, inv_le_iff_one_le_mul₀ (by positivity), zpow_sub₀ (by norm_num), zpow_natCast,
      zpow_one, div_mul_eq_mul_div, le_div_iff₀ (by norm_num), one_mul, mul_comm]
    exact digits.trans high
  have exponents := exponents_of_le wide
  rw [Binary64.top, log] at top
  omega

/-- The digits of a fraction do not end in zero. -/
theorem last_digit_of_shortest (hx : x.IsNormal) {tie : Tie} {e : Int} (he : e < 0)
    (h : x.shortest tie = (k, e)) : 0 < k ∧ k % 10 ≠ 0 := by
  obtain ⟨found, rfl | coarser⟩ := exists_of_shortest he h
  · obtain ⟨pos, holds, -⟩ := Interval.onGrid?_spec found
    have digit := digit_of_top hx he holds
    omega
  · exact ⟨(Interval.onGrid?_spec found).1, Interval.last_digit_of_found he found coarser⟩

end

end Binary64
end ListQuery
