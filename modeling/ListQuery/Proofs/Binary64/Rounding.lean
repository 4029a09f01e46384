import ListQuery.Binary64.Shortest
import Mathlib.Algebra.Order.Field.Power
import Mathlib.Data.Rat.Cast.Order
import Mathlib.Tactic.FieldSimp
import Mathlib.Tactic.Linarith
import Mathlib.Tactic.LinearCombination
import Mathlib.Tactic.Positivity
import Mathlib.Tactic.Ring

/-! Rounding to the nearest: a quotient lies in the interval of the number that it is rounded to. -/
namespace ListQuery
namespace Binary64

theorem hiddenBit_pos : 0 < hiddenBit := by decide

theorem ratio_pos (m : Nat) (q : Int) : 0 < (ratio m q).2 := by
  unfold ratio
  split
  · exact Nat.one_pos
  · exact Nat.pow_pos (by decide)

/-- Numerator and denominator of `m · 2 ^ q`. -/
theorem ratio_eq (m : Nat) (q : Int) :
    ((ratio m q).1 : ℚ) = m * 2 ^ q * (ratio m q).2 := by
  unfold ratio
  split
  next h =>
    obtain ⟨k, rfl⟩ := Int.eq_ofNat_of_zero_le h
    simp
  next h =>
    obtain ⟨k, hk⟩ := Int.eq_ofNat_of_zero_le (a := -q) (by omega)
    obtain rfl : q = -k := by omega
    simp

/-- The multiple `m` of `u` is nearest to `v`, and even if another is as near. -/
structure Nearest (m : Nat) (u v : ℚ) : Prop where
  low : 2 * (m * u) ≤ 2 * v + u
  high : 2 * v ≤ 2 * (m * u) + u
  even : 2 * (m * u) = 2 * v + u ∨ 2 * v = 2 * (m * u) + u → m % 2 = 0

theorem Nearest.of_mul {m : Nat} {u v c : ℚ} (hc : 0 < c) (h : Nearest m (u * c) (v * c)) :
    Nearest m u v where
  low := le_of_mul_le_mul_right (by linarith [h.low]) hc
  high := le_of_mul_le_mul_right (by linarith [h.high]) hc
  even tie := by
    apply h.even
    rcases tie with tie | tie
    · exact .inl (by linear_combination c * tie)
    · exact .inr (by linear_combination c * tie)

theorem nearest_divNearest (n : Nat) {d : Nat} (hd : 0 < d) : Nearest (divNearest n d) d n := by
  have parts := Nat.div_add_mod n d
  have rest := Nat.mod_lt n hd
  have product : n / d * d = d * (n / d) := Nat.mul_comm ..
  have next : (n / d + 1) * d = d * (n / d) + d := by rw [Nat.add_mul, Nat.one_mul, product]
  have spec : 2 * (divNearest n d * d) ≤ 2 * n + d ∧ 2 * n ≤ 2 * (divNearest n d * d) + d ∧
      (2 * (divNearest n d * d) = 2 * n + d ∨ 2 * n = 2 * (divNearest n d * d) + d →
        divNearest n d % 2 = 0) := by
    simp only [divNearest, Bool.or_eq_true, Bool.and_eq_true, decide_eq_true_eq, beq_iff_eq]
    split
    next up =>
      rw [next]
      omega
    next down =>
      rw [product]
      omega
  exact ⟨by exact_mod_cast spec.1, by exact_mod_cast spec.2.1, by exact_mod_cast spec.2.2⟩

/-- Whether `n / d` is at least `2 ^ (q + 52)`. -/
def fits (n d : Nat) (q : Int) : Bool := (ratio d (q + 52)).1 ≤ n * (ratio d (q + 52)).2

/-- The scale at which `n / d` has an integer part of fifty-three bits. -/
def fullScale (n d : Nat) : Int :=
  let guess : Int := (Nat.log2 n : Int) - Nat.log2 d - 52
  if fits n d guess then guess else guess - 1

/-- The scale at which `n / d` is rounded to an integer. -/
def roundedScale (n d : Nat) : Int := max (fullScale n d) (-1074)

def roundedSignificand (n d : Nat) : Nat :=
  divNearest (n * (ratio d (roundedScale n d)).2) (ratio d (roundedScale n d)).1

theorem ofRatio_eq (negative : Bool) {n : Nat} (hn : n ≠ 0) (d : Nat) :
    ofRatio negative n d = ofMagnitude negative
      ((roundedScale n d + 1074).toNat * hiddenBit + roundedSignificand n d) := by
  rw [ofRatio, if_neg hn]
  rfl

section

variable {n d : Nat}

theorem fits_iff (hd : 0 < d) (q : Int) :
    fits n d q = true ↔ (2 : ℚ) ^ (q + 52) ≤ n / d := by
  have den : (0 : ℚ) < (ratio d (q + 52)).2 := Nat.cast_pos.2 (ratio_pos ..)
  have pos : (0 : ℚ) < d := Nat.cast_pos.2 hd
  rw [fits, decide_eq_true_iff, ← Nat.cast_le (α := ℚ), Nat.cast_mul, ratio_eq,
    mul_le_mul_iff_left₀ den, le_div_iff₀ pos, mul_comm]

/-- A number lies between the powers of two of its logarithm. -/
theorem log2_bounds (hn : 0 < n) :
    (2 : ℚ) ^ (Nat.log2 n : Int) ≤ n ∧ (n : ℚ) < 2 ^ ((Nat.log2 n : Int) + 1) := by
  constructor
  · exact_mod_cast Nat.log2_self_le hn.ne'
  · exact_mod_cast Nat.lt_log2_self

theorem guess_bounds (hn : 0 < n) (hd : 0 < d) :
    (2 : ℚ) ^ ((Nat.log2 n : Int) - Nat.log2 d - 1) ≤ n / d ∧
      (n / d : ℚ) < 2 ^ ((Nat.log2 n : Int) - Nat.log2 d + 1) := by
  have pos : (0 : ℚ) < d := Nat.cast_pos.2 hd
  have above := log2_bounds hn
  have below := log2_bounds hd
  constructor
  · have exponent : (Nat.log2 n : Int) - Nat.log2 d - 1 =
        (Nat.log2 n : Int) - ((Nat.log2 d : Int) + 1) := by omega
    rw [exponent, zpow_sub₀ two_ne_zero]
    exact div_le_div₀ (by positivity) above.1 pos below.2.le
  · have exponent : (Nat.log2 n : Int) - Nat.log2 d + 1 =
        ((Nat.log2 n : Int) + 1) - Nat.log2 d := by omega
    rw [exponent, zpow_sub₀ two_ne_zero]
    exact div_lt_div₀ above.2 below.1 (by positivity) (by positivity)

theorem fullScale_spec (hn : 0 < n) (hd : 0 < d) :
    (2 : ℚ) ^ (fullScale n d + 52) ≤ n / d ∧ (n / d : ℚ) < 2 ^ (fullScale n d + 53) := by
  have bounds := guess_bounds hn hd
  unfold fullScale
  generalize (Nat.log2 n : Int) - Nat.log2 d = t at bounds
  have exact : t - 52 + 52 = t := by omega
  simp only
  split
  next h =>
    rw [fits_iff hd] at h
    have upper : t - 52 + 53 = t + 1 := by omega
    rw [upper]
    exact ⟨h, bounds.2⟩
  next h =>
    rw [fits_iff hd, not_le, exact] at h
    have lower : t - 52 - 1 + 52 = t - 1 := by omega
    have upper : t - 52 - 1 + 53 = t := by omega
    rw [lower, upper]
    exact ⟨bounds.1, h⟩

theorem roundedSignificand_nearest (n : Nat) (hd : 0 < d) :
    Nearest (roundedSignificand n d) (2 ^ roundedScale n d) (n / d) := by
  have num := ratio_eq d (roundedScale n d)
  have den : (0 : ℚ) < (ratio d (roundedScale n d)).2 := Nat.cast_pos.2 (ratio_pos ..)
  have pos : (0 : ℚ) < d := Nat.cast_pos.2 hd
  have positive : 0 < (ratio d (roundedScale n d)).1 := by
    rw [← Nat.cast_pos (α := ℚ), num]
    positivity
  have nearest := nearest_divNearest (n * (ratio d (roundedScale n d)).2) positive
  have unit : ((ratio d (roundedScale n d)).1 : ℚ) =
      2 ^ roundedScale n d * (d * (ratio d (roundedScale n d)).2) := by
    rw [num]
    ring
  have value : ((n * (ratio d (roundedScale n d)).2 : ℕ) : ℚ) =
      n / d * (d * (ratio d (roundedScale n d)).2) := by
    rw [Nat.cast_mul]
    field_simp
  rw [unit, value] at nearest
  exact nearest.of_mul (mul_pos pos den)

end

/-! What is stored is read back. -/

theorem bits_ofMagnitude (negative : Bool) {bits : Nat} (h : bits < infinityBits) :
    (ofMagnitude negative bits).magnitudeBits = bits ∧
      (ofMagnitude negative bits).isNegative = negative := by
  have small : min bits infinityBits = bits := Nat.min_eq_left h.le
  have size : bits < 0x7FF0000000000000 := h
  simp only [magnitudeBits, isNegative, ofMagnitude, small, signBit, UInt64.toNat_ofNat']
  cases negative with
  | false =>
    constructor
    · simp
      omega
    · simp
      omega
  | true =>
    constructor
    · simp
      omega
    · simp
      omega

theorem number_ofMagnitude (negative : Bool) {bits : Nat} (pos : 0 < bits)
    (h : bits < infinityBits) :
    (ofMagnitude negative bits).isZero = false ∧ (ofMagnitude negative bits).isFinite = true ∧
      (ofMagnitude negative bits).isNegative = negative := by
  obtain ⟨read, sign⟩ := bits_ofMagnitude negative h
  rw [isZero, isFinite, read]
  exact ⟨beq_eq_false_iff_ne.2 pos.ne', decide_eq_true h, sign⟩

/-- A significand of fifty-three bits is stored with its scale; one that has grown by rounding is
halved. -/
theorem significand_ofMagnitude (negative : Bool) {k m : Nat} (hm : hiddenBit ≤ m)
    (hm' : m ≤ 2 * hiddenBit) (h : k * hiddenBit + m < infinityBits) :
    let x := ofMagnitude negative (k * hiddenBit + m)
    (m < 2 * hiddenBit ∧ x.significand = m ∧ x.scale = k - 1074) ∨
      (m = 2 * hiddenBit ∧ x.significand = hiddenBit ∧ x.scale = k - 1073) := by
  intro x
  have bits : x.magnitudeBits = k * hiddenBit + m := (bits_ofMagnitude negative h).1
  have positive := hiddenBit_pos
  rcases Nat.lt_or_ge m (2 * hiddenBit) with small | large
  · obtain ⟨f, rfl⟩ := Nat.exists_eq_add_of_le hm
    have split : k * hiddenBit + (hiddenBit + f) = f + (k + 1) * hiddenBit := by ring
    have exponent : x.magnitudeBits / hiddenBit = k + 1 := by
      rw [bits, split, Nat.add_mul_div_right _ _ positive, Nat.div_eq_of_lt (by omega),
        Nat.zero_add]
    have fraction : x.magnitudeBits % hiddenBit = f := by
      rw [bits, split, Nat.add_mul_mod_self_right, Nat.mod_eq_of_lt (by omega)]
    refine .inl ⟨small, ?_, ?_⟩
    · rw [significand, exponent, fraction, if_neg (Nat.succ_ne_zero k), Nat.add_comm]
    · rw [scale, exponent, if_neg (Nat.succ_ne_zero k)]
      omega
  · obtain rfl : m = 2 * hiddenBit := Nat.le_antisymm hm' large
    have whole : k * hiddenBit + 2 * hiddenBit = (k + 2) * hiddenBit := by ring
    have exponent : x.magnitudeBits / hiddenBit = k + 2 := by
      rw [bits, whole, Nat.mul_div_cancel _ positive]
    have fraction : x.magnitudeBits % hiddenBit = 0 := by
      rw [bits, whole, Nat.mul_mod_left]
    refine .inr ⟨rfl, ?_, ?_⟩
    · rw [significand, exponent, fraction, if_neg (Nat.succ_ne_zero _), Nat.zero_add]
    · rw [scale, exponent, if_neg (Nat.succ_ne_zero _)]
      omega

/-! The ends of the interval of a number, as fractions. -/

/-- Quarters of a unit down to the lower end: the neighbour below a power of two is nearer. -/
def below (x : Binary64) : Nat :=
  if x.significand == hiddenBit && -1074 < x.scale then 1 else 2

def lowEnd (x : Binary64) : ℚ := (4 * x.significand - x.below : ℕ) * 2 ^ (x.scale - 2)

def highEnd (x : Binary64) : ℚ := (4 * x.significand + 2 : ℕ) * 2 ^ (x.scale - 2)

theorem quarter_unit (s : Int) : (2 : ℚ) ^ (s - 2) = 2 ^ s / 4 := by
  rw [zpow_sub₀ two_ne_zero]
  norm_num

theorem interval_eq (x : Binary64) :
    x.interval =
      { low := (4 * x.significand - x.below) * (ratio 1 (x.scale - 2)).1
        mid := 4 * x.significand * (ratio 1 (x.scale - 2)).1
        high := (4 * x.significand + 2) * (ratio 1 (x.scale - 2)).1
        den := (ratio 1 (x.scale - 2)).2
        closed := x.significand % 2 == 0 } := rfl

/-- A multiple of a quarter of a unit as a fraction over the denominator of the interval. -/
theorem cast_quarters (x : Binary64) (k : Nat) :
    ((k * (ratio 1 (x.scale - 2)).1 : ℕ) : ℚ) =
      k * 2 ^ (x.scale - 2) * (ratio 1 (x.scale - 2)).2 := by
  rw [Nat.cast_mul, ratio_eq]
  ring

theorem Interval.contains_iff (i : Interval) (n d : Nat) :
    i.contains n d = true ↔
      if i.closed = true then i.low * d ≤ n * i.den ∧ n * i.den ≤ i.high * d
      else i.low * d < n * i.den ∧ n * i.den < i.high * d := by
  unfold Interval.contains
  split <;> rw [Bool.and_eq_true, decide_eq_true_iff, decide_eq_true_iff]

theorem contains_iff (x : Binary64) (n : Nat) {d : Nat} (hd : 0 < d) :
    x.interval.contains n d = true ↔
      if x.significand % 2 = 0 then x.lowEnd ≤ n / d ∧ n / d ≤ x.highEnd
      else x.lowEnd < n / d ∧ n / d < x.highEnd := by
  have den : (0 : ℚ) < (ratio 1 (x.scale - 2)).2 := Nat.cast_pos.2 (ratio_pos ..)
  have pos : (0 : ℚ) < d := Nat.cast_pos.2 hd
  have left (k : Nat) : ((k * (ratio 1 (x.scale - 2)).1 * d : ℕ) : ℚ) =
      k * 2 ^ (x.scale - 2) * (d * (ratio 1 (x.scale - 2)).2) := by
    rw [Nat.cast_mul, cast_quarters]
    ring
  have right : ((n * (ratio 1 (x.scale - 2)).2 : ℕ) : ℚ) =
      n / d * (d * (ratio 1 (x.scale - 2)).2) := by
    rw [Nat.cast_mul]
    field_simp
  rw [Interval.contains_iff, interval_eq]
  simp only [beq_iff_eq]
  split
  · rw [← Nat.cast_le (α := ℚ), ← Nat.cast_le (α := ℚ), left, left, right,
      mul_le_mul_iff_left₀ (mul_pos pos den), mul_le_mul_iff_left₀ (mul_pos pos den)]
    rfl
  · rw [← Nat.cast_lt (α := ℚ), ← Nat.cast_lt (α := ℚ), left, left, right,
      mul_lt_mul_iff_left₀ (mul_pos pos den), mul_lt_mul_iff_left₀ (mul_pos pos den)]
    rfl

/-- A number with a significand of fifty-three bits. -/
structure IsNormal (x : Binary64) : Prop where
  low : hiddenBit ≤ x.significand
  high : x.significand < 2 * hiddenBit
  nonzero : x.isZero = false
  finite : x.isFinite = true

section

variable {n d : Nat}

theorem fullScale_bounds (hn : 0 < n) (hd : 0 < d) (low : (2 : ℚ) ^ (-1022 : Int) ≤ n / d)
    (high : (n / d : ℚ) < 2 ^ (1023 : Int)) : -1074 ≤ fullScale n d ∧ fullScale n d < 971 := by
  have bounds := fullScale_spec hn hd
  have lower := (zpow_lt_zpow_iff_right₀ one_lt_two).1 (low.trans_lt bounds.2)
  have upper := (zpow_lt_zpow_iff_right₀ one_lt_two).1 (bounds.1.trans_lt high)
  omega

/-- At its full scale a quotient has fifty-three bits before the point. -/
theorem fullScale_bits (hn : 0 < n) (hd : 0 < d) :
    (hiddenBit : ℚ) * 2 ^ fullScale n d ≤ n / d ∧
      (n / d : ℚ) < 2 * hiddenBit * 2 ^ fullScale n d := by
  have bounds := fullScale_spec hn hd
  have hidden : (hiddenBit : ℚ) = 2 ^ (52 : Int) := by norm_num [hiddenBit]
  have double : 2 * (hiddenBit : ℚ) = 2 ^ (53 : Int) := by norm_num [hiddenBit]
  rw [zpow_add₀ two_ne_zero, zpow_add₀ two_ne_zero, ← hidden, ← double] at bounds
  rwa [mul_comm (hiddenBit : ℚ), mul_comm (2 * (hiddenBit : ℚ))]

theorem Nearest.bits {m : Nat} {u v : ℚ} (h : Nearest m u v) (hu : 0 < u)
    (low : hiddenBit * u ≤ v) (high : v < 2 * hiddenBit * u) :
    hiddenBit ≤ m ∧ m ≤ 2 * hiddenBit := by
  have upper : (2 * m : ℚ) < 2 * (2 * hiddenBit) + 1 := by
    apply lt_of_mul_lt_mul_right _ hu.le
    linarith [h.low]
  have lower : (2 * hiddenBit : ℚ) ≤ 2 * m + 1 := by
    apply le_of_mul_le_mul_right _ hu
    linarith [h.high]
  norm_cast at upper lower
  omega

theorem below_cases (x : Binary64) :
    x.below = 1 ∧ x.significand = hiddenBit ∨ x.below = 2 := by
  unfold below
  split
  next h =>
    rw [Bool.and_eq_true, beq_iff_eq] at h
    exact .inl ⟨rfl, h.1⟩
  next => exact .inr rfl

/-- What a multiple of the unit is nearest to lies between the ends of its interval. -/
theorem contains_of_nearest {x : Binary64} (hx : hiddenBit ≤ x.significand) (hd : 0 < d)
    (nearest : Nearest x.significand (2 ^ x.scale) (n / d))
    (power : x.below = 1 → (4 * x.significand - 1) * 2 ^ x.scale ≤ (4 * (n / d) : ℚ)) :
    x.interval.contains n d = true := by
  have positive := hiddenBit_pos
  have small : x.below ≤ 4 * x.significand := by
    rcases below_cases x with ⟨one, -⟩ | two <;> omega
  have low := nearest.low
  have high := nearest.high
  rw [contains_iff x n hd, lowEnd, highEnd, quarter_unit, Nat.cast_sub small]
  push_cast
  generalize (2 : ℚ) ^ x.scale = u at *
  generalize (n / d : ℚ) = v at *
  split
  next even =>
    constructor
    · rcases below_cases x with ⟨one, -⟩ | two
      · rw [one]
        push_cast
        linarith [power one]
      · rw [two]
        push_cast
        linarith
    · linarith
  next odd =>
    have two : x.below = 2 := (below_cases x).resolve_left fun h => odd (h.2 ▸ rfl)
    have low_ne : 2 * ((x.significand : ℚ) * u) ≠ 2 * v + u :=
      fun h => odd (nearest.even (.inl h))
    have high_ne : 2 * v ≠ 2 * ((x.significand : ℚ) * u) + u :=
      fun h => odd (nearest.even (.inr h))
    have low_lt := lt_of_le_of_ne low low_ne
    have high_lt := lt_of_le_of_ne high high_ne
    rw [two]
    push_cast
    constructor <;> linarith

/-- A quotient of fifty-three bits that has stayed one. -/
theorem contains_of_full {x : Binary64} (hx : hiddenBit ≤ x.significand) (hd : 0 < d)
    (nearest : Nearest x.significand (2 ^ x.scale) (n / d))
    (low : (hiddenBit : ℚ) * 2 ^ x.scale ≤ n / d) : x.interval.contains n d = true := by
  apply contains_of_nearest hx hd nearest
  intro one
  have power := ((below_cases x).resolve_right fun two => by omega).2
  have unit : (0 : ℚ) < 2 ^ x.scale := by positivity
  rw [power]
  linarith

/-- A quotient that has been rounded up to a power of two. -/
theorem contains_of_doubled {x : Binary64} {s : Int} (hx : x.significand = hiddenBit)
    (hs : x.scale = s + 1) (hd : 0 < d)
    (nearest : Nearest (2 * hiddenBit) (2 ^ s) (n / d)) : x.interval.contains n d = true := by
  have unit : (2 : ℚ) ^ x.scale = 2 * 2 ^ s := by rw [hs, zpow_add_one₀ two_ne_zero, mul_comm]
  have low := nearest.low
  have high := nearest.high
  have positive : (0 : ℚ) < 2 ^ s := by positivity
  push_cast at low high
  apply contains_of_nearest hx.ge hd
  · rw [unit, hx]
    exact ⟨by linarith, by linarith, fun _ => rfl⟩
  · intro _
    rw [unit, hx]
    linarith

theorem ofRatio_normal (negative : Bool) (hn : 0 < n) (hd : 0 < d)
    (low : (2 : ℚ) ^ (-1022 : Int) ≤ n / d) (high : (n / d : ℚ) < 2 ^ (1023 : Int)) :
    (ofRatio negative n d).IsNormal ∧ (ofRatio negative n d).isNegative = negative ∧
      (ofRatio negative n d).interval.contains n d = true := by
  have range := fullScale_bounds hn hd low high
  have scale : roundedScale n d = fullScale n d := max_eq_left range.1
  have value := fullScale_bits hn hd
  have nearest := roundedSignificand_nearest n hd
  rw [scale] at nearest
  have bits := nearest.bits (by positivity) value.1 value.2
  obtain ⟨k, hk⟩ := Int.eq_ofNat_of_zero_le (a := fullScale n d + 1074) (by omega)
  have stored : ofRatio negative n d =
      ofMagnitude negative (k * hiddenBit + roundedSignificand n d) := by
    rw [ofRatio_eq negative hn.ne', scale, hk, Int.toNat_natCast]
  have positive := hiddenBit_pos
  have bounded : k * hiddenBit + roundedSignificand n d < infinityBits := by
    have size : infinityBits = 2047 * hiddenBit := rfl
    have top : k * hiddenBit ≤ 2044 * hiddenBit := Nat.mul_le_mul_right _ (by omega)
    omega
  obtain ⟨nonzero, finite, sign⟩ := number_ofMagnitude negative (by omega) bounded
  have parts := significand_ofMagnitude negative bits.1 bits.2 bounded
  rw [← stored] at nonzero finite sign parts
  generalize ofRatio negative n d = x at *
  generalize roundedSignificand n d = m at *
  rcases parts with ⟨small, rfl, same⟩ | ⟨rfl, top, next⟩
  · have same' : x.scale = fullScale n d := by omega
    rw [← same'] at nearest value
    exact ⟨⟨bits.1, small, nonzero, finite⟩, sign,
      contains_of_full bits.1 hd nearest value.1⟩
  · exact ⟨⟨top.ge, by omega, nonzero, finite⟩, sign,
      contains_of_doubled top (by omega) hd nearest⟩

end

end Binary64
end ListQuery
