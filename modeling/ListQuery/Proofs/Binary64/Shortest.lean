import ListQuery.Proofs.Binary64.Rounding

/-! Shortest decimals: on the first grid that has a multiple in the interval. Where the interval is
narrower than the grid there is one multiple at most. -/
namespace ListQuery
namespace Binary64

/-- Numerator and denominator of `10 ^ e`. -/
def grid (e : Int) : Nat × Nat :=
  if 0 ≤ e then (10 ^ e.toNat, 1) else (1, 10 ^ (-e).toNat)

theorem grid_neg (L : Nat) : grid (-L) = (1, 10 ^ L) := by
  unfold grid
  split
  next h =>
    obtain rfl : L = 0 := by omega
    rfl
  next => rw [Int.neg_neg, Int.toNat_natCast]

namespace Interval

variable {i : Interval} {tie : Tie} {e : Int}

/-- The last multiple of `10 ^ e` that is not above the number. -/
def floorOn (i : Interval) (e : Int) : Nat := i.mid * (grid e).2 / (i.den * (grid e).1)

/-- Whether a multiple of `10 ^ e` rounds to the number. -/
def holdsOn (i : Interval) (e : Int) (k : Nat) : Bool := i.contains (k * (grid e).1) (grid e).2

/-- A choice between both neighbours, if both round to the number. -/
theorem exists_onGrid?_eq (i : Interval) (tie : Tie) (e : Int) :
    ∃ k, (k = i.floorOn e ∨ k = i.floorOn e + 1) ∧ i.onGrid? tie e =
      if (decide (0 < i.floorOn e) && i.holdsOn e (i.floorOn e)) &&
          i.holdsOn e (i.floorOn e + 1) then some k
      else if decide (0 < i.floorOn e) && i.holdsOn e (i.floorOn e) then some (i.floorOn e)
      else if i.holdsOn e (i.floorOn e + 1) then some (i.floorOn e + 1)
      else none := by
  have unfolded : i.onGrid? tie e =
      if (decide (0 < i.floorOn e) && i.holdsOn e (i.floorOn e)) &&
          i.holdsOn e (i.floorOn e + 1) then
        (let rest := i.mid * (grid e).2 - i.floorOn e * (i.den * (grid e).1)
        let gap := i.den * (grid e).1 - rest
        if rest < gap then some (i.floorOn e)
        else if gap < rest then some (i.floorOn e + 1)
        else if tie = .even && i.floorOn e % 2 == 0 then some (i.floorOn e)
        else some (i.floorOn e + 1))
      else if decide (0 < i.floorOn e) && i.holdsOn e (i.floorOn e) then some (i.floorOn e)
      else if i.holdsOn e (i.floorOn e + 1) then some (i.floorOn e + 1)
      else none := rfl
  rw [unfolded]
  simp only
  split
  · split
    · exact ⟨_, .inl rfl, rfl⟩
    split
    · exact ⟨_, .inr rfl, rfl⟩
    split
    · exact ⟨_, .inl rfl, rfl⟩
    · exact ⟨_, .inr rfl, rfl⟩
  · exact ⟨_, .inl rfl, rfl⟩

/-- What is found on a grid is a neighbour of the number that rounds to it. -/
theorem onGrid?_spec {k : Nat} (h : i.onGrid? tie e = some k) :
    0 < k ∧ i.holdsOn e k = true ∧ (k = i.floorOn e ∨ k = i.floorOn e + 1) := by
  obtain ⟨k', choice, eq⟩ := i.exists_onGrid?_eq tie e
  rw [eq] at h
  split at h
  next both =>
    rw [Bool.and_eq_true, Bool.and_eq_true, decide_eq_true_iff] at both
    obtain rfl := Option.some.inj h
    rcases choice with rfl | rfl
    · exact ⟨both.1.1, both.1.2, .inl rfl⟩
    · exact ⟨Nat.succ_pos _, both.2, .inr rfl⟩
  split at h
  next lower =>
    rw [Bool.and_eq_true, decide_eq_true_iff] at lower
    obtain rfl := Option.some.inj h
    exact ⟨lower.1, lower.2, .inl rfl⟩
  split at h
  next upper =>
    obtain rfl := Option.some.inj h
    exact ⟨Nat.succ_pos _, upper, .inr rfl⟩
  next => cases h

/-- If a neighbour of the number rounds to it, something is found. -/
theorem isSome_onGrid? (tie : Tie) {k : Nat} (hk : 0 < k) (holds : i.holdsOn e k = true)
    (neighbour : k = i.floorOn e ∨ k = i.floorOn e + 1) : (i.onGrid? tie e).isSome = true := by
  obtain ⟨k', -, eq⟩ := i.exists_onGrid?_eq tie e
  rw [eq]
  rcases neighbour with rfl | rfl
  · cases i.holdsOn e (i.floorOn e + 1) <;> simp [hk, holds]
  · cases decide (0 < i.floorOn e) && i.holdsOn e (i.floorOn e) <;> simp [holds]

theorem contains_le {n d : Nat} (h : i.contains n d = true) :
    i.low * d ≤ n * i.den ∧ n * i.den ≤ i.high * d := by
  rw [contains_iff] at h
  split at h
  · exact h
  · exact ⟨h.1.le, h.2.le⟩

theorem contains_mul (n d : Nat) {c : Nat} (hc : 0 < c) :
    i.contains (n * c) (d * c) = i.contains n d := by
  have num : n * c * i.den = n * i.den * c := by ring
  simp only [contains, num, ← Nat.mul_assoc, Nat.mul_le_mul_right_iff hc,
    Nat.mul_lt_mul_right hc]

/-- What rounds to a number on a grid does so as a multiple of every finer unit. -/
theorem contains_of_holdsOn {L k : Nat} (h : i.holdsOn e k = true) (he : -(L : Int) ≤ e) :
    i.contains (k * 10 ^ (e + L).toNat) (10 ^ L) = true := by
  unfold holdsOn at h
  rcases Int.le_total 0 e with whole | fraction
  · obtain ⟨t, rfl⟩ := Int.eq_ofNat_of_zero_le whole
    have power : ((t : Int) + L).toNat = t + L := by omega
    rw [grid, if_pos whole, Int.toNat_natCast,
      ← i.contains_mul _ _ (c := 10 ^ L) (Nat.pow_pos (by decide)), Nat.one_mul, Nat.mul_assoc,
      ← Nat.pow_add] at h
    rwa [power]
  · obtain ⟨t, ht⟩ := Int.eq_ofNat_of_zero_le (a := -e) (by omega)
    obtain rfl : e = -t := by omega
    have power : (-(t : Int) + L).toNat = L - t := by omega
    rw [grid_neg, ← i.contains_mul _ _ (c := 10 ^ (L - t)) (Nat.pow_pos (by decide)), Nat.mul_one,
      ← Nat.pow_add, Nat.add_sub_cancel' (by omega)] at h
    rwa [power]

/-- Two multiples of a unit that is wider than the interval are not both in it. -/
theorem eq_of_narrow {d a b : Nat} (narrow : i.high * d < i.low * d + i.den)
    (ha : i.contains a d = true) (hb : i.contains b d = true) : a = b := by
  have step {a b : Nat} (ha : i.contains a d = true) (hb : i.contains b d = true) : b ≤ a := by
    have low := (contains_le ha).1
    have high := (contains_le hb).2
    have next : b * i.den < (a + 1) * i.den := by
      rw [Nat.add_mul, Nat.one_mul]
      omega
    exact Nat.lt_add_one_iff.1 (Nat.lt_of_mul_lt_mul_right next)
  exact Nat.le_antisymm (step hb ha) (step ha hb)

/-- The one multiple of a unit in a narrow interval is a neighbour of the number. -/
theorem neighbour_of_narrow {L k : Nat} (low : i.low ≤ i.mid) (high : i.mid ≤ i.high)
    (hden : 0 < i.den) (narrow : i.high * 10 ^ L < i.low * 10 ^ L + i.den)
    (hk : i.contains k (10 ^ L) = true) :
    k = i.floorOn (-L) ∨ k = i.floorOn (-L) + 1 := by
  have bounds := contains_le hk
  have low' : i.low * 10 ^ L ≤ i.mid * 10 ^ L := Nat.mul_le_mul_right _ low
  have high' : i.mid * 10 ^ L ≤ i.high * 10 ^ L := Nat.mul_le_mul_right _ high
  have parts := Nat.div_add_mod (i.mid * 10 ^ L) i.den
  have rest := Nat.mod_lt (i.mid * 10 ^ L) hden
  have floor : i.floorOn (-L) = i.mid * 10 ^ L / i.den := by
    rw [floorOn, grid_neg, Nat.mul_one]
  rw [floor]
  generalize i.mid * 10 ^ L / i.den = q at *
  have above : k * i.den < (q + 2) * i.den := by
    rw [Nat.add_mul, Nat.mul_comm q]
    omega
  have below : q * i.den < (k + 1) * i.den := by
    rw [Nat.add_mul, Nat.mul_comm q]
    omega
  have upper := Nat.lt_of_mul_lt_mul_right above
  have lower := Nat.lt_of_mul_lt_mul_right below
  omega

/-- A tenth of what is found on a fraction of ten would have been found on the next grid. -/
theorem last_digit_of_found {k : Nat} (he : e < 0) (found : i.onGrid? tie e = some k)
    (coarser : i.onGrid? tie (e + 1) = none) : k % 10 ≠ 0 := by
  intro last
  obtain ⟨pos, holds, neighbour⟩ := onGrid?_spec found
  obtain ⟨t, ht⟩ := Int.eq_ofNat_of_zero_le (a := -(e + 1)) (by omega)
  obtain rfl : e = -((t + 1 : Nat) : Int) := by omega
  have next : -((t + 1 : Nat) : Int) + 1 = -(t : Int) := by omega
  have tenth : i.floorOn (-(t : Int)) = i.floorOn (-((t + 1 : Nat) : Int)) / 10 := by
    rw [floorOn, floorOn, grid_neg, grid_neg, Nat.mul_one, Nat.pow_succ, ← Nat.mul_assoc,
      Nat.div_div_eq_div_mul, Nat.mul_div_mul_right _ _ (by decide)]
  have holds' : i.holdsOn (-(t : Int)) (k / 10) = true := by
    rw [holdsOn, grid_neg, Nat.mul_one] at holds ⊢
    rw [← i.contains_mul _ _ (c := 10) (by decide), ← Nat.pow_succ,
      Nat.div_mul_cancel (Nat.dvd_of_mod_eq_zero last)]
    exact holds
  have some := isSome_onGrid? tie (by omega) holds' (by omega)
  rw [← next, coarser] at some
  cases some

end Interval

/-- The power of ten of the coarsest grid that is tried. -/
def top (x : Binary64) : Int :=
  ((Nat.log2 x.interval.mid : Int) - Nat.log2 x.interval.den + 1) * 30103 / 100000 + 1

theorem findSome?_range {α : Type} {f : Nat → Option α} {a : α} {j n : Nat} (hj : j < n)
    (found : f j = some a) (none : ∀ i < j, f i = none) : (List.range n).findSome? f = some a := by
  induction n with
  | zero => omega
  | succ n ih =>
    rw [List.range_succ, List.findSome?_append]
    rcases Nat.lt_or_ge j n with before | last
    · rw [ih before]
      rfl
    · obtain rfl : j = n := by omega
      have nothing : (List.range j).findSome? f = Option.none := by
        rw [List.findSome?_eq_none_iff]
        intro i hi
        exact none i (List.mem_range.1 hi)
      simp [nothing, found]

theorem exists_of_findSome?_range {α : Type} {f : Nat → Option α} {a : α} {n : Nat}
    (h : (List.range n).findSome? f = some a) : ∃ j < n, f j = some a ∧ ∀ i < j, f i = none := by
  induction n with
  | zero => cases h
  | succ n ih =>
    rw [List.range_succ, List.findSome?_append, Option.or_eq_some_iff] at h
    rcases h with before | ⟨nothing, last⟩
    · obtain ⟨j, hj, found, none⟩ := ih before
      exact ⟨j, by omega, found, none⟩
    · refine ⟨n, by omega, by simpa using last, ?_⟩
      intro i hi
      exact List.findSome?_eq_none_iff.1 nothing i (List.mem_range.2 hi)

/-- The shortest is found on the coarsest grid that has a number. -/
theorem found_of_shortest {x : Binary64} {tie : Tie} {k : Nat} {e : Int}
    (h : x.shortest tie = (k, e)) (some : ¬ (k = 0 ∧ e = 0)) :
    ∃ j : Nat, e = x.top - j ∧ x.interval.onGrid? tie e = .some k ∧
      ∀ i < j, x.interval.onGrid? tie (x.top - (i : Nat)) = none := by
  cases search : (List.range 24).findSome? (fun j : Nat =>
      (x.interval.onGrid? tie (x.top - j)).map (·, x.top - j)) with
  | none =>
    have nothing : x.shortest tie = (0, 0) := congrArg (·.getD (0, 0)) search
    rw [nothing, Prod.mk.injEq] at h
    exact absurd ⟨h.1.symm, h.2.symm⟩ some
  | some r =>
    have found : x.shortest tie = r := congrArg (·.getD (0, 0)) search
    obtain ⟨j, -, hit, none⟩ := exists_of_findSome?_range search
    rw [← found, h, Option.map_eq_some_iff] at hit
    obtain ⟨k', hk', same⟩ := hit
    obtain ⟨rfl, rfl⟩ := Prod.mk.inj same
    exact ⟨j, rfl, hk', fun i before => Option.map_eq_none_iff.1 (none i before)⟩

/-- The digits of the shortest are zero only where nothing is found. -/
theorem pos_of_shortest {x : Binary64} {tie : Tie} {k : Nat} {e : Int}
    (h : x.shortest tie = (k, e)) (exponent : e ≠ 0) : 0 < k := by
  obtain ⟨j, -, found, -⟩ := found_of_shortest h fun zero => exponent zero.2
  exact (Interval.onGrid?_spec found).1

/-- The next coarser grid has nothing, if there is one. -/
theorem exists_of_shortest {x : Binary64} {tie : Tie} {k : Nat} {e : Int} (he : e < 0)
    (h : x.shortest tie = (k, e)) :
    x.interval.onGrid? tie e = some k ∧
      (e = x.top ∨ x.interval.onGrid? tie (e + 1) = none) := by
  obtain ⟨j, rfl, found, none⟩ := found_of_shortest h fun zero => by omega
  refine ⟨found, ?_⟩
  cases j with
  | zero => exact .inl (by omega)
  | succ j =>
    have next : x.top - ((j + 1 : Nat) : Int) + 1 = x.top - j := by omega
    exact .inr (next ▸ none j (Nat.lt_succ_self j))

/-- In an interval that is narrower than its unit a decimal without a last zero is the shortest. -/
theorem shortest_of_narrow {x : Binary64} {tie : Tie} {L k : Nat} (hk : k % 10 ≠ 0)
    (holds : x.interval.contains k (10 ^ L) = true) (low : x.interval.low ≤ x.interval.mid)
    (high : x.interval.mid ≤ x.interval.high) (hden : 0 < x.interval.den)
    (narrow : x.interval.high * 10 ^ L < x.interval.low * 10 ^ L + x.interval.den)
    (range : 0 ≤ x.top + L ∧ x.top + L < 24) : x.shortest tie = (k, -(L : Int)) := by
  obtain ⟨j, hj⟩ := Int.eq_ofNat_of_zero_le range.1
  have only {k' : Nat} (h : x.interval.contains k' (10 ^ L) = true) : k' = k :=
    Interval.eq_of_narrow narrow h holds
  have found : x.interval.onGrid? tie (-L) = some k := by
    have holdsOn : x.interval.holdsOn (-L) k = true := by
      rw [Interval.holdsOn, grid_neg, Nat.mul_one]
      exact holds
    obtain ⟨k', hk'⟩ := Option.isSome_iff_exists.1 (Interval.isSome_onGrid? tie
      (by omega) holdsOn (Interval.neighbour_of_narrow low high hden narrow holds))
    have holds' := (Interval.onGrid?_spec hk').2.1
    rw [Interval.holdsOn, grid_neg, Nat.mul_one] at holds'
    rw [hk', only holds']
  have coarser {e : Int} (he : -(L : Int) < e) : x.interval.onGrid? tie e = none := by
    cases h : x.interval.onGrid? tie e with
    | none => rfl
    | some k' =>
      have same := only (Interval.contains_of_holdsOn (Interval.onGrid?_spec h).2.1 he.le)
      obtain ⟨t, ht⟩ : ∃ t, (e + L).toNat = t + 1 := ⟨(e + L).toNat - 1, by omega⟩
      rw [ht, Nat.pow_succ, ← Nat.mul_assoc] at same
      exact absurd (same ▸ Nat.mul_mod_left _ 10) hk
  have search : (List.range 24).findSome? (fun j : Nat =>
      (x.interval.onGrid? tie (x.top - j)).map (·, x.top - j)) = some (k, -(L : Int)) := by
    apply findSome?_range (j := j) (by omega)
    · have last : x.top - j = -L := by omega
      rw [last, found]
      rfl
    · intro i hi
      rw [coarser (by omega)]
      rfl
  show ((List.range 24).findSome? _).getD (0, 0) = _
  exact congrArg (·.getD (0, 0)) search

end Binary64
end ListQuery
