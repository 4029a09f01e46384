import ListQuery.Page
import Mathlib.Order.Interval.Finset.Nat

/-! The pages of a list tile its rows. Up to the largest total that a database counts, no sum or
product that is cut off at the top of its range is ever seen on a page that has rows. -/
namespace ListQuery
namespace Page

theorem toNat_subSat (a b : UInt64) : (subSat a b).toNat = a.toNat - b.toNat := by
  unfold subSat
  split
  next h => exact UInt64.toNat_sub_of_le a b h
  next h =>
    have less : a.toNat < b.toNat := UInt64.lt_iff_toNat_lt.1 (UInt64.not_le.1 h)
    have none : a.toNat - b.toNat = 0 := by omega
    rw [none]
    rfl

theorem toNat_addSat (a b : UInt64) : (addSat a b).toNat = min (a.toNat + b.toNat) (2 ^ 64 - 1) := by
  have top_eq : top.toNat = 2 ^ 64 - 1 := rfl
  unfold addSat
  split
  next h =>
    rw [UInt64.toNat_add, Nat.mod_eq_of_lt (by omega)]
    omega
  next h => omega

theorem toNat_mulSat (a b : UInt64) : (mulSat a b).toNat = min (a.toNat * b.toNat) (2 ^ 64 - 1) := by
  have top_eq : top.toNat = 2 ^ 64 - 1 := rfl
  unfold mulSat
  generalize product : a.toNat * b.toNat = n
  split
  next h =>
    rw [UInt64.toNat_mul, product, Nat.mod_eq_of_lt (by omega)]
    omega
  next h => omega

/-- The cap on offsets is below the cap on products, so only the one is seen. -/
theorem toNat_offset (page limit : UInt64) :
    (offset page limit).toNat = min ((page.toNat - 1) * limit.toNat) (2 ^ 63 - 1) := by
  have rows : (mulSat (subSat page 1) limit).toNat =
      min ((page.toNat - 1) * limit.toNat) (2 ^ 64 - 1) := by
    rw [toNat_mulSat, toNat_subSat]
    rfl
  have cap : maxOffset.toNat = 2 ^ 63 - 1 := rfl
  unfold offset
  simp only [UInt64.lt_iff_toNat_lt]
  split <;> omega

theorem toNat_last (page limit : UInt64) :
    (range page limit).2.toNat =
      min ((offset page limit).toNat + (limit.toNat - 1)) (2 ^ 64 - 1) := by
  simp only [range, toNat_addSat, toNat_subSat]
  rfl

@[simp] theorem first_range (page limit : UInt64) : (range page limit).1 = offset page limit := rfl

/-- The row at an index, counted from zero, is on a page. -/
def Covers (page limit : UInt64) (i : Nat) : Prop :=
  (range page limit).1.toNat ≤ i ∧ i ≤ (range page limit).2.toNat

section Pages

variable {page limit : UInt64}

/-- A page that starts below the cap holds all of its rows. -/
theorem toNat_range (hl : 1 ≤ limit.toNat) (hp : (page.toNat - 1) * limit.toNat < 2 ^ 63 - 1) :
    (range page limit).1.toNat = (page.toNat - 1) * limit.toNat ∧
      (range page limit).2.toNat + 1 = (page.toNat - 1) * limit.toNat + limit.toNat := by
  have first : (offset page limit).toNat = (page.toNat - 1) * limit.toNat := by
    rw [toNat_offset]
    omega
  refine ⟨first, ?_⟩
  -- either nothing comes before the page, or a whole page does and `limit` is small
  have fits : (page.toNat - 1) * limit.toNat + limit.toNat ≤ 2 ^ 64 := by
    have bound := limit.toNat_lt
    rcases Nat.eq_zero_or_pos (page.toNat - 1) with h | h
    · rw [h]
      omega
    · have := Nat.le_mul_of_pos_left limit.toNat h
      omega
  rw [toNat_last, first]
  omega

/-- A row below the cap is on the page that division finds, and on no other. -/
theorem covers_iff (hl : 1 ≤ limit.toNat) (hp : 1 ≤ page.toNat) {i : Nat} (hi : i < 2 ^ 63 - 1) :
    Covers page limit i ↔ i / limit.toNat + 1 = page.toNat := by
  have division : i / limit.toNat + 1 = page.toNat ↔
      (page.toNat - 1) * limit.toNat ≤ i ∧ i < (page.toNat - 1) * limit.toNat + limit.toNat := by
    have shift : i / limit.toNat + 1 = page.toNat ↔ i / limit.toNat = page.toNat - 1 := by omega
    rw [shift, Nat.div_eq_iff (by omega), Nat.mul_comm]
    omega
  rw [division, Covers]
  by_cases capped : (page.toNat - 1) * limit.toNat < 2 ^ 63 - 1
  · obtain ⟨first, last⟩ := toNat_range hl capped
    omega
  · have first := toNat_offset page limit
    rw [first_range]
    omega

theorem existsUnique_covers (hl : 1 ≤ limit.toNat) {i : Nat} (hi : i < 2 ^ 63 - 1) :
    ∃! page : UInt64, 1 ≤ page ∧ Covers page limit i := by
  have below := Nat.div_le_self i limit.toNat
  have fits : i / limit.toNat + 1 < UInt64.size := lt_of_le_of_lt (by omega) (by decide : 2 ^ 63 < _)
  have back : (UInt64.ofNat (i / limit.toNat + 1)).toNat = i / limit.toNat + 1 :=
    UInt64.toNat_ofNat_of_lt fits
  have first : 1 ≤ (UInt64.ofNat (i / limit.toNat + 1)).toNat := by
    rw [back]
    exact Nat.le_add_left ..
  refine ⟨.ofNat (i / limit.toNat + 1), ⟨UInt64.le_iff_toNat_le.2 first, ?_⟩, ?_⟩
  · exact (covers_iff hl first hi).2 back.symm
  · rintro page ⟨hp, covers⟩
    apply UInt64.toNat_inj.1
    rw [back, (covers_iff hl (UInt64.le_iff_toNat_le.1 hp) hi).1 covers]

end Pages

/-- So many pages are enough for the total, and fewer are not. -/
theorem totalPages_le_iff (current limit total : UInt64) (hl : 1 ≤ limit.toNat) (m : Nat) :
    (Pagination.of current limit total).totalPages.toNat ≤ m ↔ total.toNat ≤ m * limit.toNat := by
  have nonzero : limit ≠ 0 := by
    rintro rfl
    exact absurd hl (by decide)
  have division := Nat.div_add_mod' total.toNat limit.toNat
  have remainder := Nat.mod_lt total.toNat hl
  have bound := total.toNat_lt
  have exact_iff : total % limit = 0 ↔ total.toNat % limit.toNat = 0 := by
    rw [← UInt64.toNat_inj, UInt64.toNat_mod]
    rfl
  simp only [Pagination.of, if_neg nonzero, exact_iff]
  split
  next whole =>
    have pages : (total / limit + 0).toNat = total.toNat / limit.toNat := by
      rw [UInt64.add_zero, UInt64.toNat_div]
    rw [pages, ← Nat.mul_le_mul_right_iff hl]
    omega
  next rest =>
    have room : 2 ≤ limit.toNat := by omega
    have small := Nat.mul_le_mul_left (total.toNat / limit.toNat) room
    have pages : (total / limit + 1).toNat = total.toNat / limit.toNat + 1 := by
      rw [UInt64.toNat_add, UInt64.toNat_div]
      exact Nat.mod_eq_of_lt (by have := UInt64.toNat_one; omega)
    rw [pages]
    constructor
    · intro more
      have := Nat.mul_le_mul_right limit.toNat more
      rw [Nat.add_mul] at this
      omega
    · intro enough
      by_contra fewer
      have := Nat.mul_le_mul_right limit.toNat (show m ≤ total.toNat / limit.toNat by omega)
      omega

/-- The rows before `total` on pages of `limit` rows, of which there are `pages`. -/
structure Tiled (limit : UInt64) (total pages : Nat) : Prop where
  least : IsLeast {m : Nat | total ≤ m * limit.toNat} pages
  once : ∀ i < total, ∃! page : UInt64, 1 ≤ page ∧ Covers page limit i
  within : ∀ i < total, ∀ page : UInt64, 1 ≤ page → Covers page limit i → page.toNat ≤ pages
  full : ∀ page : UInt64, 1 ≤ page → page.toNat ≤ pages →
    (Finset.Icc (range page limit).1.toNat (range page limit).2.toNat).card = limit.toNat
  adjacent : ∀ page : UInt64, 1 ≤ page → page.toNat < pages →
    (range (page + 1) limit).1.toNat = (range page limit).2.toNat + 1
  beyond : ∀ page : UInt64, pages < page.toNat → total ≤ (range page limit).1.toNat

section Tiling

variable {limit page : UInt64} {total pages : Nat}

/-- The pages up to the last one start before the total. -/
theorem toNat_range_of_le (hl : 1 ≤ limit.toNat) (ht : total ≤ 2 ^ 63 - 1)
    (least : IsLeast {m : Nat | total ≤ m * limit.toNat} pages) (hp : 1 ≤ page.toNat)
    (hle : page.toNat ≤ pages) :
    (range page limit).1.toNat = (page.toNat - 1) * limit.toNat ∧
      (range page limit).2.toNat + 1 = (page.toNat - 1) * limit.toNat + limit.toNat := by
  apply toNat_range hl
  by_contra late
  have enough : total ≤ (page.toNat - 1) * limit.toNat := by omega
  have := least.2 enough
  omega

theorem first_add_one (hl : 1 ≤ limit.toNat) (ht : total ≤ 2 ^ 63 - 1) (word : pages < 2 ^ 64)
    (least : IsLeast {m : Nat | total ≤ m * limit.toNat} pages) (hp : 1 ≤ page.toNat)
    (hlt : page.toNat < pages) :
    (range (page + 1) limit).1.toNat = (range page limit).2.toNat + 1 := by
  have next : (page + 1).toNat = page.toNat + 1 := by
    rw [UInt64.toNat_add]
    exact Nat.mod_eq_of_lt (by have := UInt64.toNat_one; omega)
  obtain ⟨-, last⟩ := toNat_range_of_le hl ht least hp hlt.le
  obtain ⟨first, -⟩ := toNat_range_of_le hl ht least (show 1 ≤ (page + 1).toNat by omega) (by omega)
  have step : page.toNat * limit.toNat = (page.toNat - 1) * limit.toNat + limit.toNat := by
    rw [← Nat.succ_mul, Nat.succ_eq_add_one, Nat.sub_add_cancel hp]
  rw [first, last, next, Nat.add_sub_cancel, step]

theorem tiled_of_isLeast (hl : 1 ≤ limit.toNat) (ht : total ≤ 2 ^ 63 - 1) (word : pages < 2 ^ 64)
    (least : IsLeast {m : Nat | total ≤ m * limit.toNat} pages) : Tiled limit total pages where
  least := least
  once i hi := existsUnique_covers hl (by omega)
  within := by
    intro i hi page hp covers
    have enough : total ≤ pages * limit.toNat := least.1
    rw [← (covers_iff hl (UInt64.le_iff_toNat_le.1 hp) (by omega)).1 covers,
      Nat.add_one_le_iff, Nat.div_lt_iff_lt_mul hl]
    omega
  full := by
    intro page hp hle
    obtain ⟨first, last⟩ := toNat_range_of_le hl ht least (UInt64.le_iff_toNat_le.1 hp) hle
    rw [Nat.card_Icc]
    omega
  adjacent page hp hlt := first_add_one hl ht word least (UInt64.le_iff_toNat_le.1 hp) hlt
  beyond := by
    intro page hlt
    have enough : total ≤ pages * limit.toNat := least.1
    have whole := Nat.mul_le_mul_right limit.toNat (show pages ≤ page.toNat - 1 by omega)
    rw [first_range, toNat_offset]
    omega

end Tiling

/-- Offsets are exact up to the largest that a database takes. Up to that total every row is on one
page, pages are whole and follow each other without a gap, and past the last page there is
nothing. -/
theorem pages_tile :
    (∀ page limit : UInt64, ((offset page limit).toNat : Int) =
        min (max ((page.toNat : Int) - 1) 0 * limit.toNat) (2 ^ 63 - 1)) ∧
      ∀ current limit total : UInt64, 1 ≤ limit → total.toNat ≤ 2 ^ 63 - 1 →
        Tiled limit total.toNat (Pagination.of current limit total).totalPages.toNat := by
  constructor
  · intro page limit
    have before : max ((page.toNat : Int) - 1) 0 = ((page.toNat - 1 : Nat) : Int) := by omega
    rw [toNat_offset, before]
    push_cast
    omega
  · intro current limit total hl ht
    have positive : 1 ≤ limit.toNat := UInt64.le_iff_toNat_le.1 hl
    apply tiled_of_isLeast positive ht (UInt64.toNat_lt _)
    constructor
    · exact (totalPages_le_iff current limit total positive _).1 le_rfl
    · intro m enough
      exact (totalPages_le_iff current limit total positive m).2 enough

/-- The largest total there may be, with one row on the last page. -/
theorem maxOffset_tiled :
    (1 : UInt64) ≤ 6 ∧ maxOffset.toNat ≤ 2 ^ 63 - 1 ∧
      Tiled 6 maxOffset.toNat 1537228672809129302 := by
  have pages : (Pagination.of 3 6 maxOffset).totalPages.toNat = 1537228672809129302 := by decide
  have tiled := pages_tile.2 3 6 maxOffset (by decide) (by decide)
  rw [pages] at tiled
  exact ⟨by decide, by decide, tiled⟩

end Page
end ListQuery
