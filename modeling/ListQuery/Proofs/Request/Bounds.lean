import ListQuery.Proofs.Request.Resolving
import ListQuery.Proofs.Text.Trimming

/-! What resolving makes of the numbers, the free text and the sort keys of a request. A number out of
range gives way to the default as it is, so that only the defaults have to keep the bounds. -/
namespace ListQuery
namespace Request

variable {X : Type}

/-- A number is what is asked for if that is in range, and exactly the one that stands in for it
otherwise. -/
structure AsAsked (inRange : Int → Prop) (fallback : UInt64) (asked : Option Int64)
    (n : UInt64) : Prop where
  kept : ∀ a ∈ asked, inRange a.toInt → (n.toNat : Int) = a.toInt
  replaced : (∀ a ∈ asked, ¬ inRange a.toInt) → n = fallback

section Settled

variable {fallback : UInt64} {keep : UInt64 → Bool} {inRange : Int → Prop}

/-- An unsigned number stands for itself or not at all: what is below zero is never in range. -/
theorem settled_asAsked (agree : ∀ u : UInt64, keep u = true ↔ inRange u.toNat)
    (nonneg : ∀ i, inRange i → 0 ≤ i) (asked : Option Int64) :
    AsAsked inRange fallback asked (settled fallback keep asked) := by
  constructor
  · rintro a ⟨⟩ range
    have value : (a.toInt.toNat : Int) = a.toInt := Int.toNat_of_nonneg (nonneg _ range)
    have read : unsigned? a = some (.ofNat a.toInt.toNat) := if_pos (nonneg _ range)
    have same := unsigned?_eq_some_iff.1 read
    have kept : keep (.ofNat a.toInt.toNat) = true := by
      rw [agree, same]
      exact range
    rw [settled, Option.bind_some, read, Option.filter_some_pos kept]
    exact same
  · intro out
    have none_kept : (asked.bind unsigned?).filter keep = none := by
      rw [Option.filter_eq_none_iff]
      intro u hu kept
      obtain ⟨a, ha, read⟩ := Option.bind_eq_some_iff.1 hu
      have range := (agree u).1 kept
      rw [unsigned?_eq_some_iff.1 read] at range
      exact out a ha range
    rw [settled, none_kept, Option.getD_none]

/-- A bound on the fallback is a bound on the number. -/
theorem AsAsked.bounded {asked : Option Int64} {n : UInt64}
    (h : AsAsked inRange fallback asked n) (of_fallback : inRange fallback.toNat) :
    inRange n.toNat := by
  by_cases range : ∃ a ∈ asked, inRange a.toInt
  · obtain ⟨a, ha, range⟩ := range
    rw [h.kept a ha range]
    exact range
  · rw [h.replaced fun a ha here => range ⟨a, ha, here⟩]
    exact of_fallback

end Settled

theorem settledText_eq_some_iff {q : Option String} {text : String} :
    settledText q = some text ↔
      q = some text ∧ ∃ c ∈ text.toList, Text.isBlank c = false := by
  rw [settledText, Option.filter_eq_some_iff, and_congr_right_iff]
  rintro -
  rw [Bool.not_eq_true', ← Bool.not_eq_true, List.isEmpty_iff, Text.trimmed_eq_nil_iff]
  simp

theorem settledSort_eq_nil_iff {fallback keys : List SortKey} :
    settledSort fallback keys = [] ↔ keys = [] ∧ fallback = [] := by
  cases keys <;> simp [settledSort]

/-- A page that counts from one and a limit up to the maximum are taken as they are asked for, and
anything else becomes the default. A text is kept unless it is blank. Asking for what is resolved
resolves to the same, as long as the defaults are signed numbers. -/
theorem resolveWith_bounded (extra : X → X) (d : Defaults) (r : Request X) :
    let n := r.resolveWith extra d
    (AsAsked (0 < ·) d.page r.page n.page ∧
        AsAsked (fun l => 1 ≤ l ∧ l ≤ d.maxLimit.toNat) d.limit r.limit n.limit) ∧
      (1 ≤ d.page → 1 ≤ n.page) ∧
      (1 ≤ d.limit → d.limit ≤ d.maxLimit → 1 ≤ n.limit ∧ n.limit ≤ d.maxLimit) ∧
      (∀ q, n.q = some q ↔ r.q = some q ∧ ∃ c ∈ q.toList, Text.isBlank c = false) ∧
      (n.sort = [] ↔ r.sort = [] ∧ d.sort = []) ∧
      ((∀ x, extra (extra x) = extra x) → d.page.toNat ≤ 0x7FFFFFFFFFFFFFFF →
        d.limit.toNat ≤ 0x7FFFFFFFFFFFFFFF → (ofResolved n).resolveWith extra d = n) ∧
      ∀ (k : ExtrasKind) (x : k.Record),
        Extras.restrict (Extras.restrict x) = Extras.restrict x := by
  intro n
  have page_range (u : UInt64) : 1 ≤ u ↔ 0 < (u.toNat : Int) := by
    rw [UInt64.le_iff_toNat_le, UInt64.toNat_one]
    omega
  have limit_range (u : UInt64) :
      1 ≤ u ∧ u ≤ d.maxLimit ↔ 1 ≤ (u.toNat : Int) ∧ (u.toNat : Int) ≤ d.maxLimit.toNat := by
    rw [UInt64.le_iff_toNat_le, UInt64.le_iff_toNat_le, UInt64.toNat_one]
    omega
  have page : AsAsked (0 < ·) d.page r.page n.page :=
    settled_asAsked (by simp [UInt64.lt_iff_toNat_lt]) (fun _ => Int.le_of_lt) r.page
  have limit : AsAsked (fun l => 1 ≤ l ∧ l ≤ d.maxLimit.toNat) d.limit r.limit n.limit :=
    settled_asAsked (by simpa using limit_range) (fun _ range => by omega) r.limit
  refine ⟨⟨page, limit⟩, ?_, ?_, ?_, ?_, ?_, ?_⟩
  · intro default
    exact (page_range _).2 (page.bounded ((page_range _).1 default))
  · intro low high
    exact (limit_range _).2 (limit.bounded ((limit_range _).1 ⟨low, high⟩))
  · exact fun q => settledText_eq_some_iff
  · exact settledSort_eq_nil_iff
  · exact fun settles hp hl => resolveWith_ofResolved settles d r hp hl
  · exact fun _ => LawfulExtras.restrict_restrict

/-- A default past the signed numbers is asked for as the greatest of them, and is then kept as that. -/
example :
    let d : Defaults := { page := 0x8000000000000000 }
    let n := ({ extras := {} } : Request NoExtras).resolve d
    n.page = d.page ∧ ((ofResolved n).resolve d).page = 0x7FFFFFFFFFFFFFFF := by
  decide

/-- Numbers on the wrong side of their bounds, and a text of one no-break space. -/
def outOfBounds : Request OrderExtras where
  page := some (-5)
  limit := some 101
  q := some "\u00A0"
  extras := ⟨some "lost"⟩

theorem resolveWith_bounded_outOfBounds :
    let d : Defaults := {}
    let n := outOfBounds.resolve d
    (n.page = d.page ∧ n.limit = d.limit ∧ n.q = none ∧ n.sort ≠ []) ∧
      (1 ≤ n.page ∧ 1 ≤ n.limit ∧ n.limit ≤ d.maxLimit) ∧ (ofResolved n).resolve d = n := by
  intro d n
  obtain ⟨⟨page, limit⟩, low, within, q, sort, again, settles⟩ :=
    resolveWith_bounded Extras.restrict d outOfBounds
  refine ⟨⟨page.replaced ?_, limit.replaced ?_, ?_, ?_⟩,
    ⟨low (by decide), within (by decide) (by decide)⟩,
    again (settles .order) (by decide) (by decide)⟩
  · rintro asked ⟨⟩
    decide
  · rintro asked ⟨⟩
    decide
  · rw [Option.eq_none_iff_forall_ne_some]
    intro text kept
    obtain ⟨⟨⟩, c, mem, letter⟩ := (q text).1 kept
    obtain rfl : c = '\u00A0' := List.mem_singleton.1 mem
    exact absurd letter (by decide)
  · exact fun none => absurd (sort.1 none).2 (by decide)

end Request
end ListQuery
