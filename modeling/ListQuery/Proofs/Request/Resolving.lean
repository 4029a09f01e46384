import ListQuery.Proofs.Request.RoundTrip

/-! Resolved requests survive being written as a query string, read and resolved again: what a query
string leaves out is what the defaults put back, and every default stands for itself. -/
namespace ListQuery

theorem unsigned?_eq_some_iff {n : Int64} {u : UInt64} :
    unsigned? n = some u ↔ (u.toNat : Int) = n.toInt := by
  have hlt := n.toInt_lt
  unfold unsigned?
  split
  next nonneg =>
    have hsize : n.toInt.toNat < UInt64.size := by
      simp only [UInt64.size]
      omega
    rw [Option.some.injEq, ← UInt64.toNat_inj, UInt64.toNat_ofNat_of_lt' hsize]
    omega
  next negative => exact iff_of_false nofun fun same => negative (same ▸ Int.natCast_nonneg _)

theorem unsigned?_signedCap {n : UInt64} (h : n.toNat ≤ 0x7FFFFFFFFFFFFFFF) :
    unsigned? (signedCap n) = some n := by
  rw [unsigned?_eq_some_iff, signedCap, Int64.toInt_ofInt_of_le] <;> omega

theorem toNat_le_of_unsigned? {n : Int64} {u : UInt64} (h : unsigned? n = some u) :
    u.toNat ≤ 0x7FFFFFFFFFFFFFFF := by
  have hlt := n.toInt_lt
  have value := unsigned?_eq_some_iff.1 h
  omega

namespace Request

variable {X : Type}

/-- The number that is asked for, or the one that stands in for it. -/
def settled (fallback : UInt64) (keep : UInt64 → Bool) (n : Option Int64) : UInt64 :=
  ((n.bind unsigned?).filter keep).getD fallback

theorem settled_le {fallback : UInt64} (h : fallback.toNat ≤ 0x7FFFFFFFFFFFFFFF)
    (keep : UInt64 → Bool) (n : Option Int64) :
    (settled fallback keep n).toNat ≤ 0x7FFFFFFFFFFFFFFF := by
  unfold settled
  cases hn : (n.bind unsigned?).filter keep with
  | none => exact h
  | some u =>
    obtain ⟨m, -, hm⟩ := Option.bind_eq_some_iff.1 (Option.filter_eq_some_iff.1 hn).1
    exact toNat_le_of_unsigned? hm

/-- A settled number stands for itself: it was kept, or it is the fallback. -/
theorem settled_settled {fallback : UInt64} (h : fallback.toNat ≤ 0x7FFFFFFFFFFFFFFF)
    (keep : UInt64 → Bool) (n : Option Int64) :
    settled fallback keep (some (signedCap (settled fallback keep n))) =
      settled fallback keep n := by
  have hs := unsigned?_signedCap (settled_le h keep n)
  rw [settled, Option.bind_some, hs]
  unfold settled
  cases hn : (n.bind unsigned?).filter keep with
  | none => cases hk : keep fallback <;> simp [Option.filter_some, hk]
  | some u =>
    have hk := (Option.filter_eq_some_iff.1 hn).2
    simp [Option.filter_some, hk]

theorem settled_filter (fallback : UInt64) {keep : UInt64 → Bool} (h : keep 0 = false)
    (n : Option Int64) : settled fallback keep (n.filter (· ≠ 0)) = settled fallback keep n := by
  cases n with
  | none => rfl
  | some n =>
    by_cases hn : n = 0
    · have hz : unsigned? 0 = some 0 := by decide
      simp [settled, hn, hz, h, Option.filter_some]
    · simp [settled, hn, Option.filter_some]

def settledText (q : Option String) : Option String :=
  q.filter fun q => !(Text.trimmed q.toList).isEmpty

theorem settledText_filter (q : Option String) :
    settledText (q.filter (· ≠ "")) = settledText q := by
  unfold settledText
  rw [Option.filter_filter]
  congr 1
  funext q
  by_cases h : q = "" <;> simp [h]

theorem filter_settledText (q : Option String) :
    (settledText q).filter (· ≠ "") = settledText q := by
  unfold settledText
  rw [Option.filter_filter]
  congr 1
  funext q
  by_cases h : q = "" <;> simp [h]

theorem settledText_settledText (q : Option String) :
    settledText (settledText q) = settledText q := by
  simp only [settledText, Option.filter_filter, Bool.and_self]

/-- The sort keys that are asked for, or those that stand in for them. -/
def settledSort (fallback ks : List SortKey) : List SortKey :=
  if ks.isEmpty then fallback else ks

theorem settledSort_settledSort (fallback ks : List SortKey) :
    settledSort fallback (settledSort fallback ks) = settledSort fallback ks := by
  unfold settledSort
  grind

/-- Each part of a request is settled on its own. -/
theorem resolveWith_eq (extra : X → X) (d : Defaults) (r : Request X) :
    r.resolveWith extra d =
      { page := settled d.page (fun p => 0 < p) r.page
        limit := settled d.limit (fun l => 1 ≤ l && l ≤ d.maxLimit) r.limit
        q := settledText r.q
        sort := settledSort d.sort r.sort
        filters := r.filters
        extras := extra r.extras
        passthrough := r.passthrough } := rfl

/-- Asking for what is resolved resolves to the same. -/
theorem resolveWith_ofResolved {extra : X → X} (settles : ∀ x, extra (extra x) = extra x)
    (d : Defaults) (r : Request X) (hp : d.page.toNat ≤ 0x7FFFFFFFFFFFFFFF)
    (hl : d.limit.toNat ≤ 0x7FFFFFFFFFFFFFFF) :
    (ofResolved (r.resolveWith extra d)).resolveWith extra d = r.resolveWith extra d := by
  have hpage := settled_settled hp (fun p => 0 < p) r.page
  have hlimit := settled_settled hl (fun l => 1 ≤ l && l ≤ d.maxLimit) r.limit
  rw [resolveWith_eq, resolveWith_eq]
  simp only [ofResolved, hpage, hlimit, settledText_settledText, settledSort_settledSort, settles]

variable [Extras X]

/-- What a query string leaves out does not show in what it resolves to. -/
theorem resolve_tidied (d : Defaults) (r : Request X) : r.tidied.resolve d = r.resolve d := by
  have hpage : settled d.page (fun p => 0 < p) (r.page.filter (· ≠ 0)) =
      settled d.page (fun p => 0 < p) r.page := settled_filter _ rfl _
  have hlimit : settled d.limit (fun l => 1 ≤ l && l ≤ d.maxLimit) (r.limit.filter (· ≠ 0)) =
      settled d.limit (fun l => 1 ≤ l && l ≤ d.maxLimit) r.limit := settled_filter _ rfl _
  simp only [resolve, resolveWith_eq, tidied, hpage, hlimit, settledText_filter]

theorem resolve_ofResolved [LawfulExtras X] (d : Defaults) (r : Request X)
    (hp : d.page.toNat ≤ 0x7FFFFFFFFFFFFFFF) (hl : d.limit.toNat ≤ 0x7FFFFFFFFFFFFFFF) :
    (ofResolved (r.resolve d)).resolve d = r.resolve d :=
  resolveWith_ofResolved LawfulExtras.restrict_restrict d r hp hl

theorem ofResolved_regular [LawfulExtras X] {d : Defaults} {r : Request X} (h : r.Regular)
    (hs : ∀ key ∈ d.sort, Key.IsName key.field) : (ofResolved (r.resolve d)).Regular where
  sort := fun key hk => by
    simp only [ofResolved, resolve, resolveWith] at hk
    split at hk
    · exact hs key hk
    · exact h.sort key hk
  fields := h.fields
  distinct := h.distinct
  values := h.values
  extras := LawfulExtras.claimed_restrict h.extras
  passthrough := h.passthrough
  unclaimed := h.unclaimed

theorem tidied_ofResolved (d : Defaults) (r : Request X) :
    (ofResolved (r.resolve d)).tidied =
      let raw := ofResolved (r.resolve d)
      { raw with page := raw.page.filter (· ≠ 0), limit := raw.limit.filter (· ≠ 0) } := by
  simp only [resolve, resolveWith_eq, tidied, ofResolved, filter_settledText]

/-- What a query string resolves to survives being written, read and resolved again, and only a page
or a limit of zero is left out on the way. -/
theorem resolve_decode_encode (k : ExtrasKind) (query : String) (d : Defaults)
    (hp : d.page.toNat ≤ 0x7FFFFFFFFFFFFFFF) (hl : d.limit.toNat ≤ 0x7FFFFFFFFFFFFFFF)
    (hs : ∀ key ∈ d.sort, Key.IsName key.field) :
    let n := (decode query : Request k.Record).resolve d
    let raw := ofResolved n
    (decode (encode raw)).resolve d = n ∧
      decode (encode raw) =
        { raw with page := raw.page.filter (· ≠ 0), limit := raw.limit.filter (· ≠ 0) } := by
  intro n raw
  have hr : raw.Regular := ofResolved_regular (decode_regular query) hs
  have h : decode (encode raw) = raw.tidied := decode_encode_of_regular hr
  constructor
  · rw [h, resolve_tidied]
    exact resolve_ofResolved d (decode query) hp hl
  · rw [h]
    exact tidied_ofResolved d (decode query)

/-- Defaults out of their own range: no page, and a limit above the maximum. -/
def oddDefaults : Defaults where
  page := 0
  limit := 200
  maxLimit := 100
  sort := [⟨"first name", .asc⟩]

theorem resolve_decode_encode_oddDefaults :
    let n := (decode "?page=0&limit=150&q=%20x&filter[a]=1&filter[a][operator]=in&owner=&type=%FF" :
      Request ExtrasKind.label.Record).resolve oddDefaults
    let raw := ofResolved n
    (oddDefaults.page.toNat ≤ 0x7FFFFFFFFFFFFFFF ∧ oddDefaults.limit.toNat ≤ 0x7FFFFFFFFFFFFFFF ∧
      ∀ key ∈ oddDefaults.sort, Key.IsName key.field) ∧
    (decode (encode raw)).resolve oddDefaults = n ∧
      decode (encode raw) =
        { raw with page := raw.page.filter (· ≠ 0), limit := raw.limit.filter (· ≠ 0) } :=
  have hp : oddDefaults.page.toNat ≤ 0x7FFFFFFFFFFFFFFF := by decide
  have hl : oddDefaults.limit.toNat ≤ 0x7FFFFFFFFFFFFFFF := by decide
  have hs : ∀ key ∈ oddDefaults.sort, Key.IsName key.field := by simp [oddDefaults, Key.IsName]
  ⟨⟨hp, hl, hs⟩, resolve_decode_encode .label _ oddDefaults hp hl hs⟩

end Request
end ListQuery
