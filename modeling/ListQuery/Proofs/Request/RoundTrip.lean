import ListQuery.Form.RoundTrip
import ListQuery.Proofs.Request.Reading
import ListQuery.Proofs.Text.Integer

/-! Canonical requests are read back from the query strings they are written as. The pairs are read
section by section: each section fills its own part of the request and leaves the others alone. -/
namespace ListQuery

namespace Form

theorem char_ofNat_ne {n : Nat} (h : n < 128) (hn : n ≠ 0x3F) : Char.ofNat n ≠ '?' := by
  intro e
  have hv : n.isValidChar := Or.inl (by omega)
  have ht : (Char.ofNat n).toNat = n := by
    unfold Char.ofNat
    rw [dif_pos hv]
    rfl
  rw [e] at ht
  exact hn ht.symm

theorem hexDigit_ne {n : Nat} (h : n < 16) : hexDigit n ≠ '?' := by
  unfold hexDigit
  split <;> exact char_ofNat_ne (by omega) (by omega)

theorem not_mem_escape (cs : List Char) : '?' ∉ escape cs := by
  unfold escape
  intro h
  obtain ⟨b, -, hb⟩ := List.mem_flatMap.1 h
  have hlt := b.toNat_lt
  unfold escapeByte at hb
  split at hb
  next hs =>
    have hs : b.toNat < 128 ∧ b.toNat ≠ 0x3F := by
      unfold isSafe at hs
      grind
    exact char_ofNat_ne hs.1 hs.2 (List.mem_singleton.1 hb).symm
  next =>
    split at hb
    next => exact absurd hb (by decide)
    next =>
      simp only [List.mem_cons, List.not_mem_nil, or_false] at hb
      rcases hb with hb | hb | hb
      · exact absurd hb (by decide)
      · exact hexDigit_ne (by omega) hb.symm
      · exact hexDigit_ne (by omega) hb.symm

theorem head?_render (ps : List Pair) : (render ps).toList.head? ≠ some '?' := by
  simp only [render, String.toList_ofList]
  cases ps with
  | nil => simp
  | cons p ps =>
    have hp : ∀ rest, (renderPair p ++ rest).head? ≠ some '?' := by
      intro rest h
      unfold renderPair at h
      cases he : escape p.1.toList with
      | nil => simp [he] at h
      | cons c cs =>
        simp only [he, List.cons_append, List.head?_cons, Option.some.injEq] at h
        have hm : '?' ∈ escape p.1.toList := by simp [he, h]
        exact not_mem_escape _ hm
    cases ps with
    | nil => simpa using hp []
    | cons q ps =>
      simp only [List.map_cons, List.intercalate_cons_cons, List.append_assoc]
      exact hp _

end Form

namespace OpenFilter

/-- A filter all of whose parts have arrived. -/
def ofFilter (f : Filter) : OpenFilter where
  field := f.field
  value := some f.value
  operator := f.operator
  negation := f.negation

@[simp] theorem field_ofFilter (f : Filter) : (ofFilter f).field = f.field := rfl

theorem set_operator (d : OpenFilter) (o : Operator) :
    d.set .operator o.token = ({ d with operator := some o }, []) := by
  have h : o.token ≠ "" := by cases o <;> decide
  simp [set, h]

theorem set_negation (d : OpenFilter) (n : Negation) :
    d.set .negation n.token = ({ d with negation := some n }, []) := by
  have h : n.token ≠ "" := by cases n <;> decide
  simp [set, h]

theorem finish_ofFilter {f : Filter} (hv : f.value ≠ "") : (ofFilter f).finish = (some f, []) := by
  simp [ofFilter, finish, hv]

/-- Filters with values are the filters that their parts make, without a notice. -/
theorem finish_map_ofFilter {fs : List Filter} (hv : ∀ f ∈ fs, f.value ≠ "") :
    (fs.map ofFilter).filterMap (·.finish.1) = fs ∧
      (fs.map ofFilter).flatMap (·.finish.2) = [] := by
  induction fs with
  | nil => exact ⟨rfl, rfl⟩
  | cons f fs ih =>
    have hf := finish_ofFilter (hv f (by simp))
    obtain ⟨h1, h2⟩ := ih fun g hg => hv g (by simp [hg])
    simp [hf, h1, h2]

/-- Filters on other fields are passed over. -/
theorem record_append {field : String} {ds : List OpenFilter} (h : field ∉ ds.map (·.field))
    (part : Part) (raw : String) (es : List OpenFilter) :
    record field part raw (ds ++ es) =
      (ds ++ (record field part raw es).1, (record field part raw es).2) := by
  induction ds with
  | nil => rfl
  | cons d ds ih =>
    simp only [List.map_cons, List.mem_cons, not_or] at h
    have hd : d.field ≠ field := fun e => h.1 e.symm
    simp [record, hd, ih h.2]

theorem record_nil (field : String) (part : Part) (raw : String) :
    record field part raw [] =
      ([(set { field := field } part raw).1], (set { field := field } part raw).2) := rfl

theorem record_singleton (d : OpenFilter) (part : Part) (raw : String) :
    record d.field part raw [d] = ([(d.set part raw).1], (d.set part raw).2) := by
  simp [record]

end OpenFilter

namespace Reading

variable {X : Type} [Extras X]

theorem number_repr (key : String) (n : Int64) : number key n.toInt.repr = (some n, []) := by
  simp [number, Text.int64Of?_repr]

theorem step_filter (s : Reading X) {key field : String} {part : Part} (value : String)
    (hk : Key.ofString key = .filter field part) :
    step s (key, value) =
      { s with
        pending := (OpenFilter.record field part value s.pending).1
        notices := s.notices ++ (OpenFilter.record field part value s.pending).2 } := by
  simp [step, hk]

theorem foldl_page (s : Reading X) {n : Option Int64} (h0 : n ≠ some 0)
    (hs : s.request.page = none) :
    (Request.numberPairs "page" n).foldl step s =
      { s with request := { s.request with page := n } } := by
  cases n with
  | none => simp [Request.numberPairs, ← hs]
  | some n =>
    have hn : n ≠ 0 := fun e => h0 (by rw [e])
    have hk : Key.ofString "page" = .page := rfl
    simp [Request.numberPairs, hn, step, hk, number_repr]

theorem foldl_limit (s : Reading X) {n : Option Int64} (h0 : n ≠ some 0)
    (hs : s.request.limit = none) :
    (Request.numberPairs "limit" n).foldl step s =
      { s with request := { s.request with limit := n } } := by
  cases n with
  | none => simp [Request.numberPairs, ← hs]
  | some n =>
    have hn : n ≠ 0 := fun e => h0 (by rw [e])
    have hk : Key.ofString "limit" = .limit := rfl
    simp [Request.numberPairs, hn, step, hk, number_repr]

theorem foldl_q (s : Reading X) {q : Option String} (h0 : q ≠ some "")
    (hs : s.request.q = none) :
    (Request.queryPairs q).foldl step s = { s with request := { s.request with q := q } } := by
  cases q with
  | none => simp [Request.queryPairs, ← hs]
  | some q =>
    have hq : q ≠ "" := fun e => h0 (by rw [e])
    have hk : Key.ofString "q" = .q := rfl
    simp [Request.queryPairs, hq, step, hk]

theorem foldl_sort (s : Reading X) (ks : List SortKey) (h : ∀ k ∈ ks, Key.IsName k.field) :
    (ks.map fun k => (Key.sortText k.field, k.direction.token)).foldl step s =
      { s with request := { s.request with sort := s.request.sort ++ ks } } := by
  induction ks generalizing s with
  | nil => simp
  | cons k ks ih =>
    have hk := Key.ofString_sortText (h k (by simp))
    have hstep : step s (Key.sortText k.field, k.direction.token) =
        { s with request := { s.request with sort := s.request.sort ++ [k] } } := by
      simp [step, hk]
    rw [List.map_cons, List.foldl_cons, hstep, ih _ fun k' hk' => h k' (by simp [hk'])]
    simp

theorem step_open (s : Reading X) {f : Filter} (hf : Key.IsName f.field)
    (hn : f.field ∉ s.pending.map (·.field)) :
    step s (Key.filterText f.field .value, f.value) =
      { s with pending := s.pending ++ [{ field := f.field, value := some f.value }] } := by
  have h := OpenFilter.record_append hn .value f.value []
  rw [List.append_nil, OpenFilter.record_nil] at h
  rw [step_filter s f.value (Key.ofString_filterText hf .value), h]
  simp [OpenFilter.set]

/-- A further part goes to the filter that was opened last. -/
theorem step_last (s : Reading X) {d d' : OpenFilter} {part : Part} (raw : String)
    (hf : Key.IsName d.field) (hn : d.field ∉ s.pending.map (·.field))
    (hs : d.set part raw = (d', [])) :
    step { s with pending := s.pending ++ [d] } (Key.filterText d.field part, raw) =
      { s with pending := s.pending ++ [d'] } := by
  have h := OpenFilter.record_append hn part raw [d]
  rw [OpenFilter.record_singleton, hs] at h
  rw [step_filter _ raw (Key.ofString_filterText hf part), h]
  simp

/-- The parts of one filter open it and fill it. -/
theorem foldl_filterPairs (s : Reading X) {f : Filter} (hf : Key.IsName f.field)
    (hv : f.value ≠ "") (hn : f.field ∉ s.pending.map (·.field)) :
    (Request.filterPairs f).foldl step s =
      { s with pending := s.pending ++ [OpenFilter.ofFilter f] } := by
  have hop := fun o => step_last s _ hf hn
    (OpenFilter.set_operator { field := f.field, value := some f.value } o)
  have hneg := fun o n => step_last s _ hf hn
    (OpenFilter.set_negation { field := f.field, value := some f.value, operator := o } n)
  simp only [Request.filterPairs, if_neg hv, List.foldl_append, List.foldl_cons, List.foldl_nil]
  rw [step_open s hf hn]
  cases ho : f.operator <;> cases hg : f.negation <;>
    simp [hop, hneg, OpenFilter.ofFilter, ho, hg]

theorem foldl_filters (s : Reading X) (fs : List Filter) (hf : ∀ f ∈ fs, Key.IsName f.field)
    (hv : ∀ f ∈ fs, f.value ≠ "") (hn : (s.pending.map (·.field) ++ fs.map (·.field)).Nodup) :
    (fs.flatMap Request.filterPairs).foldl step s =
      { s with pending := s.pending ++ fs.map OpenFilter.ofFilter } := by
  induction fs generalizing s with
  | nil => simp
  | cons f fs ih =>
    have hnot : f.field ∉ s.pending.map (·.field) := fun hm =>
      (List.nodup_append.1 hn).2.2 _ hm _ (by simp) rfl
    rw [List.flatMap_cons, List.foldl_append,
      foldl_filterPairs s (hf f (by simp)) (hv f (by simp)) hnot,
      ih _ (fun g hg => hf g (by simp [hg])) (fun g hg => hv g (by simp [hg])) (by simpa using hn)]
    simp

theorem foldl_extras (s : Reading X) {x : X} (ps : List Form.Pair)
    (hk : ∀ p ∈ ps, Key.ofString p.1 = .other)
    (hc : Extras.claimAll s.request.extras ps = some x) :
    ps.foldl step s = { s with request := { s.request with extras := x } } := by
  induction ps generalizing s with
  | nil =>
    obtain rfl := Option.some.inj hc
    rfl
  | cons p ps ih =>
    obtain ⟨y, hy, hc⟩ := Option.bind_eq_some_iff.1 hc
    have hstep : step s p = { s with request := { s.request with extras := y } } := by
      simp [step, hk p (by simp), hy]
    rw [List.foldl_cons, hstep]
    exact ih { s with request := { s.request with extras := y } }
      (fun p' hp => hk p' (by simp [hp])) hc

theorem foldl_passthrough (s : Reading X) (ps : List Form.Pair)
    (hk : ∀ p ∈ ps, Key.ofString p.1 = .other)
    (hc : ∀ p ∈ ps, ∀ x : X, Extras.claim x p.1 p.2 = none) :
    ps.foldl step s =
      { s with request := { s.request with passthrough := s.request.passthrough ++ ps } } := by
  induction ps generalizing s with
  | nil => simp
  | cons p ps ih =>
    have hstep : step s p =
        { s with request := { s.request with passthrough := s.request.passthrough ++ [p] } } := by
      simp [step, hk p (by simp), hc p (by simp)]
    rw [List.foldl_cons, hstep, ih _ (fun p' hp => hk p' (by simp [hp]))
      (fun p' hp => hc p' (by simp [hp]))]
    simp

end Reading

namespace Request

variable {X : Type} [Extras X]

/-- The requests that a query string holds in full: numbers that are zero and empty free text are
left out of it. -/
structure Canonical (r : Request X) : Prop extends Regular r where
  page : r.page ≠ some 0
  limit : r.limit ≠ some 0
  q : r.q ≠ some ""

theorem pairsOf_render (ps : List Form.Pair) : pairsOf (Form.render ps) = ps := by
  have h := Form.parse_render ps
  unfold pairsOf
  split
  next cs he => exact absurd (by rw [he]; rfl) (Form.head?_render ps)
  next => exact h

theorem foldl_toPairs [LawfulExtras X] {r : Request X} (h : r.Canonical) :
    (r.toPairs.foldl Reading.step Reading.start).finish = (r, []) := by
  have hx := LawfulExtras.claimAll_pairs h.extras
  have hk := fun p hp => Key.ofString_eq_other_iff.2
    (LawfulExtras.spelled_of_mem (x := r.extras) (p := p) hp)
  have hn : (Reading.start (X := X)).pending.map (·.field) ++ r.filters.map (·.field) =
      r.filters.map (·.field) := rfl
  obtain ⟨hfinish, hsilent⟩ := OpenFilter.finish_map_ofFilter h.values
  simp only [toPairs, List.foldl_append]
  rw [Reading.foldl_page _ h.page rfl, Reading.foldl_limit _ h.limit rfl, Reading.foldl_q _ h.q rfl,
    Reading.foldl_sort _ _ h.sort,
    Reading.foldl_filters _ _ h.fields h.values (hn.symm ▸ h.distinct),
    Reading.foldl_extras _ _ hk hx,
    Reading.foldl_passthrough _ _ (fun p hp => Key.ofString_eq_other_iff.2 (h.passthrough p hp))
      h.unclaimed]
  simp [Reading.finish, Reading.start, hfinish, hsilent]

theorem decodeNoting_encode [LawfulExtras X] {r : Request X} (h : r.Canonical) :
    decodeNoting (encode r) = (r, []) := by
  rw [decodeNoting, encode, pairsOf_render, foldl_toPairs h]

def tidied (r : Request X) : Request X :=
  { r with
    page := r.page.filter (· ≠ 0)
    limit := r.limit.filter (· ≠ 0)
    q := r.q.filter (· ≠ "") }

theorem tidied_canonical {r : Request X} (h : r.Regular) : r.tidied.Canonical where
  toRegular := ⟨h.sort, h.fields, h.distinct, h.values, h.extras, h.passthrough, h.unclaimed⟩
  page := fun e => by simpa using (Option.filter_eq_some_iff.1 e).2
  limit := fun e => by simpa using (Option.filter_eq_some_iff.1 e).2
  q := fun e => by simpa using (Option.filter_eq_some_iff.1 e).2

theorem toPairs_tidied (r : Request X) : r.tidied.toPairs = r.toPairs := by
  have hn : ∀ key n, numberPairs key (n.filter (· ≠ 0)) = numberPairs key n := by
    intro key n
    cases n with
    | none => rfl
    | some n => by_cases h : n = 0 <;> simp [numberPairs, Option.filter_some, h]
  have hq : queryPairs (r.q.filter (· ≠ "")) = queryPairs r.q := by
    cases r.q with
    | none => rfl
    | some q => by_cases h : q = "" <;> simp [queryPairs, Option.filter_some, h]
  simp only [toPairs, tidied, hn, hq]

theorem encode_tidied (r : Request X) : encode r.tidied = encode r := by
  rw [encode, encode, toPairs_tidied]

/-- Only what is left out of a query string is lost on the way. -/
theorem decode_encode_of_regular [LawfulExtras X] {r : Request X} (h : r.Regular) :
    decode (encode r) = r.tidied := by
  rw [← encode_tidied, decode, decodeNoting_encode (tidied_canonical h)]

/-- What is kept aside is kept aside again wherever it arrives. -/
theorem step_of_mem_passthrough {r : Request X} (h : r.Regular) {p : Form.Pair}
    (hp : p ∈ r.passthrough) (s : Reading X) :
    s.step p =
      { s with request := { s.request with passthrough := s.request.passthrough ++ [p] } } := by
  have other : Key.ofString p.1 = .other := Key.ofString_eq_other_iff.2 (h.passthrough p hp)
  have unclaimed : ∀ x : X, Extras.claim x p.1 p.2 = none := h.unclaimed p hp
  simpa [other, unclaimed] using Reading.foldl_passthrough s [p]

/-- Every query string has a canonical form. What it is read as is regular, keeps nothing aside that
has another reading, and loses only zeros and an empty text when it is written and read again; what
is written then is what was written at first. -/
theorem encode_decode_stable (k : ExtrasKind) (query : String) :
    let r : Request k.Record := decode query
    (r.Regular ∧ ∀ p ∈ r.passthrough, ∀ s : Reading k.Record, s.step p =
        { s with request := { s.request with passthrough := s.request.passthrough ++ [p] } }) ∧
      decode (encode r) =
        { r with
          page := r.page.filter (· ≠ 0)
          limit := r.limit.filter (· ≠ 0)
          q := r.q.filter (· ≠ "") } ∧
      encode (decode (encode r) : Request k.Record) = encode r := by
  intro r
  have regular : r.Regular := decode_regular query
  have again : decode (encode r) = r.tidied := decode_encode_of_regular regular
  refine ⟨⟨regular, fun p hp s => step_of_mem_passthrough regular hp s⟩, again, ?_⟩
  rw [again, encode_tidied]

/-- A canonical request is read back from its query string. -/
theorem decode_encode_of_canonical (k : ExtrasKind) (r : Request k.Record) (h : r.Canonical) :
    decode (encode r) = r := by
  rw [decode, decodeNoting_encode h]

/-- A request with separators, escapes and empty texts among its values. -/
def awkward : Request ExtrasKind.label.Record where
  page := some (-3)
  limit := some 9223372036854775807
  q := some "a&b=c%25+?"
  sort := [⟨"sell price", .desc⟩, ⟨"é", .asc⟩, ⟨"é", .desc⟩]
  filters := [⟨"a&b", " ", some .oneOf, some .ilike⟩, ⟨"?", "=", none, none⟩]
  extras := (show LabelExtras from ⟨some "", some "ß"⟩)
  passthrough := [("", ""), ("owner", ""), ("filter[]", "x"), ("sort[a][value]", "\n")]

theorem awkward_canonical : awkward.Canonical where
  page := by decide
  limit := by decide
  q := by decide
  sort := by simp [awkward, Key.IsName]
  fields := by simp [awkward, Key.IsName]
  distinct := by simp [awkward]
  values := by simp [awkward]
  extras := (LabelExtras.claimed_iff _).2 (by simp [awkward])
  passthrough := fun p hp => Key.ofString_eq_other_iff.1 (by
    revert p
    decide)
  unclaimed := by
    have h : ∀ p ∈ awkward.passthrough, p.1 ≠ "type" ∧ (p.1 ≠ "owner" ∨ p.2 = "") := by decide
    intro p hp x
    obtain ⟨ht, ho⟩ := h p hp
    have ho : ¬ (p.1 = "owner" ∧ p.2 ≠ "") := by simpa [or_iff_not_imp_left] using ho
    exact (if_neg ht).trans (if_neg ho)

theorem decode_encode_awkward : awkward.Canonical ∧ decode (encode awkward) = awkward :=
  ⟨awkward_canonical, decode_encode_of_canonical .label awkward awkward_canonical⟩

end Request
end ListQuery
