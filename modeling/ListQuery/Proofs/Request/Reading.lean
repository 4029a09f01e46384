import ListQuery.Proofs.Request.Extras
import ListQuery.Request.QueryString

/-! What every query string is read as: names that stand between brackets, one filter for a field,
each with a value, extras as they are claimed, and nothing kept aside that has a reading. The
invariant is carried through the pairs and the pending filters, and closed at the end. -/
namespace ListQuery

namespace OpenFilter

theorem field_set (d : OpenFilter) (part : Part) (raw : String) :
    (d.set part raw).1.field = d.field := by
  unfold set
  split
  · rfl
  · split
    · rfl
    · split <;> rfl
  · split
    · rfl
    · split <;> rfl

/-- A part changes no field and opens at most one filter, at the end. -/
theorem fields_record (field : String) (part : Part) (raw : String) (ds : List OpenFilter) :
    (record field part raw ds).1.map (·.field) =
      if field ∈ ds.map (·.field) then ds.map (·.field) else ds.map (·.field) ++ [field] := by
  induction ds with
  | nil => simp [record, field_set]
  | cons d ds ih =>
    unfold record
    by_cases hd : d.field = field
    · simp [hd, field_set]
    · have hd' : ¬ field = d.field := fun e => hd e.symm
      simp only [hd, if_false, List.map_cons, ih, List.mem_cons, hd', false_or]
      split <;> simp

/-- A filter comes with the field it was opened for and a value. -/
theorem finish_eq_some {d : OpenFilter} {f : Filter} (h : d.finish.1 = some f) :
    f.field = d.field ∧ f.value ≠ "" := by
  unfold finish at h
  split at h
  next => simp at h
  split at h
  next v _ =>
    split at h
    next => simp at h
    next hv =>
      obtain rfl := Option.some.inj h
      exact ⟨rfl, hv⟩
  next => simp at h

/-- The fields of the filters are among those of the pending ones, in their order. -/
theorem fields_finish (ds : List OpenFilter) :
    ((ds.filterMap (·.finish.1)).map (·.field)).Sublist (ds.map (·.field)) := by
  induction ds with
  | nil => exact .slnil
  | cons d ds ih =>
    cases h : d.finish.1 with
    | none =>
      simp only [List.filterMap_cons, h, List.map_cons]
      exact ih.cons _
    | some f =>
      simp only [List.filterMap_cons, h, List.map_cons, (finish_eq_some h).1]
      exact ih.cons_cons _

end OpenFilter

/-- The requests that query strings are read as, but for numbers and free text. -/
structure Request.Regular {X : Type} [Extras X] (r : Request X) : Prop where
  sort : ∀ k ∈ r.sort, Key.IsName k.field
  fields : ∀ f ∈ r.filters, Key.IsName f.field
  distinct : (r.filters.map (·.field)).Nodup
  values : ∀ f ∈ r.filters, f.value ≠ ""
  extras : Extras.Claimed r.extras
  passthrough : ∀ p ∈ r.passthrough, ∀ k, ¬ Key.Spelled k p.1
  unclaimed : ∀ p ∈ r.passthrough, ∀ x : X, Extras.claim x p.1 p.2 = none

namespace Reading

variable {X : Type} [Extras X]

/-- What holds of a reading after every pair. -/
structure Regular (s : Reading X) : Prop where
  request : s.request.Regular
  fields : ∀ d ∈ s.pending, Key.IsName d.field
  distinct : (s.pending.map (·.field)).Nodup

theorem start_regular : (start : Reading X).Regular where
  request := ⟨by simp [start], by simp [start], by simp [start], by simp [start], .empty,
    by simp [start], by simp [start]⟩
  fields := by simp [start]
  distinct := by simp [start]

theorem isName_of_filter {key field : String} {part : Part}
    (h : Key.ofString key = .filter field part) : Key.IsName field := by
  have hs := (Key.spelled_ofString key).resolve_left (by simp [h])
  rw [h] at hs
  cases hs with
  | bare hn => exact hn
  | filter _ hn => exact hn

theorem isName_of_sort {key field : String} (h : Key.ofString key = .sort field) :
    Key.IsName field := by
  have hs := (Key.spelled_ofString key).resolve_left (by simp [h])
  rw [h] at hs
  cases hs with
  | sort hn => exact hn

theorem step_regular [LawfulExtras X] {s : Reading X} (h : s.Regular) (pair : Form.Pair) :
    (s.step pair).Regular := by
  obtain ⟨⟨hsort, hf, hd, hv, hx, hp, hu⟩, hpf, hpd⟩ := h
  obtain ⟨key, value⟩ := pair
  cases hk : Key.ofString key with
  | page =>
    simp only [step, hk]
    exact ⟨⟨hsort, hf, hd, hv, hx, hp, hu⟩, hpf, hpd⟩
  | limit =>
    simp only [step, hk]
    exact ⟨⟨hsort, hf, hd, hv, hx, hp, hu⟩, hpf, hpd⟩
  | q =>
    simp only [step, hk]
    exact ⟨⟨hsort, hf, hd, hv, hx, hp, hu⟩, hpf, hpd⟩
  | sort field =>
    simp only [step, hk]
    split
    next d _ =>
      refine ⟨⟨fun k hm => ?_, hf, hd, hv, hx, hp, hu⟩, hpf, hpd⟩
      rcases List.mem_append.1 hm with hm | hm
      · exact hsort k hm
      · obtain rfl := List.mem_singleton.1 hm
        exact isName_of_sort hk
    next => exact ⟨⟨hsort, hf, hd, hv, hx, hp, hu⟩, hpf, hpd⟩
  | filter field part =>
    simp only [step, hk]
    have hfields := OpenFilter.fields_record field part value s.pending
    have hname := isName_of_filter hk
    refine ⟨⟨hsort, hf, hd, hv, hx, hp, hu⟩, fun d hm => ?_, ?_⟩
    · have hm : d.field ∈ (OpenFilter.record field part value s.pending).1.map (·.field) :=
        List.mem_map_of_mem hm
      have hall : ∀ g ∈ s.pending.map (·.field), Key.IsName g := by simpa using hpf
      rw [hfields] at hm
      split at hm
      next => exact hall _ hm
      next =>
        rcases List.mem_append.1 hm with hm | hm
        · exact hall _ hm
        · exact (List.mem_singleton.1 hm) ▸ hname
    · rw [hfields]
      split
      next => exact hpd
      next hnot =>
        refine List.nodup_append.2 ⟨hpd, by simp, fun a ha b hb e => hnot ?_⟩
        rw [← List.mem_singleton.1 hb, ← e]
        exact ha
  | other =>
    simp only [step, hk]
    split
    next x hc => exact ⟨⟨hsort, hf, hd, hv, hx.claim _ _ hc, hp, hu⟩, hpf, hpd⟩
    next hc =>
      refine ⟨⟨hsort, hf, hd, hv, hx, fun p hm => ?_, fun p hm => ?_⟩, hpf, hpd⟩
      · rcases List.mem_append.1 hm with hm | hm
        · exact hp p hm
        · obtain rfl := List.mem_singleton.1 hm
          exact Key.ofString_eq_other_iff.1 hk
      · rcases List.mem_append.1 hm with hm | hm
        · exact hu p hm
        · obtain rfl := List.mem_singleton.1 hm
          exact fun x => LawfulExtras.claim_eq_none x hc

theorem foldl_regular [LawfulExtras X] {s : Reading X} (h : s.Regular) (ps : List Form.Pair) :
    (ps.foldl step s).Regular := by
  induction ps generalizing s with
  | nil => exact h
  | cons p ps ih => exact ih (step_regular h p)

theorem finish_regular {s : Reading X} (h : s.Regular) : s.finish.1.Regular := by
  obtain ⟨⟨hsort, _, _, _, hx, hp, hu⟩, hpf, hpd⟩ := h
  have hmem : ∀ f ∈ s.finish.1.filters, ∃ d ∈ s.pending, d.finish.1 = some f := fun f hf =>
    List.mem_filterMap.1 hf
  refine ⟨hsort, fun f hf => ?_, (OpenFilter.fields_finish s.pending).nodup hpd, fun f hf => ?_, hx,
    hp, hu⟩
  · obtain ⟨d, hd, he⟩ := hmem f hf
    rw [(OpenFilter.finish_eq_some he).1]
    exact hpf d hd
  · obtain ⟨d, _, he⟩ := hmem f hf
    exact (OpenFilter.finish_eq_some he).2

end Reading

theorem Request.decode_regular {X : Type} [Extras X] [LawfulExtras X] (query : String) :
    (decode query : Request X).Regular :=
  Reading.finish_regular (Reading.foldl_regular Reading.start_regular _)

end ListQuery
