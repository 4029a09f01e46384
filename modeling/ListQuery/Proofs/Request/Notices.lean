import ListQuery.Proofs.Request.Meaning
import ListQuery.Proofs.Text.Integer
import Mathlib.Data.List.Count
import Mathlib.Data.List.Nodup
import Mathlib.Tactic.MkIffOfInductiveProp

/-! What is said while a query string is read. A pair that is passed over is noticed at once, a field
that is left without a value at the end, so that the notices of a reading can be told from its pairs
one by one. -/
namespace ListQuery

open Request

/-- Notices of unknown tokens for a field. -/
@[mk_iff]
inductive Notice.Unknown (field : String) : Notice → Prop where
  | operator (raw : String) : Unknown field (.unknownOperator field raw)
  | negation (raw : String) : Unknown field (.unknownNegation field raw)

/-- What is said of a part of a filter. -/
def Part.notice? (field raw : String) : Part → Option Notice
  | .value => none
  | .operator =>
    if acceptable Operator.ofToken? raw then none else some (.unknownOperator field raw)
  | .negation =>
    if acceptable Negation.ofToken? raw then none else some (.unknownNegation field raw)

namespace Request

def numberNotice? (key raw : String) : Option Notice :=
  if Text.IsInt64 (Text.trimmed raw.toList) then none else some (.unreadableNumber key raw)

/-- What is said of a pair, whatever stands before it. -/
def notice? (p : Form.Pair) : Option Notice :=
  match Key.ofString p.1 with
  | .page => numberNotice? "page" p.2
  | .limit => numberNotice? "limit" p.2
  | .sort field =>
    if (Direction.ofToken? p.2).isSome then none else some (.unknownDirection field p.2)
  | .filter field part => part.notice? field p.2
  | _ => none

/-- Whether the pairs on a field are acceptable and make no filter for want of a value. -/
def valueless (ps : List Form.Pair) (field : String) : Bool :=
  tokensAcceptable ps field && (filterOn? ps field).isNone

/-- Whether some pair is about a filter on a field. -/
def Mentions (ps : List Form.Pair) (field : String) : Prop :=
  ∃ p ∈ ps, ∃ part, Key.Spelled (.filter field part) p.1

/-- All that is said of pairs: first of each pair, then of the fields. -/
def noticesOf (ps : List Form.Pair) : List Notice :=
  ps.filterMap notice? ++ ((filterFields ps).filter (valueless ps)).map .valuelessFilter

/-- The ways in which a pair is passed over. -/
inductive Noticed (p : Form.Pair) : Notice → Prop where
  | page (key : Key.ofString p.1 = .page) (bad : ¬ Text.IsInt64 (Text.trimmed p.2.toList)) :
      Noticed p (.unreadableNumber "page" p.2)
  | limit (key : Key.ofString p.1 = .limit) (bad : ¬ Text.IsInt64 (Text.trimmed p.2.toList)) :
      Noticed p (.unreadableNumber "limit" p.2)
  | direction {field : String} (key : Key.ofString p.1 = .sort field)
      (bad : Direction.ofToken? p.2 = none) : Noticed p (.unknownDirection field p.2)
  | operator {field : String} (key : Key.ofString p.1 = .filter field .operator)
      (bad : ¬ acceptable Operator.ofToken? p.2) : Noticed p (.unknownOperator field p.2)
  | negation {field : String} (key : Key.ofString p.1 = .filter field .negation)
      (bad : ¬ acceptable Negation.ofToken? p.2) : Noticed p (.unknownNegation field p.2)

theorem notice?_eq_some_iff {p : Form.Pair} {n : Notice} : notice? p = some n ↔ Noticed p n := by
  constructor
  · intro said
    unfold notice? at said
    split at said
    next key =>
      obtain ⟨bad, rfl⟩ := by simpa [numberNotice?] using said
      exact .page key bad
    next key =>
      obtain ⟨bad, rfl⟩ := by simpa [numberNotice?] using said
      exact .limit key bad
    next field key =>
      obtain ⟨bad, rfl⟩ := by simpa using said
      exact .direction key bad
    next field part key =>
      cases part with
      | value => cases said
      | operator =>
        obtain ⟨bad, rfl⟩ := by simpa [Part.notice?] using said
        exact .operator key (Bool.eq_false_iff.1 bad)
      | negation =>
        obtain ⟨bad, rfl⟩ := by simpa [Part.notice?] using said
        exact .negation key (Bool.eq_false_iff.1 bad)
    next => cases said
  · intro noticed
    cases noticed with
    | page key bad => simp [notice?, numberNotice?, key, bad]
    | limit key bad => simp [notice?, numberNotice?, key, bad]
    | direction key bad => simp [notice?, key, bad]
    | operator key bad => simp [notice?, Part.notice?, key, bad]
    | negation key bad => simp [notice?, Part.notice?, key, bad]

end Request

namespace OpenFilter

variable {part : Part} {raw : String}

theorem notices_set (d : OpenFilter) :
    (d.set part raw).2 = (part.notice? d.field raw).toList := by
  cases part with
  | value => rfl
  | operator =>
    by_cases he : raw = ""
    · simp [set, Part.notice?, acceptable, he]
    · cases hr : Operator.ofToken? raw <;> simp [set, Part.notice?, acceptable, he, hr]
  | negation =>
    by_cases he : raw = ""
    · simp [set, Part.notice?, acceptable, he]
    · cases hr : Negation.ofToken? raw <;> simp [set, Part.notice?, acceptable, he, hr]

theorem notices_record (field : String) (ds : List OpenFilter) :
    (record field part raw ds).2 = (part.notice? field raw).toList := by
  induction ds with
  | nil => exact notices_set { field := field }
  | cons d ds ih =>
    rw [record]
    split
    next same => exact same ▸ notices_set d
    next => exact ih

/-- A filter that is not spoiled is either made or said to have no value. -/
theorem notices_finish (d : OpenFilter) :
    d.finish.2 = if !d.malformed && d.finish.1.isNone then [.valuelessFilter d.field] else [] := by
  unfold finish
  cases d.malformed with
  | true => rfl
  | false =>
    cases d.value with
    | none => rfl
    | some v => by_cases hv : v = "" <;> simp [hv]

theorem notices_finish_gathered (ps : List Form.Pair) (field : String) :
    (gathered ps field).finish.2 = if valueless ps field then [.valuelessFilter field] else [] := by
  rw [notices_finish, finish_gathered, gathered, Bool.not_not]
  rfl

end OpenFilter

namespace Reading

variable {X : Type} [Extras X]

theorem notices_number (key raw : String) : (number key raw).2 = (numberNotice? key raw).toList := by
  unfold number numberNotice?
  simp only [← Text.isSome_int64Of?_iff]
  cases Text.int64Of? (Text.trimmed raw.toList) <;> rfl

theorem notices_step (s : Reading X) (p : Form.Pair) :
    (s.step p).notices = s.notices ++ (notice? p).toList := by
  cases hk : Key.ofString p.1 with
  | page => simp only [step, notice?, hk, notices_number]
  | limit => simp only [step, notice?, hk, notices_number]
  | q => simp [step, notice?, hk]
  | sort field => cases hd : Direction.ofToken? p.2 <;> simp [step, notice?, hk, hd]
  | filter field part => simp only [step, notice?, hk, OpenFilter.notices_record]
  | other => cases hc : Extras.claim s.request.extras p.1 p.2 <;> simp [step, notice?, hk, hc]

theorem notices_foldl (ps : List Form.Pair) (s : Reading X) :
    (ps.foldl step s).notices = s.notices ++ ps.filterMap notice? := by
  induction ps generalizing s with
  | nil => simp
  | cons p ps ih =>
    rw [List.foldl_cons, ih, notices_step, List.append_assoc]
    cases h : notice? p <;> simp [h]

theorem notices_finish {ps : List Form.Pair} {s : Reading X} (h : s.Reads ps)
    (said : s.notices = ps.filterMap notice?) : s.finish.2 = noticesOf ps := by
  have last : (filterFields ps).flatMap (fun field => (OpenFilter.gathered ps field).finish.2) =
      ((filterFields ps).filter (valueless ps)).map .valuelessFilter := by
    simp only [OpenFilter.notices_finish_gathered]
    induction filterFields ps with
    | nil => rfl
    | cons field fields ih => cases hv : valueless ps field <;> simp [hv, ih]
  rw [finish, noticesOf, said, h.pending, List.flatMap_map, last]

end Reading

namespace Request

variable {ps : List Form.Pair} {field : String}

theorem decodeNoting_eq {X : Type} [Extras X] (query : String) :
    decodeNoting (X := X) query = (meaning (pairsOf query), noticesOf (pairsOf query)) := by
  have reads := Reading.foldl_reads (X := X) (pairsOf query)
  exact Prod.ext (Reading.finish_reads reads)
    (Reading.notices_finish reads (Reading.notices_foldl _ _))

theorem mem_filterFields : field ∈ filterFields ps ↔ Mentions ps field := by
  have keyed (k : Key) : k.filterField? = some field ↔ ∃ part, k = .filter field part := by
    cases k <;> simp [Key.filterField?, eq_comm]
  simp only [Mentions, filterFields, List.mem_eraseDups, List.mem_filterMap, keyed, Key.spelled_iff]
  simp

theorem mem_values {k : Key} {v : String} :
    v ∈ Key.values k ps ↔ ∃ p ∈ ps, Key.ofString p.1 = k ∧ p.2 = v := by
  simp [Key.values, and_assoc]

/-- What is said of a field is that it has no value; all else is said of pairs. -/
theorem mem_noticesOf {n : Notice} (h : ∀ field, n ≠ .valuelessFilter field) :
    n ∈ noticesOf ps ↔ ∃ p ∈ ps, Noticed p n := by
  have notOfField : n ∉ ((filterFields ps).filter (valueless ps)).map .valuelessFilter := by
    intro mem
    obtain ⟨field, -, same⟩ := List.mem_map.1 mem
    exact h field same.symm
  simp only [noticesOf, List.mem_append, or_iff_left notOfField, List.mem_filterMap,
    notice?_eq_some_iff]

/-- A field is spoiled exactly if a token of one of its pairs is unknown. -/
theorem tokensAcceptable_eq_false_iff :
    tokensAcceptable ps field = false ↔ ∃ p ∈ ps, ∃ n, Noticed p n ∧ n.Unknown field := by
  rw [tokensAcceptable, Bool.and_eq_false_iff, List.all_eq_false, List.all_eq_false]
  constructor
  · rintro (⟨raw, mem, bad⟩ | ⟨raw, mem, bad⟩)
    · obtain ⟨p, hp, key, rfl⟩ := mem_values.1 mem
      exact ⟨p, hp, _, .operator key bad, .operator p.2⟩
    · obtain ⟨p, hp, key, rfl⟩ := mem_values.1 mem
      exact ⟨p, hp, _, .negation key bad, .negation p.2⟩
  · rintro ⟨p, hp, n, noticed, unknown⟩
    cases unknown with
    | operator =>
      cases noticed with
      | operator key bad => exact .inl ⟨p.2, mem_values.2 ⟨p, hp, key, rfl⟩, bad⟩
    | negation =>
      cases noticed with
      | negation key bad => exact .inr ⟨p.2, mem_values.2 ⟨p, hp, key, rfl⟩, bad⟩

theorem exists_unknown_iff :
    (∃ n ∈ noticesOf ps, n.Unknown field) ↔ tokensAcceptable ps field = false := by
  have ofPair {n : Notice} (unknown : n.Unknown field) :
      n ∈ noticesOf ps ↔ ∃ p ∈ ps, Noticed p n :=
    mem_noticesOf (by cases unknown <;> simp)
  rw [tokensAcceptable_eq_false_iff]
  constructor
  · rintro ⟨n, said, unknown⟩
    obtain ⟨p, hp, noticed⟩ := (ofPair unknown).1 said
    exact ⟨p, hp, n, noticed, unknown⟩
  · rintro ⟨p, hp, n, noticed, unknown⟩
    exact ⟨n, (ofPair unknown).2 ⟨p, hp, noticed⟩, unknown⟩

theorem exists_of_sortKey? {p : Form.Pair} (h : (sortKey? p).isSome = true) :
    ∃ field, Key.ofString p.1 = .sort field := by
  unfold sortKey? at h
  split at h
  next field d key hd => exact ⟨field, key⟩
  next => cases h

/-- A pair of a sort key is noticed exactly if it makes none. -/
theorem exists_direction_iff {p : Form.Pair} :
    (∃ field raw, Noticed p (.unknownDirection field raw)) ↔
      (∃ field, Key.ofString p.1 = .sort field) ∧ sortKey? p = none := by
  constructor
  · rintro ⟨field, raw, noticed⟩
    cases noticed with
    | direction key bad => exact ⟨⟨field, key⟩, by simp [sortKey?, key, bad]⟩
  · rintro ⟨⟨field, key⟩, unmade⟩
    have bad : Direction.ofToken? p.2 = none := by
      cases hd : Direction.ofToken? p.2 with
      | none => rfl
      | some d => simp [sortKey?, key, hd] at unmade
    exact ⟨field, p.2, .direction key bad⟩

theorem exists_number_iff {p : Form.Pair} :
    (∃ key raw, Noticed p (.unreadableNumber key raw)) ↔
      (Key.ofString p.1 = .page ∨ Key.ofString p.1 = .limit) ∧
        ¬ Text.IsInt64 (Text.trimmed p.2.toList) := by
  constructor
  · rintro ⟨_, _, noticed⟩
    cases noticed with
    | page key bad => exact ⟨.inl key, bad⟩
    | limit key bad => exact ⟨.inr key, bad⟩
  · rintro ⟨key | key, bad⟩
    · exact ⟨_, _, .page key bad⟩
    · exact ⟨_, _, .limit key bad⟩

/-- A field without a value is noticed once. -/
theorem count_valueless :
    (noticesOf ps).count (.valuelessFilter field) =
      if field ∈ filterFields ps ∧ valueless ps field = true then 1 else 0 := by
  have pairs : (ps.filterMap notice?).count (.valuelessFilter field) = 0 := by
    rw [List.count_eq_zero, List.mem_filterMap]
    rintro ⟨p, -, said⟩
    cases notice?_eq_some_iff.1 said
  have injective : Function.Injective Notice.valuelessFilter := fun _ _ => Notice.valuelessFilter.inj
  rw [noticesOf, List.count_append, pairs, Nat.zero_add, List.count_map_of_injective _ _ injective,
    List.Nodup.count (List.Nodup.filter _ (nodup_filterFields ps))]
  exact if_congr List.mem_filter rfl rfl

end Request
end ListQuery
