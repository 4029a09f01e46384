import Mathlib.Data.List.Induction
import ListQuery.Proofs.Request.Reading
import ListQuery.Proofs.Text.Integer

/-! What a query string asks for, said key by key: a number or a text by the last pair of its key, a
filter by all pairs on its field, whatever stands between them. Reading pair after pair comes to the
same request. -/
namespace ListQuery

namespace Key

/-- The values of the pairs with a key, in the order of their arrival. -/
def values (k : Key) (ps : List Form.Pair) : List String :=
  (ps.filter fun p => ofString p.1 = k).map (·.2)

/-- The field that a key is about, if it is the key of a filter. -/
def filterField? : Key → Option String
  | .filter field _ => some field
  | _ => none

theorem spelled_iff {k : Key} {s : String} : Spelled k s ↔ ofString s = k ∧ k ≠ .other := by
  constructor
  · intro h
    refine ⟨ofString_of_spelled h, ?_⟩
    rintro rfl
    cases h
  · rintro ⟨rfl, h⟩
    exact (spelled_ofString s).resolve_left h

theorem values_concat (k : Key) (ps : List Form.Pair) (p : Form.Pair) :
    values k (ps ++ [p]) = values k ps ++ if ofString p.1 = k then [p.2] else [] := by
  unfold values
  rw [List.filter_append, List.map_append]
  split
  next h => simp [h]
  next h => simp [h]

theorem values_of_ne {k : Key} {p : Form.Pair} (h : ofString p.1 ≠ k) (ps : List Form.Pair) :
    values k (ps ++ [p]) = values k ps := by
  rw [values_concat, if_neg h, List.append_nil]

end Key

namespace Request

/-- The number of the last pair with a key, unless it cannot be read. -/
def lastNumber (k : Key) (ps : List Form.Pair) : Option Int64 :=
  (Key.values k ps).getLast?.bind fun v => Text.int64Of? (Text.trimmed v.toList)

def sortKey? (p : Form.Pair) : Option SortKey :=
  match Key.ofString p.1, Direction.ofToken? p.2 with
  | .sort field, some d => some ⟨field, d⟩
  | _, _ => none

/-- The fields of filters, each where it comes first. -/
def filterFields (ps : List Form.Pair) : List String :=
  (ps.filterMap fun p => (Key.ofString p.1).filterField?).eraseDups

/-- Tokens that do not spoil a filter. -/
def acceptable {α : Type} (read : String → Option α) (t : String) : Bool :=
  t == "" || (read t).isSome

/-- Whether no token given for a field is an unknown one. -/
def tokensAcceptable (ps : List Form.Pair) (field : String) : Bool :=
  (Key.values (.filter field .operator) ps).all (acceptable Operator.ofToken?) &&
    (Key.values (.filter field .negation) ps).all (acceptable Negation.ofToken?)

/-- The filter on a field, if all tokens given for it are acceptable and its last value is not empty.
Later tokens take the place of earlier ones. -/
def filterOn? (ps : List Form.Pair) (field : String) : Option Filter :=
  if tokensAcceptable ps field then
    match (Key.values (.filter field .value) ps).getLast? with
    | some v =>
      if v = "" then none
      else
        some
          { field := field
            value := v
            operator :=
              (Key.values (.filter field .operator) ps).getLast?.bind Operator.ofToken?
            negation :=
              (Key.values (.filter field .negation) ps).getLast?.bind Negation.ofToken? }
    | none => none
  else none

/-- Pairs outside the grammar, offered to the extras one after another: what is claimed and what is
left. -/
def offered {X : Type} [Extras X] (x : X) : List Form.Pair → X × List Form.Pair
  | [] => (x, [])
  | p :: ps =>
    match Extras.claim x p.1 p.2 with
    | some y => offered y ps
    | none => ((offered x ps).1, p :: (offered x ps).2)

def outside (ps : List Form.Pair) : List Form.Pair := ps.filter fun p => Key.ofString p.1 = .other

/-- What pairs ask for. -/
def meaning {X : Type} [Extras X] (ps : List Form.Pair) : Request X where
  page := lastNumber .page ps
  limit := lastNumber .limit ps
  q := (Key.values .q ps).getLast?
  sort := ps.filterMap sortKey?
  filters := (filterFields ps).filterMap (filterOn? ps)
  extras := (offered (Extras.empty : X) (outside ps)).1
  passthrough := (offered (Extras.empty : X) (outside ps)).2

theorem lastNumber_concat (k : Key) (ps : List Form.Pair) (p : Form.Pair) :
    lastNumber k (ps ++ [p]) =
      if Key.ofString p.1 = k then Text.int64Of? (Text.trimmed p.2.toList) else lastNumber k ps := by
  unfold lastNumber
  rw [Key.values_concat]
  split <;> simp

theorem outside_concat (ps : List Form.Pair) (p : Form.Pair) :
    outside (ps ++ [p]) = outside ps ++ if Key.ofString p.1 = .other then [p] else [] := by
  unfold outside
  rw [List.filter_append]
  by_cases h : Key.ofString p.1 = .other <;> simp [h]

theorem offered_concat {X : Type} [Extras X] (x : X) (ps : List Form.Pair) (p : Form.Pair) :
    offered x (ps ++ [p]) =
      match Extras.claim (offered x ps).1 p.1 p.2 with
      | some y => (y, (offered x ps).2)
      | none => ((offered x ps).1, (offered x ps).2 ++ [p]) := by
  induction ps generalizing x with
  | nil => cases h : Extras.claim x p.1 p.2 <;> simp [offered, h]
  | cons p' ps ih =>
    cases h : Extras.claim x p'.1 p'.2 with
    | some y => simp only [List.cons_append, offered, h, ih]
    | none =>
      simp only [List.cons_append, offered, h, ih]
      cases Extras.claim (offered x ps).1 p.1 p.2 <;> simp

theorem filterFields_concat (ps : List Form.Pair) (p : Form.Pair) :
    filterFields (ps ++ [p]) =
      match (Key.ofString p.1).filterField? with
      | some field =>
        if field ∈ filterFields ps then filterFields ps else filterFields ps ++ [field]
      | none => filterFields ps := by
  unfold filterFields
  rw [List.filterMap_append]
  cases h : (Key.ofString p.1).filterField? with
  | none => simp [h]
  | some field =>
    rw [List.eraseDups_append]
    by_cases hm : field ∈ ps.filterMap fun p => (Key.ofString p.1).filterField?
    · simp [h, hm, List.removeAll]
    · simp [h, hm, List.removeAll, List.eraseDups_cons]

theorem nodup_filterFields (ps : List Form.Pair) : (filterFields ps).Nodup := by
  induction ps using List.reverseRecOn with
  | nil => exact List.nodup_nil
  | append_singleton ps p ih =>
    rw [filterFields_concat]
    split
    · split
      · exact ih
      · next hm => exact List.nodup_append.2 ⟨ih, by simp, fun a ha b hb e => hm (by simp_all)⟩
    · exact ih

section Tokens

variable {α : Type} {read : String → Option α} {ts : List String} {t : String}

/-- What the last acceptable token stands for. -/
def lastRead (read : String → Option α) (ts : List String) : Option α :=
  (ts.filter (acceptable read)).getLast?.bind read

/-- An empty token unsets, a known one takes over, and any other changes nothing. -/
theorem lastRead_concat (empty : read "" = none) :
    lastRead read (ts ++ [t]) =
      if t = "" then none else (read t).or (lastRead read ts) := by
  unfold lastRead
  rw [List.filter_append]
  split
  next he => simp [acceptable, he, empty]
  next he =>
    cases hr : read t with
    | some a => simp [acceptable, hr]
    | none => simp [acceptable, hr, he]

theorem lastRead_of_all (h : ts.all (acceptable read)) :
    lastRead read ts = ts.getLast?.bind read := by
  rw [lastRead, List.filter_eq_self.2 (List.all_eq_true.1 h)]

end Tokens

end Request

namespace OpenFilter

open Request

/-- A filter after all pairs on its field. -/
def gathered (ps : List Form.Pair) (field : String) : OpenFilter where
  field := field
  value := (Key.values (.filter field .value) ps).getLast?
  operator := lastRead Operator.ofToken? (Key.values (.filter field .operator) ps)
  negation := lastRead Negation.ofToken? (Key.values (.filter field .negation) ps)
  malformed := !tokensAcceptable ps field

/-- Pairs that are not on its field leave a filter alone. -/
theorem gathered_of_ne {p : Form.Pair} {field : String}
    (h : (Key.ofString p.1).filterField? ≠ some field) (ps : List Form.Pair) :
    gathered (ps ++ [p]) field = gathered ps field := by
  have hk (part : Part) : Key.ofString p.1 ≠ .filter field part := by
    intro e
    exact h (by rw [e]; rfl)
  simp only [gathered, tokensAcceptable, Key.values_of_ne (hk _)]

theorem gathered_of_filter {p : Form.Pair} {field : String} {part : Part}
    (h : Key.ofString p.1 = .filter field part) (ps : List Form.Pair) :
    gathered (ps ++ [p]) field = ((gathered ps field).set part p.2).1 := by
  have operator_empty : Operator.ofToken? "" = none := by decide
  have negation_empty : Negation.ofToken? "" = none := by decide
  cases part with
  | value => simp [gathered, tokensAcceptable, set, Key.values_concat, h]
  | operator =>
    simp only [gathered, tokensAcceptable, set, Key.values_concat, h, if_true]
    by_cases he : p.2 = ""
    · simp [he, lastRead_concat operator_empty, acceptable]
    · cases hr : Operator.ofToken? p.2 <;>
        simp [he, hr, lastRead_concat operator_empty, acceptable]
  | negation =>
    simp only [gathered, tokensAcceptable, set, Key.values_concat, h, if_true]
    by_cases he : p.2 = ""
    · simp [he, lastRead_concat negation_empty, acceptable]
    · cases hr : Negation.ofToken? p.2 <;>
        simp [he, hr, lastRead_concat negation_empty, acceptable]

/-- The filter that all pairs on a field make. -/
theorem finish_gathered (ps : List Form.Pair) (field : String) :
    (gathered ps field).finish.1 = filterOn? ps field := by
  cases h : tokensAcceptable ps field with
  | false => simp [finish, filterOn?, gathered, h]
  | true =>
    obtain ⟨operators, negations⟩ := Bool.and_eq_true_iff.1 h
    simp only [finish, filterOn?, gathered, h, lastRead_of_all operators,
      lastRead_of_all negations]
    cases (Key.values (.filter field .value) ps).getLast? with
    | none => rfl
    | some v => by_cases hv : v = "" <;> simp [hv]

/-- One part changes the filter on its field, or opens it at the end. -/
theorem record_map {field : String} {part : Part} {raw : String} {fs : List String}
    {g g' : String → OpenFilter} (nodup : fs.Nodup) (hg : ∀ f, (g f).field = f)
    (same : ∀ f, f ≠ field → g' f = g f) (changed : g' field = ((g field).set part raw).1)
    (new : field ∉ fs → g field = { field := field }) :
    (record field part raw (fs.map g)).1 =
      (if field ∈ fs then fs else fs ++ [field]).map g' := by
  induction fs with
  | nil => simp [record, changed, new]
  | cons f fs ih =>
    rw [List.nodup_cons] at nodup
    rw [List.map_cons, record, hg]
    by_cases hf : f = field
    · subst hf
      have rest : fs.map g' = fs.map g := by
        apply List.map_congr_left
        intro f' hf'
        exact same f' fun e => nodup.1 (e ▸ hf')
      simp [changed, rest]
    · have hf' : field ≠ f := fun e => hf e.symm
      have tail := ih nodup.2 fun h => new (by simp [hf', h])
      simp only [if_neg hf, tail, List.mem_cons, hf', false_or]
      split <;> simp [same f hf]

theorem gathered_of_not_mem {field : String} {ps : List Form.Pair} (h : field ∉ filterFields ps) :
    gathered ps field = { field := field } := by
  have none_of (part : Part) : Key.values (.filter field part) ps = [] := by
    unfold Key.values
    rw [List.map_eq_nil_iff, List.filter_eq_nil_iff]
    intro p hp hk
    refine h (List.mem_eraseDups.2 (List.mem_filterMap.2 ⟨p, hp, ?_⟩))
    rw [of_decide_eq_true hk]
    rfl
  simp [gathered, tokensAcceptable, none_of, lastRead]

end OpenFilter

namespace Reading

open Request

variable {X : Type} [Extras X]

/-- What has been read after some pairs is what these pairs ask for. -/
structure Reads (ps : List Form.Pair) (s : Reading X) : Prop where
  request : s.request = { meaning (X := X) ps with filters := [] }
  pending : s.pending = (filterFields ps).map (OpenFilter.gathered ps)

theorem start_reads : (start : Reading X).Reads [] where
  request := rfl
  pending := rfl

theorem number_value (key value : String) :
    (number key value).1 = Text.int64Of? (Text.trimmed value.toList) := by
  unfold number
  cases Text.int64Of? (Text.trimmed value.toList) <;> rfl

/-- A pair changes the part of the request that its key is about and no other. -/
theorem request_step {ps : List Form.Pair} {s : Reading X} (h : s.Reads ps) (p : Form.Pair) :
    (s.step p).request = { meaning (X := X) (ps ++ [p]) with filters := [] } := by
  simp only [meaning, lastNumber_concat, Key.values_concat, List.filterMap_append, outside_concat]
  cases hk : Key.ofString p.1 with
  | sort field =>
    cases hd : Direction.ofToken? p.2 <;> simp [step, hk, hd, h.request, meaning, sortKey?]
  | other =>
    cases hc : Extras.claim (offered (Extras.empty : X) (outside ps)).1 p.1 p.2 <;>
      simp [step, hk, hc, h.request, meaning, offered_concat, sortKey?]
  | _ => simp [step, hk, h.request, meaning, number_value, sortKey?]

theorem pending_step_of_no_filter (s : Reading X) {p : Form.Pair}
    (h : (Key.ofString p.1).filterField? = none) : (s.step p).pending = s.pending := by
  cases hk : Key.ofString p.1 with
  | filter field part => simp [hk, Key.filterField?] at h
  | sort field =>
    simp only [step, hk]
    split <;> rfl
  | other =>
    simp only [step, hk]
    split <;> rfl
  | _ => simp [step, hk]

theorem pending_concat (ps : List Form.Pair) {p : Form.Pair} {field : String} {part : Part}
    (h : Key.ofString p.1 = .filter field part) :
    (OpenFilter.record field part p.2 ((filterFields ps).map (OpenFilter.gathered ps))).1 =
      (filterFields (ps ++ [p])).map (OpenFilter.gathered (ps ++ [p])) := by
  have fields := filterFields_concat ps p
  rw [h] at fields
  rw [fields]
  apply OpenFilter.record_map (nodup_filterFields ps)
  · intro f
    rfl
  · intro f hf
    apply OpenFilter.gathered_of_ne
    rw [h]
    exact fun e => hf (Option.some.inj e).symm
  · exact OpenFilter.gathered_of_filter h ps
  · exact OpenFilter.gathered_of_not_mem

theorem pending_of_no_filter (ps : List Form.Pair) {p : Form.Pair}
    (h : (Key.ofString p.1).filterField? = none) :
    (filterFields (ps ++ [p])).map (OpenFilter.gathered (ps ++ [p])) =
      (filterFields ps).map (OpenFilter.gathered ps) := by
  rw [filterFields_concat, h]
  apply List.map_congr_left
  intro f _
  exact OpenFilter.gathered_of_ne (by simp [h]) ps

theorem pending_step {ps : List Form.Pair} {s : Reading X} (h : s.Reads ps) (p : Form.Pair) :
    (s.step p).pending = (filterFields (ps ++ [p])).map (OpenFilter.gathered (ps ++ [p])) := by
  cases hf : (Key.ofString p.1).filterField? with
  | none => rw [pending_step_of_no_filter s hf, h.pending, pending_of_no_filter ps hf]
  | some field =>
    obtain ⟨part, hk⟩ : ∃ part, Key.ofString p.1 = .filter field part := by
      cases hk : Key.ofString p.1 <;> simp_all [Key.filterField?]
    simp only [step, hk, h.pending, pending_concat ps hk]

theorem step_reads {ps : List Form.Pair} {s : Reading X} (h : s.Reads ps) (p : Form.Pair) :
    (s.step p).Reads (ps ++ [p]) :=
  ⟨request_step h p, pending_step h p⟩

theorem foldl_reads (ps : List Form.Pair) : (ps.foldl step (start : Reading X)).Reads ps := by
  induction ps using List.reverseRecOn with
  | nil => exact start_reads
  | append_singleton ps p ih =>
    rw [List.foldl_append]
    exact step_reads ih p

theorem finish_reads {ps : List Form.Pair} {s : Reading X} (h : s.Reads ps) :
    s.finish.1 = meaning ps := by
  have filters : s.pending.filterMap (·.finish.1) = (filterFields ps).filterMap (filterOn? ps) := by
    rw [h.pending, List.filterMap_map]
    apply List.filterMap_congr
    intro f _
    exact OpenFilter.finish_gathered ps f
  simp only [finish, filters, h.request]
  rfl

end Reading

end ListQuery
