import ListQuery.Proofs.Request.Key

/-! Keys with brackets as a grammar of two forms. The reader accepts what the grammar derives and
nothing else, and the grammar derives no key in two ways, under one stem or under two. -/
namespace ListQuery
namespace Key

/-- What a key of the grammar says under a stem: its field, and its part if it has one. -/
inductive Bracketed (stem : List Char) : List Char → List Char × Option (List Char) → Prop where
  | field {field : List Char} (inner : IsInner field) :
      Bracketed stem (stem ++ '[' :: (field ++ [']'])) (field, none)
  | part {field part : List Char} (inner : IsInner field) (innerPart : IsInner part) :
      Bracketed stem (stem ++ '[' :: (field ++ ']' :: '[' :: (part ++ [']']))) (field, some part)

variable {stem key field part : List Char} {reading : List Char × Option (List Char)}

theorem bracketed_field_iff : Bracketed stem key (field, none) ↔
    IsInner field ∧ key = stem ++ '[' :: (field ++ [']']) := by
  constructor
  · intro h
    cases h with
    | field inner => exact ⟨inner, rfl⟩
  · rintro ⟨inner, rfl⟩
    exact .field inner

theorem bracketed_part_iff : Bracketed stem key (field, some part) ↔
    IsInner field ∧ IsInner part ∧
      key = stem ++ '[' :: (field ++ ']' :: '[' :: (part ++ [']'])) := by
  constructor
  · intro h
    cases h with
    | part inner innerPart => exact ⟨inner, innerPart, rfl⟩
  · rintro ⟨inner, innerPart, rfl⟩
    exact .part inner innerPart

theorem bracketed_iff_text : Bracketed stem key reading ↔
    IsInner reading.1 ∧ (∀ p ∈ reading.2, IsInner p) ∧
      key = bracketedText stem reading.1 reading.2 := by
  obtain ⟨field, _ | part⟩ := reading
  · simp [bracketed_field_iff, bracketedText]
  · simp [bracketed_part_iff, bracketedText]

/-- The reader decides the grammar. -/
theorem bracketed?_eq_some_iff :
    bracketed? stem key = some reading ↔ Bracketed stem key reading := by
  rw [bracketed_iff_text]
  constructor
  · exact eq_text_of_bracketed?
  · rintro ⟨inner, innerPart, rfl⟩
    exact bracketed?_text stem reading.2 inner innerPart

theorem bracketed?_eq_none_iff : bracketed? stem key = none ↔ ∀ r, ¬ Bracketed stem key r := by
  simp only [Option.eq_none_iff_forall_ne_some, Ne, bracketed?_eq_some_iff]

/-- The stem of a key is what stands before its first bracket, and the reader has one answer. -/
theorem Bracketed.unique {stem' : List Char} {reading' : List Char × Option (List Char)}
    (free : '[' ∉ stem) (free' : '[' ∉ stem') (h : Bracketed stem key reading)
    (h' : Bracketed stem' key reading') : stem' = stem ∧ reading' = reading := by
  have same : stem = stem' := by
    by_contra ne
    have other := bracketed?_text_of_ne stem' reading.1 reading.2 free free' ne
    rw [← (bracketed_iff_text.1 h).2.2, bracketed?_eq_some_iff.2 h'] at other
    cases other
  subst same
  rw [← bracketed?_eq_some_iff] at h h'
  exact ⟨rfl, Option.some.inj (h'.symm.trans h)⟩

/-- A key is read as a field alone or as a field and a part exactly if it is written so, and as
nothing if it is written in neither way; no key is written in two ways. -/
theorem bracketed?_reads (stem key : List Char) (free : ∀ c ∈ stem, isBracket c = false) :
    (∀ field, bracketed? stem key = some (field, none) ↔
      IsInner field ∧ key = stem ++ '[' :: (field ++ [']'])) ∧
    (∀ field part, bracketed? stem key = some (field, some part) ↔
      IsInner field ∧ IsInner part ∧
        key = stem ++ '[' :: (field ++ ']' :: '[' :: (part ++ [']']))) ∧
    (bracketed? stem key = none ↔ ∀ reading, ¬ Bracketed stem key reading) ∧
    ∀ stem' reading reading', (∀ c ∈ stem', isBracket c = false) →
      Bracketed stem key reading → Bracketed stem' key reading' →
        stem' = stem ∧ reading' = reading := by
  have noBracket {s : List Char} (h : ∀ c ∈ s, isBracket c = false) : '[' ∉ s := fun mem =>
    absurd (h _ mem) (by decide)
  refine ⟨fun field => ?_, fun field part => ?_, bracketed?_eq_none_iff, ?_⟩
  · rw [bracketed?_eq_some_iff, bracketed_field_iff]
  · rw [bracketed?_eq_some_iff, bracketed_part_iff]
  · intro stem' reading reading' free' h h'
    exact h.unique (noBracket free) (noBracket free') h'

/-- A part may be any text without brackets, and a bracket inside it leaves the key unread. -/
theorem bracketed?_reads_spacedPart :
    (∀ c ∈ "filter".toList, isBracket c = false) ∧
      bracketed? "filter".toList "filter[a=b][not op]".toList =
        some ("a=b".toList, some "not op".toList) := by
  have free : ∀ c ∈ "filter".toList, isBracket c = false := by simp [isBracket]
  have read := (bracketed?_reads "filter".toList "filter[a=b][not op]".toList free).2.1
  have field : IsInner "a=b".toList := ⟨by simp, by simp [isBracket]⟩
  have part : IsInner "not op".toList := ⟨by simp, by simp [isBracket]⟩
  exact ⟨free, (read "a=b".toList "not op".toList).2 ⟨field, part, by decide⟩⟩

example : ["filter[a[b]]", "filter[a]b]", "filter[]", "filter[a][", "filter[a][]", "filter[a]]"].map
    (fun key => bracketed? "filter".toList key.toList) = List.replicate 6 none := by
  decide

end Key
end ListQuery
