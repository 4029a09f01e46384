import ListQuery.Request.Key
import Mathlib.Data.List.Basic
import Mathlib.Data.List.TakeWhile

/-! The spelling of keys, and the reading of keys as its inverse: a key is read as what it spells,
and a key that spells nothing is outside the grammar. -/
namespace ListQuery
namespace Key

/-- Text that can stand between brackets. -/
def IsName (s : String) : Prop := s ≠ "" ∧ '[' ∉ s.toList ∧ ']' ∉ s.toList

def bareFilterText (field : String) : String := "filter[" ++ field ++ "]"

/-- How the keys of the grammar are spelled. The value of a filter has two spellings. -/
inductive Spelled : Key → String → Prop where
  | page : Spelled .page "page"
  | limit : Spelled .limit "limit"
  | q : Spelled .q "q"
  | sort {field : String} (h : IsName field) : Spelled (.sort field) (sortText field)
  | bare {field : String} (h : IsName field) :
      Spelled (.filter field .value) (bareFilterText field)
  | filter {field : String} (part : Part) (h : IsName field) :
      Spelled (.filter field part) (filterText field part)

/-- Characters that can stand between brackets. -/
def IsInner (cs : List Char) : Prop := cs ≠ [] ∧ ∀ c ∈ cs, isBracket c = false

theorem isInner_toList {s : String} : IsInner s.toList ↔ IsName s := by
  unfold IsInner IsName
  have hb : (∀ c ∈ s.toList, isBracket c = false) ↔ '[' ∉ s.toList ∧ ']' ∉ s.toList := by
    constructor
    · intro h
      exact ⟨fun hm => absurd (h _ hm) (by decide), fun hm => absurd (h _ hm) (by decide)⟩
    · rintro ⟨ho, hc⟩ c hm
      have h1 : c ≠ '[' := fun h => ho (h ▸ hm)
      have h2 : c ≠ ']' := fun h => hc (h ▸ hm)
      simp [isBracket, h1, h2]
  rw [hb, Ne, Ne, String.toList_eq_nil_iff]

theorem isName_ofList {cs : List Char} : IsName (String.ofList cs) ↔ IsInner cs := by
  rw [← isInner_toList, String.toList_ofList]

theorem isInner_token (p : Part) : IsInner p.token.toList := by
  rw [isInner_toList]
  cases p <;> simp [IsName, Part.token]

theorem takeWhile_inner {cs : List Char} (h : IsInner cs) (rest : List Char) :
    (cs ++ ']' :: rest).takeWhile (!isBracket ·) = cs := by
  have hp : ∀ c ∈ cs, (!isBracket c) = true := fun c hc => by simp [h.2 c hc]
  rw [List.takeWhile_append_of_pos hp]
  simp [isBracket]

theorem dropWhile_inner {cs : List Char} (h : IsInner cs) (rest : List Char) :
    (cs ++ ']' :: rest).dropWhile (!isBracket ·) = ']' :: rest := by
  have hp : ∀ c ∈ cs, (!isBracket c) = true := fun c hc => by simp [h.2 c hc]
  rw [List.dropWhile_append_of_pos hp]
  simp [isBracket]

/-- The characters up to a bracket, if there are any, can stand between brackets. -/
theorem isInner_takeWhile {cs : List Char} (h : (cs.takeWhile (!isBracket ·)).isEmpty = false) :
    IsInner (cs.takeWhile (!isBracket ·)) := by
  refine ⟨by simpa using h, fun c hc => ?_⟩
  simpa using List.mem_takeWhile_imp hc

def bracketedText (stem field : List Char) : Option (List Char) → List Char
  | none => stem ++ '[' :: (field ++ [']'])
  | some part => stem ++ '[' :: (field ++ ']' :: '[' :: (part ++ [']']))

theorem bracketed?_text (stem : List Char) {field : List Char} (part : Option (List Char))
    (hf : IsInner field) (hp : ∀ p ∈ part, IsInner p) :
    bracketed? stem (bracketedText stem field part) = some (field, part) := by
  have hfe : field.isEmpty = false := by simpa using hf.1
  cases part with
  | none =>
    have hpre : (stem ++ ['[']).isPrefixOf? (bracketedText stem field none) =
        some (field ++ [']']) := by
      simp [List.isPrefixOf?_eq_some_iff_append_eq, bracketedText]
    simp only [bracketed?, hpre, takeWhile_inner hf, dropWhile_inner hf, hfe]
    simp
  | some part =>
    have hpi := hp part rfl
    have hpe : part.isEmpty = false := by simpa using hpi.1
    have hpre : (stem ++ ['[']).isPrefixOf? (bracketedText stem field (some part)) =
        some (field ++ ']' :: '[' :: (part ++ [']'])) := by
      simp [List.isPrefixOf?_eq_some_iff_append_eq, bracketedText]
    simp only [bracketed?, hpre, takeWhile_inner hf, dropWhile_inner hf, hfe, takeWhile_inner hpi,
      dropWhile_inner hpi, hpe]
    simp

/-- A key is read as bracketed only if it is the text of its reading. -/
theorem eq_text_of_bracketed? {stem key field : List Char} {part : Option (List Char)}
    (h : bracketed? stem key = some (field, part)) :
    IsInner field ∧ (∀ p ∈ part, IsInner p) ∧ key = bracketedText stem field part := by
  unfold bracketed? at h
  split at h
  next => simp at h
  next rest hpre =>
    have hkey := List.isPrefixOf?_eq_some_iff_append_eq.1 hpre
    have hrest := List.takeWhile_append_dropWhile (p := (!isBracket ·)) (l := rest)
    dsimp only at h
    split at h
    next => simp at h
    next hne =>
      have hf := isInner_takeWhile (by simpa using hne)
      split at h
      next hd =>
        simp only [Option.some.injEq, Prod.mk.injEq] at h
        obtain ⟨rfl, rfl⟩ := h
        rw [hd] at hrest
        refine ⟨hf, by simp, ?_⟩
        simp only [bracketedText, hrest]
        simpa using hkey.symm
      next inner hd =>
        have hinner := List.takeWhile_append_dropWhile (p := (!isBracket ·)) (l := inner)
        split at h
        next => simp at h
        next hpe =>
          split at h
          next hd' =>
            simp only [Option.some.injEq, Prod.mk.injEq] at h
            obtain ⟨rfl, rfl⟩ := h
            have hp := isInner_takeWhile (by simpa using hpe)
            rw [hd'] at hinner
            rw [hd] at hrest
            refine ⟨hf, by simpa using hp, ?_⟩
            simp only [bracketedText, hinner, hrest]
            simpa using hkey.symm
          next => simp at h
      next => simp at h

/-- No bracketed key has another stem before its first bracket. -/
theorem bracketed?_text_of_ne {stem : List Char} (stem' field : List Char)
    (part : Option (List Char)) (hs : '[' ∉ stem) (hs' : '[' ∉ stem') (hne : stem ≠ stem') :
    bracketed? stem' (bracketedText stem field part) = none := by
  cases h : bracketed? stem' (bracketedText stem field part) with
  | none => rfl
  | some reading =>
    obtain ⟨field', part'⟩ := reading
    obtain ⟨rest, hl⟩ : ∃ rest, bracketedText stem field part = stem ++ '[' :: rest := by
      cases part <;> exact ⟨_, rfl⟩
    obtain ⟨rest', hr⟩ : ∃ rest', bracketedText stem field part = stem' ++ '[' :: rest' := by
      rw [(eq_text_of_bracketed? h).2.2]
      cases part' <;> exact ⟨_, rfl⟩
    have hw : ∀ s : List Char, '[' ∉ s → ∀ r, (s ++ '[' :: r).takeWhile (· != '[') = s := by
      intro s h r
      rw [List.takeWhile_append_of_pos fun c hc => by simpa using fun e : c = '[' => h (e ▸ hc)]
      simp
    have h1 := hw stem hs rest
    rw [← hl, hr, hw stem' hs' rest'] at h1
    exact absurd h1.symm hne

@[simp] theorem toList_sortText (field : String) :
    (sortText field).toList = bracketedText "sort".toList field.toList none := by
  simp [sortText, bracketedText]

@[simp] theorem toList_bareFilterText (field : String) :
    (bareFilterText field).toList = bracketedText "filter".toList field.toList none := by
  simp [bareFilterText, bracketedText]

@[simp] theorem toList_filterText (field : String) (part : Part) :
    (filterText field part).toList =
      bracketedText "filter".toList field.toList (some part.token.toList) := by
  simp [filterText, bracketedText]

/-- The single words of the grammar hold no bracket. -/
theorem ne_word_of_mem {s : String} (h : '[' ∈ s.toList) : s ≠ "page" ∧ s ≠ "limit" ∧ s ≠ "q" := by
  refine ⟨?_, ?_, ?_⟩ <;> rintro rfl <;> exact absurd h (by decide)

theorem ofString_sortText {field : String} (h : IsName field) :
    ofString (sortText field) = .sort field := by
  have hm : '[' ∈ (sortText field).toList := by simp [bracketedText]
  obtain ⟨h1, h2, h3⟩ := ne_word_of_mem hm
  have hb := bracketed?_text "sort".toList none (isInner_toList.2 h) (by simp)
  simp only [ofString, if_neg h1, if_neg h2, if_neg h3, toList_sortText, hb, String.ofList_toList]

theorem ofString_bareFilterText {field : String} (h : IsName field) :
    ofString (bareFilterText field) = .filter field .value := by
  have hm : '[' ∈ (bareFilterText field).toList := by simp [bracketedText]
  obtain ⟨h1, h2, h3⟩ := ne_word_of_mem hm
  have hs : bracketed? "sort".toList (bracketedText "filter".toList field.toList none) = none :=
    bracketed?_text_of_ne _ _ _ (by decide) (by decide) (by decide)
  have hb := bracketed?_text "filter".toList none (isInner_toList.2 h) (by simp)
  simp only [ofString, if_neg h1, if_neg h2, if_neg h3, toList_bareFilterText, hs, hb,
    String.ofList_toList]

theorem ofString_filterText {field : String} (h : IsName field) (part : Part) :
    ofString (filterText field part) = .filter field part := by
  have hm : '[' ∈ (filterText field part).toList := by simp [bracketedText]
  obtain ⟨h1, h2, h3⟩ := ne_word_of_mem hm
  have hs : bracketed? "sort".toList
      (bracketedText "filter".toList field.toList (some part.token.toList)) = none :=
    bracketed?_text_of_ne _ _ _ (by decide) (by decide) (by decide)
  have hb := bracketed?_text "filter".toList (some part.token.toList) (isInner_toList.2 h)
    (by simpa using isInner_token part)
  simp only [ofString, if_neg h1, if_neg h2, if_neg h3, toList_filterText, hs, hb,
    String.ofList_toList, Part.ofToken?_token]

/-- A key is read as what it spells. -/
theorem ofString_of_spelled {k : Key} {s : String} (h : Spelled k s) : ofString s = k := by
  cases h with
  | page => rfl
  | limit => rfl
  | q => rfl
  | sort h => exact ofString_sortText h
  | bare h => exact ofString_bareFilterText h
  | filter part h => exact ofString_filterText h part

theorem token_of_ofToken? {t : String} {p : Part} (h : Part.ofToken? t = some p) :
    p.token = t := by
  simpa using List.find?_some h

/-- A key spells its reading or is outside the grammar. -/
theorem spelled_ofString (s : String) : ofString s = .other ∨ Spelled (ofString s) s := by
  unfold ofString
  split
  next he => exact .inr (he ▸ .page)
  split
  next he => exact .inr (he ▸ .limit)
  split
  next he => exact .inr (he ▸ .q)
  split
  next field hb =>
    obtain ⟨hf, -, hs⟩ := eq_text_of_bracketed? hb
    have e : s = sortText (String.ofList field) := by
      rw [← String.toList_inj, hs]
      simp
    rw [e]
    exact .inr (.sort (isName_ofList.2 hf))
  split
  next field hb =>
    obtain ⟨hf, -, hs⟩ := eq_text_of_bracketed? hb
    have e : s = bareFilterText (String.ofList field) := by
      rw [← String.toList_inj, hs]
      simp
    rw [e]
    exact .inr (.bare (isName_ofList.2 hf))
  next field part hb =>
    obtain ⟨hf, -, hs⟩ := eq_text_of_bracketed? hb
    split
    next p hp =>
      have e : s = filterText (String.ofList field) p := by
        rw [← String.toList_inj, hs]
        simp [token_of_ofToken? hp]
      rw [e]
      exact .inr (.filter p (isName_ofList.2 hf))
    next => exact .inl rfl
  next => exact .inl rfl

/-- The keys outside the grammar are those that spell nothing. -/
theorem ofString_eq_other_iff {s : String} : ofString s = .other ↔ ∀ k, ¬ Spelled k s := by
  constructor
  · intro h k hk
    rw [ofString_of_spelled hk] at h
    subst h
    cases hk
  · intro h
    exact (spelled_ofString s).resolve_right (h _)

end Key
end ListQuery
