import ListQuery.Proofs.Json.RoundTrip

/-! Text in which an object begins with the reserved name is not read back: the object is read as
the document that it holds, if it holds one, and all around it as it stands. -/
namespace ListQuery
namespace Json

/-- A reading of the text of `j` ends where the text does, and it gives `j` only if no object in it
stands for an embedded document. -/
def Returns (j : Json) : Prop :=
  ∀ ⦃fuel d rest i rest'⦄, (chars j).length ≤ fuel → Ends rest →
    value fuel d (chars j ++ rest) = some (i, rest') → rest' = rest ∧ (i = j → Everywhere IsOwn j)

theorem returns_of_reads {j : Json} (reads : ∀ d, Reads d j) (own : Everywhere IsOwn j) :
    Returns j := by
  intro fuel d rest i rest' enough ends read
  rw [reads d fuel rest enough ends] at read
  split at read
  · cases read
    exact ⟨rfl, fun _ => own⟩
  · cases read

section Items

variable {fuel d : Nat} {rest rest' : List Char}

theorem items_return {js is : List Json} (ne : js ≠ []) (back : ∀ j ∈ js, Returns j)
    (enough : (itemChars js).length < fuel)
    (read : items fuel d (itemChars js ++ ']' :: rest) = some (is, rest')) :
    rest' = rest ∧ (is = js → ∀ j ∈ js, Everywhere IsOwn j) := by
  induction js generalizing fuel is with
  | nil => exact absurd rfl ne
  | cons j js ih =>
    obtain ⟨here, others⟩ := List.forall_mem_cons.1 back
    obtain ⟨fuel, rfl⟩ : ∃ f, fuel = f + 1 := ⟨fuel - 1, by omega⟩
    cases js with
    | nil =>
      have text : itemChars [j] ++ ']' :: rest = chars j ++ ']' :: rest := rfl
      rw [text] at read
      cases first : value fuel d (chars j ++ ']' :: rest) with
      | none =>
        rw [items_none first] at read
        cases read
      | some r =>
        obtain ⟨i, left⟩ := r
        obtain ⟨rfl, own⟩ := here (Nat.le_of_lt_succ enough) (ends_cons rest (by simp)) first
        rw [items_last first] at read
        cases read
        refine ⟨rfl, fun same => List.forall_mem_singleton.2 (own (List.cons.inj same).1)⟩
    | cons j' js =>
      rw [itemChars_more, List.length_append, List.length_cons] at enough
      rw [itemChars_more, List.append_assoc, List.cons_append] at read
      cases first : value fuel d (chars j ++ ',' :: (itemChars (j' :: js) ++ ']' :: rest)) with
      | none =>
        rw [items_none first] at read
        cases read
      | some r =>
        obtain ⟨i, left⟩ := r
        obtain ⟨rfl, own⟩ := here (by omega) (ends_cons _ (by simp)) first
        rw [items_more first] at read
        obtain ⟨⟨is', left'⟩, inside, same⟩ := Option.map_eq_some_iff.1 read
        obtain ⟨rfl, rfl⟩ := Prod.mk.inj same
        obtain ⟨rfl, owns⟩ := ih (List.cons_ne_nil _ _) others (by omega) inside
        refine ⟨rfl, fun same => ?_⟩
        obtain ⟨first, later⟩ := List.cons.inj same
        exact List.forall_mem_cons.2 ⟨own first, owns later⟩

theorem members_return {ms is : Members} (ne : ms ≠ []) (back : ∀ m ∈ ms, Returns m.2)
    (enough : (memberChars ms).length < fuel)
    (read : members fuel d (memberChars ms ++ '\x7d' :: rest) = some (is, rest')) :
    rest' = rest ∧ is.map Prod.fst = ms.map Prod.fst ∧
      (is = ms → ∀ m ∈ ms, Everywhere IsOwn m.2) := by
  induction ms generalizing fuel is with
  | nil => exact absurd rfl ne
  | cons m ms ih =>
    obtain ⟨name, j⟩ := m
    obtain ⟨first, others⟩ := List.forall_mem_cons.1 back
    have here : Returns j := first
    obtain ⟨fuel, rfl⟩ : ∃ f, fuel = f + 1 := ⟨fuel - 1, by omega⟩
    cases ms with
    | nil =>
      rw [memberChars_last, List.length_append, List.length_cons] at enough
      rw [memberChars_last, List.append_assoc, List.cons_append] at read
      have named := nameRest_quoted name (chars j ++ '\x7d' :: rest)
      cases first : value fuel d (chars j ++ '\x7d' :: rest) with
      | none =>
        rw [members_none named first] at read
        cases read
      | some r =>
        obtain ⟨i, left⟩ := r
        obtain ⟨rfl, own⟩ := here (by omega) (ends_cons rest (by simp)) first
        rw [members_last named first] at read
        cases read
        refine ⟨rfl, rfl, fun same => List.forall_mem_singleton.2 (own ?_)⟩
        exact congrArg Prod.snd (List.cons.inj same).1
    | cons m' ms =>
      simp only [memberChars_more, List.length_append, List.length_cons] at enough
      simp only [memberChars_more, List.append_assoc, List.cons_append] at read
      have named := nameRest_quoted name
        (chars j ++ ',' :: (memberChars (m' :: ms) ++ '\x7d' :: rest))
      cases first : value fuel d (chars j ++ ',' :: (memberChars (m' :: ms) ++ '\x7d' :: rest)) with
      | none =>
        rw [members_none named first] at read
        cases read
      | some r =>
        obtain ⟨i, left⟩ := r
        obtain ⟨rfl, own⟩ := here (by omega) (ends_cons _ (by simp)) first
        rw [members_more named first] at read
        obtain ⟨⟨is', left'⟩, inside, same⟩ := Option.map_eq_some_iff.1 read
        obtain ⟨rfl, rfl⟩ := Prod.mk.inj same
        obtain ⟨rfl, names, owns⟩ := ih (List.cons_ne_nil _ _) others (by omega) inside
        refine ⟨rfl, congrArg (name :: ·) names, fun same => ?_⟩
        obtain ⟨first, later⟩ := List.cons.inj same
        exact List.forall_mem_cons.2 ⟨own (congrArg Prod.snd first), owns later⟩

end Items

section Embedded

variable {fuel d : Nat} {cs rest rest' : List Char} {i j : Json}

/-- Text that begins with a quote is that of a string. -/
theorem str_of_quote (h : chars j = '"' :: cs) : ∃ s, j = .str s := by
  have number {size : List Char} {negative : Bool} (number : IsNumber size)
      (form : chars j = Text.signed negative size) : False := by
    obtain ⟨c, tail, head, digit⟩ := number.head
    rw [h] at form
    cases negative with
    | true => exact absurd (List.cons.inj form).1 (by decide)
    | false =>
      obtain rfl := (List.cons.inj (form.trans head)).1
      cases digit
  cases j with
  | null => cases h
  | bool b => cases b <;> cases h
  | int n =>
    obtain ⟨negative, size, size', form⟩ := chars_int_form n
    exact (number size' form).elim
  | float x =>
    rw [chars] at h
    split at h
    next finite =>
      obtain ⟨negative, size, size', form⟩ := floatChars_form x
      exact (number size' (by rw [chars, if_pos finite, form])).elim
    next => cases h
  | str s => exact ⟨s, rfl⟩
  | arr js => cases h
  | obj ms => cases h

/-- The text of an embedded document is a string, with a brace behind it. -/
theorem embeddedRest_chars {c : Char} {text : List Char} (space : isSpace c = false)
    (read : embeddedRest (chars j ++ c :: rest) = some (text, rest')) :
    (∃ s, j = .str s) ∧ c = '\x7d' ∧ rest' = rest := by
  obtain ⟨first, tail, head, start, -⟩ := chars_head j
  rw [head, List.cons_append, embeddedRest, skip_cons start] at read
  split at read
  next same =>
    obtain ⟨rfl, rfl⟩ := List.cons.inj same
    obtain ⟨s, rfl⟩ := str_of_quote head
    have text := chars_str_append (c :: rest) s
    rw [head, List.cons_append] at text
    rw [(List.cons.inj text).2, stringRest_quoted] at read
    simp only [skip_cons space] at read
    split at read
    next same =>
      obtain ⟨rfl, rfl⟩ := List.cons.inj same
      cases read
      exact ⟨⟨s, rfl⟩, rfl, rfl⟩
    next => cases read
  next => cases read

theorem value_reserved (read : value (fuel + 1) (d + 1)
      ('\x7b' :: (quoted embeddedName ++ ':' :: cs)) = some (i, rest')) :
    ∃ text, embeddedRest cs = some (text, rest') ∧ document fuel text = some i := by
  rw [value, skip_brace] at read
  simp only [skip_quoted] at read
  split at read
  next same => exact absurd (List.cons.inj same).1 (by decide)
  next =>
    simp only [nameRest_quoted, if_true] at read
    split at read
    next => cases read
    next text left found =>
      obtain ⟨j, within, same⟩ := Option.map_eq_some_iff.1 read
      cases same
      exact ⟨text, found, within⟩

/-- An object that begins with the reserved name is read only as the document in its one member,
since a brace ends the document. -/
theorem value_obj_reserved {ms : Members}
    (read : value (fuel + 1) (d + 1)
      ('\x7b' :: (memberChars ((embeddedName, j) :: ms) ++ '\x7d' :: rest)) = some (i, rest')) :
    ms = [] ∧ rest' = rest ∧ i ≠ .obj ((embeddedName, j) :: ms) := by
  cases ms with
  | nil =>
    rw [memberChars_last, List.append_assoc, List.cons_append] at read
    obtain ⟨text, found, within⟩ := value_reserved read
    obtain ⟨-, -, rfl⟩ := embeddedRest_chars rfl found
    refine ⟨rfl, rfl, ?_⟩
    rintro rfl
    exact (value_document_ne fuel j).2 text within
  | cons m ms =>
    simp only [memberChars_more, List.append_assoc, List.cons_append] at read
    obtain ⟨text, found, -⟩ := value_reserved read
    obtain ⟨-, brace, -⟩ := embeddedRest_chars rfl found
    exact absurd brace (by decide)

end Embedded

theorem returns_arr {js : List Json} (back : ∀ j ∈ js, Returns j) : Returns (.arr js) := by
  intro fuel d rest i rest' enough ends read
  rw [chars, List.length_cons, List.length_append, List.length_singleton] at enough
  obtain ⟨fuel, rfl⟩ : ∃ f, fuel = f + 1 := ⟨fuel - 1, by omega⟩
  rw [chars_arr_append] at read
  cases d with
  | zero => cases read
  | succ d =>
    cases js with
    | nil =>
      cases read
      exact ⟨rfl, fun _ => everywhere_arr.2 ⟨trivial, by simp⟩⟩
    | cons j js =>
      obtain ⟨c, cs, head, space, bracket⟩ := itemChars_head j js
      rw [head, List.cons_append, value_bracket space bracket, ← List.cons_append, ← head] at read
      obtain ⟨⟨is, left⟩, inside, same⟩ := Option.map_eq_some_iff.1 read
      obtain ⟨rfl, rfl⟩ := Prod.mk.inj same
      obtain ⟨rfl, own⟩ := items_return (List.cons_ne_nil j js) back (by omega) inside
      exact ⟨rfl, fun same => everywhere_arr.2 ⟨trivial, own (Json.arr.inj same)⟩⟩

theorem returns_obj {ms : Members} (order : IsOrdered (.obj ms)) (back : ∀ m ∈ ms, Returns m.2) :
    Returns (.obj ms) := by
  intro fuel d rest i rest' enough ends read
  rw [chars, List.length_cons, List.length_append, List.length_singleton] at enough
  obtain ⟨fuel, rfl⟩ : ∃ f, fuel = f + 1 := ⟨fuel - 1, by omega⟩
  rw [chars_obj_append] at read
  cases d with
  | zero => cases read
  | succ d =>
    cases ms with
    | nil =>
      cases read
      refine ⟨rfl, fun _ => everywhere_obj.2 ⟨?_, ?_⟩⟩
      · simp [IsOwn]
      · simp
    | cons m ms =>
      obtain ⟨name, j⟩ := m
      by_cases reserved : name = embeddedName
      · subst reserved
        obtain ⟨-, rfl, other⟩ := value_obj_reserved read
        exact ⟨rfl, fun same => absurd same other⟩
      · obtain ⟨cs, head⟩ := memberChars_head (name, j) ms
        rw [head, List.append_assoc, List.cons_append, value_brace reserved, ← List.cons_append,
          ← List.append_assoc, ← head] at read
        obtain ⟨⟨is, left⟩, inside, same⟩ := Option.map_eq_some_iff.1 read
        obtain ⟨rfl, rfl⟩ := Prod.mk.inj same
        obtain ⟨rfl, names, own⟩ := members_return (List.cons_ne_nil _ ms) back (by omega) inside
        refine ⟨rfl, fun same => ?_⟩
        have order' : (is.map Prod.fst).Pairwise (· < ·) := names ▸ order
        rw [ofMembers_eq, arranged_eq_self order'] at same
        refine everywhere_obj.2 ⟨?_, own (Json.obj.inj same)⟩
        exact fun first => reserved (Option.some.inj first)

/-- An ordered value without floats can be read back from its text only if no object in it begins
with the reserved name. -/
theorem returns {j : Json} (exact : Everywhere IsExact j) (order : Everywhere IsOrdered j) :
    Returns j := by
  have leaf {j : Json} (leaf : j.depth = 0) (reads : ∀ d, Reads d j) : Returns j :=
    returns_of_reads reads ((everywhere_leaf leaf).2 (isOwn_of_leaf leaf))
  induction j using induct with
  | null => exact leaf rfl reads_null
  | bool b => exact leaf rfl fun d => reads_bool d b
  | int n => exact leaf rfl fun d => reads_int d exact.self
  | float x => exact exact.self.elim
  | str s => exact leaf rfl fun d => reads_str d s
  | arr js ih =>
    exact returns_arr fun j mem => ih j mem ((everywhere_arr.1 exact).2 j mem)
      ((everywhere_arr.1 order).2 j mem)
  | obj ms ih =>
    exact returns_obj order.self fun m mem => ih m mem ((everywhere_obj.1 exact).2 m mem)
      ((everywhere_obj.1 order).2 m mem)

/-- Such a value comes back from its text exactly if it holds no embedded document and is not nested
too deep. -/
theorem ofText?_text_iff {j : Json} (exact : Everywhere IsExact j)
    (order : Everywhere IsOrdered j) :
    ofText? j.text = some j ↔ Everywhere IsOwn j ∧ j.depth ≤ maxDepth := by
  have step (own : Everywhere IsOwn j) : ofText? j.text = some j ↔ j.depth ≤ maxDepth := by
    rw [ofText?_text fun i occurs => ⟨exact i occurs, own i occurs⟩, canonical_eq_self order]
    simp
  constructor
  · intro read
    have own : Everywhere IsOwn j := by
      rw [ofText?, text, String.toList_ofList, ofChars?, document] at read
      split at read
      next i left found =>
        split at read
        · cases read
          rw [← List.append_nil (chars j)] at found
          refine (returns exact order ?_ (fun c head => by cases head) found).2 rfl
          simp only [List.append_nil]
          omega
        · cases read
      next => cases read
    exact ⟨own, (step own).1 read⟩
  · rintro ⟨own, shallow⟩
    exact (step own).2 shallow

end Json
end ListQuery
