import ListQuery.Proofs.Json.Ignoring
import ListQuery.Proofs.Json.Rendering
import ListQuery.Shape.Text

/-! Records in text: each known member is read by its part, all others are passed over, and a known
member that comes twice is refused. -/
namespace ListQuery
namespace Shape

open Json

/-- What a part makes of the text of a value, whatever follows it. -/
def Answers (read : Reader) (depth : Nat) (j : Json) (out : Option Json) : Prop :=
  ∀ rest, Ends rest → read depth (chars j ++ rest) = out.map (·, rest)

section Scalars

variable {depth : Nat}

theorem textPart_answers (s : String) : Answers textPart depth (.str s) (some (.str s)) := by
  intro rest _
  rw [chars_str_append, textPart, skip_quote]
  simp only [stringRest_quoted, Option.map_some, String.ofList_toList]

theorem tokenPart_answers (s : String) : Answers tokenPart depth (.str s) (some (.str s)) := by
  intro rest ends
  have text : textPart depth (chars (.str s) ++ rest) = _ := textPart_answers s rest ends
  rw [← text, chars_str_append]
  rfl

theorem optionalPart_null (read : Reader) :
    Answers (optionalPart read) depth .null (some .null) := fun _ _ => rfl

theorem optionalPart_answers {read : Reader} {s : String}
    (h : Answers read depth (.str s) (some (.str s))) :
    Answers (optionalPart read) depth (.str s) (some (.str s)) := by
  intro rest ends
  rw [← h rest ends, chars_str_append]
  rfl

theorem unsignedPart_answers (n : UInt64) :
    Answers unsignedPart depth (ofUnsigned n) (some (ofUnsigned n)) := by
  intro rest ends
  have range : n.toNat ≤ 0xFFFFFFFFFFFFFFFF := Nat.le_of_lt_succ n.toNat_lt
  have number := unsignedRest_toDigits false n.toNat ends
  rw [integerOf?_toDigits range] at number
  obtain ⟨c, cs, digits, digit⟩ := toDigits_head n.toNat
  have text : chars (ofUnsigned n) = c :: cs := (chars_ofNat n.toNat).trans digits
  have start : skip (c :: (cs ++ rest)) = c :: (cs ++ rest) :=
    skip_cons (isSpace_of_isDigit digit)
  rw [digits] at number
  rw [text, List.cons_append, unsignedPart, start]
  split
  next same =>
    obtain rfl := (List.cons.inj same).1
    cases digit
  next => exact number

end Scalars

/-- Rows without floats and embedded documents are read in the order of their names, unless they are
nested too deep. -/
theorem rowsPart_answers {rows : List Json} (plain : ∀ row ∈ rows, Everywhere IsPlain row)
    (depth : Nat) : Answers rowsPart (depth + 1) (.arr rows)
      (if ∀ row ∈ rows, row.depth ≤ depth then some (.arr (rows.map canonical)) else none) := by
  intro rest ends
  have list : Everywhere IsPlain (.arr rows) := everywhere_arr.2 ⟨⟨trivial, trivial⟩, plain⟩
  have read := reads_of_plain list (depth + 1) (2 * (chars (.arr rows) ++ rest).length + 2) rest
    (by rw [List.length_append]; omega) ends
  simp only [Json.depth, Nat.add_le_add_iff_right, depthOfItems_le_iff, Json.canonical,
    canonicalItems_eq] at read
  rw [chars_arr_append] at read ⊢
  refine Eq.trans read ?_
  split <;> rfl

/-- What is kept of members: those that are known, with what `out` makes of their values. -/
def kept (parts : List (String × Reader)) (out : String × Json → Option Json) :
    Members → Option Members
  | [] => some []
  | m :: ms =>
    if m.1 ∈ parts.map Prod.fst then (out m).bind fun j => (kept parts out ms).map ((m.1, j) :: ·)
    else kept parts out ms

section Kept

variable {parts : List (String × Reader)} {out : String × Json → Option Json} {ms known : Members}
  {name : String}

theorem kept_cons (m : String × Json) : kept parts out (m :: ms) =
    (kept parts out [m]).bind fun known => (kept parts out ms).map (known ++ ·) := by
  simp only [kept]
  split
  · cases out m <;> rfl
  · cases kept parts out ms <;> rfl

/-- Members that are read as they stand are kept as they stand. -/
theorem kept_eq_filter (same : ∀ m ∈ ms, m.1 ∈ parts.map Prod.fst → out m = some m.2) :
    kept parts out ms = some (ms.filter (·.1 ∈ parts.map Prod.fst)) := by
  induction ms with
  | nil => rfl
  | cons m ms ih =>
    obtain ⟨here, others⟩ := List.forall_mem_cons.1 same
    rw [kept, ih others, List.filter_cons]
    by_cases known : m.1 ∈ parts.map Prod.fst
    · rw [if_pos known, here known, if_pos (decide_eq_true known)]
      rfl
    · rw [if_neg known, if_neg (by simpa using known)]

theorem names_kept (h : kept parts out ms = some known) :
    known.map Prod.fst = (ms.map Prod.fst).filter (· ∈ parts.map Prod.fst) := by
  induction ms generalizing known with
  | nil =>
    cases h
    rfl
  | cons m ms ih =>
    rw [kept] at h
    rw [List.map_cons, List.filter_cons]
    by_cases here : m.1 ∈ parts.map Prod.fst
    · rw [if_pos here, Option.bind_eq_some_iff] at h
      obtain ⟨j, -, rest⟩ := h
      obtain ⟨others, found, rfl⟩ := Option.map_eq_some_iff.1 rest
      rw [if_pos (decide_eq_true here), List.map_cons, ih found]
    · rw [if_neg here] at h
      rw [if_neg (by simpa using here), ih h]

theorem lookup_kept (h : kept parts out ms = some known) (mem : name ∈ parts.map Prod.fst) :
    known.lookup name = (ms.lookup name).bind fun j => out (name, j) := by
  induction ms generalizing known with
  | nil =>
    cases h
    rfl
  | cons m ms ih =>
    obtain ⟨n, v⟩ := m
    rw [kept] at h
    rw [List.lookup_cons]
    by_cases same : name = n
    · subst same
      rw [if_pos mem, Option.bind_eq_some_iff] at h
      obtain ⟨j, found, rest⟩ := h
      obtain ⟨others, -, rfl⟩ := Option.map_eq_some_iff.1 rest
      rw [List.lookup_cons, beq_self_eq_true]
      exact found.symm
    · rw [beq_eq_false_iff_ne.2 same]
      split at h
      next =>
        obtain ⟨j, -, rest⟩ := Option.bind_eq_some_iff.1 h
        obtain ⟨others, found, rfl⟩ := Option.map_eq_some_iff.1 rest
        rw [List.lookup_cons, beq_eq_false_iff_ne.2 same]
        exact ih found
      next => exact ih h

theorem exists_kept (read : ∀ m ∈ ms, m.1 ∈ parts.map Prod.fst → out m ≠ none) :
    ∃ known, kept parts out ms = some known := by
  induction ms with
  | nil => exact ⟨[], rfl⟩
  | cons m ms ih =>
    obtain ⟨here, others⟩ := List.forall_mem_cons.1 read
    obtain ⟨known, found⟩ := ih others
    rw [kept, found]
    split
    next mem =>
      obtain ⟨j, out⟩ := Option.ne_none_iff_exists'.1 (here mem)
      rw [out]
      exact ⟨_, rfl⟩
    next => exact ⟨known, rfl⟩

/-- Where a known member is refused, so is the whole. -/
theorem kept_eq_none {m : String × Json} (mem : m ∈ ms) (here : m.1 ∈ parts.map Prod.fst)
    (refused : out m = none) : kept parts out ms = none := by
  induction ms with
  | nil => cases mem
  | cons m' ms ih =>
    rw [kept]
    rcases List.mem_cons.1 mem with rfl | mem
    · rw [if_pos here, refused]
      rfl
    · rw [ih mem]
      split
      · cases out m' <;> rfl
      · rfl

end Kept

section Records

variable {parts : List (String × Reader)} {depth fuel : Nat} {cs rest : List Char}
  {known ms : Members} {name : String} {out : String × Json → Option Json}

/-- Each known member is answered by its part. -/
def PartsAnswer (parts : List (String × Reader)) (depth : Nat) (ms : Members)
    (out : String × Json → Option Json) : Prop :=
  ∀ m ∈ ms, ∀ read, parts.lookup m.1 = some read → Answers read depth m.2 (out m)

theorem lookup_eq_none_iff {α : Type} {bindings : List (String × α)} :
    bindings.lookup name = none ↔ name ∉ bindings.map Prod.fst := by
  rw [List.lookup_eq_none_iff, List.mem_map, not_exists]
  refine forall_congr' fun m => ?_
  rw [not_and, bne_iff_ne, ne_comm, Ne]

theorem mem_of_lookup {α : Type} {bindings : List (String × α)} {a : α}
    (h : bindings.lookup name = some a) : (name, a) ∈ bindings := by
  obtain ⟨front, back, whole, -⟩ := List.lookup_eq_some_iff.1 h
  rw [whole]
  exact List.mem_append_right _ List.mem_cons_self

theorem memberRest_chars {m : String × Json}
    (answers : ∀ read, parts.lookup m.1 = some read → Answers read depth m.2 (out m))
    (ends : Ends rest) : memberRest parts depth m.1 (chars m.2 ++ rest) =
      (kept parts out [m]).map (·, rest) := by
  rw [memberRest, kept]
  cases found : parts.lookup m.1 with
  | none =>
    rw [if_neg (lookup_eq_none_iff.1 found)]
    simp only [ignored?_chars m.2 ends]
    rfl
  | some read =>
    rw [if_pos (List.mem_map_of_mem (f := Prod.fst) (mem_of_lookup found))]
    simp only [answers read found rest ends]
    cases out m <;> rfl

theorem membersRest_none (here : memberRest parts depth name cs = none) :
    membersRest parts depth (fuel + 1) (quoted name ++ ':' :: cs) = none := by
  rw [membersRest, nameRest_quoted]
  simp only [here]

theorem membersRest_last (here : memberRest parts depth name cs = some (known, '\x7d' :: rest)) :
    membersRest parts depth (fuel + 1) (quoted name ++ ':' :: cs) = some (known, rest) := by
  rw [membersRest, nameRest_quoted]
  simp only [here]
  rfl

theorem membersRest_more (here : memberRest parts depth name cs = some (known, ',' :: rest)) :
    membersRest parts depth (fuel + 1) (quoted name ++ ':' :: cs) =
      (membersRest parts depth fuel rest).map fun r => (known ++ r.1, r.2) := by
  rw [membersRest, nameRest_quoted]
  simp only [here]
  rfl

theorem membersRest_memberChars (ne : ms ≠ []) (answers : PartsAnswer parts depth ms out)
    (enough : ms.length ≤ fuel) :
    membersRest parts depth fuel (memberChars ms ++ '\x7d' :: rest) =
      (kept parts out ms).map (·, rest) := by
  induction ms generalizing fuel with
  | nil => exact absurd rfl ne
  | cons m ms ih =>
    obtain ⟨here, others⟩ := List.forall_mem_cons.1 answers
    obtain ⟨fuel, rfl⟩ : ∃ f, fuel = f + 1 := ⟨fuel - 1, by rw [List.length_cons] at enough; omega⟩
    cases ms with
    | nil =>
      have first := memberRest_chars here (ends_cons (c := '\x7d') rest (by simp))
      rw [memberChars_last m.1 m.2, List.append_assoc, List.cons_append]
      cases found : kept parts out [m] with
      | none => exact membersRest_none (by rw [first, found]; rfl)
      | some known => exact membersRest_last (by rw [first, found]; rfl)
    | cons m' ms =>
      have first := memberRest_chars here
        (ends_cons (c := ',') (memberChars (m' :: ms) ++ '\x7d' :: rest) (by simp))
      have later := @ih fuel (List.cons_ne_nil _ _) others (Nat.le_of_succ_le_succ enough)
      rw [memberChars_more m.1 m.2, List.append_assoc, List.cons_append, List.append_assoc,
        List.cons_append, kept_cons]
      cases found : kept parts out [m] with
      | none => exact membersRest_none (by rw [first, found]; rfl)
      | some known =>
        rw [membersRest_more (by rw [first, found]; rfl), later]
        cases kept parts out (m' :: ms) <;> rfl

/-- The first member of a record that is read is read by its part. -/
theorem membersRest_first {read : Reader} (part : parts.lookup name = some read)
    (whole : membersRest parts depth fuel (quoted name ++ ':' :: cs) = some (known, rest)) :
    ∃ j left, read depth cs = some (j, left) ∧ known.lookup name = some j := by
  cases fuel with
  | zero => cases whole
  | succ fuel =>
    rw [membersRest, nameRest_quoted] at whole
    simp only [memberRest, part] at whole
    cases here : read depth cs with
    | none =>
      rw [here] at whole
      cases whole
    | some r =>
      obtain ⟨j, left⟩ := r
      rw [here] at whole
      refine ⟨j, left, rfl, ?_⟩
      simp only [Option.map_some] at whole
      split at whole
      next =>
        obtain ⟨r, -, same⟩ := Option.map_eq_some_iff.1 whole
        obtain ⟨rfl, -⟩ := Prod.mk.inj same
        exact List.lookup_cons_self
      next =>
        cases whole
        exact List.lookup_cons_self
      next => cases whole

theorem length_le_memberChars (ms : Members) : ms.length ≤ (memberChars ms).length := by
  induction ms with
  | nil => exact Nat.zero_le _
  | cons m ms ih =>
    cases ms with
    | nil =>
      rw [memberChars_last m.1 m.2]
      simp only [List.length_append, List.length_cons, List.length_nil]
      omega
    | cons m' ms =>
      rw [memberChars_more m.1 m.2]
      simp only [List.length_append, List.length_cons] at ih ⊢
      omega

/-- A brace and a quote begin a record with members. -/
theorem recordPart_quoted (parts : List (String × Reader)) (depth : Nat) (name : String)
    (cs : List Char) :
    recordPart parts (depth + 1) ('\x7b' :: (quoted name ++ cs)) =
      (membersRest parts depth (quoted name ++ cs).length (quoted name ++ cs)).bind fun r =>
        if (r.1.map Prod.fst).Nodup then some (.obj r.1, r.2) else none := by
  simp only [recordPart, skip_brace, skip_quoted]
  split
  next same => exact absurd (List.cons.inj same).1 (by decide)
  next => cases membersRest parts depth (quoted name ++ cs).length (quoted name ++ cs) <;> rfl

/-- A record is read from the text of an object by its parts, unless a known member comes twice. -/
theorem recordPart_answers (answers : PartsAnswer parts depth ms out) :
    Answers (recordPart parts) (depth + 1) (.obj ms)
      ((kept parts out ms).bind fun known =>
        if (known.map Prod.fst).Nodup then some (.obj known) else none) := by
  intro rest ends
  rw [chars_obj_append]
  cases ms with
  | nil => rfl
  | cons m ms =>
    have enough : (m :: ms).length ≤ (memberChars (m :: ms) ++ '\x7d' :: rest).length := by
      have length := length_le_memberChars (m :: ms)
      rw [List.length_append]
      omega
    have inside : membersRest parts depth _ (memberChars (m :: ms) ++ '\x7d' :: rest) = _ :=
      membersRest_memberChars (List.cons_ne_nil m ms) answers enough
    obtain ⟨cs, head⟩ := memberChars_head m ms
    rw [head, List.append_assoc, List.cons_append] at inside ⊢
    rw [recordPart_quoted, inside]
    cases kept parts out (m :: ms) with
    | none => rfl
    | some known =>
      simp only [Option.map_some, Option.bind_some]
      split <;> rfl

theorem recordPart_distinct (distinct : (ms.map Prod.fst).Nodup)
    (answers : PartsAnswer parts depth ms out) :
    Answers (recordPart parts) (depth + 1) (.obj ms) ((kept parts out ms).map .obj) := by
  intro rest ends
  rw [recordPart_answers answers rest ends]
  cases found : kept parts out ms with
  | none => rfl
  | some known =>
    have once : (known.map Prod.fst).Nodup := names_kept found ▸ distinct.filter _
    rw [Option.bind_some, if_pos once]
    rfl

theorem recordPart_repeated (twice : ¬ ((ms.map Prod.fst).filter (· ∈ parts.map Prod.fst)).Nodup)
    (answers : PartsAnswer parts depth ms out) :
    Answers (recordPart parts) (depth + 1) (.obj ms) none := by
  intro rest ends
  rw [recordPart_answers answers rest ends]
  cases found : kept parts out ms with
  | none => rfl
  | some known =>
    rw [Option.bind_some, if_neg (names_kept found ▸ twice)]

theorem partsOf?_text {j : Json} {whole : Option Json}
    (answers : Answers (recordPart parts) maxDepth j whole) : partsOf? parts j.text = whole := by
  have read := answers [] fun c head => by cases head
  rw [List.append_nil] at read
  rw [partsOf?, text, String.toList_ofList, read]
  cases whole <;> rfl

theorem memberChars_first (m : String × Json) (ms : Members) :
    ∃ rest, Ends rest ∧
      memberChars (m :: ms) ++ ['\x7d'] = quoted m.1 ++ ':' :: (chars m.2 ++ rest) := by
  cases ms with
  | nil =>
    refine ⟨['\x7d'], ends_cons [] (by simp), ?_⟩
    rw [memberChars_last m.1 m.2, List.append_assoc, List.cons_append]
  | cons m' ms =>
    refine ⟨',' :: (memberChars (m' :: ms) ++ ['\x7d']), ends_cons _ (by simp), ?_⟩
    rw [memberChars_more m.1 m.2, List.append_assoc, List.cons_append, List.append_assoc,
      List.cons_append]

/-- The first member of the text of an object is read by its part, if the whole is read. -/
theorem partsOf?_first {read : Reader} {m : String × Json} {i : Json}
    (part : parts.lookup m.1 = some read)
    (whole : partsOf? parts (Json.obj (m :: ms)).text = some i) :
    ∃ known j rest left, i = .obj known ∧ known.lookup m.1 = some j ∧ Ends rest ∧
      read 126 (chars m.2 ++ rest) = some (j, left) := by
  obtain ⟨rest, ends, text⟩ := memberChars_first m ms
  have brace : (Json.obj (m :: ms)).text.toList =
      '\x7b' :: (quoted m.1 ++ ':' :: (chars m.2 ++ rest)) := by
    rw [Json.text, String.toList_ofList, chars, text]
  rw [partsOf?, brace, maxDepth, recordPart_quoted] at whole
  split at whole
  next found =>
    obtain ⟨⟨known, left⟩, inside, once⟩ := Option.bind_eq_some_iff.1 found
    obtain ⟨j, left', here, look⟩ := membersRest_first part inside
    split at once
    · cases once
      split at whole
      · cases whole
        exact ⟨known, j, rest, left', rfl, look, ends, here⟩
      · cases whole
    · cases once
  next => cases whole

end Records

end Shape
end ListQuery
