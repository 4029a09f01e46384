import ListQuery.Proofs.Json.Embedded
import ListQuery.Proofs.Json.Numbers
import ListQuery.Proofs.Json.Scalars

/-! The text of a value without floats is read back: the members of its objects come back in the
order of their names, and a value that is nested too deep is refused. -/
namespace ListQuery
namespace Json

/-- No float, and no integer beyond those of 64 bits. -/
def IsExact : Json → Prop
  | .int n => -0x8000000000000000 ≤ n ∧ n ≤ 0xFFFFFFFFFFFFFFFF
  | .float _ => False
  | _ => True

/-- Neither a float nor an embedded document. -/
def IsPlain (j : Json) : Prop := IsExact j ∧ IsOwn j

section Steps

variable {fuel d : Nat} {rest : List Char}

/-- What begins with no blank is read as it stands. -/
theorem skip_cons {c : Char} (space : isSpace c = false) : skip (c :: rest) = c :: rest :=
  List.dropWhile_cons_of_neg (by rw [space]; decide)

theorem skip_quote (rest : List Char) : skip ('"' :: rest) = '"' :: rest := rfl

theorem skip_brace (rest : List Char) : skip ('\x7b' :: rest) = '\x7b' :: rest := rfl

theorem skip_quoted (name : String) (rest : List Char) :
    skip (quoted name ++ rest) = quoted name ++ rest := rfl

/-- A digit begins a number. -/
theorem value_digit {c : Char} (digit : c.isDigit = true) :
    value (fuel + 1) d (c :: rest) = unsignedRest false (c :: rest) := by
  have other {c' : Char} (no : c'.isDigit = false) : c ≠ c' := by
    rintro rfl
    rw [digit] at no
    cases no
  have start : skip (c :: rest) = c :: rest := skip_cons (isSpace_of_isDigit digit)
  rw [value.eq_def]
  simp only [start]
  -- Everything else that begins a value begins with another character
  split
  all_goals first
    | rfl
    | (rename_i same; exact absurd (List.cons.inj same).1 (other rfl))

/-- A bracket begins an array, here one with items. -/
theorem value_bracket {c : Char} (space : isSpace c = false) (bracket : c ≠ ']') :
    value (fuel + 1) (d + 1) ('[' :: c :: rest) =
      (items fuel d (c :: rest)).map fun r => (.arr r.1, r.2) := by
  have start : skip ('[' :: c :: rest) = '[' :: c :: rest := rfl
  rw [value, start]
  simp only [skip_cons space]
  split
  next same => exact absurd (List.cons.inj same).1 bracket
  next => rfl

theorem nameRest_quoted (name : String) (rest : List Char) :
    nameRest (quoted name ++ ':' :: rest) = some (name, rest) := by
  have colon : skip (':' :: rest) = ':' :: rest := rfl
  rw [quoted, List.cons_append, List.append_assoc, nameRest, skip_quote]
  simp only [List.singleton_append, stringRest_quoted, colon, String.ofList_toList]

/-- A brace begins an object, here one that stands for itself. -/
theorem value_brace {name : String} (other : name ≠ embeddedName) :
    value (fuel + 1) (d + 1) ('\x7b' :: (quoted name ++ ':' :: rest)) =
      (members fuel d (quoted name ++ ':' :: rest)).map fun r => (ofMembers r.1, r.2) := by
  rw [value, skip_brace]
  simp only [skip_quoted]
  split
  next same => exact absurd (List.cons.inj same).1 (by decide)
  next => simp only [nameRest_quoted, if_neg other]

end Steps

theorem itemChars_more (j j' : Json) (js : List Json) :
    itemChars (j :: j' :: js) = chars j ++ ',' :: itemChars (j' :: js) := rfl

theorem memberChars_last (name : String) (j : Json) :
    memberChars [(name, j)] = quoted name ++ ':' :: chars j := rfl

theorem memberChars_more (name : String) (j : Json) (m : String × Json) (ms : Members) :
    memberChars ((name, j) :: m :: ms) =
      quoted name ++ ':' :: (chars j ++ ',' :: memberChars (m :: ms)) := rfl

section Brackets

variable (rest : List Char)

theorem chars_str_append (s : String) :
    chars (.str s) ++ rest = '"' :: (s.toList.flatMap escapeChar ++ '"' :: rest) := by
  rw [chars, quoted, List.cons_append, List.append_assoc]
  rfl

theorem chars_arr_append (js : List Json) :
    chars (.arr js) ++ rest = '[' :: (itemChars js ++ ']' :: rest) := by
  rw [chars, List.cons_append, List.append_assoc]
  rfl

theorem chars_obj_append (ms : Members) :
    chars (.obj ms) ++ rest = '\x7b' :: (memberChars ms ++ '\x7d' :: rest) := by
  rw [chars, List.cons_append, List.append_assoc]
  rfl

end Brackets

/-- The text of a value gives its canonical form, unless it is nested deeper than is allowed. As many
steps as there are characters suffice. -/
def Reads (d : Nat) (j : Json) : Prop :=
  ∀ fuel rest, (chars j).length ≤ fuel → Ends rest →
    value fuel d (chars j ++ rest) = if j.depth ≤ d then some (j.canonical, rest) else none

theorem ends_cons {c : Char} (rest : List Char) (h : c ∈ [',', ']', '\x7d']) :
    Ends (c :: rest) := by
  intro c' head
  obtain rfl : c = c' := Option.some.inj head
  simp only [List.mem_cons, List.not_mem_nil, or_false] at h
  rcases h with rfl | rfl | rfl <;> decide

theorem reads_null (d : Nat) : Reads d .null := by
  intro fuel rest enough _
  cases fuel with
  | zero => cases enough
  | succ fuel => rfl

theorem reads_bool (d : Nat) (b : Bool) : Reads d (.bool b) := by
  intro fuel rest enough _
  cases fuel with
  | zero => cases b <;> cases enough
  | succ fuel => cases b <;> rfl

theorem reads_str (d : Nat) (s : String) : Reads d (.str s) := by
  intro fuel rest enough _
  cases fuel with
  | zero => cases enough
  | succ fuel =>
    have quote (more : List Char) : value (fuel + 1) d ('"' :: more) =
        (stringRest more).map fun r => (.str (String.ofList r.1), r.2) := rfl
    rw [chars_str_append, quote, stringRest_quoted, Option.map_some, String.ofList_toList]
    rfl

theorem toDigits_head (n : Nat) : ∃ c cs, Nat.toDigits 10 n = c :: cs ∧ c.isDigit = true := by
  obtain ⟨c, cs, digits⟩ := List.exists_cons_of_ne_nil (Nat.toDigits_ne_nil (n := n) (b := 10))
  exact ⟨c, cs, digits, Text.isDigit_of_mem_toDigits (by rw [digits]; exact List.mem_cons_self)⟩

theorem reads_int {n : Int} (d : Nat) (exact : IsExact (.int n)) : Reads d (.int n) := by
  intro fuel rest enough ends
  obtain ⟨low, high⟩ := exact
  cases n with
  | ofNat m =>
    have range : m ≤ 0xFFFFFFFFFFFFFFFF := Int.ofNat_le.1 high
    have number := unsignedRest_toDigits false m ends
    rw [integerOf?_toDigits range, Option.map_some] at number
    obtain ⟨c, cs, digits, digit⟩ := toDigits_head m
    rw [chars_ofNat] at enough ⊢
    rw [digits] at enough number ⊢
    cases fuel with
    | zero => cases enough
    | succ fuel => exact (value_digit digit).trans number
  | negSucc m =>
    have number := unsignedRest_toDigits true (m + 1) ends
    rw [integerOf?_minus_toDigits (by omega) (by omega), Option.map_some] at number
    rw [chars_negSucc] at enough ⊢
    cases fuel with
    | zero => cases enough
    | succ fuel => exact number

theorem IsNumber.signed_head {size : List Char} (number : IsNumber size) (negative : Bool) :
    ∃ c cs, Text.signed negative size = c :: cs ∧ isSpace c = false ∧ c ≠ ']' := by
  cases negative with
  | true => exact ⟨'-', size, rfl, rfl, by decide⟩
  | false =>
    obtain ⟨c, cs, head, digit⟩ := number.head
    refine ⟨c, cs, head, isSpace_of_isDigit digit, ?_⟩
    rintro rfl
    cases digit

/-- The text of a value does not begin like a blank or the end of an array. -/
theorem chars_head (j : Json) : ∃ c cs, chars j = c :: cs ∧ isSpace c = false ∧ c ≠ ']' := by
  have null : ∃ c cs, chars .null = c :: cs ∧ isSpace c = false ∧ c ≠ ']' :=
    ⟨'n', _, rfl, rfl, by decide⟩
  cases j with
  | null => exact null
  | bool b =>
    cases b with
    | false => exact ⟨'f', _, rfl, rfl, by decide⟩
    | true => exact ⟨'t', _, rfl, rfl, by decide⟩
  | int n =>
    obtain ⟨negative, size, number, form⟩ := chars_int_form n
    rw [form]
    exact number.signed_head negative
  | float x =>
    rw [chars]
    split
    next =>
      obtain ⟨negative, size, number, form⟩ := floatChars_form x
      rw [form]
      exact number.signed_head negative
    next => exact null
  | str s => exact ⟨'"', _, rfl, rfl, by decide⟩
  | arr js => exact ⟨'[', _, rfl, rfl, by decide⟩
  | obj ms => exact ⟨'\x7b', _, rfl, rfl, by decide⟩

theorem itemChars_head (j : Json) (js : List Json) :
    ∃ c cs, itemChars (j :: js) = c :: cs ∧ isSpace c = false ∧ c ≠ ']' := by
  obtain ⟨c, cs, head, start⟩ := chars_head j
  cases js with
  | nil => exact ⟨c, cs, head, start⟩
  | cons j' js =>
    refine ⟨c, cs ++ ',' :: itemChars (j' :: js), ?_, start⟩
    rw [itemChars, head, List.cons_append]
    intro h
    cases h

theorem memberChars_head (m : String × Json) (ms : Members) :
    ∃ cs, memberChars (m :: ms) = quoted m.1 ++ ':' :: cs := by
  cases ms with
  | nil => exact ⟨_, rfl⟩
  | cons m' ms => exact ⟨_, rfl⟩

/-- A bound on the greater of two numbers, checked for one after the other. -/
theorem ite_max_le {α : Type} {m n d : Nat} (a : α) :
    (if max m n ≤ d then some a else none) =
      if m ≤ d then (if n ≤ d then some a else none) else none := by
  by_cases first : m ≤ d
  · rw [if_pos first]
    simp only [Nat.max_le, first, true_and]
  · rw [if_neg first, if_neg fun both => first (Nat.max_le.1 both).1]

section Items

variable {fuel d : Nat} {cs rest : List Char} {j : Json}

theorem items_none (first : value fuel d cs = none) : items (fuel + 1) d cs = none := by
  rw [items, first]

theorem items_last (first : value fuel d cs = some (j, ']' :: rest)) :
    items (fuel + 1) d cs = some ([j], rest) := by
  rw [items, first]
  rfl

theorem items_more (first : value fuel d cs = some (j, ',' :: rest)) :
    items (fuel + 1) d cs = (items fuel d rest).map fun r => (j :: r.1, r.2) := by
  rw [items, first]
  rfl

theorem items_read {js : List Json} (ne : js ≠ []) (read : ∀ j ∈ js, Reads d j)
    (enough : (itemChars js).length < fuel) :
    items fuel d (itemChars js ++ ']' :: rest) =
      if depthOfItems js ≤ d then some (canonicalItems js, rest) else none := by
  induction js generalizing fuel with
  | nil => exact absurd rfl ne
  | cons j js ih =>
    rw [List.forall_mem_cons] at read
    obtain ⟨fuel, rfl⟩ : ∃ f, fuel = f + 1 := ⟨fuel - 1, by omega⟩
    cases js with
    | nil =>
      have first := read.1 fuel (']' :: rest) (Nat.le_of_lt_succ enough)
        (ends_cons rest (by simp))
      simp only [depthOfItems, Nat.max_zero]
      by_cases shallow : j.depth ≤ d
      · rw [if_pos shallow] at first ⊢
        exact items_last first
      · rw [if_neg shallow] at first ⊢
        exact items_none first
    | cons j' js =>
      rw [itemChars_more, List.length_append, List.length_cons] at enough
      have first := read.1 fuel (',' :: (itemChars (j' :: js) ++ ']' :: rest)) (by omega)
        (ends_cons _ (by simp))
      have others := @ih fuel (List.cons_ne_nil _ _) read.2 (by omega)
      rw [itemChars_more, List.append_assoc, List.cons_append]
      simp only [depthOfItems.eq_2 j, ite_max_le]
      by_cases shallow : j.depth ≤ d
      · rw [if_pos shallow] at first ⊢
        rw [items_more first, others]
        split <;> rfl
      · rw [if_neg shallow] at first ⊢
        exact items_none first

end Items

section Members

variable {fuel d : Nat} {cs more rest : List Char} {name : String} {j : Json}

theorem members_none (named : nameRest cs = some (name, more)) (first : value fuel d more = none) :
    members (fuel + 1) d cs = none := by
  rw [members, named]
  simp only [first]

theorem members_last (named : nameRest cs = some (name, more))
    (first : value fuel d more = some (j, '\x7d' :: rest)) :
    members (fuel + 1) d cs = some ([(name, j)], rest) := by
  rw [members, named]
  simp only [first]
  rfl

theorem members_more (named : nameRest cs = some (name, more))
    (first : value fuel d more = some (j, ',' :: rest)) :
    members (fuel + 1) d cs =
      (members fuel d rest).map fun r => ((name, j) :: r.1, r.2) := by
  rw [members, named]
  simp only [first]
  rfl

theorem members_read {ms : Members} (ne : ms ≠ []) (read : ∀ m ∈ ms, Reads d m.2)
    (enough : (memberChars ms).length < fuel) :
    members fuel d (memberChars ms ++ '\x7d' :: rest) =
      if depthOfMembers ms ≤ d then some (canonicalMembers ms, rest) else none := by
  induction ms generalizing fuel with
  | nil => exact absurd rfl ne
  | cons m ms ih =>
    obtain ⟨name, j⟩ := m
    obtain ⟨first, readOthers⟩ := List.forall_mem_cons.1 read
    have readFirst : Reads d j := first
    obtain ⟨fuel, rfl⟩ : ∃ f, fuel = f + 1 := ⟨fuel - 1, by omega⟩
    cases ms with
    | nil =>
      rw [memberChars_last, List.length_append, List.length_cons] at enough
      have first : value fuel d (chars j ++ '\x7d' :: rest) = _ := readFirst fuel _ (by omega)
        (ends_cons rest (by simp))
      have named := nameRest_quoted name (chars j ++ '\x7d' :: rest)
      rw [memberChars_last, List.append_assoc, List.cons_append]
      simp only [depthOfMembers, Nat.max_zero]
      by_cases shallow : j.depth ≤ d
      · rw [if_pos shallow] at first ⊢
        exact members_last named first
      · rw [if_neg shallow] at first ⊢
        exact members_none named first
    | cons m' ms =>
      simp only [memberChars_more, List.length_append, List.length_cons] at enough
      have first :
          value fuel d (chars j ++ ',' :: (memberChars (m' :: ms) ++ '\x7d' :: rest)) = _ :=
        readFirst fuel _ (by omega) (ends_cons _ (by simp))
      have others := @ih fuel (List.cons_ne_nil _ _) readOthers (by omega)
      have named := nameRest_quoted name
        (chars j ++ ',' :: (memberChars (m' :: ms) ++ '\x7d' :: rest))
      simp only [memberChars_more, List.append_assoc, List.cons_append,
        depthOfMembers.eq_2 name j, ite_max_le]
      by_cases shallow : j.depth ≤ d
      · rw [if_pos shallow] at first ⊢
        rw [members_more named first, others]
        split <;> rfl
      · rw [if_neg shallow] at first ⊢
        exact members_none named first

end Members

theorem reads_arr {d : Nat} {js : List Json} (read : ∀ j ∈ js, ∀ d, Reads d j) :
    Reads d (.arr js) := by
  intro fuel rest enough _
  rw [chars, List.length_cons, List.length_append, List.length_singleton] at enough
  obtain ⟨fuel, rfl⟩ : ∃ f, fuel = f + 1 := ⟨fuel - 1, by omega⟩
  simp only [chars_arr_append, depth, canonical]
  cases d with
  | zero => rfl
  | succ d =>
    cases js with
    | nil => rfl
    | cons j js =>
      have inside := @items_read fuel d rest (j :: js) (List.cons_ne_nil _ _)
        (fun j mem => read j mem d) (by omega)
      obtain ⟨c, cs, head, space, bracket⟩ := itemChars_head j js
      rw [head, List.cons_append] at inside ⊢
      simp only [Nat.add_le_add_iff_right]
      rw [value_bracket space bracket, inside]
      split <;> rfl

theorem reads_obj {d : Nat} {ms : Members} (own : IsOwn (.obj ms))
    (read : ∀ m ∈ ms, ∀ d, Reads d m.2) : Reads d (.obj ms) := by
  intro fuel rest enough _
  rw [chars, List.length_cons, List.length_append, List.length_singleton] at enough
  obtain ⟨fuel, rfl⟩ : ∃ f, fuel = f + 1 := ⟨fuel - 1, by omega⟩
  simp only [chars_obj_append, depth, canonical]
  cases d with
  | zero => rfl
  | succ d =>
    cases ms with
    | nil => rfl
    | cons m ms =>
      have inside := @members_read fuel d rest (m :: ms) (List.cons_ne_nil _ _)
        (fun m mem => read m mem d) (by omega)
      obtain ⟨cs, head⟩ := memberChars_head m ms
      -- The first name is read ahead, to see an embedded document, and again with its member
      have other : m.1 ≠ embeddedName := fun same => own (congrArg some same)
      rw [head, List.append_assoc, List.cons_append] at inside ⊢
      simp only [Nat.add_le_add_iff_right]
      rw [value_brace other, inside]
      split <;> rfl

/-- Every plain value is read back from its text, whatever follows it. -/
theorem reads_of_plain {j : Json} (plain : Everywhere IsPlain j) (d : Nat) : Reads d j := by
  induction j using induct generalizing d with
  | null => exact reads_null d
  | bool b => exact reads_bool d b
  | int n => exact reads_int d plain.self.1
  | float x => exact plain.self.1.elim
  | str s => exact reads_str d s
  | arr js ih =>
    have items := (everywhere_arr.1 plain).2
    exact reads_arr fun j mem d => ih j mem (items j mem) d
  | obj ms ih =>
    obtain ⟨here, values⟩ := everywhere_obj.1 plain
    exact reads_obj here.2 fun m mem d => ih m mem (values m mem) d

theorem ofText?_text {j : Json} (plain : Everywhere IsPlain j) :
    ofText? j.text = if j.depth ≤ maxDepth then some j.canonical else none := by
  have read := reads_of_plain plain maxDepth (2 * (chars j).length + 2) [] (by omega)
    (fun c head => by cases head)
  rw [List.append_nil] at read
  rw [ofText?, text, String.toList_ofList, ofChars?, document, read]
  by_cases shallow : j.depth ≤ maxDepth
  · rw [if_pos shallow, if_pos shallow]
    rfl
  · rw [if_neg shallow, if_neg shallow]

end Json
end ListQuery
