import ListQuery.Json.Ignoring
import ListQuery.Proofs.Json.RoundTrip

/-! The text of any value is passed over, whatever it holds and however deep it is nested. -/
namespace ListQuery
namespace Json

section Strings

variable {rest : List Char}

theorem afterString_quote (rest : List Char) : afterString ('"' :: rest) = some rest := by
  rw [afterString.eq_def]
  simp only [if_true]

theorem afterString_plain {c : Char} (quote : c ≠ '"') (slash : c ≠ '\\')
    (control : ¬ c.toNat < 0x20) : afterString (c :: rest) = afterString rest := by
  rw [afterString.eq_def]
  simp only [if_neg quote, if_neg slash, if_neg control]

theorem afterString_unit {h₁ h₂ h₃ h₄ : Char} {u : Nat} (h : unitOf? h₁ h₂ h₃ h₄ = some u) :
    afterString ('\\' :: 'u' :: h₁ :: h₂ :: h₃ :: h₄ :: rest) = afterString rest := by
  have quote : '\\' ≠ '"' := by decide
  rw [afterString.eq_def]
  simp only [if_neg quote, if_true, h, Option.isSome_some]

theorem afterString_escaped {e d : Char} (h : escaped? e = some d) :
    afterString ('\\' :: e :: rest) = afterString rest := by
  have quote : '\\' ≠ '"' := by decide
  have unit : e ≠ 'u' := by
    rintro rfl
    cases h
  rw [afterString.eq_def]
  simp only [if_neg quote, if_true]
  split
  next same => exact absurd (List.cons.inj same).1 unit
  next same =>
    obtain ⟨rfl, rfl⟩ := List.cons.inj same
    rw [h, Option.isSome_some, if_pos rfl]
  next same => cases same

/-- A string that can be read can be passed over. -/
theorem afterString_of_stringRest {cs s : List Char} (read : stringRest cs = some (s, rest)) :
    afterString cs = some rest := by
  have later {cs s : List Char} {c : Char}
      (read : (stringRest cs).map (fun r => (c :: r.1, r.2)) = some (s, rest)) :
      ∃ s', stringRest cs = some (s', rest) := by
    obtain ⟨⟨s', rest'⟩, found, same⟩ := Option.map_eq_some_iff.1 read
    obtain ⟨-, rfl⟩ := Prod.mk.inj same
    exact ⟨s', found⟩
  fun_induction stringRest cs generalizing s with
  | case2 cs =>
    cases read
    exact afterString_quote rest
  | case4 h₁ h₂ h₃ h₄ cs u unit low slash ih =>
    obtain ⟨s', found⟩ := later read
    rw [afterString_unit unit, ih found]
  -- A pair of code units is one character for a reader, and two steps here
  | case7 h₁ h₂ h₃ h₄ u high _ _ l₁ l₂ l₃ l₄ cs l low _ slash ih =>
    obtain ⟨s', found⟩ := later read
    rw [afterString_unit high, afterString_unit low, ih found]
  | case10 e cs other d escape slash ih =>
    obtain ⟨s', found⟩ := later read
    rw [afterString_escaped escape, ih found]
  | case14 c cs quote slash control ih =>
    obtain ⟨s', found⟩ := later read
    rw [afterString_plain quote slash control, ih found]
  | _ => cases read

theorem afterString_quoted (s : String) :
    afterString (s.toList.flatMap escapeChar ++ '"' :: rest) = some rest :=
  afterString_of_stringRest (stringRest_quoted rest s.toList)

theorem afterName_quoted (name : String) (rest : List Char) :
    afterName (quoted name ++ ':' :: rest) = some rest := by
  have colon : skip (':' :: rest) = ':' :: rest := rfl
  rw [quoted, List.cons_append, List.append_assoc, afterName, skip_quote]
  simp only [List.singleton_append, afterString_quoted, colon]

end Strings

section Numbers

variable {cs rest : List Char}

theorem afterDigits_append (nonempty : cs ≠ []) (digits : ∀ c ∈ cs, c.isDigit = true)
    (stop : ∀ c ∈ rest.head?, c.isDigit = false) : afterDigits (cs ++ rest) = some rest := by
  obtain ⟨front, behind⟩ := takeWhile_digits digits stop
  rw [afterDigits, front, behind, if_neg (by simpa using nonempty)]

theorem afterExponent_append (exponent : IsExponent cs) (ends : Ends rest) :
    afterExponent (cs ++ rest) = some rest := by
  cases exponent with
  | none =>
    cases rest with
    | nil => rfl
    | cons c rest =>
      obtain ⟨-, -, small, capital⟩ := ends c rfl
      rw [List.nil_append, afterExponent.eq_def]
      exact if_neg (not_or.2 ⟨small, capital⟩)
  | mark e =>
    have digits : afterDigits (Nat.toDigits 10 e.natAbs ++ rest) = some rest :=
      afterDigits_append Nat.toDigits_ne_nil (fun c => Text.isDigit_of_mem_toDigits)
        fun c head => (ends c head).1
    rw [Json.signed]
    split
    · exact digits
    · exact digits

/-- What can begin an exponent ends the digits before it, and is no point. -/
theorem IsExponent.stops (exponent : IsExponent cs) (ends : Ends rest) :
    ∀ c ∈ (cs ++ rest).head?, c.isDigit = false ∧ c ≠ '.' := by
  intro c head
  cases exponent with
  | none =>
    obtain ⟨digit, point, -⟩ := ends c head
    exact ⟨digit, point⟩
  | mark e =>
    obtain rfl : 'e' = c := Option.some.inj head
    exact ⟨rfl, by decide⟩

theorem afterNumber_append (number : IsNumber cs) (ends : Ends rest) :
    afterNumber (cs ++ rest) = some rest := by
  obtain ⟨front, behind, scale⟩ := number
  rename_i whole fraction exponent
  have stops := scale.stops ends
  have regular : (whole.isEmpty || (whole.head? == some '0' && decide (1 < whole.length))) =
      false := by
    have zero : whole.head? = some '0' → whole.length ≤ 1 := fun head => by
      rw [front.regular head]
      decide
    simpa [front.nonempty] using zero
  cases behind with
  | none =>
    obtain ⟨taken, left⟩ := takeWhile_digits front.digits fun c head => (stops c head).1
    rw [List.append_nil, List.append_assoc, afterNumber]
    simp only [taken, left, regular, Bool.false_eq_true, if_false]
    split
    next point => exact absurd rfl (stops '.' (congrArg List.head? point)).2
    next => exact afterExponent_append scale ends
  | @point digits nonempty all =>
    have stop : ∀ c ∈ ('.' :: (digits ++ (exponent ++ rest))).head?, c.isDigit = false := by
      rintro c head
      obtain rfl : '.' = c := Option.some.inj head
      rfl
    obtain ⟨taken, left⟩ := takeWhile_digits front.digits stop
    have fraction := afterDigits_append nonempty all fun c head => (stops c head).1
    rw [List.append_assoc, List.append_assoc, List.cons_append, afterNumber]
    simp only [taken, left, regular, Bool.false_eq_true, if_false]
    rw [fraction, Option.bind_some, afterExponent_append scale ends]

end Numbers

/-- The text of a value is passed over, whatever follows it. As many steps as there are characters
suffice. -/
def Passed (j : Json) : Prop :=
  ∀ fuel rest, (chars j).length ≤ fuel → Ends rest → afterValue fuel (chars j ++ rest) = some rest

section Steps

variable {fuel : Nat} {cs rest : List Char}

/-- A digit begins a number. -/
theorem afterValue_digit {c : Char} (digit : c.isDigit = true) :
    afterValue (fuel + 1) (c :: rest) = afterNumber (c :: rest) := by
  have other {c' : Char} (no : c'.isDigit = false) : c ≠ c' := by
    rintro rfl
    rw [digit] at no
    cases no
  have start : skip (c :: rest) = c :: rest := skip_cons (isSpace_of_isDigit digit)
  rw [afterValue.eq_def]
  simp only [start]
  split
  all_goals first
    | rfl
    | (rename_i same; exact absurd (List.cons.inj same).1 (other rfl))

theorem afterValue_bracket {c : Char} (space : isSpace c = false) (bracket : c ≠ ']') :
    afterValue (fuel + 1) ('[' :: c :: rest) = afterItems fuel (c :: rest) := by
  have start : skip ('[' :: c :: rest) = '[' :: c :: rest := rfl
  rw [afterValue, start]
  simp only [skip_cons space]
  split
  next same => exact absurd (List.cons.inj same).1 bracket
  next => rfl

theorem afterValue_brace (name : String) (rest : List Char) :
    afterValue (fuel + 1) ('\x7b' :: (quoted name ++ ':' :: rest)) =
      afterMembers fuel (quoted name ++ ':' :: rest) := by
  rw [afterValue, skip_brace]
  simp only [skip_quoted]
  split
  next same => exact absurd (List.cons.inj same).1 (by decide)
  next => rfl

theorem afterItems_last (first : afterValue fuel cs = some (']' :: rest)) :
    afterItems (fuel + 1) cs = some rest := by
  rw [afterItems, first]
  rfl

theorem afterItems_more (first : afterValue fuel cs = some (',' :: rest)) :
    afterItems (fuel + 1) cs = afterItems fuel rest := by
  rw [afterItems, first]
  rfl

theorem afterMembers_last {name : String} (first : afterValue fuel cs = some ('\x7d' :: rest)) :
    afterMembers (fuel + 1) (quoted name ++ ':' :: cs) = some rest := by
  rw [afterMembers, afterName_quoted, Option.bind_some, first]
  rfl

theorem afterMembers_more {name : String} (first : afterValue fuel cs = some (',' :: rest)) :
    afterMembers (fuel + 1) (quoted name ++ ':' :: cs) = afterMembers fuel rest := by
  rw [afterMembers, afterName_quoted, Option.bind_some, first]
  rfl

end Steps

section Values

variable {fuel : Nat} {rest : List Char}

theorem afterValue_signed {size : List Char} (number : IsNumber size) (negative : Bool)
    (enough : (Text.signed negative size).length ≤ fuel) (ends : Ends rest) :
    afterValue fuel (Text.signed negative size ++ rest) = some rest := by
  obtain ⟨c, cs, head, digit⟩ := number.head
  have passed := afterNumber_append number ends
  cases negative with
  | true =>
    cases fuel with
    | zero => cases enough
    | succ fuel => exact passed
  | false =>
    have plain : Text.signed false size = c :: cs := head
    rw [head] at passed
    rw [plain] at enough ⊢
    cases fuel with
    | zero => cases enough
    | succ fuel => exact (afterValue_digit digit).trans passed

theorem passed_null : Passed .null := by
  intro fuel rest enough _
  cases fuel with
  | zero => cases enough
  | succ fuel => rfl

theorem passed_bool (b : Bool) : Passed (.bool b) := by
  intro fuel rest enough _
  cases fuel with
  | zero => cases b <;> cases enough
  | succ fuel => cases b <;> rfl

theorem passed_int (n : Int) : Passed (.int n) := by
  intro fuel rest enough ends
  obtain ⟨negative, size, number, form⟩ := chars_int_form n
  rw [form] at enough ⊢
  exact afterValue_signed number negative enough ends

theorem passed_float (x : Binary64) : Passed (.float x) := by
  intro fuel rest enough ends
  by_cases finite : x.isFinite
  · obtain ⟨negative, size, number, form⟩ := floatChars_form x
    rw [chars, if_pos finite, form] at enough ⊢
    exact afterValue_signed number negative enough ends
  · rw [chars, if_neg finite] at enough ⊢
    exact passed_null fuel rest enough ends

theorem passed_str (s : String) : Passed (.str s) := by
  intro fuel rest enough _
  cases fuel with
  | zero => cases enough
  | succ fuel =>
    rw [chars_str_append]
    exact afterString_quoted s

theorem afterItems_append {js : List Json} (ne : js ≠ []) (passed : ∀ j ∈ js, Passed j)
    (enough : (itemChars js).length < fuel) :
    afterItems fuel (itemChars js ++ ']' :: rest) = some rest := by
  induction js generalizing fuel with
  | nil => exact absurd rfl ne
  | cons j js ih =>
    rw [List.forall_mem_cons] at passed
    obtain ⟨fuel, rfl⟩ : ∃ f, fuel = f + 1 := ⟨fuel - 1, by omega⟩
    cases js with
    | nil =>
      exact afterItems_last (passed.1 fuel (']' :: rest) (Nat.le_of_lt_succ enough)
        (ends_cons rest (by simp)))
    | cons j' js =>
      rw [itemChars_more, List.length_append, List.length_cons] at enough
      rw [itemChars_more, List.append_assoc, List.cons_append,
        afterItems_more (passed.1 fuel _ (by omega) (ends_cons _ (by simp)))]
      exact ih (List.cons_ne_nil _ _) passed.2 (by omega)

theorem afterMembers_append {ms : Members} (ne : ms ≠ []) (passed : ∀ m ∈ ms, Passed m.2)
    (enough : (memberChars ms).length < fuel) :
    afterMembers fuel (memberChars ms ++ '\x7d' :: rest) = some rest := by
  induction ms generalizing fuel with
  | nil => exact absurd rfl ne
  | cons m ms ih =>
    obtain ⟨name, j⟩ := m
    rw [List.forall_mem_cons] at passed
    have here : Passed j := passed.1
    obtain ⟨fuel, rfl⟩ : ∃ f, fuel = f + 1 := ⟨fuel - 1, by omega⟩
    cases ms with
    | nil =>
      rw [memberChars_last, List.length_append, List.length_cons] at enough
      rw [memberChars_last, List.append_assoc, List.cons_append]
      exact afterMembers_last (here fuel _ (by omega) (ends_cons rest (by simp)))
    | cons m' ms =>
      simp only [memberChars_more, List.length_append, List.length_cons] at enough
      simp only [memberChars_more, List.append_assoc, List.cons_append]
      rw [afterMembers_more (here fuel _ (by omega) (ends_cons _ (by simp)))]
      exact ih (List.cons_ne_nil _ _) passed.2 (by omega)

theorem passed_arr {js : List Json} (passed : ∀ j ∈ js, Passed j) : Passed (.arr js) := by
  intro fuel rest enough _
  rw [chars, List.length_cons, List.length_append, List.length_singleton] at enough
  obtain ⟨fuel, rfl⟩ : ∃ f, fuel = f + 1 := ⟨fuel - 1, by omega⟩
  rw [chars_arr_append]
  cases js with
  | nil => rfl
  | cons j js =>
    have inside := @afterItems_append fuel rest (j :: js) (List.cons_ne_nil _ _) passed (by omega)
    obtain ⟨c, cs, head, space, bracket⟩ := itemChars_head j js
    rw [head, List.cons_append] at inside ⊢
    rw [afterValue_bracket space bracket, inside]

theorem passed_obj {ms : Members} (passed : ∀ m ∈ ms, Passed m.2) : Passed (.obj ms) := by
  intro fuel rest enough _
  rw [chars, List.length_cons, List.length_append, List.length_singleton] at enough
  obtain ⟨fuel, rfl⟩ : ∃ f, fuel = f + 1 := ⟨fuel - 1, by omega⟩
  rw [chars_obj_append]
  cases ms with
  | nil => rfl
  | cons m ms =>
    have inside := @afterMembers_append fuel rest (m :: ms) (List.cons_ne_nil _ _) passed (by omega)
    obtain ⟨cs, head⟩ := memberChars_head m ms
    rw [head, List.append_assoc, List.cons_append] at inside ⊢
    rw [afterValue_brace, inside]

end Values

/-- Every value is passed over: one with floats, with embedded documents or with any nesting. -/
theorem passed (j : Json) : Passed j := by
  induction j using induct with
  | null => exact passed_null
  | bool b => exact passed_bool b
  | int n => exact passed_int n
  | float x => exact passed_float x
  | str s => exact passed_str s
  | arr js ih => exact passed_arr ih
  | obj ms ih => exact passed_obj ih

theorem ignored?_chars (j : Json) {rest : List Char} (ends : Ends rest) :
    ignored? (chars j ++ rest) = some rest := by
  apply passed j _ rest _ ends
  rw [List.length_append]
  omega

end Json
end ListQuery
