import ListQuery.Filter.Predicate
import ListQuery.Proofs.Binary64.Plain
import ListQuery.Proofs.Filter.Numerals

/-! The text that patterns and full-text queries are made of. It is the text of the filter, unless
that is read as a number or as JSON and is not what the number or the JSON is printed as. -/
namespace ListQuery

open Sql Text

namespace Operand

section Integers

variable {negative : Bool} {digits : List Char}

theorem repr_neg {n : Nat} (h : 0 < n) :
    (-(n : Int)).repr.toList = '-' :: Nat.toDigits 10 n := by
  obtain ⟨m, rfl⟩ := Nat.exists_eq_add_one_of_ne_zero (Nat.pos_iff_ne_zero.1 h)
  have minus : (-((m + 1 : Nat) : Int)).repr = "-" ++ (m + 1).repr := rfl
  rw [minus, String.toList_append, Nat.toList_repr]
  rfl

/-- An integer is printed as it was written if there is no leading zero and no minus before zero. -/
theorem repr_integer_iff (h : isDigits digits = true) :
    (integer negative digits).repr.toList = signed negative digits ↔
      NoLeadingZero digits ∧ (negative = true → digits ≠ ['0']) := by
  obtain ⟨hne, digit⟩ := isDigits_iff.1 h
  have printed := toDigits_ofDigitChars_iff digit hne
  cases negative with
  | false => simpa [integer, signed, Int.repr] using printed
  | true =>
    rcases Nat.eq_zero_or_pos (Nat.ofDigitChars 10 digits 0) with zero | pos
    · have only : NoLeadingZero digits → digits = ['0'] := by
        intro none
        rw [← printed.2 none, zero, Nat.toDigits_zero]
      have value : integer true digits = 0 := by simp [integer, zero]
      constructor
      · intro same
        rw [value] at same
        exact absurd (List.cons.inj same).1 (by decide)
      · rintro ⟨none, nonzero⟩
        exact absurd (only none) (nonzero rfl)
    · have nonzero : digits ≠ ['0'] := by
        rintro rfl
        exact absurd pos (by decide)
      have value : (integer true digits).repr.toList =
          '-' :: Nat.toDigits 10 (Nat.ofDigitChars 10 digits 0) := repr_neg pos
      rw [value, signed, if_pos rfl, List.cons.injEq, printed]
      simp [nonzero]

end Integers

/-- What is read as a number or as JSON is written as that number or that JSON is printed: integers
without a leading zero and without a minus before zero, other numbers in the shortest form that
reads back, and JSON in the compact form with the names of an object in order. -/
structure AsPrinted (cs : List Char) : Prop where
  integer : ∀ negative digits, isDigits digits = true → cs = signed negative digits →
    -0x8000000000000000 ≤ integer negative digits → integer negative digits ≤ 0x7FFFFFFFFFFFFFFF →
    NoLeadingZero digits ∧ (negative = true → digits ≠ ['0'])
  decimal : ∀ negative whole fraction, isDigits whole = true → isDigits fraction = true →
    cs = signed negative (whole ++ '.' :: fraction) →
    cs = (decimal negative whole fraction).plain.toList
  json : ∀ j, json? cs = some (.json j) → cs = j.chars

/-- JSON is tried behind a bracket or a brace only, so that it is never a number as well. -/
theorem head?_of_json? {cs : List Char} {o : Operand} (h : json? cs = some o) :
    (cs.head? = some '[' ∨ cs.head? = some '\x7b') ∧ ∃ j, o = .json j := by
  unfold json? at h
  split at h
  next a z head last =>
    split at h
    next bracketed =>
      obtain ⟨j, -, rfl⟩ := Option.map_eq_some_iff.1 h
      exact ⟨head ▸ bracketed.2.1.imp (congrArg some) (congrArg some), j, rfl⟩
    · cases h
  · cases h

theorem head?_of_numeric? {cs : List Char} {o : Operand} (h : numeric? cs = some o) :
    ∃ c, cs.head? = some c ∧ (c = '-' ∨ c.isDigit = true) := by
  have first (negative : Bool) {digits : List Char} (rest : List Char)
      (hd : isDigits digits = true) :
      ∃ c, (signed negative (digits ++ rest)).head? = some c ∧ (c = '-' ∨ c.isDigit = true) := by
    obtain ⟨hne, digit⟩ := isDigits_iff.1 hd
    obtain ⟨c, cs, rfl⟩ := List.exists_cons_of_ne_nil hne
    cases negative with
    | true => exact ⟨'-', rfl, .inl rfl⟩
    | false => exact ⟨c, rfl, .inr (digit c List.mem_cons_self)⟩
  rcases numeric?_shape h with ⟨negative, digits, hd, rfl⟩ | ⟨negative, whole, fraction, hw, -, rfl⟩
  · simpa using first negative [] hd
  · exact first negative _ hw

theorem numeric?_eq_none_of_json? {cs : List Char} {o : Operand} (h : json? cs = some o) :
    numeric? cs = none := by
  cases hn : numeric? cs with
  | none => rfl
  | some o' =>
    obtain ⟨c, head, number⟩ := head?_of_numeric? hn
    have bracket := (head?_of_json? h).1
    rw [head, Option.some.injEq, Option.some.injEq] at bracket
    rcases bracket with rfl | rfl <;> exact absurd number (by decide)

section Scalars

variable {s : String}

theorem scalar_of_numeric? {o : Operand} (h : numeric? s.toList = some o) : scalar s = o := by
  rw [scalar, h]

theorem scalar_of_json? {o : Operand} (h : json? s.toList = some o) : scalar s = o := by
  rw [scalar, numeric?_eq_none_of_json? h, h]
  rfl

theorem scalar_integer {negative : Bool} {digits : List Char} (h : isDigits digits = true)
    (hs : s.toList = signed negative digits)
    (low : -0x8000000000000000 ≤ integer negative digits)
    (high : integer negative digits ≤ 0x7FFFFFFFFFFFFFFF) :
    (scalar s).asText = (integer negative digits).repr := by
  have read : numeric? s.toList = some (.int (.ofInt (integer negative digits))) := by
    rw [hs, numeric?_integer negative h, int64?, if_pos ⟨low, high⟩]
    rfl
  rw [scalar_of_numeric? read, asText, Int64.toInt_ofInt_of_le low (by omega)]

end Scalars

theorem asPrinted_of_asText {s : String} (same : (scalar s).asText = s) : AsPrinted s.toList where
  integer negative digits hd hs low high := by
    rw [← repr_integer_iff hd, ← scalar_integer hd hs low high, same, hs]
  decimal negative whole fraction hw hf hs := by
    have read := numeric?_decimal negative hw hf
    rw [← hs] at read
    rw [scalar_of_numeric? read] at same
    exact congrArg String.toList same.symm
  json j hj := by
    rw [scalar_of_json? hj, asText, Json.text] at same
    rw [← same, String.toList_ofList]

theorem AsPrinted.asText_scalar {s : String} (h : AsPrinted s.toList) : (scalar s).asText = s := by
  cases hn : numeric? s.toList with
  | some o =>
    rcases numeric?_shape hn with
      ⟨negative, digits, hd, hs⟩ | ⟨negative, whole, fraction, hw, hf, hs⟩
    · have read := numeric?_integer negative hd
      rw [← hs, hn, int64?] at read
      split at read
      next range =>
        have printed := h.integer negative digits hd hs range.1 range.2
        rw [← repr_integer_iff hd, ← scalar_integer hd hs range.1 range.2, ← hs] at printed
        exact String.toList_inj.1 printed
      next => cases read
    · have read := numeric?_decimal negative hw hf
      rw [← hs] at read
      rw [scalar_of_numeric? read]
      exact String.toList_inj.1 (h.decimal negative whole fraction hw hf hs).symm
  | none =>
    cases hj : json? s.toList with
    | some o =>
      obtain ⟨-, j, rfl⟩ := head?_of_json? hj
      rw [scalar_of_json? hj, asText, Json.text, ← h.json j hj, String.ofList_toList]
    | none =>
      rw [scalar, hn, hj]
      rfl

theorem asText_scalar_iff (s : String) : (scalar s).asText = s ↔ AsPrinted s.toList :=
  ⟨asPrinted_of_asText, AsPrinted.asText_scalar⟩

/-- Neither a number nor JSON starts so. -/
def StartsAsText (cs : List Char) : Prop :=
  ∀ c, cs.head? = some c → c ≠ '-' ∧ c.isDigit = false ∧ c ≠ '[' ∧ c ≠ '\x7b'

theorem scalar_of_start {s : String} (h : StartsAsText s.toList) : scalar s = .text s := by
  have number : numeric? s.toList = none := by
    cases hn : numeric? s.toList with
    | none => rfl
    | some o =>
      obtain ⟨c, head, first⟩ := head?_of_numeric? hn
      obtain ⟨minus, digit, -⟩ := h c head
      rcases first with rfl | first
      · exact absurd rfl minus
      · simp [digit] at first
  have json : json? s.toList = none := by
    cases hj : json? s.toList with
    | none => rfl
    | some o =>
      rcases (head?_of_json? hj).1 with head | head
      · exact absurd rfl (h _ head).2.2.1
      · exact absurd rfl (h _ head).2.2.2
  rw [scalar, number, json]
  rfl

/-- Decimals of at most fifteen digits are as they are printed if no zero could be left out. -/
theorem asPrinted_decimal_iff {negative : Bool} {whole fraction : List Char}
    (hw : isDigits whole = true) (hf : isDigits fraction = true)
    (size : Nat.ofDigitChars 10 (whole ++ fraction) 0 < 10 ^ 15) (length : fraction.length ≤ 300) :
    AsPrinted (signed negative (whole ++ '.' :: fraction)) ↔
      NoLeadingZero whole ∧ fraction.getLast? ≠ some '0' := by
  have read := numeric?_decimal negative hw hf
  obtain ⟨hw', wholeDigits⟩ := isDigits_iff.1 hw
  obtain ⟨hf', fractionDigits⟩ := isDigits_iff.1 hf
  have printed :=
    Binary64.plain_ofDecimal_iff negative wholeDigits fractionDigits hw' hf' size length
  rw [← String.toList_ofList (l := signed negative _)] at read ⊢
  rw [← asText_scalar_iff, scalar_of_numeric? read, ← printed, ← String.toList_inj,
    String.toList_ofList]
  rfl

end Operand

namespace Operator

/-- The operators that look for text: patterns and full text. -/
def matchesText : Operator → Bool
  | .like | .ilike | .web | .plain | .phrase => true
  | _ => false

variable {o : Operator}

theorem coerce_of_matchesText (h : o.matchesText = true) (text : String) :
    Operand.coerce text o = Operand.scalar text := by
  cases o <;> first | rfl | cases h

/-- An operator that looks for text sees nothing of its operand but the text. -/
theorem condition_of_asText (h : o.matchesText = true) (ctx : SearchContext) (column : Column)
    (operand : Operand) :
    o.condition ctx column operand = o.condition ctx column (.text operand.asText) := by
  cases o <;> first | rfl | cases h

end Operator

/-- Patterns and full-text queries are made of the text of the filter as it was sent exactly if that
is as it is printed. Texts that do not start as numbers or JSON are, and decimals of at most fifteen
digits are if no zero could be left out. -/
theorem matched_text (text : String) :
    (∀ o : Operator, o.matchesText = true →
      ((Operand.coerce text o).asText = text ↔ Operand.AsPrinted text.toList)) ∧
      (Operand.AsPrinted text.toList → ∀ ctx column,
        (∀ o : Operator, o.matchesText = true →
          o.conditionOf ctx column text = o.condition ctx column (.text text)) ∧
        (∀ m : Negation, m.operator.matchesText = true →
          m.conditionOf ctx column text = m.condition ctx column (.text text)) ∧
        ∀ o : Operator, o = .like ∨ o = .ilike →
          o.conditionOf ctx column text =
            .only (.like column ("%" ++ Text.upper text ++ "%"))) ∧
      (Operand.StartsAsText text.toList → Operand.AsPrinted text.toList) ∧
      ∀ negative whole fraction, Operand.isDigits whole = true → Operand.isDigits fraction = true →
        text.toList = signed negative (whole ++ '.' :: fraction) →
        Nat.ofDigitChars 10 (whole ++ fraction) 0 < 10 ^ 15 → fraction.length ≤ 300 →
        (Operand.AsPrinted text.toList ↔
          NoLeadingZero whole ∧ fraction.getLast? ≠ some '0') := by
  have iff {o : Operator} (h : o.matchesText = true) :
      (Operand.coerce text o).asText = text ↔ Operand.AsPrinted text.toList := by
    rw [Operator.coerce_of_matchesText h, Operand.asText_scalar_iff]
  refine ⟨fun o h => iff h, ?_, ?_, ?_⟩
  · intro printed ctx column
    have kept {o : Operator} (h : o.matchesText = true) :
        o.conditionOf ctx column text = o.condition ctx column (.text text) := by
      rw [Operator.conditionOf, Operator.condition_of_asText h, (iff h).2 printed]
    refine ⟨fun o h => kept h, ?_, ?_⟩
    · intro m h
      exact congrArg Condition.negate (kept h)
    · rintro o (rfl | rfl) <;> exact kept rfl
  · intro start
    rw [← Operand.asText_scalar_iff, Operand.scalar_of_start start]
    rfl
  · intro negative whole fraction hw hf ht size length
    rw [ht]
    exact Operand.asPrinted_decimal_iff hw hf size length

/-- Numbers and names with digits are matched as they are sent, numbers with a last zero are not. -/
theorem matched_decimal :
    let column : Column := .of "t" "c"
    Operator.like.conditionOf ⟨.sqlite, "simple"⟩ column "-1.05" = .only (.like column "%-1.05%") ∧
      (Operand.coerce "-1.05" .web).asText = "-1.05" ∧
      (Operand.coerce "a007" .phrase).asText = "a007" ∧
      ¬ Operand.AsPrinted "0.50".toList := by
  obtain ⟨same, kept, -, decimals⟩ := matched_text "-1.05"
  have printed := (decimals true ['1'] ['0', '5'] rfl rfl rfl (by decide) (by decide)).2
    ⟨nofun, by decide⟩
  have name := matched_text "a007"
  have start : Operand.StartsAsText "a007".toList := by
    rintro c ⟨⟩
    decide
  refine ⟨(kept printed _ _).2.2 .like (.inl rfl), (same .web rfl).2 printed,
    (name.1 .phrase rfl).2 (name.2.2.1 start), ?_⟩
  rw [(matched_text "0.50").2.2.2 false ['0'] ['5', '0'] rfl rfl rfl (by decide) (by decide)]
  exact fun printed => printed.2 rfl

/-- Zeros that could be left out and blanks in JSON are not matched. -/
theorem unmatched_text :
    let column : Column := .of "t" "c"
    Operator.like.conditionOf ⟨.sqlite, "simple"⟩ column "007" = .only (.like column "%7%") ∧
      (Operand.coerce "007" .like).asText ≠ "007" ∧
      (Operand.coerce "-0" .ilike).asText = "0" ∧
      (Operand.coerce "1.50" .web).asText = "1.5" ∧
      (Operand.coerce "[1, 2]" .phrase).asText = "[1,2]" := by
  refine ⟨rfl, by decide, rfl, by decide +kernel, by decide +kernel⟩

end ListQuery
