import ListQuery.Proofs.Filter.Matching
import Mathlib.Computability.Language

/-! What the text of a filter stands for on its own. The forms of integers and decimals are regular
languages, and every text is an integer in range, a decimal, JSON between brackets, or itself. -/
namespace ListQuery
namespace Operand

open Text
open scoped Computability

/-- `[0-9]` -/
def digitForm : Language Char := {cs | ∃ c, '0' ≤ c ∧ c ≤ '9' ∧ cs = [c]}

/-- `[0-9]+` -/
def digitsForm : Language Char := digitForm * digitForm∗

/-- `-?[0-9]+` -/
def integerForm : Language Char := (1 + {['-']}) * digitsForm

/-- `-?[0-9]+\.[0-9]+` -/
def decimalForm : Language Char := integerForm * ({['.']} * digitsForm)

section Forms

variable {cs : List Char}

theorem mem_digitForm : cs ∈ digitForm ↔ ∃ c, c.isDigit = true ∧ cs = [c] := by
  have digit (c : Char) : c.isDigit = true ↔ '0' ≤ c ∧ c ≤ '9' := by
    simp [Char.isDigit, Char.le_def]
  simp only [digit, and_assoc]
  rfl

theorem mem_star_digitForm : cs ∈ digitForm∗ ↔ ∀ c ∈ cs, c.isDigit = true := by
  rw [Language.mem_kstar]
  constructor
  · rintro ⟨pieces, rfl, single⟩ c hc
    obtain ⟨piece, mem, hc⟩ := List.mem_flatten.1 hc
    obtain ⟨d, digit, rfl⟩ := mem_digitForm.1 (single piece mem)
    rwa [List.mem_singleton.1 hc]
  · intro all
    refine ⟨cs.map ([·]), (List.flatMap_singleton' cs).symm, ?_⟩
    intro piece mem
    obtain ⟨c, hc, rfl⟩ := List.mem_map.1 mem
    exact mem_digitForm.2 ⟨c, all c hc, rfl⟩

theorem mem_digitsForm : cs ∈ digitsForm ↔ isDigits cs = true := by
  rw [digitsForm, Language.mem_mul, isDigits_iff]
  constructor
  · rintro ⟨_, first, rest, more, rfl⟩
    obtain ⟨c, digit, rfl⟩ := mem_digitForm.1 first
    refine ⟨List.cons_ne_nil c rest, ?_⟩
    rintro d (_ | ⟨_, hd⟩)
    · exact digit
    · exact mem_star_digitForm.1 more d hd
  · rintro ⟨nonempty, all⟩
    obtain ⟨c, rest, rfl⟩ := List.exists_cons_of_ne_nil nonempty
    exact ⟨[c], mem_digitForm.2 ⟨c, all c List.mem_cons_self, rfl⟩, rest,
      mem_star_digitForm.2 fun d hd => all d (List.mem_cons_of_mem _ hd), rfl⟩

theorem mem_integerForm :
    cs ∈ integerForm ↔
      ∃ negative digits, isDigits digits = true ∧ cs = signed negative digits := by
  rw [integerForm, Language.mem_mul]
  constructor
  · rintro ⟨sign, minus | minus, digits, hd, rfl⟩
    · obtain rfl : sign = [] := minus
      exact ⟨false, digits, mem_digitsForm.1 hd, rfl⟩
    · obtain rfl : sign = ['-'] := minus
      exact ⟨true, digits, mem_digitsForm.1 hd, rfl⟩
  · rintro ⟨negative, digits, hd, rfl⟩
    cases negative with
    | false => exact ⟨[], .inl rfl, digits, mem_digitsForm.2 hd, rfl⟩
    | true => exact ⟨['-'], .inr rfl, digits, mem_digitsForm.2 hd, rfl⟩

theorem mem_decimalForm :
    cs ∈ decimalForm ↔
      ∃ negative whole fraction, isDigits whole = true ∧ isDigits fraction = true ∧
        cs = signed negative (whole ++ '.' :: fraction) := by
  rw [decimalForm, Language.mem_mul]
  constructor
  · rintro ⟨_, front, _, ⟨_, rfl, fraction, hf, rfl⟩, rfl⟩
    obtain ⟨negative, whole, hw, rfl⟩ := mem_integerForm.1 front
    exact ⟨negative, whole, fraction, hw, mem_digitsForm.1 hf, signed_append ..⟩
  · rintro ⟨negative, whole, fraction, hw, hf, rfl⟩
    exact ⟨signed negative whole, mem_integerForm.2 ⟨negative, whole, hw, rfl⟩, '.' :: fraction,
      ⟨['.'], rfl, fraction, mem_digitsForm.2 hf, rfl⟩, signed_append ..⟩

end Forms

/-- An integer of 64 bits in digits, behind a minus sign at most. -/
structure IsInteger (cs : List Char) (n : Int) : Prop where
  form : cs ∈ integerForm
  value : Text.intOf? cs = some n
  low : -0x8000000000000000 ≤ n
  high : n ≤ 0x7FFFFFFFFFFFFFFF

/-- The float nearest to what the digits of a text stand for, with the point where it is. -/
def nearest (cs : List Char) : Binary64 :=
  .ofDecimal (cs.head? == some '-') (Nat.ofDigitChars 10 (cs.filter Char.isDigit) 0)
    (-(((cs.dropWhile (· != '.')).drop 1).length : Int))

/-- Digits around a point, behind a minus sign at most. -/
structure IsDecimal (cs : List Char) (x : Binary64) : Prop where
  form : cs ∈ decimalForm
  value : x = nearest cs

/-- JSON between brackets or braces; the two ends need not match. -/
structure IsJson (cs : List Char) (j : Json) : Prop where
  first : cs.head? = some '[' ∨ cs.head? = some '\x7b'
  last : cs.getLast? = some ']' ∨ cs.getLast? = some '\x7d'
  size : 2 ≤ (Utf8.encode cs).length
  parsed : Json.ofChars? cs = some j

section Numbers

theorem intOf?_signed (negative : Bool) {digits : List Char} (h : isDigits digits = true) :
    intOf? (signed negative digits) = some (integer negative digits) := by
  obtain ⟨nonempty, digit⟩ := isDigits_iff.1 h
  cases negative with
  | true =>
    refine (intOf?_minus digits).trans ?_
    rw [natOf?_eq_some_iff.2 ⟨nonempty, digit, rfl⟩]
    rfl
  | false => exact intOf?_digits nonempty digit

theorem nearest_signed (negative : Bool) {whole fraction : List Char}
    (hw : isDigits whole = true) (hf : isDigits fraction = true) :
    nearest (signed negative (whole ++ '.' :: fraction)) = decimal negative whole fraction := by
  have first := head?_ne_minus_of_isDigits hw ('.' :: fraction)
  have point := ne_point_of_isDigits hw
  have behind : ((whole ++ '.' :: fraction).dropWhile (· != '.')).drop 1 = fraction := by
    rw [List.dropWhile_append_of_pos point]
    simp
  have digits : (whole ++ '.' :: fraction).filter Char.isDigit = whole ++ fraction := by
    rw [List.filter_append, List.filter_cons_of_neg (by decide),
      List.filter_eq_self.2 (isDigits_iff.1 hw).2, List.filter_eq_self.2 (isDigits_iff.1 hf).2]
  unfold nearest decimal
  cases negative with
  | true =>
    simp only [signed, if_true]
    rw [List.filter_cons_of_neg (by decide), List.dropWhile_cons_of_pos (by decide), digits, behind]
    rfl
  | false =>
    simp only [signed, Bool.false_eq_true, if_false]
    rw [beq_eq_false_iff_ne.2 first, digits, behind]

variable {cs : List Char}

theorem IsInteger.exists_int64 {n : Int} (h : IsInteger cs n) : ∃ k : Int64, k.toInt = n :=
  ⟨.ofInt n, Int64.toInt_ofInt_of_le h.low (Int.lt_add_one_of_le h.high)⟩

theorem IsInteger.numeric? {k : Int64} (h : IsInteger cs k.toInt) :
    numeric? cs = some (.int k) := by
  obtain ⟨negative, digits, hd, rfl⟩ := mem_integerForm.1 h.form
  have value := h.value
  rw [intOf?_signed negative hd, Option.some.injEq] at value
  rw [numeric?_integer negative hd, int64?_eq_some_iff.2 value.symm]
  rfl

theorem IsDecimal.numeric? {x : Binary64} (h : IsDecimal cs x) :
    numeric? cs = some (.float x) := by
  obtain ⟨negative, whole, fraction, hw, hf, rfl⟩ := mem_decimalForm.1 h.form
  rw [numeric?_decimal negative hw hf, h.value, nearest_signed negative hw hf]

/-- What is read as a number is an integer or a decimal, and is read as that. -/
theorem cases_of_numeric? {o : Operand} (h : numeric? cs = some o) :
    (∃ k : Int64, o = .int k ∧ IsInteger cs k.toInt) ∨ ∃ x, o = .float x ∧ IsDecimal cs x := by
  rcases numeric?_shape h with
    ⟨negative, digits, hd, rfl⟩ | ⟨negative, whole, fraction, hw, hf, rfl⟩
  · rw [numeric?_integer negative hd, Option.map_eq_some_iff] at h
    obtain ⟨k, fits, rfl⟩ := h
    have value := int64?_eq_some_iff.1 fits
    exact .inl ⟨k, rfl, mem_integerForm.2 ⟨negative, digits, hd, rfl⟩,
      value ▸ intOf?_signed negative hd, k.le_toInt, Int.le_of_lt_add_one k.toInt_lt⟩
  · rw [numeric?_decimal negative hw hf, Option.some.injEq] at h
    exact .inr ⟨_, h.symm, mem_decimalForm.2 ⟨negative, whole, fraction, hw, hf, rfl⟩,
      (nearest_signed negative hw hf).symm⟩

end Numbers

/-- No character is at both ends of JSON, so that there are two of them. -/
theorem IsJson.two_le_length {cs : List Char} {j : Json} (h : IsJson cs j) : 2 ≤ cs.length := by
  obtain ⟨first, last, -, -⟩ := h
  match cs with
  | [] => simp at first
  | [c] =>
    simp only [List.head?_cons, List.getLast?_singleton, Option.some.injEq] at first last
    rcases first with rfl | rfl <;> exact absurd last (by decide)
  | _ :: _ :: cs => exact Nat.le_add_left 2 cs.length

theorem IsJson.json? {cs : List Char} {j : Json} (h : IsJson cs j) :
    json? cs = some (.json j) := by
  have length := h.two_le_length
  obtain ⟨first, last, -, parsed⟩ := h
  unfold Operand.json?
  rcases first with head | head <;> rcases last with last | last <;>
    simp [head, last, length, parsed]

theorem exists_of_json? {cs : List Char} {o : Operand} (h : json? cs = some o) :
    ∃ j, o = .json j ∧ IsJson cs j := by
  unfold json? at h
  split at h
  next a z head last =>
    split at h
    next bracketed =>
      obtain ⟨length, first, second⟩ := bracketed
      obtain ⟨j, parsed, rfl⟩ := Option.map_eq_some_iff.1 h
      exact ⟨j, rfl, head ▸ first.imp (congrArg some) (congrArg some),
        last ▸ second.imp (congrArg some) (congrArg some),
        length.trans (Utf8.length_le_length_encode cs), parsed⟩
    next => cases h
  next => cases h

/-- What a text stands for on its own. Text that is neither a number nor JSON stands for itself. -/
inductive StandsFor (s : String) : Operand → Prop
  | int {k : Int64} (h : IsInteger s.toList k.toInt) : StandsFor s (.int k)
  | float {x : Binary64} (h : IsDecimal s.toList x) : StandsFor s (.float x)
  | json {j : Json} (h : IsJson s.toList j) : StandsFor s (.json j)
  | text (integer : ∀ n, ¬ IsInteger s.toList n) (decimal : ∀ x, ¬ IsDecimal s.toList x)
      (json : ∀ j, ¬ IsJson s.toList j) : StandsFor s (.text s)

theorem standsFor_scalar (s : String) : StandsFor s (scalar s) := by
  cases number : numeric? s.toList with
  | some o =>
    rw [scalar_of_numeric? number]
    rcases cases_of_numeric? number with ⟨k, rfl, h⟩ | ⟨x, rfl, h⟩
    · exact .int h
    · exact .float h
  | none =>
    cases json : json? s.toList with
    | some o =>
      rw [scalar_of_json? json]
      obtain ⟨j, rfl, h⟩ := exists_of_json? json
      exact .json h
    | none =>
      have text : scalar s = .text s := by
        rw [scalar, number, json]
        rfl
      rw [text]
      -- A text of one of the forms would have been read.
      refine .text (fun n h => ?_) (fun x h => ?_) (fun j h => ?_)
      · obtain ⟨k, rfl⟩ := h.exists_int64
        simp [h.numeric?] at number
      · simp [h.numeric?] at number
      · simp [h.json?] at json

/-- No text stands for two things. -/
theorem scalar_eq_iff {s : String} {o : Operand} : scalar s = o ↔ StandsFor s o := by
  constructor
  · rintro rfl
    exact standsFor_scalar s
  · intro h
    cases h with
    | int h => exact scalar_of_numeric? h.numeric?
    | float h => exact scalar_of_numeric? h.numeric?
    | json h => exact scalar_of_json? h.json?
    | text integer decimal json =>
      have read := standsFor_scalar s
      generalize scalar s = o at read ⊢
      cases read with
      | int h => exact absurd h (integer _)
      | float h => exact absurd h (decimal _)
      | json h => exact absurd h (json _)
      | text => rfl

/-- Every text is an integer of 64 bits, a decimal, JSON between brackets, or none of these, and
then it stays as it is. -/
theorem scalar_classified (s : String) :
    (∀ n : Int, (∃ k : Int64, k.toInt = n ∧ scalar s = .int k) ↔ IsInteger s.toList n) ∧
      (∀ x, scalar s = .float x ↔ IsDecimal s.toList x) ∧
      (∀ j, scalar s = .json j ↔ IsJson s.toList j) ∧
      ∀ t, scalar s = .text t ↔
        t = s ∧ (∀ n, ¬ IsInteger s.toList n) ∧ (∀ x, ¬ IsDecimal s.toList x) ∧
          ∀ j, ¬ IsJson s.toList j := by
  simp only [scalar_eq_iff]
  refine ⟨fun n => ⟨?_, fun h => ?_⟩, fun x => ⟨fun | .float h => h, .float⟩,
    fun j => ⟨fun | .json h => h, .json⟩, fun t => ⟨?_, ?_⟩⟩
  · rintro ⟨k, rfl, ⟨h⟩⟩
    exact h
  · obtain ⟨k, rfl⟩ := h.exists_int64
    exact ⟨k, rfl, .int h⟩
  · intro h
    cases h with
    | text integer decimal json => exact ⟨rfl, integer, decimal, json⟩
  · rintro ⟨rfl, integer, decimal, json⟩
    exact .text integer decimal json

/-- Integers past 64 bits and digits of other scripts are text, and zeros in front do not count. -/
example :
    scalar "9223372036854775808" = .text "9223372036854775808" ∧ scalar "١" = .text "١" ∧
      scalar "-009223372036854775808" = .int (-9223372036854775808) :=
  ⟨rfl, rfl, rfl⟩

end Operand
end ListQuery
