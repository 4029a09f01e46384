import ListQuery.Text.Blank
import ListQuery.Text.Integer

/-! Signed integers are read back from their decimal text, with blanks around it or not. -/
namespace ListQuery
namespace Text

theorem dropWhile_eq_self {p : Char → Bool} {cs : List Char} (h : ∀ c ∈ cs, p c = false) :
    cs.dropWhile p = cs := by
  cases cs with
  | nil => rfl
  | cons c cs => simp [h c (by simp)]

/-- Text without blanks is not trimmed. -/
theorem trimmed_eq_self {cs : List Char} (h : ∀ c ∈ cs, isBlank c = false) : trimmed cs = cs := by
  have hr : ∀ c ∈ cs.reverse, isBlank c = false := fun c hc => h c (List.mem_reverse.1 hc)
  simp [trimmed, dropWhile_eq_self h, dropWhile_eq_self hr]

theorem toNat_of_isDigit {c : Char} (h : c.isDigit = true) : 48 ≤ c.toNat ∧ c.toNat ≤ 57 := by
  simpa [Char.isDigit, UInt32.le_iff_toNat_le] using h

theorem isBlank_of_isDigit {c : Char} (h : c.isDigit = true) : isBlank c = false := by
  have hd := toNat_of_isDigit h
  unfold isBlank
  grind

theorem isDigit_of_mem_toDigits {n : Nat} {c : Char} (h : c ∈ Nat.toDigits 10 n) :
    c.isDigit = true :=
  Nat.isDigit_of_mem_toDigits (by decide) (by decide) h

theorem isDigit_of_mem_repr {n : Nat} {c : Char} (h : c ∈ n.repr.toList) : c.isDigit = true := by
  rw [Nat.toList_repr] at h
  exact isDigit_of_mem_toDigits h

theorem natOf?_eq_some_iff {cs : List Char} {n : Nat} :
    natOf? cs = some n ↔
      cs ≠ [] ∧ (∀ c ∈ cs, c.isDigit = true) ∧ Nat.ofDigitChars 10 cs 0 = n := by
  simp [natOf?, and_assoc]

theorem intOf?_minus (cs : List Char) :
    intOf? ('-' :: cs) = (natOf? cs).map fun n => -(Int.ofNat n) := by
  cases h : natOf? cs <;> simp [intOf?, h]

theorem intOf?_unsigned {cs : List Char} (plus : ∀ rest, cs ≠ '+' :: rest)
    (minus : ∀ rest, cs ≠ '-' :: rest) : intOf? cs = (natOf? cs).map Int.ofNat := by
  unfold intOf?
  split
  next rest => exact absurd rfl (plus rest)
  next rest => exact absurd rfl (minus rest)
  next => rfl

theorem intOf?_digits {digits : List Char} (ne : digits ≠ [])
    (h : ∀ c ∈ digits, c.isDigit = true) :
    intOf? digits = some (Nat.ofDigitChars 10 digits 0 : Int) := by
  have unsigned (sign : Char) (no : sign.isDigit = false) (rest : List Char) :
      digits ≠ sign :: rest := by
    rintro rfl
    simp [no] at h
  rw [intOf?_unsigned (unsigned '+' rfl) (unsigned '-' rfl), natOf?_eq_some_iff.2 ⟨ne, h, rfl⟩]
  rfl

theorem intOf?_repr (n : Int) : intOf? n.repr.toList = some n := by
  cases n with
  | ofNat m =>
    have digits := natOf?_eq_some_iff.1 (natOf?_toDigits m)
    rw [Int.repr, Nat.toList_repr, intOf?_digits digits.1 digits.2.1, digits.2.2]
    rfl
  | negSucc m =>
    have sign : "-".toList = ['-'] := rfl
    rw [Int.repr, String.toList_append, Nat.toList_repr, sign, List.singleton_append, intOf?_minus,
      natOf?_toDigits]
    rfl

theorem isBlank_of_mem_repr {n : Int} {c : Char} (h : c ∈ n.repr.toList) : isBlank c = false := by
  cases n with
  | ofNat m => exact isBlank_of_isDigit (isDigit_of_mem_repr h)
  | negSucc m =>
    simp only [Int.repr, String.toList_append, List.mem_append] at h
    rcases h with h | h
    · obtain rfl : c = '-' := by simpa using h
      rfl
    · exact isBlank_of_isDigit (isDigit_of_mem_repr h)

theorem int64?_eq_some_iff {n : Int} {k : Int64} : int64? n = some k ↔ k.toInt = n := by
  have hlo := k.le_toInt
  have hhi := k.toInt_lt
  unfold int64?
  split
  next range =>
    rw [Option.some.injEq]
    constructor
    · rintro rfl
      exact Int64.toInt_ofInt_of_le range.1 (by omega)
    · rintro rfl
      exact Int64.ofInt_toInt k
  next out =>
    refine iff_of_false nofun ?_
    rintro rfl
    omega

/-- ASCII digits, at least one, with at most one sign in front, and the number they stand for. -/
inductive Numeral : List Char → Int → Prop where
  | plain {digits : List Char} (ne : digits ≠ []) (h : ∀ c ∈ digits, c.isDigit = true) :
      Numeral digits (Nat.ofDigitChars 10 digits 0)
  | plus {digits : List Char} (ne : digits ≠ []) (h : ∀ c ∈ digits, c.isDigit = true) :
      Numeral ('+' :: digits) (Nat.ofDigitChars 10 digits 0)
  | minus {digits : List Char} (ne : digits ≠ []) (h : ∀ c ∈ digits, c.isDigit = true) :
      Numeral ('-' :: digits) (-(Nat.ofDigitChars 10 digits 0 : Int))

theorem intOf?_eq_some_iff {cs : List Char} {n : Int} : intOf? cs = some n ↔ Numeral cs n := by
  constructor
  · intro read
    by_cases plus : ∃ rest, cs = '+' :: rest
    · obtain ⟨rest, rfl⟩ := plus
      obtain ⟨m, digits, rfl⟩ := Option.map_eq_some_iff.1 read
      obtain ⟨ne, all, rfl⟩ := natOf?_eq_some_iff.1 digits
      exact .plus ne all
    by_cases minus : ∃ rest, cs = '-' :: rest
    · obtain ⟨rest, rfl⟩ := minus
      rw [intOf?_minus] at read
      obtain ⟨m, digits, rfl⟩ := Option.map_eq_some_iff.1 read
      obtain ⟨ne, all, rfl⟩ := natOf?_eq_some_iff.1 digits
      exact .minus ne all
    · rw [intOf?_unsigned (not_exists.1 plus) (not_exists.1 minus)] at read
      obtain ⟨m, digits, rfl⟩ := Option.map_eq_some_iff.1 read
      obtain ⟨ne, all, rfl⟩ := natOf?_eq_some_iff.1 digits
      exact .plain ne all
  · intro numeral
    cases numeral with
    | plain ne all => exact intOf?_digits ne all
    | plus ne all =>
      rw [intOf?, natOf?_eq_some_iff.2 ⟨ne, all, rfl⟩]
      rfl
    | minus ne all =>
      rw [intOf?_minus, natOf?_eq_some_iff.2 ⟨ne, all, rfl⟩]
      rfl

theorem int64Of?_eq_some_iff {cs : List Char} {k : Int64} :
    int64Of? cs = some k ↔ Numeral cs k.toInt := by
  rw [int64Of?, Option.bind_eq_some_iff]
  constructor
  · rintro ⟨n, read, range⟩
    rw [int64?_eq_some_iff.1 range]
    exact intOf?_eq_some_iff.1 read
  · intro numeral
    exact ⟨k.toInt, intOf?_eq_some_iff.2 numeral, int64?_eq_some_iff.2 rfl⟩

/-- Text that stands for a signed integer of 64 bits. -/
def IsInt64 (cs : List Char) : Prop := ∃ k : Int64, Numeral cs k.toInt

theorem isSome_int64Of?_iff {cs : List Char} : (int64Of? cs).isSome = true ↔ IsInt64 cs := by
  simp only [Option.isSome_iff_exists, int64Of?_eq_some_iff]
  rfl

instance : DecidablePred IsInt64 := fun _ => decidable_of_iff _ isSome_int64Of?_iff

/-- A signed integer of 64 bits is read back from its decimal text. -/
theorem int64Of?_repr (n : Int64) : int64Of? (trimmed n.toInt.repr.toList) = some n := by
  rw [trimmed_eq_self fun c hc => isBlank_of_mem_repr hc, int64Of?, intOf?_repr, Option.bind_some,
    int64?_eq_some_iff]

end Text
end ListQuery
