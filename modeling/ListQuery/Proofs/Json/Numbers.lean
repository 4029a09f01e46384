import ListQuery.Json.Printer
import ListQuery.Proofs.Binary64.Shortest
import ListQuery.Proofs.Text.Digits

/-! The form of the numbers in JSON text, which integers and floats are printed in alike. -/
namespace ListQuery
namespace Json

open Binary64 Text

/-- Digits without a zero in front that could be left out. -/
structure IsWhole (cs : List Char) : Prop where
  nonempty : cs ≠ []
  digits : ∀ c ∈ cs, c.isDigit = true
  regular : NoLeadingZero cs

inductive IsFraction : List Char → Prop where
  | none : IsFraction []
  | point {cs : List Char} (nonempty : cs ≠ []) (digits : ∀ c ∈ cs, c.isDigit = true) :
      IsFraction ('.' :: cs)

inductive IsExponent : List Char → Prop where
  | none : IsExponent []
  | mark (e : Int) : IsExponent ('e' :: Json.signed e)

/-- The text of a number apart from its sign. -/
inductive IsNumber : List Char → Prop where
  | parts {whole fraction exponent : List Char} (front : IsWhole whole)
      (behind : IsFraction fraction) (scale : IsExponent exponent) :
      IsNumber (whole ++ fraction ++ exponent)

theorem IsNumber.head {cs : List Char} (number : IsNumber cs) :
    ∃ c rest, cs = c :: rest ∧ c.isDigit = true := by
  obtain ⟨⟨ne, digits, -⟩, -, -⟩ := number
  obtain ⟨c, tail, rfl⟩ := List.exists_cons_of_ne_nil ne
  exact ⟨c, _, rfl, digits c List.mem_cons_self⟩

section Forms

variable {cs fraction : List Char} {e : Int}

theorem isDigit_of_mem_replicate {n : Nat} {c : Char} (h : c ∈ List.replicate n '0') :
    c.isDigit = true := by
  rw [List.eq_of_mem_replicate h]
  rfl

theorem isWhole_singleton {c : Char} (digit : c.isDigit = true) : IsWhole [c] where
  nonempty := List.cons_ne_nil c []
  digits := List.forall_mem_singleton.2 digit
  regular head := congrArg ([·]) (Option.some.inj head)

theorem isWhole_of_head (ne : cs ≠ []) (digits : ∀ c ∈ cs, c.isDigit = true)
    (head : cs.head? ≠ some '0') : IsWhole cs :=
  ⟨ne, digits, fun zero => absurd zero head⟩

theorem isWhole_toDigits (n : Nat) : IsWhole (Nat.toDigits 10 n) := by
  rcases Nat.eq_zero_or_pos n with rfl | pos
  · exact isWhole_singleton rfl
  · exact isWhole_of_head Nat.toDigits_ne_nil (fun c => isDigit_of_mem_toDigits)
      (head?_toDigits pos)

theorem IsWhole.isNumber (whole : IsWhole cs) : IsNumber cs := by
  have number := IsNumber.parts whole .none .none
  rwa [List.append_nil, List.append_nil] at number

theorem IsWhole.isNumber_point (whole : IsWhole cs) (ne : fraction ≠ [])
    (digits : ∀ c ∈ fraction, c.isDigit = true) : IsNumber (cs ++ '.' :: fraction) := by
  have number := IsNumber.parts whole (.point ne digits) .none
  rwa [List.append_nil] at number

/-- Without an exponent, zeros are written out; they may not come behind a single zero. -/
theorem IsWhole.isNumber_positional (whole : IsWhole cs) (zero : cs.head? = some '0' → e = 0) :
    IsNumber (positional cs e ++ if 0 ≤ e then ['.', '0'] else []) := by
  have last : ∀ c ∈ ['0'], c.isDigit = true := List.forall_mem_singleton.2 rfl
  have nonzero : e ≠ 0 → cs.head? ≠ some '0' := fun exponent head => exponent (zero head)
  unfold positional
  split
  next =>
    refine IsWhole.isNumber_point ?_ (List.cons_ne_nil _ _) last
    by_cases same : e = 0
    · rwa [same, Int.toNat_zero, List.replicate_zero, List.append_nil]
    · refine isWhole_of_head (by simp [whole.nonempty]) ?_ ?_
      · intro c mem
        exact (List.mem_append.1 mem).elim (whole.digits c) isDigit_of_mem_replicate
      · rw [List.head?_append_of_ne_nil _ whole.nonempty]
        exact nonzero same
  next fractional =>
    have places : 0 < (-e).toNat := by omega
    simp only [List.append_nil]
    split
    next longer =>
      refine IsWhole.isNumber_point (isWhole_of_head ?_ ?_ ?_) ?_ ?_
      · simp only [ne_eq, List.take_eq_nil_iff, whole.nonempty, or_false]
        omega
      · exact fun c mem => whole.digits c (List.mem_of_mem_take mem)
      · rw [List.head?_take, if_neg (by omega)]
        exact nonzero (by omega)
      · simp only [ne_eq, List.drop_eq_nil_iff]
        omega
      · exact fun c mem => whole.digits c (List.mem_of_mem_drop mem)
    next =>
      refine (isWhole_singleton rfl).isNumber_point (by simp [whole.nonempty]) ?_
      intro c mem
      exact (List.mem_append.1 mem).elim isDigit_of_mem_replicate (whole.digits c)

/-- With an exponent, the first digit stands before the point. -/
theorem IsWhole.isNumber_scientific (whole : IsWhole cs) (lead : Int) :
    IsNumber (cs.take 1 ++ (if (cs.drop 1).isEmpty then [] else '.' :: cs.drop 1) ++
      'e' :: Json.signed lead) := by
  obtain ⟨c, tail, rfl⟩ := List.exists_cons_of_ne_nil whole.nonempty
  obtain ⟨digit, digits⟩ := List.forall_mem_cons.1 whole.digits
  refine .parts (isWhole_singleton digit) ?_ (.mark lead)
  cases tail with
  | nil => exact .none
  | cons d ds => exact .point (List.cons_ne_nil d ds) digits

end Forms

/-- A float is printed as a number behind its sign. -/
theorem floatChars_form (x : Binary64) :
    ∃ negative size, IsNumber size ∧ floatChars x = Text.signed negative size := by
  refine ⟨x.isNegative, _, ?_, rfl⟩
  split
  next =>
    exact (isWhole_singleton (c := '0') rfl).isNumber_point (List.cons_ne_nil _ _)
      (List.forall_mem_singleton.2 rfl)
  next =>
    rcases shortest : x.shortest .even with ⟨d, e⟩
    have zero : (Nat.toDigits 10 d).head? = some '0' → e = 0 := by
      intro head
      by_contra exponent
      exact head?_toDigits (pos_of_shortest shortest exponent) head
    simp only
    split
    next => exact (isWhole_toDigits d).isNumber_positional zero
    next => exact (isWhole_toDigits d).isNumber_scientific _

theorem chars_ofNat (n : Nat) : chars (.int (.ofNat n)) = Nat.toDigits 10 n := Nat.toList_repr

theorem chars_negSucc (n : Nat) : chars (.int (.negSucc n)) = '-' :: Nat.toDigits 10 (n + 1) := by
  rw [chars, Int.repr, String.toList_append, Nat.toList_repr]
  rfl

/-- An integer is printed as a number behind its sign. -/
theorem chars_int_form (n : Int) :
    ∃ negative size, IsNumber size ∧ chars (.int n) = Text.signed negative size := by
  cases n with
  | ofNat m => exact ⟨false, _, (isWhole_toDigits m).isNumber, chars_ofNat m⟩
  | negSucc m => exact ⟨true, _, (isWhole_toDigits (m + 1)).isNumber, chars_negSucc m⟩

end Json
end ListQuery
