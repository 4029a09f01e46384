import ListQuery.Text.Blank

/-! Words of a text. A blank parts the words before it from the words behind it, so that what is
said of words is shown of texts without blanks and carried over the blanks of any other. -/
namespace ListQuery
namespace Text

section Blank

variable {c : Char} (front rest : List Char) (blank : isBlank c = true)
include blank

theorem takeWhile_append_blank :
    (front ++ c :: rest).takeWhile (!isBlank ·) = front.takeWhile (!isBlank ·) := by
  rw [List.takeWhile_append]
  split
  next whole =>
    rw [(List.takeWhile_sublist _).eq_of_length whole,
      List.takeWhile_cons_of_neg (by simp [blank]), List.append_nil]
  next => rfl

theorem dropWhile_append_blank :
    (front ++ c :: rest).dropWhile (!isBlank ·) = front.dropWhile (!isBlank ·) ++ c :: rest := by
  rw [List.dropWhile_append]
  split
  next whole =>
    rw [List.isEmpty_iff.1 whole, List.dropWhile_cons_of_neg (by simp [blank]), List.nil_append]
  next => rfl

theorem wordsOf_append_blank : wordsOf (front ++ c :: rest) = wordsOf front ++ wordsOf rest := by
  rw [wordsOf, List.splitOnP_append_cons front rest blank, List.filter_append]
  rfl

end Blank

/-- Text without blanks is one word. -/
theorem wordsOf_word {word : List Char} (h : ∀ c ∈ word, isBlank c = false)
    (nonempty : word ≠ []) : wordsOf word = [word] := by
  rw [wordsOf, List.splitOnP_eq_singleton h]
  simp [nonempty]

/-- What is true of texts without separators and passes on to texts with a separator between them is
true of every text. -/
@[elab_as_elim]
theorem induction_on_separators (p : Char → Bool) {motive : List Char → Prop} (cs : List Char)
    (piece : ∀ cs, (∀ c ∈ cs, p c = false) → motive cs)
    (append : ∀ front c rest, p c = true → motive front → motive rest →
      motive (front ++ c :: rest)) : motive cs := by
  induction length : cs.length using Nat.strongRecOn generalizing cs with
  | ind n ih =>
    by_cases separated : ∃ c ∈ cs, p c = true
    · -- Any separator will do for the cut: both sides of it are shorter.
      obtain ⟨c, mem, hc⟩ := separated
      obtain ⟨front, rest, rfl⟩ := List.append_of_mem mem
      rw [List.length_append, List.length_cons] at length
      exact append front c rest hc (ih front.length (by omega) front rfl)
        (ih rest.length (by omega) rest rfl)
    · exact piece cs fun c hc => Bool.eq_false_iff.2 fun h => separated ⟨c, hc, h⟩

@[elab_as_elim]
theorem induction_on_blanks {motive : List Char → Prop} (cs : List Char)
    (word : ∀ cs, (∀ c ∈ cs, isBlank c = false) → motive cs)
    (append : ∀ front c rest, isBlank c = true → motive front → motive rest →
      motive (front ++ c :: rest)) : motive cs :=
  induction_on_separators isBlank cs word append

theorem of_mem_wordsOf {cs word : List Char} (h : word ∈ wordsOf cs) :
    word ≠ [] ∧ ∀ c ∈ word, isBlank c = false ∧ c ∈ cs := by
  induction cs using induction_on_blanks with
  | word cs none =>
    by_cases empty : cs = []
    · simp [empty] at h
    · rw [wordsOf_word none empty, List.mem_singleton] at h
      subst h
      exact ⟨empty, fun c hc => ⟨none c hc, hc⟩⟩
  | append front c rest blank first second =>
    rw [wordsOf_append_blank front rest blank, List.mem_append] at h
    rcases h with h | h
    · exact (first h).imp_right fun all d hd =>
        (all d hd).imp_right fun mem => List.mem_append_left _ mem
    · exact (second h).imp_right fun all d hd =>
        (all d hd).imp_right fun mem => List.mem_append_right _ (List.mem_cons_of_mem _ mem)

end Text
end ListQuery
