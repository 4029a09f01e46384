import ListQuery.Text.Blank
import Mathlib.Data.List.DropRight

/-! What trimming leaves: all of a text without blanks at its ends, and nothing exactly of a blank
text. -/
namespace ListQuery
namespace Text

variable {cs : List Char}

theorem trimmed_eq_rdropWhile (cs : List Char) :
    trimmed cs = (cs.dropWhile isBlank).rdropWhile isBlank := rfl

theorem trimmed_eq_nil_iff : trimmed cs = [] ↔ ∀ c ∈ cs, isBlank c = true := by
  rw [trimmed_eq_rdropWhile, List.rdropWhile_eq_nil_iff]
  constructor
  · intro rest c hc
    rw [← List.takeWhile_append_dropWhile (p := isBlank) (l := cs), List.mem_append] at hc
    rcases hc with front | back
    · exact List.mem_takeWhile_imp front
    · exact rest c back
  · intro all c hc
    exact all c (List.dropWhile_subset _ hc)

/-- What is left has no blank at either end. -/
theorem ends_trimmed (cs : List Char) :
    (∀ c ∈ (trimmed cs).head?, isBlank c = false) ∧
      ∀ c ∈ (trimmed cs).getLast?, isBlank c = false := by
  rw [trimmed_eq_rdropWhile]
  constructor
  · intro c first
    have start := List.head?_dropWhile_not isBlank cs
    obtain ⟨rest, front⟩ := List.head?_eq_some_iff.1 first
    obtain ⟨behind, whole⟩ := List.rdropWhile_prefix isBlank (cs.dropWhile isBlank)
    rw [← whole, front] at start
    exact start
  · intro c last
    have nonempty : (cs.dropWhile isBlank).rdropWhile isBlank ≠ [] := by
      intro empty
      simp [empty] at last
    rw [List.getLast?_eq_some_getLast nonempty] at last
    rw [← Option.some.inj last]
    exact Bool.eq_false_iff.2 (List.rdropWhile_last_not isBlank _ nonempty)

/-- `inner` is `cs` but for the blanks at both ends. -/
structure Trims (cs inner : List Char) : Prop where
  around : ∃ before after, cs = before ++ inner ++ after ∧
    (∀ b ∈ before, isBlank b = true) ∧ ∀ b ∈ after, isBlank b = true
  first : ∀ c ∈ inner.head?, isBlank c = false
  last : ∀ c ∈ inner.getLast?, isBlank c = false

theorem trims_trimmed (cs : List Char) : Trims cs (trimmed cs) where
  around := by
    refine ⟨cs.takeWhile isBlank, (cs.dropWhile isBlank).rtakeWhile isBlank, ?_,
      fun b => List.mem_takeWhile_imp, fun b => List.mem_rtakeWhile_imp⟩
    rw [trimmed_eq_rdropWhile, List.append_assoc, List.rdropWhile_append_rtakeWhile,
      List.takeWhile_append_dropWhile]
  first := (ends_trimmed cs).1
  last := (ends_trimmed cs).2

/-- There is only one way to trim. -/
theorem Trims.eq_trimmed {inner : List Char} (h : Trims cs inner) : inner = trimmed cs := by
  obtain ⟨before, after, rfl, blank, blank'⟩ := h.around
  by_cases empty : inner = []
  · subst empty
    rw [eq_comm, trimmed_eq_nil_iff]
    simpa [or_imp, forall_and] using And.intro blank blank'
  have front : (before ++ inner ++ after).dropWhile isBlank = inner ++ after := by
    obtain ⟨c, rest, rfl⟩ := List.exists_cons_of_ne_nil empty
    simp [List.dropWhile_append_of_pos blank, h.first c rfl]
  have back : inner.rdropWhile isBlank = inner :=
    List.rdropWhile_eq_self_iff.2 fun nonempty => by
      simp [h.last _ (List.getLast?_eq_some_getLast nonempty)]
  rw [trimmed_eq_rdropWhile, front, List.rdropWhile, List.reverse_append,
    List.dropWhile_append_of_pos (by simpa using blank')]
  exact back.symm

/-- Text that neither begins nor ends with a blank is not trimmed. -/
theorem trimmed_of_ends (first : ∀ c ∈ cs.head?, isBlank c = false)
    (last : ∀ c ∈ cs.getLast?, isBlank c = false) : trimmed cs = cs := by
  have whole : Trims cs cs := ⟨⟨[], [], by simp⟩, first, last⟩
  exact whole.eq_trimmed.symm

theorem trimmed_sublist (cs : List Char) : (trimmed cs).Sublist cs := by
  rw [trimmed_eq_rdropWhile]
  exact (List.rdropWhile_prefix _ _).sublist.trans (List.dropWhile_suffix _).sublist

theorem mem_of_mem_trimmed {c : Char} (h : c ∈ trimmed cs) : c ∈ cs :=
  (trimmed_sublist cs).subset h

/-- Text is blank, or it has a first character that is not. -/
theorem blank_or_exists_first (cs : List Char) :
    (∀ c ∈ cs, isBlank c = true) ∨
      ∃ blanks c rest, cs = blanks ++ c :: rest ∧ (∀ b ∈ blanks, isBlank b = true) ∧
        isBlank c = false := by
  have start := List.head?_dropWhile_not isBlank cs
  cases h : cs.dropWhile isBlank with
  | nil => exact .inl (List.dropWhile_eq_nil_iff.1 h)
  | cons c rest =>
    rw [h] at start
    refine .inr ⟨cs.takeWhile isBlank, c, rest, ?_, fun b => List.mem_takeWhile_imp, start⟩
    rw [← h, List.takeWhile_append_dropWhile]

end Text
end ListQuery
