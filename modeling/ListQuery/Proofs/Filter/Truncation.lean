import ListQuery.Filter.TextSearch
import ListQuery.Proofs.Text.Boundaries
import ListQuery.Proofs.Text.Trimming

/-! The part of a query that is looked at. It is the longest beginning of whole characters within
the limit, so that nothing is looked at exactly if the query is blank or starts too late. -/
namespace ListQuery
namespace TextSearch

open Utf8 (LongestWithin)

variable {query front : List Char}

theorem truncated?_eq (h : LongestWithin maxBytes query front) :
    truncated? query = some (Text.trimmed front) := by
  simp only [truncated?]
  split
  next short => rw [h.unique (.of_length_le short)]
  next => rw [h.boundary?_eq, Option.bind_some, Utf8.front?_encode h.begins, Option.map_some]

theorem truncated_eq (h : LongestWithin maxBytes query front) :
    truncated query = Text.trimmed front :=
  Option.get_of_eq_some _ (truncated?_eq h)

/-- What is looked at of a query is always found: its longest beginning of whole characters within
ten thousand bytes, without the blanks at its ends. If the query is longer, the search for the end
of that beginning takes three steps down from the limit at most, so that it stops above the first
byte, and the bytes are cut between two characters. -/
theorem truncated_longest (query : List Char) :
    ∃ front looked,
      LongestWithin 10000 query front ∧ Text.Trims front looked ∧
      truncated? query = some looked ∧ truncated query = looked ∧
      (String.ofList looked).utf8ByteSize ≤ 10000 ∧
      ((String.ofList query).utf8ByteSize ≤ 10000 → front = query) ∧
      (10000 < (String.ofList query).utf8ByteSize →
        let stop := (String.ofList front).utf8ByteSize
        Utf8.boundary? (Utf8.encode query) 10000 = some stop ∧ 10000 ≤ stop + 3 ∧
          Utf8.front? (Utf8.encode query) stop = some front) := by
  obtain ⟨front, h, -⟩ := Utf8.exists_longestWithin maxBytes query
  have fits := h.fits
  refine ⟨front, Text.trimmed front, h, Text.trims_trimmed front, truncated?_eq h, truncated_eq h,
    ?_, ?_, ?_⟩
  · simp only [Utf8.utf8ByteSize_ofList] at fits ⊢
    exact (Utf8.length_encode_le_of_sublist (Text.trimmed_sublist front)).trans fits
  · intro short
    rw [Utf8.utf8ByteSize_ofList] at short
    exact h.unique (.of_length_le short)
  · intro long stop
    simp only [stop, Utf8.utf8ByteSize_ofList] at long ⊢
    exact ⟨h.boundary?_eq, h.le_add_three long.le, Utf8.front?_encode h.begins⟩

/-- A short query keeps all but its blanks. The limit is within the last character of the long one,
so that the search takes a step. -/
theorem truncated_longest_withinCharacter :
    let short := [' ', 'é', ' ']
    let query := 'a' :: List.replicate 5000 'é'
    ((String.ofList short).utf8ByteSize ≤ 10000 ∧ truncated? short = some ['é']) ∧
      10000 < (String.ofList query).utf8ByteSize ∧
      truncated? query = some ('a' :: List.replicate 4999 'é') ∧
      Utf8.boundary? (Utf8.encode query) 10000 = some 9999 := by
  intro short query
  have fits : (String.ofList short).utf8ByteSize ≤ 10000 := by
    rw [Utf8.utf8ByteSize_ofList]
    decide
  have shortened : truncated? short = some ['é'] := by
    obtain ⟨front, looked, -, trims, found, -, -, whole, -⟩ := truncated_longest short
    rw [found, trims.eq_trimmed, whole fits]
    rfl
  have bytes (n : Nat) : (Utf8.encode ('a' :: List.replicate n 'é')).length = 2 * n + 1 := by
    simp [Utf8.encode, Utf8.width, Nat.mul_comm, Nat.add_comm]
  have long : 10000 < (String.ofList query).utf8ByteSize := by
    rw [Utf8.utf8ByteSize_ofList, bytes]
    decide
  have parts : query = ('a' :: List.replicate 4999 'é') ++ ['é'] := by
    rw [List.cons_append, ← List.replicate_succ']
  have kept : LongestWithin 10000 query ('a' :: List.replicate 4999 'é') := by
    rw [parts]
    apply LongestWithin.of_next
    · rw [bytes]
      decide
    · rw [← parts, bytes]
      decide
  obtain ⟨front, looked, h, trims, found, -, -, -, cut⟩ := truncated_longest query
  obtain rfl := h.unique kept
  have ends (c : Char) (hc : c ∈ 'a' :: List.replicate 4999 'é') : Text.isBlank c = false := by
    rcases List.mem_cons.1 hc with rfl | hc
    · rfl
    · rw [List.eq_of_mem_replicate hc]
      rfl
  have untrimmed := Text.trimmed_of_ends (fun c hc => ends c (List.mem_of_mem_head? hc))
    (fun c hc => ends c (List.mem_of_mem_getLast? hc))
  refine ⟨⟨fits, shortened⟩, long, by rw [found, trims.eq_trimmed, untrimmed], ?_⟩
  rw [(cut long).1, Utf8.utf8ByteSize_ofList, bytes]

/-- The first character that is not blank does not end within the limit. -/
def StartsLate (query : List Char) : Prop :=
  ∃ c ∈ (query.dropWhile Text.isBlank).head?,
    maxBytes < (Utf8.encode (query.takeWhile Text.isBlank ++ [c])).length

section First

variable {blanks rest : List Char} {c : Char}

theorem startsLate_iff (blank : ∀ b ∈ blanks, Text.isBlank b = true)
    (first : Text.isBlank c = false) :
    StartsLate (blanks ++ c :: rest) ↔ maxBytes < (Utf8.encode (blanks ++ [c])).length := by
  simp [StartsLate, List.takeWhile_append_of_pos blank, List.dropWhile_append_of_pos blank, first]

/-- The longest beginning within a limit is blank if the first character that is not is past it. -/
theorem blank_of_longest_iff (blank : ∀ b ∈ blanks, Text.isBlank b = true)
    (first : Text.isBlank c = false) {budget : Nat}
    (h : LongestWithin budget (blanks ++ c :: rest) front) :
    (∀ d ∈ front, Text.isBlank d = true) ↔ budget < (Utf8.encode (blanks ++ [c])).length := by
  constructor
  · intro all
    by_contra fits
    have whole := h.longest (blanks ++ [c]) ⟨rest, by simp⟩
      (by rw [Utf8.utf8ByteSize_ofList]; exact Nat.not_lt.1 fits)
    simp [all c (whole.subset (by simp))] at first
  · intro late d hd
    have fits := h.fits
    rw [Utf8.utf8ByteSize_ofList] at fits
    have shorter := Utf8.isPrefix_of_length_encode_lt h.begins (fits.trans_lt late)
    exact blank d (shorter.subset hd)

end First

theorem not_startsLate_of_short {query : List Char}
    (short : (Utf8.encode query).length ≤ maxBytes) : ¬ StartsLate query := by
  rcases Text.blank_or_exists_first query with all | ⟨blanks, c, rest, rfl, blank, first⟩
  · simp [StartsLate, List.dropWhile_eq_nil_iff.2 all]
  · rw [startsLate_iff blank first]
    rw [List.append_cons, Utf8.encode_append, List.length_append] at short
    omega

/-- Nothing is looked at exactly of a query that is blank or starts late. -/
theorem truncated_eq_nil_iff {query : List Char} :
    truncated query = [] ↔ Text.trimmed query = [] ∨ StartsLate query := by
  obtain ⟨front, h, -⟩ := Utf8.exists_longestWithin maxBytes query
  rw [truncated_eq h, Text.trimmed_eq_nil_iff, Text.trimmed_eq_nil_iff]
  rcases Text.blank_or_exists_first query with all | ⟨blanks, c, rest, rfl, blank, first⟩
  · exact iff_of_true (fun c hc => all c (h.begins.subset hc)) (.inl all)
  · have some : ¬ ∀ d ∈ blanks ++ c :: rest, Text.isBlank d = true := by
      intro all
      simp [all c (by simp)] at first
    rw [blank_of_longest_iff blank first h, startsLate_iff blank first, or_iff_right some]

end TextSearch
end ListQuery
