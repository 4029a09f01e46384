import ListQuery.Proofs.Filter.WebQuery
import ListQuery.Proofs.Text.Integer
import ListQuery.Proofs.Text.Words

/-! Web queries word by word. What is read of a query without quotes up to a blank does not depend
on what follows, so that such a query is read as its words are, each on its own, and the word `or`
parts it from any other query. -/
namespace ListQuery
namespace WebQuery

section Blank

variable {c d : Char} (text rest : List Char)

/-- A word ends at a blank, whatever follows it. -/
theorem lexeme_append_blank (negated : Bool) (quote : d ≠ '"') (blank : Text.isBlank c = true) :
    lexeme negated d (text ++ c :: rest) =
      ((lexeme negated d text).1, (lexeme negated d text).2 ++ c :: rest) := by
  simp only [lexeme, if_neg quote, Text.takeWhile_append_blank text rest blank,
    Text.dropWhile_append_blank text rest blank]

theorem quote_notMem_lexeme (negated : Bool) (quote : d ≠ '"') (h : '"' ∉ text) :
    '"' ∉ (lexeme negated d text).2 := by
  rw [lexeme, if_neg quote]
  exact fun mem => h (List.dropWhile_subset _ mem)

theorem scan_dash_blank (blank : Text.isBlank c = true) : scan ('-' :: c :: rest) = scan rest := by
  have dash : Text.isBlank '-' = false := by decide
  simp [scan.eq_def ('-' :: c :: rest), blank, dash]

end Blank

/-- Up to a blank a query without quotes is read by itself: no word goes on behind the blank, and a
dash at the end stands alone. -/
theorem scan_append_blank {query : List Char} (h : '"' ∉ query) {c : Char}
    (blank : Text.isBlank c = true) (rest : List Char) :
    scan (query ++ c :: rest) = scan query ++ scan rest := by
  fun_induction scan query with
  | case1 => exact scan_blank rest blank
  | case2 d ds first ih =>
    rw [List.cons_append, scan_blank _ first, ih (List.not_mem_of_not_mem_cons h)]
  -- The query ends with a dash, which the blank makes one that stands alone.
  | case3 => exact scan_dash_blank rest blank
  | case4 d ds alone _ ih =>
    have behind := List.not_mem_of_not_mem_cons (List.not_mem_of_not_mem_cons h)
    rw [List.cons_append, List.cons_append, scan_dash_blank _ alone, ih behind]
  | case5 d ds first _ ih =>
    have word := List.not_mem_of_not_mem_cons h
    have quote : d ≠ '"' := (List.ne_of_not_mem_cons word).symm
    have behind := quote_notMem_lexeme ds true quote (List.not_mem_of_not_mem_cons word)
    rw [List.cons_append, List.cons_append, scan_dash _ (Bool.eq_false_iff.2 first),
      lexeme_append_blank ds rest true quote blank, ih behind, List.append_assoc]
  | case6 d ds first dash ih =>
    have quote : d ≠ '"' := (List.ne_of_not_mem_cons h).symm
    have behind := quote_notMem_lexeme ds false quote (List.not_mem_of_not_mem_cons h)
    rw [List.cons_append, scan_lexeme _ (Bool.eq_false_iff.2 first) dash,
      lexeme_append_blank ds rest false quote blank, ih behind, List.append_assoc]

theorem scan_append_or {query : List Char} (h : '"' ∉ query) (rest : List Char) :
    scan (query ++ [' ', 'o', 'r', ' '] ++ rest) = scan query ++ .or :: scan rest := by
  have blank : Text.isBlank ' ' = true := by decide
  rw [← scan_or rest, List.append_assoc]
  simp only [List.cons_append, List.nil_append]
  rw [scan_append_blank h blank, scan_blank _ blank]

/-- The word `or` behind a query without quotes parts its alternatives from those of any text. -/
theorem groups_append_or (query rest : List Char) (h : '"' ∉ query) :
    groups (query ++ [' ', 'o', 'r', ' '] ++ rest) = groups query ++ groups rest := by
  have parts := List.splitOnP_append_cons (p := (· == Lexeme.or)) (scan query) (scan rest)
    (beq_self_eq_true _)
  simp only [groups, scan_append_or h, parts, List.map_append, List.filter_append]

/-- A dash and the word `or` at the end of the first query count for nothing, and the second one may
hold a phrase that is not closed. -/
theorem groups_append_or_dash :
    '"' ∉ "phone OR -".toList ∧
      groups "phone OR - or \"black or".toList =
        [[⟨"phone".toList, false⟩], [⟨"black or".toList, false⟩]] := by
  have quotes : '"' ∉ "phone OR -".toList := by decide
  have front : groups "phone OR -".toList = [[⟨"phone".toList, false⟩]] := by decide +kernel
  have back : groups "\"black or".toList = [[⟨"black or".toList, false⟩]] := by decide +kernel
  have parts := groups_append_or "phone OR -".toList "\"black or".toList quotes
  rw [front, back] at parts
  exact ⟨quotes, parts⟩

/-- A phrase that is still open takes the word `or` in. -/
example :
    groups "\"phone or tablet".toList = [[⟨"phone or tablet".toList, false⟩]] := by
  decide +kernel

/-- A query without quotes is read as its words are, each on its own. -/
theorem scan_eq_flatMap_words {query : List Char} (h : '"' ∉ query) :
    scan query = (Text.wordsOf query).flatMap scan := by
  induction query using Text.induction_on_blanks with
  | word query none =>
    by_cases empty : query = []
    · simp [empty]
    · rw [Text.wordsOf_word none empty, List.flatMap_singleton]
  | append front c rest blank first second =>
    rw [List.mem_append, not_or] at h
    rw [scan_append_blank h.1 blank, Text.wordsOf_append_blank front rest blank,
      List.flatMap_append, first h.1, second (List.not_mem_of_not_mem_cons h.2)]

/-- Words that ask for nothing but themselves: no quotes, no dash in front, and not the word `or` in
any mixture of cases. -/
structure IsPlain (query : List Char) : Prop where
  no_quote : '"' ∉ query
  no_dash : ∀ word ∈ Text.wordsOf query, word.head? ≠ some '-'
  no_or : ∀ word ∈ Text.wordsOf query, word.map Char.toLower ≠ ['o', 'r']

theorem toLower_of_isOr {word : List Char} (h : isOr word = true) :
    word.map Char.toLower = ['o', 'r'] := by
  unfold isOr at h
  split at h
  next a b =>
    simp only [Bool.and_eq_true, Bool.or_eq_true, beq_iff_eq] at h
    obtain ⟨rfl | rfl, rfl | rfl⟩ := h <;> rfl
  next => cases h

theorem scan_word {word : List Char} (nonempty : word ≠ [])
    (blank : ∀ c ∈ word, Text.isBlank c = false) (quote : '"' ∉ word)
    (dash : word.head? ≠ some '-') (alternative : word.map Char.toLower ≠ ['o', 'r']) :
    scan word = [.term ⟨word, false⟩] := by
  obtain ⟨d, ds, rfl⟩ := List.exists_cons_of_ne_nil nonempty
  have first := blank d List.mem_cons_self
  have term : isOr (d :: ds) = false := Bool.eq_false_iff.2 fun same =>
    alternative (toLower_of_isOr same)
  have whole : ∀ c ∈ ds, (!Text.isBlank c) = true := fun c hc => by
    simp [blank c (List.mem_cons_of_mem _ hc)]
  have read : lexeme false d ds = (some (.term ⟨d :: ds, false⟩), []) := by
    rw [lexeme, if_neg (List.ne_of_not_mem_cons quote).symm, List.takeWhile_eq_self_iff.2 whole,
      List.dropWhile_eq_nil_iff.2 whole]
    simp [term, termOf?, Text.trimmed_eq_self blank]
  rw [scan_lexeme ds first (fun same => dash (congrArg some same)), read, scan_nil]
  rfl

theorem scan_plain {query : List Char} (h : IsPlain query) :
    scan query = (Text.wordsOf query).map fun word => .term ⟨word, false⟩ := by
  rw [scan_eq_flatMap_words h.no_quote, List.map_eq_flatMap]
  apply List.flatMap_congr
  intro word mem
  obtain ⟨nonempty, letters⟩ := Text.of_mem_wordsOf mem
  exact scan_word nonempty (fun c hc => (letters c hc).1)
    (fun quote => h.no_quote (letters _ quote).2) (h.no_dash word mem) (h.no_or word mem)

/-- The alternatives that lexemes make up. -/
def alternatives (ls : List Lexeme) : List (List Term) :=
  ((ls.splitOnP (· == .or)).map (·.filterMap Lexeme.term?)).filter (!·.isEmpty)

theorem groups_eq (query : List Char) : groups query = alternatives (scan query) := rfl

/-- Terms with no `or` between them are one alternative, if there are any. -/
theorem alternatives_terms (g : List Term) :
    alternatives (g.map .term) = if g = [] then [] else [g] := by
  have apart : ∀ l ∈ g.map Lexeme.term, (l == Lexeme.or) = false := by simp
  have terms : (g.map Lexeme.term).filterMap Lexeme.term? = g := by
    rw [List.filterMap_map]
    exact List.filterMap_some
  rw [alternatives, List.splitOnP_eq_singleton apart, List.map_singleton, terms]
  split
  next none => simp [none]
  next some => simp [some]

theorem groups_of_scan {query : List Char} {g : List Term} (h : scan query = g.map .term) :
    groups query = if g = [] then [] else [g] := by
  rw [groups_eq, h, alternatives_terms]

end WebQuery
end ListQuery
