import ListQuery.Proofs.Filter.Words
import Mathlib.Logic.Function.Iterate

/-! Web queries iteration by iteration: one takes a blank, a dash, a word or a phrase off the text,
and the word `or` closes the alternative that is open. What each iteration keeps is that nothing is
invented, repeated or reordered, and that no empty alternative is closed. -/
namespace ListQuery
namespace WebQuery

/-- Text that is asked for: not empty, without blanks at its ends. -/
structure Term.WellFormed (t : Term) : Prop where
  text_ne : t.text ≠ []
  first : ∀ c ∈ t.text.head?, Text.isBlank c = false
  last : ∀ c ∈ t.text.getLast?, Text.isBlank c = false

/-- The text of a term; the word `or` is not text that is asked for. -/
def Lexeme.text (l : Lexeme) : List Char := l.term?.toList.flatMap Term.text

def Lexeme.WellFormed (l : Lexeme) : Prop := ∀ t ∈ l.term?, t.WellFormed

section Lexeme

variable {negated : Bool} {c : Char} {cs text : List Char} {l : Lexeme}

theorem of_termOf? (h : l ∈ termOf? negated text) : l.WellFormed ∧ l.text = Text.trimmed text := by
  unfold termOf? at h
  dsimp only at h
  split at h
  next => cases h
  next nonempty =>
    obtain rfl := Option.some.inj h
    obtain ⟨first, last⟩ := Text.ends_trimmed text
    refine ⟨?_, by simp [Lexeme.text, Lexeme.term?]⟩
    rintro t ⟨⟩
    exact ⟨fun empty => nonempty (List.isEmpty_iff.2 empty), first, last⟩

/-- The text of a lexeme and what is left behind it stand in the text in this order. -/
theorem of_lexeme (h : l ∈ (lexeme negated c cs).1) :
    l.WellFormed ∧ (l.text ++ (lexeme negated c cs).2).Sublist (c :: cs) := by
  unfold lexeme at h ⊢
  split at h
  next quote =>
    obtain ⟨wellFormed, text⟩ := of_termOf? h
    rw [if_pos quote, text]
    have parts := (Text.trimmed_sublist (cs.takeWhile (· != '"'))).append
      (List.drop_sublist 1 (cs.dropWhile (· != '"')))
    rw [List.takeWhile_append_dropWhile] at parts
    exact ⟨wellFormed, parts.cons c⟩
  next quote =>
    rw [if_neg quote]
    have whole : c :: cs.takeWhile (!Text.isBlank ·) ++ cs.dropWhile (!Text.isBlank ·) = c :: cs :=
      congrArg (c :: ·) List.takeWhile_append_dropWhile
    dsimp only at h
    split at h
    next =>
      obtain rfl := Option.some.inj h
      refine ⟨by simp [Lexeme.WellFormed, Lexeme.term?], ?_⟩
      exact (List.dropWhile_suffix _).sublist.cons c
    next =>
      obtain ⟨wellFormed, text⟩ := of_termOf? h
      rw [text]
      have parts := (Text.trimmed_sublist (c :: cs.takeWhile (!Text.isBlank ·))).append
        (List.Sublist.refl (cs.dropWhile (!Text.isBlank ·)))
      rw [whole] at parts
      exact ⟨wellFormed, parts⟩

theorem lexeme_suffix : (lexeme negated c cs).2 <:+ cs := by
  unfold lexeme
  split
  · exact (List.drop_suffix _ _).trans (List.dropWhile_suffix _)
  · exact List.dropWhile_suffix _

end Lexeme

/-- One iteration on a text that begins with `c`: what it reads, if anything, and what it leaves. -/
def advance (c : Char) (cs : List Char) : Option Lexeme × List Char :=
  if Text.isBlank c then (none, cs)
  else if c = '-' then
    match cs with
    | [] => (none, [])
    | d :: ds => if Text.isBlank d then (none, d :: ds) else lexeme true d ds
  else lexeme false c cs

section Advance

variable {c : Char} {cs : List Char}

/-- An iteration takes the first character at least. -/
theorem advance_suffix (c : Char) (cs : List Char) : (advance c cs).2 <:+ cs := by
  unfold advance
  split
  · exact List.suffix_rfl
  split
  · split
    · exact List.suffix_rfl
    · split
      · exact List.suffix_rfl
      · exact lexeme_suffix.trans (List.suffix_cons _ _)
  · exact lexeme_suffix

theorem of_advance {l : Lexeme} (h : l ∈ (advance c cs).1) :
    l.WellFormed ∧ (l.text ++ (advance c cs).2).Sublist (c :: cs) := by
  unfold advance at h ⊢
  split at h
  next => cases h
  next first =>
    rw [if_neg first]
    split at h
    next dash =>
      rw [if_pos dash]
      split at h
      next => cases h
      next d ds =>
        split at h
        next => cases h
        next second =>
          simp only [if_neg second]
          exact (of_lexeme h).imp_right (List.Sublist.cons c)
    next dash =>
      rw [if_neg dash]
      exact of_lexeme h

/-- Reading from left to right is one iteration after another. -/
theorem scan_cons (c : Char) (cs : List Char) :
    scan (c :: cs) = (advance c cs).1.toList ++ scan (advance c cs).2 := by
  by_cases blank : Text.isBlank c = true
  · rw [scan_blank cs blank]
    simp [advance, blank]
  by_cases dash : c = '-'
  · subst dash
    have mark : Text.isBlank '-' = false := by decide
    cases cs with
    | nil =>
      rw [scan.eq_def]
      simp [advance, mark]
    | cons d ds =>
      by_cases second : Text.isBlank d = true
      · rw [scan_dash_blank ds second]
        simp [advance, mark, second, scan_blank ds second]
      · rw [scan_dash ds (Bool.eq_false_iff.2 second)]
        simp [advance, mark, second]
  · rw [scan_lexeme cs (Bool.eq_false_iff.2 blank) dash]
    simp [advance, blank, dash]

end Advance

/-- How far the reading has come: the alternatives that are closed, the terms of the open one, and
the text that is left. -/
structure Reading where
  closed : List (List Term)
  pending : List Term
  rest : List Char

namespace Reading

def start (query : List Char) : Reading := ⟨[], [], query⟩

/-- A term goes to the open alternative; the word `or` closes it, unless it is empty. -/
def accept (s : Reading) : Lexeme → Reading
  | .term t => { s with pending := s.pending ++ [t] }
  | .or => if s.pending = [] then s else { s with closed := s.closed ++ [s.pending], pending := [] }

/-- One iteration; nothing happens where no text is left. -/
def next (s : Reading) : Reading :=
  match s.rest with
  | [] => s
  | c :: cs =>
    match (advance c cs).1 with
    | some l => { s with rest := (advance c cs).2 }.accept l
    | none => { s with rest := (advance c cs).2 }

/-- The alternatives read so far, with the open one unless it is empty. -/
def result (s : Reading) : List (List Term) :=
  s.closed ++ if s.pending = [] then [] else [s.pending]

/-- All terms read so far. -/
def terms (s : Reading) : List Term := s.closed.flatten ++ s.pending

variable {s : Reading} {c : Char} {cs query : List Char}

theorem accept_or_of_empty (h : s.pending = []) : s.accept .or = s := if_pos h

theorem accept_or_of_ne (h : s.pending ≠ []) :
    s.accept .or = { s with closed := s.closed ++ [s.pending], pending := [] } := if_neg h

@[simp] theorem rest_accept (s : Reading) (l : Lexeme) : (s.accept l).rest = s.rest := by
  cases l with
  | term t => rfl
  | or =>
    by_cases empty : s.pending = []
    · rw [accept_or_of_empty empty]
    · rw [accept_or_of_ne empty]

@[simp] theorem terms_accept (s : Reading) (l : Lexeme) :
    (s.accept l).terms = s.terms ++ l.term?.toList := by
  cases l with
  | term t => simp [accept, terms, Lexeme.term?]
  | or =>
    by_cases empty : s.pending = []
    · simp [accept_or_of_empty empty, Lexeme.term?]
    · simp [accept_or_of_ne empty, terms, Lexeme.term?]

theorem rest_next (h : s.rest = c :: cs) : s.next.rest = (advance c cs).2 := by
  unfold next
  rw [h]
  dsimp only
  split
  · rw [rest_accept]
  · rfl

/-- Every iteration takes at least one character off a text. -/
theorem exists_taken (h : s.rest ≠ []) : ∃ taken, taken ≠ [] ∧ s.rest = taken ++ s.next.rest := by
  obtain ⟨c, cs, rest⟩ := List.exists_cons_of_ne_nil h
  obtain ⟨behind, text⟩ := advance_suffix c cs
  refine ⟨c :: behind, List.cons_ne_nil _ _, ?_⟩
  rw [rest, rest_next rest, List.cons_append, text]

/-- A text is read in as many iterations as it has characters, or in fewer. -/
theorem rest_iterate (n : Nat) (h : s.rest.length ≤ n) : (next^[n] s).rest = [] := by
  induction n generalizing s with
  | zero => exact List.eq_nil_of_length_eq_zero (Nat.le_zero.1 h)
  | succ n ih =>
    rw [Function.iterate_succ_apply]
    by_cases done : s.rest = []
    · have stays : s.next = s := by rw [next, done]
      rw [stays]
      exact ih (by simp [done])
    · obtain ⟨taken, some, text⟩ := exists_taken done
      have positive := List.length_pos_of_ne_nil some
      rw [text, List.length_append] at h
      exact ih (by omega)

section Outcome

/-- What the reading comes to: the alternatives that are closed, and those that the open one and
the text that is left make up. -/
def outcome (s : Reading) : List (List Term) :=
  s.closed ++ alternatives (s.pending.map .term ++ scan s.rest)

theorem alternatives_append_or (xs ys : List Lexeme) :
    alternatives (xs ++ .or :: ys) = alternatives xs ++ alternatives ys := by
  have parts := List.splitOnP_append_cons (p := (· == Lexeme.or)) xs ys (beq_self_eq_true _)
  simp only [alternatives, parts, List.map_append, List.filter_append]

theorem outcome_accept (s : Reading) (l : Lexeme) : (s.accept l).outcome =
    s.closed ++ alternatives (s.pending.map .term ++ l :: scan s.rest) := by
  cases l with
  | term t => simp [accept, outcome]
  | or =>
    rw [alternatives_append_or, alternatives_terms]
    by_cases empty : s.pending = []
    · simp [accept_or_of_empty empty, outcome, empty]
    · simp [accept_or_of_ne empty, outcome, empty]

/-- No iteration changes what the reading comes to. -/
theorem outcome_next (s : Reading) : s.next.outcome = s.outcome := by
  unfold next
  split
  next => rfl
  next c cs rest =>
    have read := scan_cons c cs
    split
    next l lexeme =>
      rw [lexeme] at read
      rw [outcome_accept, outcome, rest, read]
      rfl
    next none =>
      rw [none] at read
      rw [outcome, outcome, rest, read]
      rfl

theorem outcome_iterate (n : Nat) (s : Reading) : (next^[n] s).outcome = s.outcome := by
  induction n generalizing s with
  | zero => rfl
  | succ n ih => rw [Function.iterate_succ_apply, ih, outcome_next]

theorem outcome_of_rest (h : s.rest = []) : s.outcome = s.result := by
  rw [outcome, result, h, scan_nil, List.append_nil, alternatives_terms]

/-- The last iteration leaves the alternatives of the query. -/
theorem result_iterate (query : List Char) (n : Nat) (h : (next^[n] (start query)).rest = []) :
    (next^[n] (start query)).result = groups query := by
  rw [← outcome_of_rest h, outcome_iterate]
  rfl

end Outcome

/-- What holds after every iteration: no alternative was closed empty, every term is well-formed,
and what was read and what is left stand in the query in this order. -/
structure Sound (query : List Char) (s : Reading) : Prop where
  closed_ne : ∀ g ∈ s.closed, g ≠ []
  wellFormed : ∀ t ∈ s.terms, t.WellFormed
  taken : (s.terms.flatMap Term.text ++ s.rest).Sublist query

theorem sound_start (query : List Char) : (start query).Sound query :=
  ⟨by simp [start], by simp [start, terms], by simp [start, terms]⟩

theorem Sound.accept {l : Lexeme} (h : s.Sound query) (term : l.WellFormed)
    (taken : (s.terms.flatMap Term.text ++ (l.text ++ s.rest)).Sublist query) :
    (s.accept l).Sound query := by
  refine ⟨?_, fun t ht => ?_, ?_⟩
  · cases l with
    | term t => exact h.closed_ne
    | or =>
      by_cases empty : s.pending = []
      · rw [accept_or_of_empty empty]
        exact h.closed_ne
      · rw [accept_or_of_ne empty]
        intro g hg
        rcases List.mem_append.1 hg with before | last
        · exact h.closed_ne g before
        · rwa [List.mem_singleton.1 last]
  · rw [terms_accept, List.mem_append, Option.mem_toList] at ht
    exact ht.elim (h.wellFormed t) (term t)
  · rwa [terms_accept, rest_accept, List.flatMap_append, List.append_assoc]

theorem Sound.next (h : s.Sound query) : s.next.Sound query := by
  have taken := h.taken
  unfold Reading.next
  split
  next => exact h
  next c cs rest =>
    rw [rest] at taken
    split
    next l lexeme =>
      obtain ⟨term, text⟩ := of_advance (Option.mem_def.2 lexeme)
      have left : Sound query { s with rest := (advance c cs).2 } :=
        ⟨h.closed_ne, h.wellFormed,
          (((advance_suffix c cs).sublist.cons c).append_left _).trans taken⟩
      exact left.accept term ((text.append_left _).trans taken)
    next none =>
      exact ⟨h.closed_ne, h.wellFormed,
        (((advance_suffix c cs).sublist.cons c).append_left _).trans taken⟩

theorem Sound.iterate (n : Nat) (h : s.Sound query) : (Reading.next^[n] s).Sound query := by
  induction n generalizing s with
  | zero => exact h
  | succ n ih => exact ih h.next

theorem Sound.result (h : s.Sound query) :
    (∀ g ∈ s.result, g ≠ [] ∧ ∀ t ∈ g, t.WellFormed) ∧ s.result.flatten = s.terms := by
  have flat : s.result.flatten = s.terms := by
    unfold Reading.result terms
    split
    next empty => simp [empty]
    next => simp
  refine ⟨fun g hg => ⟨?_, fun t ht => ?_⟩, flat⟩
  · unfold Reading.result at hg
    rcases List.mem_append.1 hg with closed | last
    · exact h.closed_ne g closed
    · split at last
      next => cases last
      next some => rwa [List.mem_singleton.1 last]
  · exact h.wellFormed t (flat ▸ List.mem_flatten.2 ⟨g, hg, ht⟩)

end Reading

/-- Every iteration takes at least one character off the query, so that the reading ends after as
many as it has, with the alternatives of the query. None of them is empty, all their terms are
well-formed, and the texts of the terms in order are a subsequence of the query. -/
theorem groups_wellFormed (query : List Char) :
    (∀ s : Reading, s.rest ≠ [] → ∃ taken, taken ≠ [] ∧ s.rest = taken ++ s.next.rest) ∧
      (∃ n ≤ query.length, (Reading.next^[n] (.start query)).rest = [] ∧
        (Reading.next^[n] (.start query)).result = groups query) ∧
      (∀ g ∈ groups query, g ≠ [] ∧ ∀ t ∈ g, t.WellFormed) ∧
      ((groups query).flatten.flatMap Term.text).Sublist query := by
  have done := Reading.rest_iterate (s := .start query) query.length (Nat.le_refl _)
  have result := Reading.result_iterate query query.length done
  have sound := (Reading.sound_start query).iterate query.length
  obtain ⟨groups, flat⟩ := sound.result
  rw [result] at groups flat
  refine ⟨fun s => Reading.exists_taken, ⟨query.length, Nat.le_refl _, done, result⟩, groups, ?_⟩
  have taken := sound.taken
  rwa [← flat, done, List.append_nil] at taken

/-- The word `or` in front, a dash that stands alone and a phrase that is not closed. -/
theorem groups_wellFormed_openPhrase :
    (Reading.start "or - -\" black or".toList).rest ≠ [] ∧
      (∃ taken, taken ≠ [] ∧ "or - -\" black or".toList =
        taken ++ (Reading.start "or - -\" black or".toList).next.rest) ∧
      groups "or - -\" black or".toList = [[⟨"black or".toList, true⟩]] ∧
      "black or".toList.Sublist "or - -\" black or".toList := by
  have text : (Reading.start "or - -\" black or".toList).rest ≠ [] := by decide
  have read : groups "or - -\" black or".toList = [[⟨"black or".toList, true⟩]] := by
    decide +kernel
  obtain ⟨progress, -, -, taken⟩ := groups_wellFormed "or - -\" black or".toList
  rw [read] at taken
  exact ⟨text, progress _ text, read, by simpa using taken⟩

end WebQuery
end ListQuery
