import ListQuery.Filter.WebQuery
import ListQuery.Proofs.Text.Trimming
import Mathlib.Data.List.Basic

/-! Web queries in writing. Every alternative of quoted terms is read back as it was, whatever the
terms say between their quotes. -/
namespace ListQuery
namespace WebQuery

/-- Text that can stand between quotes as a term: not empty, without blanks at its ends and without
a quote. -/
structure Term.Quotable (t : Term) : Prop where
  text_ne : t.text ≠ []
  first : ∀ c ∈ t.text.head?, Text.isBlank c = false
  last : ∀ c ∈ t.text.getLast?, Text.isBlank c = false
  no_quote : '"' ∉ t.text

/-- A term between quotes, behind a dash if it must not occur. -/
def Term.quoted (t : Term) : List Char :=
  (if t.negated then ['-'] else []) ++ '"' :: (t.text ++ ['"'])

def printGroup (g : List Term) : List Char := [' '].intercalate (g.map Term.quoted)

/-- Alternatives in writing: terms apart by a blank, alternatives by the word `or`. -/
def print (gs : List (List Term)) : List Char :=
  [' ', 'o', 'r', ' '].intercalate (gs.map printGroup)

section Scan

variable (rest : List Char)

@[simp] theorem scan_nil : scan [] = [] := by
  rw [scan.eq_def]

theorem scan_blank {c : Char} (h : Text.isBlank c = true) : scan (c :: rest) = scan rest := by
  simp [scan.eq_def (c :: rest), h]

theorem scan_dash {c : Char} (h : Text.isBlank c = false) :
    scan ('-' :: c :: rest) = (lexeme true c rest).1.toList ++ scan (lexeme true c rest).2 := by
  have dash : Text.isBlank '-' = false := by decide
  simp [scan.eq_def ('-' :: c :: rest), h, dash]

theorem scan_lexeme {c : Char} (h : Text.isBlank c = false) (ne : c ≠ '-') :
    scan (c :: rest) = (lexeme false c rest).1.toList ++ scan (lexeme false c rest).2 := by
  simp [scan.eq_def (c :: rest), h, ne]

theorem lexeme_quote (negated : Bool) {text : List Char} (h : '"' ∉ text) :
    lexeme negated '"' (text ++ '"' :: rest) = (termOf? negated text, rest) := by
  have inside : ∀ c ∈ text, (c != '"') = true := by
    intro c hc
    simpa using ne_of_mem_of_not_mem hc h
  rw [lexeme, if_pos rfl, List.takeWhile_append_of_pos inside, List.dropWhile_append_of_pos inside]
  simp

theorem Term.Quotable.termOf? {t : Term} (h : t.Quotable) :
    termOf? t.negated t.text = some (.term t) := by
  simp [WebQuery.termOf?, Text.trimmed_of_ends h.first h.last, h.text_ne]

/-- A quoted term is read as it is, whatever follows it. -/
theorem scan_quoted {t : Term} (h : t.Quotable) :
    scan (t.quoted ++ rest) = .term t :: scan rest := by
  have read := lexeme_quote rest t.negated h.no_quote
  rw [h.termOf?] at read
  have mark : Text.isBlank '"' = false := by decide
  cases hn : t.negated with
  | false =>
    have text : t.quoted ++ rest = '"' :: (t.text ++ '"' :: rest) := by simp [Term.quoted, hn]
    rw [hn] at read
    rw [text, scan_lexeme _ mark (by decide), read]
    rfl
  | true =>
    have text : t.quoted ++ rest = '-' :: '"' :: (t.text ++ '"' :: rest) := by
      simp [Term.quoted, hn]
    rw [hn] at read
    rw [text, scan_dash _ mark, read]
    rfl

theorem scan_printGroup {g : List Term} (h : ∀ t ∈ g, t.Quotable) :
    scan (printGroup g ++ rest) = g.map .term ++ scan rest := by
  unfold printGroup
  induction g with
  | nil => rfl
  | cons t g ih =>
    have here := h t List.mem_cons_self
    have ih := ih fun t ht => h t (List.mem_cons_of_mem _ ht)
    cases g with
    | nil =>
      rw [List.map_singleton, List.intercalate_singleton]
      exact scan_quoted rest here
    | cons u g =>
      simp only [List.map_cons, List.intercalate_cons_cons, List.append_assoc] at ih ⊢
      rw [scan_quoted _ here, List.singleton_append, scan_blank _ (by decide), ih]
      rfl

/-- The word `or` between blanks separates. -/
theorem scan_or : scan ([' ', 'o', 'r', ' '] ++ rest) = .or :: scan rest := by
  have letter : Text.isBlank 'r' = false := by decide
  have blank : Text.isBlank ' ' = true := by decide
  have word : lexeme false 'o' ('r' :: ' ' :: rest) = (some .or, ' ' :: rest) := by
    simp [lexeme, letter, blank, isOr]
  have first : Text.isBlank 'o' = false := by decide
  simp only [List.cons_append, List.nil_append]
  rw [scan_blank _ blank, scan_lexeme _ first (by decide), word, scan_blank _ blank]
  rfl

theorem scan_print {gs : List (List Term)} (h : ∀ g ∈ gs, ∀ t ∈ g, t.Quotable) :
    scan (print gs) = [Lexeme.or].intercalate (gs.map (·.map .term)) := by
  unfold print
  induction gs with
  | nil => simp
  | cons g gs ih =>
    have here := h g List.mem_cons_self
    have ih := ih fun g hg => h g (List.mem_cons_of_mem _ hg)
    cases gs with
    | nil => simpa using scan_printGroup [] here
    | cons g' gs =>
      simp only [List.map_cons, List.intercalate_cons_cons, List.append_assoc] at ih ⊢
      rw [scan_printGroup _ here, scan_or, ih]
      rfl

end Scan

/-- Alternatives of quotable terms are read back from their writing, none of them empty. -/
theorem groups_print (gs : List (List Term)) (h : ∀ g ∈ gs, g ≠ [] ∧ ∀ t ∈ g, t.Quotable) :
    groups (print gs) = gs := by
  have terms (g : List Term) : (g.map Lexeme.term).filterMap Lexeme.term? = g := by
    rw [List.filterMap_map]
    exact List.filterMap_some
  have apart : ∀ g ∈ gs.map (·.map Lexeme.term), Lexeme.or ∉ g := by
    simp
  unfold groups
  rw [scan_print fun g hg => (h g hg).2]
  by_cases none : gs = []
  · subst none
    simp
  · have split := List.splitOn_intercalate Lexeme.or apart (by simpa using none)
    rw [List.splitOn] at split
    rw [split, List.map_map]
    simp only [Function.comp_def, terms, List.map_id']
    rw [List.filter_eq_self]
    intro g hg
    simpa using (h g hg).1

instance (t : Term) : Decidable t.Quotable :=
  decidable_of_iff (t.text ≠ [] ∧ t.text.head?.all (!Text.isBlank ·) ∧
      t.text.getLast?.all (!Text.isBlank ·) ∧ '"' ∉ t.text) <| by
    simp only [Option.all_eq_true, Bool.not_eq_true']
    exact ⟨fun h => ⟨h.1, h.2.1, h.2.2.1, h.2.2.2⟩, fun h => ⟨h.1, h.2, h.3, h.4⟩⟩

/-- Dashes, blanks and the word `or` are text between quotes. -/
theorem groups_print_dashedOr :
    let gs : List (List Term) :=
      [[⟨"black  keyboard".toList, false⟩, ⟨"-or".toList, true⟩], [⟨"or".toList, false⟩]]
    (∀ g ∈ gs, g ≠ [] ∧ ∀ t ∈ g, t.Quotable) ∧
      groups "\"black  keyboard\" -\"-or\" or \"or\"".toList = gs := by
  intro gs
  have quotable : ∀ g ∈ gs, g ≠ [] ∧ ∀ t ∈ g, t.Quotable := by decide
  exact ⟨quotable, groups_print gs quotable⟩

end WebQuery
end ListQuery
