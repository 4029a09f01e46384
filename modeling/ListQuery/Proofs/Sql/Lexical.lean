import ListQuery.Proofs.Text.Integer
import ListQuery.Sql.Statement

/-! The text of statements, read back as a database reads it: names in quotes, placeholders, and
everything else character by character. Whatever the names of a statement are, its text is read as
the tokens it was written from, and its placeholders stand for its values in order. -/
namespace ListQuery
namespace Sql

/-- A piece of the text of a statement. A placeholder is known by the place of the value it stands
for, counted from one. -/
inductive Lexeme where
  | char (c : Char)
  | name (text : List Char)
  | placeholder (n : Nat)
deriving DecidableEq

namespace Lexeme

def placeholder? : Lexeme → Option Nat
  | .placeholder n => some n
  | _ => none

end Lexeme

/-- A piece of a statement with its values in their places. -/
inductive Piece where
  | char (c : Char)
  | name (text : List Char)
  | value (v : Value)

/-- What a piece of text stands for beside the bound values; a placeholder with no value stands for
nothing. -/
def Lexeme.piece? (values : List Value) : Lexeme → Option Piece
  | .char c => some (.char c)
  | .name text => some (.name text)
  | .placeholder 0 => none
  | .placeholder (n + 1) => values[n]?.map .value

def Token.pieces : Token → List Piece
  | .word w => w.toList.map .char
  | .name s => [.name s.toList]
  | .bind v => [.value v]

/-- Reads a name up to the quote that ends it, and returns what follows. A quote written twice is
part of the name. -/
def quotedRest (q : Char) : List Char → List Char × List Char
  | [] => ([], [])
  | c :: cs =>
    if c = q then
      match cs with
      | [] => ([], [])
      | d :: ds => if d = q then (q :: (quotedRest q ds).1, (quotedRest q ds).2) else ([], d :: ds)
    else (c :: (quotedRest q cs).1, (quotedRest q cs).2)

theorem length_quotedRest (q : Char) (cs : List Char) :
    (quotedRest q cs).2.length ≤ cs.length := by
  fun_induction quotedRest q cs with
  | case1 => simp
  | case2 => simp
  | case3 => simp; omega
  | case4 => simp
  | case5 => simp; omega

namespace Dialect

/-- The character that starts a placeholder. -/
def marker : Dialect → Char
  | .postgres => '$'
  | _ => '?'

/-- The value that a placeholder stands for, and what follows it. Without a number it is the next
one. -/
def numbered (d : Dialect) (k : Nat) (cs : List Char) : Nat × List Char :=
  match d with
  | .postgres => (Nat.ofDigitChars 10 (cs.takeWhile Char.isDigit) 0, cs.dropWhile Char.isDigit)
  | _ => (k + 1, cs)

theorem length_numbered (d : Dialect) (k : Nat) (cs : List Char) :
    (d.numbered k cs).2.length ≤ cs.length := by
  unfold numbered
  split
  · exact (List.dropWhile_suffix _).length_le
  · exact Nat.le_refl _

/-- Reads text after `k` placeholders. -/
def lex (d : Dialect) (k : Nat) : List Char → List Lexeme
  | [] => []
  | c :: cs =>
    if c = d.quote then .name (quotedRest d.quote cs).1 :: d.lex k (quotedRest d.quote cs).2
    else if c = d.marker then
      .placeholder (d.numbered k cs).1 :: d.lex (k + 1) (d.numbered k cs).2
    else .char c :: d.lex k cs
termination_by cs => cs.length
decreasing_by
  · have h := length_quotedRest d.quote cs
    simp only [List.length_cons]
    omega
  · have h := length_numbered d k cs
    simp only [List.length_cons]
    omega
  · simp

end Dialect

/-- The lexemes of tokens after `k` placeholders. -/
def lexemes (k : Nat) : List Token → List Lexeme
  | [] => []
  | .word w :: ts => w.toList.map .char ++ lexemes k ts
  | .name s :: ts => .name s.toList :: lexemes k ts
  | .bind _ :: ts => .placeholder (k + 1) :: lexemes (k + 1) ts

/-- Characters that are read as themselves, in every dialect and after every placeholder. -/
def isInert (c : Char) : Bool := c.isAlpha || " ().,*=<>@_".toList.contains c

def isInertWord (w : String) : Bool := w ≠ "" && w.toList.all isInert

def startsWithName : List Token → Bool
  | .name _ :: _ => true
  | _ => false

/-- Tokens that can be told apart in their text: words are inert, and no two names meet. -/
def Legible : List Token → Prop
  | [] => True
  | .word w :: ts => isInertWord w = true ∧ Legible ts
  | .name _ :: ts => startsWithName ts = false ∧ Legible ts
  | .bind _ :: ts => Legible ts

theorem isDigit_of_isInert {c : Char} (h : isInert c = true) : c.isDigit = false := by
  rcases (Bool.or_eq_true _ _).mp h with letter | other
  · change (decide ('A'.val ≤ c.val ∧ c.val ≤ 'Z'.val) ||
      (decide ('a'.val ≤ c.val) && decide (c.val ≤ 'z'.val))) = true at letter
    have bounds : (65 ≤ c.toNat ∧ c.toNat ≤ 90) ∨ (97 ≤ c.toNat ∧ c.toNat ≤ 122) := by
      simpa [UInt32.le_iff_toNat_le] using letter
    have past : ¬ c.toNat ≤ 57 := by omega
    simpa [Char.isDigit, UInt32.le_iff_toNat_le] using fun _ : 48 ≤ c.toNat => by omega
  · have none : (" ().,*=<>@_".toList.all fun c => !c.isDigit) = true := by decide
    simpa using List.all_eq_true.1 none c (by simpa using other)

theorem ne_of_isInert {c : Char} (h : isInert c = true) (d : Dialect) :
    c ≠ d.quote ∧ c ≠ d.marker := by
  constructor
  · rintro rfl
    cases d <;> exact absurd h (by decide)
  · rintro rfl
    cases d <;> exact absurd h (by decide)

namespace Dialect

variable (d : Dialect) (k : Nat)

@[simp] theorem lex_nil : d.lex k [] = [] := by rw [lex]

theorem lex_word {w : List Char} (h : ∀ c ∈ w, isInert c = true) (rest : List Char) :
    d.lex k (w ++ rest) = w.map .char ++ d.lex k rest := by
  induction w with
  | nil => rfl
  | cons c w ih =>
    obtain ⟨hq, hm⟩ := ne_of_isInert (h c (List.mem_cons_self ..)) d
    rw [List.cons_append, lex, if_neg hq, if_neg hm, ih fun c hc => h c (List.mem_cons_of_mem _ hc)]
    rfl

theorem quotedRest_of_ne {q c : Char} (h : c ≠ q) (cs : List Char) :
    quotedRest q (c :: cs) = (c :: (quotedRest q cs).1, (quotedRest q cs).2) := by
  cases cs <;> simp [quotedRest, h]

/-- A name is read back from its quoted text, unless one more quote follows. -/
theorem quotedRest_quoted {q : Char} (name rest : List Char) (h : rest.head? ≠ some q) :
    quotedRest q (name.flatMap (fun c => if c = q then [c, c] else [c]) ++ q :: rest) =
      (name, rest) := by
  induction name with
  | nil =>
    cases rest with
    | nil => simp [quotedRest]
    | cons c cs =>
      have hc : c ≠ q := by simpa using h
      simp [quotedRest, hc]
  | cons c name ih =>
    by_cases hc : c = q
    · subst hc
      simp [quotedRest, ih]
    · simp [hc, quotedRest_of_ne hc, ih]

theorem lex_quoted (s : String) {rest : List Char} (h : rest.head? ≠ some d.quote) :
    d.lex k (d.quoted s ++ rest) = .name s.toList :: d.lex k rest := by
  rw [quoted, List.cons_append, lex, if_pos rfl, List.append_assoc, List.singleton_append,
    quotedRest_quoted _ _ h]

theorem lex_marker (cs : List Char) :
    d.lex k (d.marker :: cs) =
      .placeholder (d.numbered k cs).1 :: d.lex (k + 1) (d.numbered k cs).2 := by
  have marker_ne : d.marker ≠ d.quote := by cases d <;> decide
  rw [lex, if_neg marker_ne, if_pos rfl]

/-- A placeholder is read back with its number, unless one more digit follows. -/
theorem lex_placeholder {rest : List Char} (h : ∀ c ∈ rest.head?, c.isDigit = false) :
    d.lex k (d.placeholder (k + 1) ++ rest) = .placeholder (k + 1) :: d.lex (k + 1) rest := by
  cases d with
  | postgres =>
    have digits : ∀ c ∈ (k + 1).repr.toList, c.isDigit = true :=
      fun c hc => Text.isDigit_of_mem_repr hc
    have stop : rest.takeWhile Char.isDigit = [] ∧ rest.dropWhile Char.isDigit = rest := by
      cases rest with
      | nil => simp
      | cons c cs => simp [h c rfl]
    have number : numbered .postgres k ((k + 1).repr.toList ++ rest) = (k + 1, rest) := by
      simp only [numbered, List.takeWhile_append_of_pos digits, List.dropWhile_append_of_pos digits,
        stop, List.append_nil]
      rw [Nat.toList_repr, Nat.ofDigitChars_toDigits (by decide) (by decide)]
    rw [placeholder, List.cons_append]
    refine (lex_marker .postgres k _).trans ?_
    rw [number]
  | sqlite => exact lex_marker .sqlite k rest
  | mysql => exact lex_marker .mysql k rest

end Dialect

section Reading

variable (d : Dialect) {ts us : List Token}

theorem inert_of_isInertWord {w : String} (h : isInertWord w = true) :
    w.toList ≠ [] ∧ ∀ c ∈ w.toList, isInert c = true := by
  simpa [isInertWord] using h

/-- What follows a token never goes on with it: a name is not followed by a quote, and a placeholder
not by a digit. -/
theorem head?_chars (k : Nat) (h : Legible ts) :
    (startsWithName ts = false → (d.chars k ts).head? ≠ some d.quote) ∧
      ∀ c ∈ (d.chars k ts).head?, c.isDigit = false := by
  cases ts with
  | nil => simp [Dialect.chars]
  | cons t ts =>
    cases t with
    | word w =>
      obtain ⟨nonempty, inert⟩ := inert_of_isInertWord h.1
      obtain ⟨c, cs, hw⟩ := List.exists_cons_of_ne_nil nonempty
      have hc := inert c (by simp [hw])
      simp [Dialect.chars, hw, (ne_of_isInert hc d).1, isDigit_of_isInert hc]
    | name s =>
      have quote : d.quote.isDigit = false := by cases d <;> decide
      simp [Dialect.chars, Dialect.quoted, startsWithName, quote]
    | bind v =>
      have marker : d.marker ≠ d.quote ∧ d.marker.isDigit = false := by cases d <;> decide
      have head : (d.placeholder (k + 1)).head? = some d.marker := by cases d <;> rfl
      simp [Dialect.chars, head, marker]

/-- The text of legible tokens is read as their lexemes. -/
theorem lex_chars (k : Nat) (h : Legible ts) : d.lex k (d.chars k ts) = lexemes k ts := by
  induction ts generalizing k with
  | nil => simp [Dialect.chars, lexemes]
  | cons t ts ih =>
    cases t with
    | word w =>
      rw [Dialect.chars, Dialect.lex_word d k (inert_of_isInertWord h.1).2, ih k h.2, lexemes]
    | name s =>
      rw [Dialect.chars, Dialect.lex_quoted d k s ((head?_chars d k h.2).1 h.1), ih k h.2, lexemes]
    | bind v =>
      have rest : Legible ts := h
      rw [Dialect.chars, Dialect.lex_placeholder d k (head?_chars d (k + 1) rest).2, ih (k + 1) rest,
        lexemes]

/-- The placeholders are numbered through, one for each value. -/
theorem placeholders_lexemes (k : Nat) (ts : List Token) :
    (lexemes k ts).filterMap Lexeme.placeholder? =
      List.range' (k + 1) (ts.filterMap Token.value?).length := by
  induction ts generalizing k with
  | nil => rfl
  | cons t ts ih =>
    cases t with
    | word w =>
      have inert : (w.toList.map Lexeme.char).filterMap Lexeme.placeholder? = [] := by
        simp [List.filterMap_eq_nil_iff, Lexeme.placeholder?]
      simp [lexemes, inert, ih, List.filterMap_cons, Token.value?]
    | name s => simp [lexemes, ih, List.filterMap_cons, Token.value?, Lexeme.placeholder?]
    | bind v => simp [lexemes, ih, Token.value?, Lexeme.placeholder?, List.range'_succ]

/-- Beside the values of the tokens and those before them, lexemes stand for their tokens. -/
theorem pieces_lexemes (before : List Value) (ts : List Token) :
    (lexemes before.length ts).map
        (·.piece? (before ++ ts.filterMap Token.value?)) = (ts.flatMap Token.pieces).map some := by
  induction ts generalizing before with
  | nil => rfl
  | cons t ts ih =>
    cases t with
    | word w =>
      have chars (values : List Value) : (w.toList.map Lexeme.char).map (·.piece? values) =
          (w.toList.map Piece.char).map some := by
        rw [List.map_map, List.map_map]
        rfl
      simp only [lexemes, List.map_append, List.flatMap_cons, Token.pieces, chars]
      exact congrArg _ (ih before)
    | name s => exact congrArg (some (Piece.name s.toList) :: ·) (ih before)
    | bind v =>
      have values : before ++ (Token.bind v :: ts).filterMap Token.value? =
          before ++ [v] ++ ts.filterMap Token.value? := by simp [Token.value?]
      have here : Lexeme.piece? (before ++ [v] ++ ts.filterMap Token.value?)
          (.placeholder (before.length + 1)) = some (.value v) := by simp [Lexeme.piece?]
      have length : before.length + 1 = (before ++ [v]).length := by simp
      rw [values, lexemes, List.map_cons, here, length, ih (before ++ [v])]
      rfl

end Reading

section Legibility

variable {ts us : List Token}

@[simp] theorem legible_nil : Legible [] := trivial

@[simp] theorem legible_bind {v : Value} : Legible (.bind v :: ts) ↔ Legible ts := Iff.rfl

theorem startsWithName_append (ht : startsWithName ts = false) (hu : startsWithName us = false) :
    startsWithName (ts ++ us) = false := by
  cases ts with
  | nil => exact hu
  | cons t ts => cases t <;> simp_all [startsWithName]

/-- Legible tokens stay so if more follow that do not start with a name. -/
theorem Legible.append (ht : Legible ts) (hu : Legible us) (h : startsWithName us = false) :
    Legible (ts ++ us) := by
  induction ts with
  | nil => exact hu
  | cons t ts ih =>
    cases t with
    | word w => exact ⟨ht.1, ih ht.2⟩
    | name s => exact ⟨startsWithName_append ht.1 h, ih ht.2⟩
    | bind v => exact ih ht

/-- Words keep what is around them apart. -/
theorem Legible.append_word (ht : Legible ts) {w : String} (hw : isInertWord w = true)
    (hu : Legible us) : Legible (ts ++ .word w :: us) :=
  ht.append ⟨hw, hu⟩ rfl

theorem legible_column (c : Column) : Legible c.tokens := by
  unfold Column.tokens
  split
  · exact ⟨rfl, by decide, rfl, trivial⟩
  · exact ⟨rfl, trivial⟩

theorem legible_separated {separator : String} (hw : isInertWord separator = true)
    {tss : List (List Token)} (h : ∀ ts ∈ tss, Legible ts) :
    Legible (separated separator tss) := by
  induction tss with
  | nil => trivial
  | cons ts tss ih =>
    have head := h ts (List.mem_cons_self ..)
    have tail := ih fun us hu => h us (List.mem_cons_of_mem _ hu)
    cases tss with
    | nil => exact head
    | cons us tss => exact head.append_word hw tail

theorem legible_predicate (p : Predicate) : Legible p.tokens := by
  cases p with
  | compare op c v => exact (legible_column c).append_word (by cases op <;> decide) trivial
  | like c pattern =>
    exact ⟨by decide, (legible_column c).append_word (by decide) trivial⟩
  | oneOf c values =>
    cases values with
    | nil => exact ⟨by decide, trivial⟩
    | cons v vs =>
      have items : ∀ ts ∈ (v :: vs).map fun v => [Token.bind v], Legible ts := by simp
      exact (legible_column c).append_word (by decide)
        ((legible_separated (by decide) items).append_word (by decide) trivial)
  | isNull c => exact (legible_column c).append_word (by decide) trivial
  | is c v => exact (legible_column c).append_word (by decide) trivial
  | fulltext mode c language query =>
    exact (legible_column c).append_word (by decide)
      ⟨by cases mode <;> decide, by decide, by decide, by decide, trivial⟩

theorem legible_parenthesized (h : Legible ts) : Legible (parenthesized ts) :=
  ⟨by decide, h.append_word (by decide) trivial⟩

theorem legible_expr (e : Expr) : Legible e.tokens := by
  have operand {b : Bool} {ts : List Token} (h : Legible ts) :
      Legible (if b then ts else parenthesized ts) := by
    cases b
    · exact legible_parenthesized h
    · exact h
  induction e with
  | test p => exact legible_predicate p
  | truth b => exact ⟨by cases b <;> decide, trivial⟩
  | not e ih => exact ⟨by decide, operand ih⟩
  | and l r hl hr => exact (operand hl).append_word (by decide) (operand hr)
  | or l r hl hr => exact (operand hl).append_word (by decide) (operand hr)

theorem legible_output (o : Output) : Legible o.tokens := by
  cases o with
  | column c => exact legible_column c
  | star table => exact ⟨rfl, by decide, trivial⟩

theorem legible_join (j : Join) : Legible j.tokens :=
  ⟨by decide, rfl, by decide,
    (legible_column j.left).append_word (by decide) (legible_column j.right)⟩

theorem legible_joins (js : List Join) :
    Legible (js.flatMap Join.tokens) ∧ startsWithName (js.flatMap Join.tokens) = false := by
  induction js with
  | nil => exact ⟨trivial, rfl⟩
  | cons j js ih => exact ⟨(legible_join j).append ih.1 ih.2, startsWithName_append rfl ih.2⟩

theorem legible_condition (c : Option Condition) :
    Legible (conditionTokens c) ∧ startsWithName (conditionTokens c) = false := by
  cases c with
  | none => exact ⟨trivial, rfl⟩
  | some c => exact ⟨⟨by decide, legible_expr c.expr⟩, rfl⟩

theorem legible_order (k : Column × Direction) : Legible (orderTokens k) := by
  have words : isInertWord " ASC" = true ∧ isInertWord " DESC" = true := by decide
  obtain ⟨c, d⟩ := k
  cases d with
  | asc => exact (legible_column c).append_word words.1 trivial
  | desc => exact (legible_column c).append_word words.2 trivial

theorem legible_orderBy (keys : List (Column × Direction)) :
    Legible (orderByTokens keys) ∧ startsWithName (orderByTokens keys) = false := by
  unfold orderByTokens
  split
  · exact ⟨trivial, rfl⟩
  · refine ⟨⟨by decide, legible_separated (by decide) ?_⟩, rfl⟩
    simp only [List.mem_map]
    rintro _ ⟨k, -, rfl⟩
    exact legible_order k

theorem legible_bound {keyword : String} (hw : isInertWord keyword = true) (n : Option UInt64) :
    Legible (boundTokens keyword n) ∧ startsWithName (boundTokens keyword n) = false := by
  cases n with
  | none => exact ⟨trivial, rfl⟩
  | some n => exact ⟨⟨hw, trivial⟩, rfl⟩

theorem legible_select (s : Select) : Legible s.tokens := by
  have outputs : Legible (separated ", " (s.outputs.map Output.tokens)) := by
    refine legible_separated (by decide) ?_
    simp only [List.mem_map]
    rintro _ ⟨o, -, rfl⟩
    exact legible_output o
  have table : Legible [.word " FROM ", .name s.table] := ⟨by decide, rfl, trivial⟩
  have joins := (outputs.append table rfl).append (legible_joins s.joins).1 (legible_joins s.joins).2
  have condition := joins.append (legible_condition s.condition).1 (legible_condition s.condition).2
  have order := condition.append (legible_orderBy s.order).1 (legible_orderBy s.order).2
  have limit : isInertWord " LIMIT " = true := by decide
  have offset : isInertWord " OFFSET " = true := by decide
  have limit := legible_bound limit s.limit
  have offset := legible_bound offset s.offset
  exact ⟨by cases s.distinct <;> decide,
    (order.append limit.1 limit.2).append offset.1 offset.2⟩

theorem legible_query (q : Query) : Legible q.tokens := by
  cases q with
  | rows s => exact legible_select s
  | count s =>
    exact ⟨by decide, (legible_select s.unpaged).append_word (by decide) ⟨rfl, trivial⟩⟩

end Legibility

/-- The text of a statement is read as the lexemes of its tokens, whatever its names are, and its
placeholders stand for its values in order. -/
theorem lex_statement (d : Dialect) (q : Query) :
    d.lex 0 (q.statement d).text.toList = lexemes 0 q.tokens ∧
      (d.lex 0 (q.statement d).text.toList).filterMap Lexeme.placeholder? =
        List.range' 1 (q.statement d).values.length := by
  have text : d.lex 0 (q.statement d).text.toList = lexemes 0 q.tokens := by
    rw [Query.statement, String.toList_ofList, lex_chars d 0 (legible_query q)]
  exact ⟨text, by rw [text, placeholders_lexemes]; rfl⟩

/-- Read with its values, the text of a statement is its tokens: each placeholder is that of the
bound token in its place. -/
theorem pieces_statement (d : Dialect) (q : Query) :
    (d.lex 0 (q.statement d).text.toList).map (·.piece? (q.statement d).values) =
      (q.tokens.flatMap Token.pieces).map some := by
  rw [(lex_statement d q).1]
  exact pieces_lexemes [] q.tokens

/-- The text of a statement has a name between quotes. -/
def Query.Names (d : Dialect) (q : Query) (name : String) : Prop :=
  .name name.toList ∈ d.lex 0 (q.statement d).text.toList

theorem name_mem_lexemes {k : Nat} {name : String} {ts : List Token} (h : .name name ∈ ts) :
    .name name.toList ∈ lexemes k ts := by
  induction ts generalizing k with
  | nil => cases h
  | cons t ts ih =>
    rcases List.mem_cons.1 h with rfl | later
    · exact List.mem_cons_self
    · cases t with
      | word w => exact List.mem_append_right _ (ih later)
      | name s => exact List.mem_cons_of_mem _ (ih later)
      | bind v => exact List.mem_cons_of_mem _ (ih later)

theorem Query.names_of_token (d : Dialect) {q : Query} {name : String} (h : .name name ∈ q.tokens) :
    q.Names d name := by
  rw [Query.Names, (lex_statement d q).1]
  exact name_mem_lexemes h

end Sql
end ListQuery
