import Mathlib.Data.List.Forall2
import ListQuery.Proofs.Sql.Lexical

/-! Statements of the same build, whose names are related and whose values are any: what is built
from them alike stays alike, and their texts differ in the contents of names alone. -/
namespace ListQuery

section Lists

variable {α β γ : Type} {as : List α} {bs : List β}

theorem forall₂_of_map_eq {f : α → γ} {g : β → γ} (h : as.map f = bs.map g) :
    List.Forall₂ (fun a b => f a = g b) as bs := by
  rwa [← List.forall₂_map_right_iff, ← List.forall₂_map_left_iff, List.forall₂_eq_eq_eq]

theorem forall₂_of_zip_map {R : γ → γ → Prop} {f : α → γ} {g : β → γ}
    (length : as.length = bs.length) (h : ∀ c d, (c, d) ∈ (as.map f).zip (bs.map g) → R c d) :
    List.Forall₂ (fun a b => R (f a) (g b)) as bs := by
  refine List.forall₂_iff_zip.2 ⟨length, ?_⟩
  intro a b hab
  apply h
  rw [List.zip_map]
  exact List.mem_map_of_mem (f := Prod.map f g) hab

theorem forall₂_and {P Q : α → β → Prop} (hp : List.Forall₂ P as bs) (hq : List.Forall₂ Q as bs) :
    List.Forall₂ (fun a b => P a b ∧ Q a b) as bs := by
  rw [List.forall₂_iff_zip] at hp hq ⊢
  exact ⟨hp.1, fun h => ⟨hp.2 h, hq.2 h⟩⟩

end Lists

namespace Sql

variable {R : String → String → Prop}

/-- The same piece of text, or two names that are related. -/
inductive Lexeme.Alike (R : String → String → Prop) : Lexeme → Lexeme → Prop where
  | char (c : Char) : Alike R (.char c) (.char c)
  | name {s s' : String} (h : R s s') : Alike R (.name s.toList) (.name s'.toList)
  | placeholder (n : Nat) : Alike R (.placeholder n) (.placeholder n)

/-- The same word, two names that are related, or any two values. -/
inductive Token.Alike (R : String → String → Prop) : Token → Token → Prop where
  | word (w : String) : Alike R (.word w) (.word w)
  | name {s s' : String} (h : R s s') : Alike R (.name s) (.name s')
  | bind (v v' : Value) : Alike R (.bind v) (.bind v')

abbrev TokensAlike (R : String → String → Prop) : List Token → List Token → Prop :=
  List.Forall₂ (Token.Alike R)

structure Column.Alike (R : String → String → Prop) (c c' : Column) : Prop where
  table : c.table = c'.table
  name : R c.name c'.name

inductive Predicate.Alike (R : String → String → Prop) : Predicate → Predicate → Prop where
  | compare (op : Comparison) {c c' : Column} (h : c.Alike R c') (v v' : Value) :
      Alike R (.compare op c v) (.compare op c' v')
  | like {c c' : Column} (h : c.Alike R c') (pattern pattern' : String) :
      Alike R (.like c pattern) (.like c' pattern')
  | oneOf {c c' : Column} (h : c.Alike R c') {vs vs' : List Value}
      (length : vs.length = vs'.length) :
      Alike R (.oneOf c vs) (.oneOf c' vs')
  | isNull {c c' : Column} (h : c.Alike R c') : Alike R (.isNull c) (.isNull c')
  | is {c c' : Column} (h : c.Alike R c') (v v' : Value) : Alike R (.is c v) (.is c' v')
  | fulltext (mode : TextSearch) {c c' : Column} (h : c.Alike R c')
      (language language' query query' : String) :
      Alike R (.fulltext mode c language query) (.fulltext mode c' language' query')

mutual

/-- Conditions of the same build over alike predicates. -/
def Condition.Alike (R : String → String → Prop) : Condition → Condition → Prop
  | .test p, .test p' => p.Alike R p'
  | .group n j members, .group n' j' members' => (n = n' ∧ j = j') ∧ AllAlike R members members'
  | _, _ => False

def AllAlike (R : String → String → Prop) : List Condition → List Condition → Prop
  | [], [] => True
  | c :: cs, c' :: cs' => c.Alike R c' ∧ AllAlike R cs cs'
  | _, _ => False

end

theorem allAlike_iff {cs cs' : List Condition} :
    AllAlike R cs cs' ↔ List.Forall₂ (Condition.Alike R) cs cs' := by
  induction cs generalizing cs' with
  | nil => cases cs' <;> simp [AllAlike]
  | cons c cs ih => cases cs' <;> simp [AllAlike, ih]

theorem Column.alike_refl (refl : ∀ s, R s s) (c : Column) : c.Alike R c := ⟨rfl, refl c.name⟩

theorem Predicate.alike_refl (refl : ∀ s, R s s) (p : Predicate) : p.Alike R p := by
  cases p with
  | compare op c v => exact .compare op (c.alike_refl refl) v v
  | like c pattern => exact .like (c.alike_refl refl) pattern pattern
  | oneOf c vs => exact .oneOf (c.alike_refl refl) rfl
  | isNull c => exact .isNull (c.alike_refl refl)
  | is c v => exact .is (c.alike_refl refl) v v
  | fulltext mode c language query =>
    exact .fulltext mode (c.alike_refl refl) language language query query

namespace Condition

mutual

theorem alike_refl (refl : ∀ s, R s s) : (c : Condition) → c.Alike R c
  | .test p => by
    rw [Alike]
    exact p.alike_refl refl
  | .group _ _ members => by
    rw [Alike]
    exact ⟨⟨rfl, rfl⟩, allAlike_refl refl members⟩

theorem allAlike_refl (refl : ∀ s, R s s) : (cs : List Condition) → AllAlike R cs cs
  | [] => by rw [AllAlike]; trivial
  | c :: cs => by
    rw [AllAlike]
    exact ⟨alike_refl refl c, allAlike_refl refl cs⟩

end

theorem alike_test {p p' : Predicate} (h : p.Alike R p') : (test p).Alike R (.test p') := by
  rwa [Alike]

theorem alike_group (n : Bool) (j : Junction) {members members' : List Condition}
    (h : List.Forall₂ (Alike R) members members') :
    (group n j members).Alike R (.group n j members') := by
  rw [Alike]
  exact ⟨⟨rfl, rfl⟩, allAlike_iff.2 h⟩

theorem alike_only {p p' : Predicate} (h : p.Alike R p') : (only p).Alike R (only p') :=
  alike_group false .all (.cons (alike_test h) .nil)

theorem alike_all : all.Alike R all := alike_group false .all .nil

theorem alike_any : any.Alike R any := alike_group false .any .nil

/-- Two alike conditions are both predicates or both groups of one kind. -/
theorem Alike.cases {c c' : Condition} (h : c.Alike R c') :
    (∃ p p', c = .test p ∧ c' = .test p' ∧ p.Alike R p') ∨
      ∃ n j members members', c = .group n j members ∧ c' = .group n j members' ∧
        List.Forall₂ (Alike R) members members' := by
  cases c with
  | test p =>
    cases c' with
    | test p' => exact .inl ⟨p, p', rfl, rfl, by rwa [Alike] at h⟩
    | group n' j' members' => simp [Alike] at h
  | group n j members =>
    cases c' with
    | test p' => simp [Alike] at h
    | group n' j' members' =>
      rw [Alike] at h
      obtain ⟨⟨rfl, rfl⟩, h⟩ := h
      exact .inr ⟨n, j, members, members', rfl, rfl, allAlike_iff.1 h⟩

variable {c c' root root' : Condition}

theorem Alike.unwrapped (h : c.Alike R c') : c.unwrapped.Alike R c'.unwrapped := by
  obtain ⟨p, p', rfl, rfl, -⟩ | ⟨n, j, members, members', rfl, rfl, hm⟩ := h.cases
  · exact h
  · cases n with
    | true => exact h
    | false =>
      cases hm with
      | nil => exact h
      | cons first rest =>
        cases rest with
        | nil => exact first
        | cons _ _ => exact h

theorem Alike.add (h : root.Alike R root') (hc : c.Alike R c') :
    (root.add c).Alike R (root'.add c') := by
  obtain ⟨p, p', rfl, rfl, hp⟩ | ⟨n, j, members, members', rfl, rfl, hm⟩ := h.cases
  · exact alike_group false .all (.cons h (.cons hc.unwrapped .nil))
  · exact alike_group n j (List.rel_append hm (.cons hc.unwrapped .nil))

theorem Alike.negate (h : c.Alike R c') : c.negate.Alike R c'.negate := by
  obtain ⟨p, p', rfl, rfl, hp⟩ | ⟨n, j, members, members', rfl, rfl, hm⟩ := h.cases
  · exact alike_group true .all (.cons h .nil)
  · exact alike_group (!n) j hm

theorem Alike.narrow (h : root.Alike R root') (hc : c.Alike R c') :
    (root.narrow c).Alike R (root'.narrow c') := by
  have wrapped : ((all.add root).add c).Alike R ((all.add root').add c') := (alike_all.add h).add hc
  obtain ⟨p, p', rfl, rfl, -⟩ | ⟨n, j, members, members', rfl, rfl, hm⟩ := h.cases
  · exact wrapped
  · cases n with
    | true => exact wrapped
    | false =>
      cases j with
      | any => exact wrapped
      | all =>
        -- only two plain conjunctions are merged member by member
        have added := h.add hc
        obtain ⟨q, q', rfl, rfl, -⟩ | ⟨n, j, more, more', rfl, rfl, hmore⟩ := hc.cases
        · exact added
        · cases n with
          | true => exact added
          | false =>
            cases j with
            | any => exact added
            | all => exact alike_group false .all (List.rel_append hm hmore)

/-- Conditions that are added alike to alike groups. -/
theorem alike_foldl_add {α β : Type} {P : α → β → Prop} {f : α → Condition} {g : β → Condition}
    (each : ∀ a b, P a b → (f a).Alike R (g b)) {as : List α} {bs : List β}
    (h : List.Forall₂ P as bs) (start : c.Alike R c') :
    (as.foldl (fun c a => c.add (f a)) c).Alike R (bs.foldl (fun c b => c.add (g b)) c') := by
  apply List.rel_foldl _ start h
  intro root root' hroot a b hab
  exact hroot.add (each a b hab)

end Condition

/-- Expressions of the same build over alike predicates. -/
inductive Expr.Alike (R : String → String → Prop) : Expr → Expr → Prop where
  | test {p p' : Predicate} (h : p.Alike R p') : Alike R (.test p) (.test p')
  | truth (b : Bool) : Alike R (.truth b) (.truth b)
  | not {e e' : Expr} (h : Alike R e e') : Alike R (.not e) (.not e')
  | and {l l' r r' : Expr} (hl : Alike R l l') (hr : Alike R r r') : Alike R (.and l r) (.and l' r')
  | or {l l' r r' : Expr} (hl : Alike R l l') (hr : Alike R r r') : Alike R (.or l r) (.or l' r')

theorem Junction.alike_chain (j : Junction) {es es' : List Expr}
    (h : List.Forall₂ (Expr.Alike R) es es') : (j.chain es).Alike R (j.chain es') := by
  cases h with
  | nil => exact .truth _
  | @cons e e' es es' first rest =>
    simp only [chain]
    induction rest generalizing e e' with
    | nil => exact first
    | cons next _ ih =>
      cases j with
      | all => exact ih (.and first next)
      | any => exact ih (.or first next)

mutual

theorem Condition.alike_expr : (c c' : Condition) → c.Alike R c' → c.expr.Alike R c'.expr
  | .test p, .test p', h => by
    rw [Condition.Alike] at h
    simpa [Condition.expr] using Expr.Alike.test h
  | .group n j members, .group n' j' members', h => by
    rw [Condition.Alike] at h
    obtain ⟨⟨rfl, rfl⟩, hm⟩ := h
    have chain := j.alike_chain (Condition.alike_exprs members members' hm)
    cases n with
    | false => simpa [Condition.expr] using chain
    | true => simpa [Condition.expr] using chain.not
  | .test p, .group n j members, h => by simp [Condition.Alike] at h
  | .group n j members, .test p, h => by simp [Condition.Alike] at h

theorem Condition.alike_exprs : (cs cs' : List Condition) → AllAlike R cs cs' →
    List.Forall₂ (Expr.Alike R) (exprs cs) (exprs cs')
  | [], [], _ => by simp [exprs]
  | c :: cs, c' :: cs', h => by
    rw [AllAlike] at h
    rw [exprs, exprs]
    exact .cons (Condition.alike_expr c c' h.1) (Condition.alike_exprs cs cs' h.2)
  | [], c :: cs, h => by simp [AllAlike] at h
  | c :: cs, [], h => by simp [AllAlike] at h

end

section Tokens

theorem tokensAlike_refl (refl : ∀ s, R s s) (ts : List Token) : TokensAlike R ts ts := by
  apply List.forall₂_same.2
  intro t _
  cases t with
  | word w => exact .word w
  | name s => exact .name (refl s)
  | bind v => exact .bind v v

theorem Column.Alike.tokens (refl : ∀ s, R s s) {c c' : Column} (h : c.Alike R c') :
    TokensAlike R c.tokens c'.tokens := by
  unfold Column.tokens
  rw [h.table]
  cases c'.table with
  | none => exact .cons (.name h.name) .nil
  | some t => exact .cons (.name (refl t)) (.cons (.word _) (.cons (.name h.name) .nil))

theorem alike_separated (separator : String) {tss uss : List (List Token)}
    (h : List.Forall₂ (TokensAlike R) tss uss) :
    TokensAlike R (separated separator tss) (separated separator uss) := by
  induction h with
  | nil => exact .nil
  | cons first rest ih =>
    cases rest with
    | nil => exact first
    | cons _ _ => exact List.rel_append first (.cons (.word _) ih)

theorem alike_binds {vs vs' : List Value} (length : vs.length = vs'.length) :
    List.Forall₂ (TokensAlike R) (vs.map ([.bind ·])) (vs'.map ([.bind ·])) := by
  rw [List.forall₂_map_left_iff, List.forall₂_map_right_iff, List.forall₂_iff_zip]
  exact ⟨length, fun _ => .cons (.bind _ _) .nil⟩

theorem Predicate.Alike.tokens (refl : ∀ s, R s s) {p p' : Predicate} (h : p.Alike R p') :
    TokensAlike R p.tokens p'.tokens := by
  cases h with
  | compare op h v v' =>
    exact List.rel_append (h.tokens refl) (.cons (.word _) (.cons (.bind v v') .nil))
  | like h pattern pattern' =>
    refine .cons (.word _) (List.rel_append (h.tokens refl) ?_)
    exact .cons (.word _) (.cons (.bind _ _) .nil)
  | @oneOf c c' h vs vs' length =>
    cases vs with
    | nil =>
      obtain rfl := List.length_eq_zero_iff.1 length.symm
      exact tokensAlike_refl refl _
    | cons v vs =>
      obtain ⟨v', vs', rfl⟩ := List.exists_cons_of_length_eq_add_one length.symm
      have items := alike_separated (R := R) ", " (alike_binds length)
      exact List.rel_append (h.tokens refl)
        (.cons (.word _) (List.rel_append items (.cons (.word _) .nil)))
  | isNull h => exact List.rel_append (h.tokens refl) (.cons (.word _) .nil)
  | is h v v' => exact List.rel_append (h.tokens refl) (.cons (.word _) (.cons (.bind v v') .nil))
  | fulltext mode h language language' query query' =>
    refine List.rel_append (h.tokens refl) ?_
    exact .cons (.word _) (.cons (.word _) (.cons (.word _) (.cons (.bind _ _)
      (.cons (.word _) (.cons (.bind _ _) (.cons (.word _) .nil))))))

theorem alike_parenthesized {ts ts' : List Token} (h : TokensAlike R ts ts') :
    TokensAlike R (parenthesized ts) (parenthesized ts') :=
  .cons (.word _) (List.rel_append h (.cons (.word _) .nil))

/-- Alike expressions stand in the same parentheses. -/
theorem Expr.Alike.form {e e' : Expr} (h : e.Alike R e') :
    e.isPlain = e'.isPlain ∧ e.isAnd = e'.isAnd ∧ e.isOr = e'.isOr := by
  cases h with
  | test h => cases h <;> exact ⟨rfl, rfl, rfl⟩
  | _ => exact ⟨rfl, rfl, rfl⟩

theorem Expr.Alike.tokens (refl : ∀ s, R s s) {e e' : Expr} (h : e.Alike R e') :
    TokensAlike R e.tokens e'.tokens := by
  have operand {b : Bool} {ts ts' : List Token} (h : TokensAlike R ts ts') :
      TokensAlike R (if b then ts else parenthesized ts) (if b then ts' else parenthesized ts') := by
    cases b
    · exact alike_parenthesized h
    · exact h
  induction h with
  | test h => exact h.tokens refl
  | truth b => exact tokensAlike_refl refl _
  | not h ih =>
    rw [Expr.tokens, Expr.tokens, h.form.1]
    exact .cons (.word _) (operand ih)
  | and hl hr ihl ihr =>
    rw [Expr.tokens, Expr.tokens, hl.form.1, hl.form.2.1, hr.form.1]
    exact List.rel_append (operand ihl) (.cons (.word _) (operand ihr))
  | or hl hr ihl ihr =>
    rw [Expr.tokens, Expr.tokens, hl.form.1, hl.form.2.2, hr.form.1]
    exact List.rel_append (operand ihl) (.cons (.word _) (operand ihr))

end Tokens

/-- Statements of the same build: related names, any values, and otherwise the same. -/
structure Select.Alike (R : String → String → Prop) (s s' : Select) : Prop where
  distinct : s.distinct = s'.distinct
  outputs : s.outputs = s'.outputs
  table : s.table = s'.table
  joins : s.joins = s'.joins
  condition : Option.Rel (Condition.Alike R) s.condition s'.condition
  order : List.Forall₂ (fun k k' => k.1.Alike R k'.1 ∧ k.2 = k'.2) s.order s'.order
  limit : s.limit.isSome = s'.limit.isSome
  offset : s.offset.isSome = s'.offset.isSome

namespace Select

variable {s s' : Select}

theorem alike_refl (refl : ∀ s, R s s) (s : Select) : s.Alike R s where
  distinct := rfl
  outputs := rfl
  table := rfl
  joins := rfl
  condition := by
    cases s.condition with
    | none => exact .none
    | some c => exact .some (c.alike_refl refl)
  order := List.forall₂_same.2 fun k _ => ⟨k.1.alike_refl refl, rfl⟩
  limit := rfl
  offset := rfl

/-- Columns of the listed tables are alike if their names are related. -/
theorem Alike.column (h : s.Alike R s') {name name' : String} (hr : R name name') :
    (Column.of s.table name).Alike R (.of s'.table name') :=
  ⟨congrArg some h.table, hr⟩

theorem Alike.restrict (h : s.Alike R s') {c c' : Condition} (hc : c.Alike R c') :
    (s.restrict c).Alike R (s'.restrict c') := by
  have condition := h.condition
  refine { h with condition := .some ?_ }
  generalize s.condition = root at condition
  generalize s'.condition = root' at condition
  cases condition with
  | none => exact hc
  | some hroot => exact hroot.narrow hc

theorem Alike.orderBy (h : s.Alike R s') {c c' : Column} (hc : c.Alike R c') (d : Direction) :
    (s.orderBy c d).Alike R (s'.orderBy c' d) :=
  { h with order := List.rel_append h.order (.cons ⟨hc, rfl⟩ .nil) }

theorem Alike.unpaged (h : s.Alike R s') : s.unpaged.Alike R s'.unpaged :=
  { h with order := .nil, limit := rfl, offset := rfl }

end Select

section Tokens

theorem alike_conditionTokens (refl : ∀ s, R s s) {c c' : Option Condition}
    (h : Option.Rel (Condition.Alike R) c c') :
    TokensAlike R (conditionTokens c) (conditionTokens c') := by
  cases h with
  | none => exact .nil
  | some h => exact .cons (.word _) ((Condition.alike_expr _ _ h).tokens refl)

theorem alike_orderByTokens (refl : ∀ s, R s s) {keys keys' : List (Column × Direction)}
    (h : List.Forall₂ (fun k k' => k.1.Alike R k'.1 ∧ k.2 = k'.2) keys keys') :
    TokensAlike R (orderByTokens keys) (orderByTokens keys') := by
  have each : List.Forall₂ (TokensAlike R) (keys.map orderTokens) (keys'.map orderTokens) := by
    rw [List.forall₂_map_left_iff, List.forall₂_map_right_iff]
    refine h.imp fun k k' hk => ?_
    rw [orderTokens, orderTokens, hk.2]
    exact List.rel_append (hk.1.tokens refl) (.cons (.word _) .nil)
  unfold orderByTokens
  cases h with
  | nil => exact .nil
  | cons first rest => exact .cons (.word _) (alike_separated ", " each)

theorem alike_boundTokens (keyword : String) {n n' : Option UInt64} (h : n.isSome = n'.isSome) :
    TokensAlike R (boundTokens keyword n) (boundTokens keyword n') := by
  cases n with
  | none =>
    cases n' with
    | none => exact .nil
    | some n' => cases h
  | some n =>
    cases n' with
    | none => cases h
    | some n' => exact .cons (.word _) (.cons (.bind _ _) .nil)

variable {s s' : Select}

theorem Select.Alike.tokens (refl : ∀ s, R s s) (h : s.Alike R s') :
    TokensAlike R s.tokens s'.tokens := by
  unfold Select.tokens
  rw [h.distinct, h.outputs, h.table, h.joins]
  refine .cons (.word _) ?_
  refine List.rel_append ?_ (alike_boundTokens _ h.offset)
  refine List.rel_append ?_ (alike_boundTokens _ h.limit)
  refine List.rel_append ?_ (alike_orderByTokens refl h.order)
  exact List.rel_append (tokensAlike_refl refl _) (alike_conditionTokens refl h.condition)

theorem Select.Alike.count_tokens (refl : ∀ s, R s s) (h : s.Alike R s') :
    TokensAlike R (Query.count s).tokens (Query.count s').tokens :=
  .cons (.word _) (List.rel_append (h.unpaged.tokens refl) (tokensAlike_refl refl _))

/-- Alike tokens are read as alike pieces of text. -/
theorem alike_lexemes (k : Nat) {ts ts' : List Token} (h : TokensAlike R ts ts') :
    List.Forall₂ (Lexeme.Alike R) (lexemes k ts) (lexemes k ts') := by
  induction h generalizing k with
  | nil => exact .nil
  | cons first _ ih =>
    cases first with
    | word w =>
      have same : List.Forall₂ (Lexeme.Alike R) (w.toList.map .char) (w.toList.map .char) := by
        rw [List.forall₂_map_left_iff, List.forall₂_map_right_iff]
        exact List.forall₂_same.2 fun c _ => .char c
      exact List.rel_append same (ih k)
    | name h => exact .cons (.name h) (ih k)
    | bind v v' => exact .cons (.placeholder _) (ih (k + 1))

end Tokens

/-- The texts of two statements are read as the same but for names, which are related. The
placeholders of each are numbered through its values, and read with them each text is the tokens of
its statement, so that every placeholder stands for the value that is bound in its place. -/
structure Query.SameText (d : Dialect) (R : String → String → Prop) (q q' : Query) : Prop where
  text : List.Forall₂ (Lexeme.Alike R) (d.lex 0 (q.statement d).text.toList)
    (d.lex 0 (q'.statement d).text.toList)
  bound : (d.lex 0 (q.statement d).text.toList).filterMap Lexeme.placeholder? =
    List.range' 1 (q.statement d).values.length
  bound' : (d.lex 0 (q'.statement d).text.toList).filterMap Lexeme.placeholder? =
    List.range' 1 (q'.statement d).values.length
  reads : (d.lex 0 (q.statement d).text.toList).map (·.piece? (q.statement d).values) =
    (q.tokens.flatMap Token.pieces).map some
  reads' : (d.lex 0 (q'.statement d).text.toList).map (·.piece? (q'.statement d).values) =
    (q'.tokens.flatMap Token.pieces).map some

theorem Query.sameText_of_tokens (d : Dialect) {q q' : Query}
    (h : TokensAlike R q.tokens q'.tokens) : q.SameText d R q' where
  text := by
    rw [(lex_statement d q).1, (lex_statement d q').1]
    exact alike_lexemes 0 h
  bound := (lex_statement d q).2
  bound' := (lex_statement d q').2
  reads := pieces_statement d q
  reads' := pieces_statement d q'

/-- Alike statements have the same text, and so have the statements that count their rows. -/
theorem Select.Alike.sameText (refl : ∀ s, R s s) (d : Dialect) {s s' : Select} (h : s.Alike R s') :
    (Query.rows s).SameText d R (.rows s') ∧ (Query.count s).SameText d R (.count s') := by
  constructor
  · exact Query.sameText_of_tokens d (h.tokens refl)
  · exact Query.sameText_of_tokens d (h.count_tokens refl)

end Sql
end ListQuery
