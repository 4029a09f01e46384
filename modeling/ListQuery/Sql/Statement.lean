import ListQuery.Sql.Select

/-! Statements as text with bound values. A statement is first a list of tokens; user text occurs
only in names and in bound values. -/
namespace ListQuery
namespace Sql

inductive Dialect where
  | sqlite
  | postgres
  | mysql
deriving DecidableEq

/-- A condition as an expression of two-place connectives. -/
inductive Expr where
  | test (p : Predicate)
  | truth (b : Bool)
  | not (e : Expr)
  | and (l r : Expr)
  | or (l r : Expr)

/-- Joins expressions from left to right; none are true together and false as alternatives. -/
def Junction.chain (j : Junction) : List Expr → Expr
  | [] => .truth (j = .all)
  | e :: es => es.foldl (match j with | .all => .and | .any => .or) e

mutual

def Condition.expr : Condition → Expr
  | .test p => .test p
  | .group negated j members =>
    let e := j.chain (exprs members)
    if negated then .not e else e

def exprs : List Condition → List Expr
  | [] => []
  | c :: cs => c.expr :: exprs cs

end

@[simp] theorem exprs_value (cs : List Condition) : exprs cs = cs.map Condition.expr := by
  induction cs with
  | nil => simp [exprs]
  | cons c cs ih => simp [exprs, ih]

inductive Token where
  /-- Text of the language itself. -/
  | word (text : String)
  | name (name : String)
  /-- A placeholder and the value it stands for. -/
  | bind (value : Value)

namespace Token

def value? : Token → Option Value
  | .bind v => some v
  | _ => none

end Token

def Column.tokens (c : Column) : List Token :=
  match c.table with
  | some t => [.name t, .word ".", .name c.name]
  | none => [.name c.name]

def Comparison.symbol : Comparison → String
  | .eq => " = "
  | .ne => " <> "
  | .lt => " < "
  | .le => " <= "
  | .gt => " > "
  | .ge => " >= "

def TextSearch.function : TextSearch → String
  | .web => "websearch_to_tsquery"
  | .plain => "plainto_tsquery"
  | .phrase => "phraseto_tsquery"

/-- Lists with a separator between their tokens. -/
def separated (separator : String) : List (List Token) → List Token
  | [] => []
  | [ts] => ts
  | ts :: rest => ts ++ .word separator :: separated separator rest

/-- No value is in the empty list: two constants that differ are compared instead. -/
def Predicate.tokens : Predicate → List Token
  | .compare op c v => c.tokens ++ [.word op.symbol, .bind v]
  | .like c pattern =>
    .word "UPPER(" :: (c.tokens ++ [.word ") LIKE ", .bind (.string pattern)])
  | .oneOf _ [] => [.bind (.int .int 1), .word " = ", .bind (.int .int 2)]
  | .oneOf c values =>
    c.tokens ++ .word " IN (" :: (separated ", " (values.map ([.bind ·])) ++ [.word ")"])
  | .isNull c => c.tokens ++ [.word " IS NULL"]
  | .is c v => c.tokens ++ [.word " IS ", .bind v]
  | .fulltext mode c language query =>
    c.tokens ++ [.word " @@ ", .word mode.function, .word "(CAST(", .bind (.string language),
      .word " AS regconfig), ", .bind (.string query), .word ")"]

def parenthesized (ts : List Token) : List Token := .word "(" :: (ts ++ [.word ")"])

/-- Operands that need no parentheses under any connective. -/
def Expr.isPlain : Expr → Bool
  | .test (.fulltext ..) => false
  | .test _ | .truth _ => true
  | _ => false

def Expr.isAnd : Expr → Bool
  | .and .. => true
  | _ => false

def Expr.isOr : Expr → Bool
  | .or .. => true
  | _ => false

/-- A chain of one connective goes without parentheses on its left side only. -/
def Expr.tokens : Expr → List Token
  | .test p => p.tokens
  | .truth b => [.word (if b then "TRUE" else "FALSE")]
  | .not e => .word "NOT " :: (if e.isPlain then e.tokens else parenthesized e.tokens)
  | .and l r =>
    (if l.isPlain || l.isAnd then l.tokens else parenthesized l.tokens) ++ .word " AND " ::
      (if r.isPlain then r.tokens else parenthesized r.tokens)
  | .or l r =>
    (if l.isPlain || l.isOr then l.tokens else parenthesized l.tokens) ++ .word " OR " ::
      (if r.isPlain then r.tokens else parenthesized r.tokens)

def Output.tokens : Output → List Token
  | .column c => c.tokens
  | .star table => [.name table, .word ".*"]

def Join.tokens (j : Join) : List Token :=
  .word " INNER JOIN " :: .name j.table :: .word " ON " ::
    (j.left.tokens ++ .word " = " :: j.right.tokens)

def orderTokens (k : Column × Direction) : List Token :=
  k.1.tokens ++ [.word (match k.2 with | .asc => " ASC" | .desc => " DESC")]

def conditionTokens : Option Condition → List Token
  | some c => .word " WHERE " :: c.expr.tokens
  | none => []

def orderByTokens (keys : List (Column × Direction)) : List Token :=
  if keys.isEmpty then [] else .word " ORDER BY " :: separated ", " (keys.map orderTokens)

def boundTokens (keyword : String) : Option UInt64 → List Token
  | some n => [.word keyword, .bind (.int .bigUnsigned n.toNat)]
  | none => []

def Select.tokens (s : Select) : List Token :=
  .word (if s.distinct then "SELECT DISTINCT " else "SELECT ") ::
    (separated ", " (s.outputs.map Output.tokens) ++
      [.word " FROM ", .name s.table] ++
      s.joins.flatMap Join.tokens ++
      conditionTokens s.condition ++
      orderByTokens s.order ++
      boundTokens " LIMIT " s.limit ++
      boundTokens " OFFSET " s.offset)

/-- Rows are counted without the order and the range that their statement may have. -/
def Query.tokens : Query → List Token
  | .rows s => s.tokens
  | .count s =>
    .word "SELECT COUNT(*) AS num_items FROM (" ::
      (s.unpaged.tokens ++ [.word ") AS ", .name "sub_query"])

def Dialect.quote : Dialect → Char
  | .mysql => '\x60'
  | _ => '"'

/-- A name in quotes, a quote inside written twice. -/
def Dialect.quoted (d : Dialect) (name : String) : List Char :=
  d.quote :: (name.toList.flatMap (fun c => if c = d.quote then [c, c] else [c]) ++ [d.quote])

/-- The placeholder of the `n`-th value, counted from one. -/
def Dialect.placeholder (d : Dialect) (n : Nat) : List Char :=
  match d with
  | .postgres => '$' :: n.repr.toList
  | _ => ['?']

/-- The text of tokens after `n` placeholders. -/
def Dialect.chars (d : Dialect) (n : Nat) : List Token → List Char
  | [] => []
  | .word w :: ts => w.toList ++ d.chars n ts
  | .name s :: ts => d.quoted s ++ d.chars n ts
  | .bind _ :: ts => d.placeholder (n + 1) ++ d.chars (n + 1) ts

structure Statement where
  text : String
  values : List Value

def Query.statement (d : Dialect) (q : Query) : Statement where
  text := String.ofList (d.chars 0 q.tokens)
  values := q.tokens.filterMap Token.value?

end Sql
end ListQuery
