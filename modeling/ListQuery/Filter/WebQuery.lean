import ListQuery.Text.Blank

/-! Web queries: words and quoted phrases, a dash in front of what must not occur, and `or` between
alternatives. Every text is a web query. -/
namespace ListQuery

namespace WebQuery

/-- Text that must occur, or must not. -/
structure Term where
  text : List Char
  negated : Bool
deriving DecidableEq

inductive Lexeme where
  | term (t : Term)
  | or
deriving DecidableEq

/-- The word `or` in any mixture of cases. -/
def isOr (text : List Char) : Bool :=
  match text with
  | [a, b] => (a == 'o' || a == 'O') && (b == 'r' || b == 'R')
  | _ => false

/-- Text without anything but blanks is no term. -/
def termOf? (negated : Bool) (text : List Char) : Option Lexeme :=
  let text := Text.trimmed text
  if text.isEmpty then none else some (.term ⟨text, negated⟩)

/-- Reads a word or a phrase that begins with `c`, which is not blank. A phrase that is not closed
goes to the end of the text. -/
def lexeme (negated : Bool) (c : Char) (cs : List Char) : Option Lexeme × List Char :=
  if c = '"' then
    (termOf? negated (cs.takeWhile (· != '"')), (cs.dropWhile (· != '"')).drop 1)
  else
    let text := c :: cs.takeWhile (!Text.isBlank ·)
    let rest := cs.dropWhile (!Text.isBlank ·)
    (if !negated && isOr text then some .or else termOf? negated text, rest)

theorem length_lexeme (negated : Bool) (c : Char) (cs : List Char) :
    (lexeme negated c cs).2.length ≤ cs.length := by
  have h := fun p : Char → Bool => (List.dropWhile_suffix p (l := cs)).length_le
  unfold lexeme
  split
  · simpa using Nat.le_succ_of_le (h (· != '"'))
  · exact h (!Text.isBlank ·)

/-- Reads terms and alternatives from left to right. A dash that stands alone counts for nothing. -/
def scan : List Char → List Lexeme
  | [] => []
  | c :: cs =>
    if Text.isBlank c then scan cs
    else if c = '-' then
      match cs with
      | [] => []
      | d :: ds =>
        if Text.isBlank d then scan ds
        else (lexeme true d ds).1.toList ++ scan (lexeme true d ds).2
    else (lexeme false c cs).1.toList ++ scan (lexeme false c cs).2
termination_by cs => cs.length
decreasing_by
  · simp
  · simp only [List.length_cons]
    omega
  · have h := length_lexeme true d ds
    simp only [List.length_cons]
    omega
  · have h := length_lexeme false c cs
    simp only [List.length_cons]
    omega

def Lexeme.term? : Lexeme → Option Term
  | .term t => some t
  | .or => none

/-- The alternatives, each a list of terms that are asked for together; empty ones are left out. -/
def groups (cs : List Char) : List (List Term) :=
  (((scan cs).splitOnP (· == .or)).map (·.filterMap Lexeme.term?)).filter (!·.isEmpty)

end WebQuery
end ListQuery
