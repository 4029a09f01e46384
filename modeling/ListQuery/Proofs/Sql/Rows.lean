import Mathlib.Data.List.Dedup
import ListQuery.Proofs.Json.Equality
import ListQuery.Proofs.Sql.Truth

/-! The rows of select statements: listed table, inner joins, condition, columns and `DISTINCT`, and
the number of rows after the range. A condition takes a row only if it is true of it. -/
namespace ListQuery
namespace Sql

/-- The rows of every table. -/
abbrev Database := String → List Row

/-- How values are judged: predicates from the value of their column, and the equality of two
columns. -/
structure Judge where
  holds : Predicate → Value → Truth
  equal : Value → Value → Truth

/-- A row of every table in a statement, the listed table first. -/
abbrev Scope := List (String × Row)

/-- What a row lacks is null. -/
def Row.value (row : Row) (name : String) : Value := (row.lookup name).getD (.null .string)

namespace Scope

/-- A table by its name; without one it is the listed table. -/
def row (σ : Scope) : Option String → Row
  | some table => (σ.lookup table).getD []
  | none => (σ.head?.map (·.2)).getD []

def value (σ : Scope) (c : Column) : Value := (σ.row c.table).value c.name

end Scope

namespace Judge

variable (J : Judge) (db : Database)

def truth (σ : Scope) (p : Predicate) : Truth := J.holds p (σ.value p.column)

/-- The scopes with every row that the join finds for them. -/
def join (j : Join) (scopes : List Scope) : List Scope :=
  scopes.flatMap fun σ =>
    ((db j.table).map fun row => σ ++ [(j.table, row)]).filter fun σ =>
      J.equal (σ.value j.left) (σ.value j.right) = .true

def scopes (s : Select) : List Scope :=
  s.joins.foldl (fun scopes j => J.join db j scopes) ((db s.table).map fun row => [(s.table, row)])

end Judge

def Output.values (σ : Scope) : Output → Row
  | .column c => [(c.name, σ.value c)]
  | .star table => σ.row (some table)

namespace Select

def output (s : Select) (σ : Scope) : Row := s.outputs.flatMap (Output.values σ)

/-- The rows that a statement takes, before they are ordered and cut to a range. -/
def rows (J : Judge) (db : Database) (s : Select) : List Row :=
  let taken := ((J.scopes db s).filter fun σ => s.truth (J.truth σ) = .true).map s.output
  if s.distinct then taken.dedup else taken

/-- The number of rows within the range. -/
def total (J : Judge) (db : Database) (s : Select) : Nat :=
  let after := (s.rows J db).drop ((s.offset.map (·.toNat)).getD 0)
  match s.limit with
  | some n => (after.take n.toNat).length
  | none => after.length

end Select

section Scopes

variable {table other : String} {row link : Row} {rest : Scope}

theorem Scope.value_listed {c : Column} (h : c.table = none ∨ c.table = some table) :
    Scope.value ((table, row) :: rest) c = row.value c.name := by
  unfold Scope.value Scope.row
  rcases h with h | h <;> simp [h]

theorem Scope.value_link (apart : other ≠ table) {c : Column} (h : c.table = some other) :
    Scope.value [(table, row), (other, link)] c = link.value c.name := by
  have miss : (other == table) = false := by simpa using apart
  simp [Scope.value, Scope.row, h, List.lookup_cons, miss]

theorem Judge.truth_listed {J : Judge} {p : Predicate}
    (h : p.column.table = none ∨ p.column.table = some table) :
    J.truth ((table, row) :: rest) p = J.truth [(table, row)] p := by
  simp only [truth, Scope.value_listed h]

theorem Judge.truth_link {J : Judge} (apart : other ≠ table) {p : Predicate}
    (h : p.column.table = some other) :
    J.truth [(table, row), (other, link)] p = J.truth [(other, link)] p := by
  simp only [truth, Scope.value_link apart h, Scope.value_listed (.inr h)]

end Scopes

section Rows

variable {J : Judge} {db : Database} {s : Select}

theorem mem_scopes_of_no_join (h : s.joins = []) {σ : Scope} :
    σ ∈ J.scopes db s ↔ ∃ row ∈ db s.table, σ = [(s.table, row)] := by
  simp [Judge.scopes, h, eq_comm]

theorem mem_scopes_of_join {j : Join} (h : s.joins = [j]) {σ : Scope} :
    σ ∈ J.scopes db s ↔ ∃ row ∈ db s.table, ∃ link ∈ db j.table,
      σ = [(s.table, row), (j.table, link)] ∧
        J.equal (σ.value j.left) (σ.value j.right) = .true := by
  simp only [Judge.scopes, h, List.foldl_cons, List.foldl_nil, Judge.join, List.mem_flatMap,
    List.mem_filter, List.mem_map, decide_eq_true_eq]
  constructor
  · rintro ⟨_, ⟨row, hrow, rfl⟩, ⟨link, hlink, rfl⟩, heq⟩
    exact ⟨row, hrow, link, hlink, rfl, heq⟩
  · rintro ⟨row, hrow, link, hlink, rfl, heq⟩
    exact ⟨_, ⟨row, hrow, rfl⟩, ⟨link, hlink, rfl⟩, heq⟩

/-- `DISTINCT` changes how often rows occur, and not which. -/
theorem mem_rows {t : Row} :
    t ∈ s.rows J db ↔
      ∃ σ ∈ J.scopes db s, s.truth (J.truth σ) = .true ∧ s.output σ = t := by
  unfold Select.rows
  cases s.distinct <;> simp [and_assoc]

theorem nodup_rows_of_distinct (h : s.distinct = true) : (s.rows J db).Nodup := by
  simp [Select.rows, h, List.nodup_dedup]

theorem total_of_no_range (hl : s.limit = none) (ho : s.offset = none) :
    s.total J db = (s.rows J db).length := by
  simp [Select.total, hl, ho]

end Rows

end Sql
end ListQuery
