import ListQuery.Json.Basic
import Mathlib.Data.List.Induction

/-! JSON values as trees: what holds everywhere in a value, how deep it goes, and its canonical form
with the members of every object in the order of their names. -/
namespace ListQuery
namespace Json

/-- What is true of a value if it is true of all that it holds is true of every value. -/
@[elab_as_elim]
theorem induct {motive : Json → Prop} (null : motive .null) (bool : ∀ b, motive (.bool b))
    (int : ∀ n, motive (.int n)) (float : ∀ x, motive (.float x)) (str : ∀ s, motive (.str s))
    (arr : ∀ js, (∀ j ∈ js, motive j) → motive (.arr js))
    (obj : ∀ ms, (∀ m ∈ ms, motive m.2) → motive (.obj ms)) (j : Json) : motive j := by
  match j with
  | .null => exact null
  | .bool b => exact bool b
  | .int n => exact int n
  | .float x => exact float x
  | .str s => exact str s
  | .arr js => exact arr js fun j _ => induct null bool int float str arr obj j
  | .obj ms => exact obj ms fun m _ => induct null bool int float str arr obj m.2
decreasing_by
  · have item := List.sizeOf_lt_of_mem ‹j ∈ js›
    rw [Json.arr.sizeOf_spec]
    omega
  · have member := List.sizeOf_lt_of_mem ‹m ∈ ms›
    have value : sizeOf m = 1 + sizeOf m.1 + sizeOf m.2 := Prod.mk.sizeOf_spec m.1 m.2
    rw [Json.obj.sizeOf_spec]
    omega

/-- A value is found in itself, in the items of arrays and in the members of objects. -/
inductive Occurs : Json → Json → Prop where
  | self (j : Json) : Occurs j j
  | item {i j : Json} {js : List Json} (mem : j ∈ js) (h : Occurs i j) : Occurs i (.arr js)
  | member {i : Json} {m : String × Json} {ms : Members} (mem : m ∈ ms) (h : Occurs i m.2) :
      Occurs i (.obj ms)

/-- True of the value and of all that it holds, at any depth. -/
def Everywhere (p : Json → Prop) (j : Json) : Prop := ∀ i, Occurs i j → p i

section Everywhere

variable {p : Json → Prop} {j : Json}

theorem Everywhere.self (h : Everywhere p j) : p j := h j (.self j)

theorem everywhere_arr {js : List Json} :
    Everywhere p (.arr js) ↔ p (.arr js) ∧ ∀ j ∈ js, Everywhere p j := by
  constructor
  · exact fun h => ⟨h.self, fun j mem i hi => h i (.item mem hi)⟩
  · rintro ⟨here, items⟩ i hi
    cases hi with
    | self => exact here
    | item mem hi => exact items _ mem i hi

theorem everywhere_obj {ms : Members} :
    Everywhere p (.obj ms) ↔ p (.obj ms) ∧ ∀ m ∈ ms, Everywhere p m.2 := by
  constructor
  · exact fun h => ⟨h.self, fun m mem i hi => h i (.member mem hi)⟩
  · rintro ⟨here, members⟩ i hi
    cases hi with
    | self => exact here
    | member mem hi => exact members _ mem i hi

end Everywhere

mutual

/-- How many arrays and objects stand inside one another. -/
def depth : Json → Nat
  | .arr items => depthOfItems items + 1
  | .obj members => depthOfMembers members + 1
  | _ => 0

def depthOfItems : List Json → Nat
  | [] => 0
  | j :: rest => max (depth j) (depthOfItems rest)

def depthOfMembers : List (String × Json) → Nat
  | [] => 0
  | (_, j) :: rest => max (depth j) (depthOfMembers rest)

end

theorem depthOfItems_le_iff {js : List Json} {d : Nat} :
    depthOfItems js ≤ d ↔ ∀ j ∈ js, depth j ≤ d := by
  induction js with
  | nil => simp [depthOfItems]
  | cons j js ih => rw [depthOfItems, Nat.max_le, ih, List.forall_mem_cons]

/-- A value that holds no other is all that stands in it. -/
theorem everywhere_leaf {p : Json → Prop} {j : Json} (leaf : depth j = 0) :
    Everywhere p j ↔ p j := by
  constructor
  · exact Everywhere.self
  · intro here i occurs
    cases occurs with
    | self => exact here
    | item mem _ => cases leaf
    | member mem _ => cases leaf

/-- The members in the order of their names, the last of several with one name. -/
def arranged (ms : Members) : Members := ms.foldl (fun acc m => insert m.1 m.2 acc) []

theorem ofMembers_eq (ms : Members) : ofMembers ms = .obj (arranged ms) := rfl

section Arranged

variable {name n : String} {value : Json} {ms acc : Members}

theorem mem_names_insert :
    n ∈ (insert name value acc).map Prod.fst ↔ n = name ∨ n ∈ acc.map Prod.fst := by
  induction acc with
  | nil => simp [insert]
  | cons m acc ih =>
    unfold insert
    split
    next => simp
    next =>
      split
      next same => simp [same]
      next =>
        rw [List.map_cons, List.mem_cons, ih, List.map_cons, List.mem_cons]
        exact or_left_comm

theorem mem_names_foldl_insert :
    n ∈ (ms.foldl (fun acc m => insert m.1 m.2 acc) acc).map Prod.fst ↔
      n ∈ ms.map Prod.fst ∨ n ∈ acc.map Prod.fst := by
  induction ms generalizing acc with
  | nil => simp
  | cons m ms ih =>
    rw [List.foldl_cons, ih, mem_names_insert, List.map_cons, List.mem_cons, or_assoc]
    exact or_left_comm

/-- Arranging members loses no name. -/
theorem mem_names_arranged : n ∈ (arranged ms).map Prod.fst ↔ n ∈ ms.map Prod.fst := by
  rw [arranged, mem_names_foldl_insert]
  exact or_iff_left List.not_mem_nil

/-- A member with a new name joins the others. -/
theorem insert_perm (fresh : name ∉ acc.map Prod.fst) :
    (insert name value acc).Perm ((name, value) :: acc) := by
  induction acc with
  | nil => exact .refl _
  | cons m acc ih =>
    rw [List.map_cons, List.mem_cons, not_or] at fresh
    unfold insert
    split
    next => exact .refl _
    next =>
      rw [if_neg fresh.1]
      exact ((ih fresh.2).cons m).trans (.swap _ _ _)

theorem foldl_insert_perm (distinct : ((ms ++ acc).map Prod.fst).Nodup) :
    (ms.foldl (fun acc m => insert m.1 m.2 acc) acc).Perm (ms ++ acc) := by
  induction ms generalizing acc with
  | nil => exact .refl _
  | cons m ms ih =>
    rw [List.cons_append, List.map_cons, List.nodup_cons] at distinct
    have fresh : m.1 ∉ acc.map Prod.fst := fun mem =>
      distinct.1 (by rw [List.map_append]; exact List.mem_append_right _ mem)
    have first : (ms ++ insert m.1 m.2 acc).Perm (ms ++ (m.1, m.2) :: acc) :=
      (insert_perm fresh).append_left ms
    have whole := first.trans List.perm_middle
    exact (ih ((whole.map Prod.fst).nodup_iff.2 (List.nodup_cons.2 distinct))).trans whole

/-- Members with distinct names are only put in order. -/
theorem arranged_perm (distinct : (ms.map Prod.fst).Nodup) : (arranged ms).Perm ms := by
  have perm : (arranged ms).Perm (ms ++ []) := foldl_insert_perm (by rwa [List.append_nil])
  rwa [List.append_nil] at perm

/-- A name that is greater than all others goes to the end. -/
theorem insert_last (last : ∀ m ∈ acc, m.1 < name) :
    insert name value acc = acc ++ [(name, value)] := by
  induction acc with
  | nil => rfl
  | cons m acc ih =>
    rw [List.forall_mem_cons] at last
    have after : ¬ name < m.1 := String.lt_asymm last.1
    have other : name ≠ m.1 := by
      rintro rfl
      exact String.lt_irrefl _ last.1
    rw [insert, if_neg after, if_neg other, ih last.2, List.cons_append]

/-- Members that stand in order stay where they are. -/
theorem arranged_eq_self (order : (ms.map Prod.fst).Pairwise (· < ·)) : arranged ms = ms := by
  induction ms using List.reverseRecOn with
  | nil => rfl
  | append_singleton ms m ih =>
    rw [List.map_append, List.pairwise_append] at order
    have last : ∀ n ∈ ms, n.1 < m.1 := fun n mem =>
      order.2.2 n.1 (List.mem_map_of_mem mem) m.1 (by simp)
    have front := ih order.1
    unfold arranged at front ⊢
    rw [List.foldl_append, front]
    exact insert_last last

end Arranged

mutual

/-- The value with the members of every object in order, the last of several with one name. -/
def canonical : Json → Json
  | .arr items => .arr (canonicalItems items)
  | .obj members => ofMembers (canonicalMembers members)
  | j => j

def canonicalItems : List Json → List Json
  | [] => []
  | j :: rest => canonical j :: canonicalItems rest

def canonicalMembers : List (String × Json) → List (String × Json)
  | [] => []
  | (n, j) :: rest => (n, canonical j) :: canonicalMembers rest

end

theorem canonicalItems_eq (js : List Json) : canonicalItems js = js.map canonical := by
  induction js with
  | nil => rfl
  | cons j js ih => rw [canonicalItems, ih, List.map_cons]

theorem canonicalMembers_eq (ms : Members) :
    canonicalMembers ms = ms.map fun m => (m.1, canonical m.2) := by
  induction ms with
  | nil => rfl
  | cons m ms ih => rw [canonicalMembers, ih, List.map_cons]

/-- An object has its members in the order of their names, one for each name. -/
def IsOrdered : Json → Prop
  | .obj members => (members.map Prod.fst).Pairwise (· < ·)
  | _ => True

theorem canonical_eq_self {j : Json} (h : Everywhere IsOrdered j) : canonical j = j := by
  induction j using induct with
  | null => rfl
  | bool b => rfl
  | int n => rfl
  | float x => rfl
  | str s => rfl
  | arr js ih =>
    have items := (everywhere_arr.1 h).2
    rw [canonical, canonicalItems_eq, List.map_congr_left fun j mem => ih j mem (items j mem),
      List.map_id']
  | obj ms ih =>
    obtain ⟨order, members⟩ := everywhere_obj.1 h
    have same : canonicalMembers ms = ms := by
      rw [canonicalMembers_eq]
      exact (List.map_congr_left fun m mem => by rw [ih m mem (members m mem)]).trans
        (List.map_id' ms)
    rw [canonical, same, ofMembers_eq, arranged_eq_self order]

end Json
end ListQuery
