import ListQuery.Proofs.Json.Tree

/-! Renderings of an object that a reader by names cannot tell apart: its members in another order,
with unknown members among them, and with null for what is not set. -/
namespace ListQuery
namespace Json

theorem lookup_eq_some_iff_mem {name : String} {v : Json} {ms : Members}
    (distinct : (ms.map Prod.fst).Nodup) : ms.lookup name = some v ↔ (name, v) ∈ ms := by
  induction ms with
  | nil => simp
  | cons m ms ih =>
    obtain ⟨n, w⟩ := m
    obtain ⟨fresh, others⟩ := List.nodup_cons.1 distinct
    rw [List.lookup_cons, List.mem_cons, Prod.mk.injEq]
    by_cases same : name = n
    · subst same
      have alone : (name, v) ∉ ms := fun mem => fresh (List.mem_map.2 ⟨_, mem, rfl⟩)
      simp [alone, eq_comm]
    · rw [beq_eq_false_iff_ne.2 same]
      simp only [ih others, same, false_and, false_or]

/-- The second object has the members of the first and others besides, in any order. Of the names
that are read, the others may only have null. -/
inductive Renders (names : List String) : Json → Json → Prop where
  | obj {own others ms : Members} (perm : ms.Perm (own ++ others))
      (distinct : (ms.map Prod.fst).Nodup) (unset : ∀ m ∈ others, m.1 ∈ names → m.2 = .null) :
      Renders names (.obj own) (.obj ms)

section Renders

variable {names : List String} {own others ms : Members} {name : String} {v j : Json}

/-- The order of the members does not matter on the first side either. -/
theorem Renders.of_perm {own' : Members} (perm : own'.Perm own) (h : Renders names (.obj own') j) :
    Renders names (.obj own) j := by
  cases h with
  | obj whole distinct unset => exact .obj (whole.trans (perm.append_right _)) distinct unset

theorem renders_ofMembers (distinct : (own.map Prod.fst).Nodup) :
    Renders names (ofMembers own) j ↔ Renders names (.obj own) j :=
  ⟨.of_perm (arranged_perm distinct), .of_perm (arranged_perm distinct).symm⟩

/-- An object is a rendering of itself. -/
theorem renders_self (distinct : (own.map Prod.fst).Nodup) :
    Renders names (.obj own) (ofMembers own) := by
  have arrangement := arranged_perm distinct
  have perm : (arranged own).Perm (own ++ []) := by rwa [List.append_nil]
  have none : ∀ m ∈ ([] : Members), m.1 ∈ names → m.2 = .null := fun m mem => by cases mem
  exact .obj perm ((arrangement.map Prod.fst).nodup_iff.2 distinct) none

/-- Unknown members can be left out. -/
theorem Renders.filter (h : Renders names (.obj own) (.obj ms)) (known : ∀ m ∈ own, m.1 ∈ names) :
    Renders names (.obj own) (.obj (ms.filter (·.1 ∈ names))) := by
  cases h with
  | @obj _ others _ perm distinct unset =>
    have stays : own.filter (·.1 ∈ names) = own := by simpa using known
    have whole := perm.filter (·.1 ∈ names)
    rw [List.filter_append, stays] at whole
    refine .obj whole (distinct.sublist (List.filter_sublist.map _)) ?_
    exact fun m mem => unset m (List.mem_filter.1 mem).1

theorem Renders.exists_members (h : Renders names (.obj own) j) : ∃ ms, j = .obj ms := by
  cases h with
  | @obj _ _ ms _ _ _ => exact ⟨ms, rfl⟩

theorem Renders.distinct (h : Renders names (.obj own) (.obj ms)) : (ms.map Prod.fst).Nodup := by
  cases h with
  | obj _ distinct _ => exact distinct

theorem Renders.lookup_own (h : Renders names (.obj own) (.obj ms)) (mem : (name, v) ∈ own) :
    ms.lookup name = some v := by
  cases h with
  | obj perm distinct _ =>
    exact (lookup_eq_some_iff_mem distinct).2 (perm.mem_iff.2 (List.mem_append_left _ mem))

/-- A name that is read and not set is absent, or it has null. -/
theorem Renders.lookup_unset (h : Renders names (.obj own) (.obj ms)) (known : name ∈ names)
    (unset : name ∉ own.map Prod.fst) : ms.lookup name = none ∨ ms.lookup name = some .null := by
  cases h with
  | @obj _ others _ perm distinct null =>
    cases found : ms.lookup name with
    | none => exact .inl rfl
    | some v =>
      have mem := perm.mem_iff.1 ((lookup_eq_some_iff_mem distinct).1 found)
      rcases List.mem_append.1 mem with mem | mem
      · exact absurd (List.mem_map_of_mem (f := Prod.fst) mem) unset
      · rw [show v = .null from null _ mem known]
        exact .inr rfl

end Renders

end Json
end ListQuery
