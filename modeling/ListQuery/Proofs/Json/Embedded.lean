import ListQuery.Json.Embedded
import ListQuery.Proofs.Json.Tree
import Mathlib.Tactic.SplitIfs

/-! A value keeps its form when its embedded documents are opened exactly if it has none: no text is
read as the object that an embedded document is written as. -/
namespace ListQuery
namespace Json

/-- An object that stands for itself and not for an embedded document. -/
def IsOwn : Json → Prop
  | .obj members => members.head?.map Prod.fst ≠ some embeddedName
  | _ => True

theorem isOwn_of_leaf {j : Json} (leaf : j.depth = 0) : IsOwn j := by
  cases j with
  | obj ms => cases leaf
  | _ => trivial

section Numbers

variable {negative : Bool} {whole fraction cs rest rest' : List Char} {ms : Members}

theorem map_rest_ne_obj {number : Option Json} (h : number ≠ some (.obj ms)) :
    number.map (·, rest') ≠ some (.obj ms, rest) := by
  intro read
  obtain ⟨j, found, same⟩ := Option.map_eq_some_iff.1 read
  cases same
  exact h found

theorem floatOf?_ne_obj (e : Int) : floatOf? negative whole fraction e ≠ some (.obj ms) := by
  intro h
  obtain ⟨x, -, same⟩ := Option.map_eq_some_iff.1 h
  cases same

theorem integerOf?_ne_obj : integerOf? negative whole ≠ some (.obj ms) := by
  intro h
  simp only [integerOf?] at h
  split_ifs at h
  · cases h
  · exact floatOf?_ne_obj 0 h
  · cases h
  · exact floatOf?_ne_obj 0 h

theorem fractional_ne_obj :
    fractional negative whole fraction cs ≠ some (.obj ms, rest) := by
  intro h
  unfold fractional at h
  split at h
  next =>
    split at h
    · obtain ⟨r, -, read⟩ := Option.bind_eq_some_iff.1 h
      exact map_rest_ne_obj (floatOf?_ne_obj _) read
    · exact map_rest_ne_obj (floatOf?_ne_obj _) h
  next => exact map_rest_ne_obj (floatOf?_ne_obj _) h

theorem unsignedRest_ne_obj : unsignedRest negative cs ≠ some (.obj ms, rest) := by
  intro h
  simp only [unsignedRest] at h
  split at h
  · cases h
  · split at h
    · split at h
      · cases h
      · exact fractional_ne_obj h
    · split at h
      · exact fractional_ne_obj h
      · exact map_rest_ne_obj integerOf?_ne_obj h
    · exact map_rest_ne_obj integerOf?_ne_obj h

end Numbers

section Objects

variable {fuel d : Nat} {cs after rest : List Char} {name : String} {ms : Members}

theorem members_name (named : nameRest cs = some (name, after))
    (read : members fuel d cs = some (ms, rest)) : name ∈ ms.map Prod.fst := by
  cases fuel with
  | zero => cases read
  | succ fuel =>
    rw [members, named] at read
    simp only at read
    split at read
    · cases read
    · split at read
      · obtain ⟨r, -, same⟩ := Option.map_eq_some_iff.1 read
        cases same
        exact List.mem_cons_self
      · cases read
        exact List.mem_cons_self
      · cases read

/-- An object that is read is empty, or an embedded document holds it, or one of its names is not
the reserved one. -/
theorem value_obj (read : value (fuel + 1) d cs = some (.obj ms, rest)) :
    ms = [] ∨ (∃ text, document fuel text = some (.obj ms)) ∨
      ∃ name ∈ ms.map Prod.fst, name ≠ embeddedName := by
  rw [value] at read
  split at read
  next => cases read
  next => cases read
  next => cases read
  next =>
    obtain ⟨r, -, same⟩ := Option.map_eq_some_iff.1 read
    cases same
  next => exact absurd read unsignedRest_ne_obj
  next =>
    split at read
    · cases read
    · split at read
      · cases read
      · obtain ⟨r, -, same⟩ := Option.map_eq_some_iff.1 read
        cases same
  -- A brace: nothing in it, a document, or members, the first of which has another name
  next =>
    split at read
    · cases read
    · split at read
      · cases read
        exact .inl rfl
      · split at read
        next => cases read
        next named =>
          split at read
          next =>
            split at read
            next => cases read
            next text _ _ =>
              obtain ⟨j, within, same⟩ := Option.map_eq_some_iff.1 read
              cases same
              exact .inr (.inl ⟨text, within⟩)
          next other =>
            obtain ⟨r, inside, same⟩ := Option.map_eq_some_iff.1 read
            cases same
            exact .inr (.inr ⟨_, mem_names_arranged.2 (members_name named inside), other⟩)
  next => exact absurd read unsignedRest_ne_obj

/-- No text is read as an object that has the reserved name alone. -/
theorem value_document_ne (fuel : Nat) (v : Json) :
    (∀ d cs rest, value fuel d cs ≠ some (.obj [(embeddedName, v)], rest)) ∧
      ∀ cs, document fuel cs ≠ some (.obj [(embeddedName, v)]) := by
  induction fuel with
  | zero => exact ⟨fun _ _ _ read => (by cases read), fun _ read => by cases read⟩
  | succ fuel ih =>
    constructor
    · intro d cs rest read
      rcases value_obj read with none | ⟨text, within⟩ | ⟨name, member, other⟩
      · cases none
      · exact ih.2 text within
      · exact other (List.mem_singleton.1 member)
    · intro cs read
      rw [document] at read
      split at read
      next first =>
        split at read
        · cases read
          exact ih.1 _ _ _ first
        · cases read
      next => cases read

end Objects

section Opened

theorem openedItems?_cons {j i : Json} {js is : List Json} :
    openedItems? (j :: js) = some (i :: is) ↔ opened? j = some i ∧ openedItems? js = some is := by
  rw [openedItems?]
  cases opened? j with
  | none => simp
  | some _ => cases openedItems? js <;> simp

theorem openedMembers?_cons {name : String} {j i : Json} {ms is : Members} :
    openedMembers? ((name, j) :: ms) = some ((name, i) :: is) ↔
      opened? j = some i ∧ openedMembers? ms = some is := by
  rw [openedMembers?]
  cases opened? j with
  | none => simp
  | some _ => cases openedMembers? ms <;> simp

/-- Items stay as they are if each does. -/
theorem openedItems?_eq_some_self {js : List Json} :
    openedItems? js = some js ↔ ∀ j ∈ js, opened? j = some j := by
  induction js with
  | nil => exact iff_of_true rfl (by simp)
  | cons j js ih => rw [openedItems?_cons, ih, List.forall_mem_cons]

theorem openedMembers?_eq_some_self {ms : Members} :
    openedMembers? ms = some ms ↔ ∀ m ∈ ms, opened? m.2 = some m.2 := by
  induction ms with
  | nil => exact iff_of_true rfl (by simp)
  | cons m ms ih => rw [openedMembers?_cons, ih, List.forall_mem_cons]

theorem opened?_arr_iff {js : List Json} :
    opened? (.arr js) = some (.arr js) ↔ ∀ j ∈ js, opened? j = some j := by
  rw [opened?, Option.map_eq_some_iff, ← openedItems?_eq_some_self]
  simp

theorem opened?_obj_iff {ms : Members} :
    opened? (.obj ms) = some (.obj ms) ↔ IsOwn (.obj ms) ∧ ∀ m ∈ ms, opened? m.2 = some m.2 := by
  rw [opened?.eq_def, ← openedMembers?_eq_some_self, IsOwn]
  simp only
  split
  next reserved =>
    refine iff_of_false ?_ fun own => own.1 reserved
    intro read
    split at read
    next name text =>
      obtain rfl : name = embeddedName := Option.some.inj reserved
      exact (value_document_ne _ _).2 _ read
    next => cases read
  next own =>
    rw [Option.map_eq_some_iff]
    simp [own]

/-- Opening the embedded documents of a value changes nothing exactly if there are none. -/
theorem opened?_eq_some_self {j : Json} : opened? j = some j ↔ Everywhere IsOwn j := by
  induction j using induct with
  | null | bool _ | int _ | float _ | str _ =>
    exact iff_of_true rfl ((everywhere_leaf rfl).2 trivial)
  | arr js ih =>
    rw [opened?_arr_iff, everywhere_arr, and_iff_right (show IsOwn (.arr js) from trivial)]
    exact forall₂_congr ih
  | obj ms ih =>
    rw [opened?_obj_iff, everywhere_obj]
    exact and_congr_right fun _ => forall₂_congr ih

end Opened

end Json
end ListQuery
