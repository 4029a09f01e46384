import ListQuery.Proofs.Filter.Scalars
import ListQuery.Proofs.Text.Trimming
import ListQuery.Proofs.Text.Words

/-! Lists of a membership test. A comma parts the items before it from the items behind it, items
are read back from between commas, and each item is bound once, as equality binds it. -/
namespace ListQuery
namespace Operand

open Text

/-- What can stand between commas. -/
structure IsItem (cs : List Char) : Prop where
  nonempty : cs ≠ []
  no_comma : ',' ∉ cs
  first : ∀ c ∈ cs.head?, isBlank c = false
  last : ∀ c ∈ cs.getLast?, isBlank c = false

section Reading

theorem itemsOf_append_comma (front rest : List Char) :
    itemsOf (front ++ ',' :: rest) = itemsOf front ++ itemsOf rest := by
  rw [itemsOf, List.splitOnP_append_cons front rest (by decide), List.map_append,
    List.filter_append]
  rfl

/-- Text without a comma is trimmed, and nothing if it is blank. -/
theorem itemsOf_piece {cs : List Char} (h : ∀ c ∈ cs, (c == ',') = false) :
    itemsOf cs = if trimmed cs = [] then [] else [trimmed cs] := by
  rw [itemsOf, List.splitOnP_eq_singleton h]
  by_cases blank : trimmed cs = [] <;> simp [blank]

theorem IsItem.itemsOf_eq {cs : List Char} (h : IsItem cs) : itemsOf cs = [cs] := by
  have piece : ∀ c ∈ cs, (c == ',') = false := by
    intro c hc
    rw [beq_eq_false_iff_ne]
    rintro rfl
    exact h.no_comma hc
  rw [itemsOf_piece piece, trimmed_of_ends h.first h.last, if_neg h.nonempty]

theorem isItem_of_mem {cs item : List Char} (h : item ∈ itemsOf cs) : IsItem item := by
  induction cs using induction_on_separators (· == ',') with
  | piece cs none =>
    rw [itemsOf_piece none] at h
    split at h
    next => cases h
    next nonempty =>
      obtain rfl := List.mem_singleton.1 h
      obtain ⟨first, last⟩ := ends_trimmed cs
      refine ⟨nonempty, fun comma => ?_, first, last⟩
      exact absurd (none _ (mem_of_mem_trimmed comma)) (by decide)
  | append front c rest comma before behind =>
    obtain rfl : c = ',' := by simpa using comma
    rw [itemsOf_append_comma, List.mem_append] at h
    exact h.elim before behind

/-- Items are read back from between commas. -/
theorem itemsOf_intercalate {items : List (List Char)} (h : ∀ item ∈ items, IsItem item) :
    itemsOf ([','].intercalate items) = items := by
  induction items with
  | nil => rfl
  | cons item items ih =>
    have here := (h item List.mem_cons_self).itemsOf_eq
    have ih := ih fun other mem => h other (List.mem_cons_of_mem _ mem)
    cases items with
    | nil => rw [List.intercalate_singleton, here]
    | cons next items =>
      rw [List.intercalate_cons_cons, List.append_assoc, List.singleton_append,
        itemsOf_append_comma, here, ih]
      rfl

end Reading

section Binding

/-- JSON looks like no number. -/
theorem IsJson.itemValue {item : String} {j : Json} (h : IsJson item.toList j) :
    itemValue item = .string item := by
  rw [Operand.itemValue, numeric?_eq_none_of_json? h.json?]

theorem itemValue_of_not_json {item : String} (h : ∀ j, ¬ IsJson item.toList j) :
    itemValue item = (coerce item .eq).toValue := by
  have coerced : coerce item .eq = scalar item := rfl
  have no_json : json? item.toList = none := by
    cases read : json? item.toList with
    | none => rfl
    | some o =>
      obtain ⟨j, -, json⟩ := exists_of_json? read
      exact absurd json (h j)
  rw [coerced, scalar, itemValue, no_json]
  cases numeric? item.toList <;> rfl

/-- A value bound for an item: the one that equality binds, unless the item is JSON, which stays
text in a list. -/
structure BoundFor (item : String) (v : Sql.Value) : Prop where
  as_equality : (∀ j, ¬ IsJson item.toList j) → v = (coerce item .eq).toValue
  as_text : ∀ j, IsJson item.toList j → v = .string item

theorem boundFor_itemValue (item : String) : BoundFor item (itemValue item) :=
  ⟨itemValue_of_not_json, fun _ h => h.itemValue⟩

end Binding

/-- The items of a list. -/
def members (text : String) : List String := (itemsOf text.toList).map String.ofList

/-- A membership test reads the items of its text. They hold no comma and no blank at their ends, the
items of two texts with a comma between them are the items of the one and then of the other, and
items joined by commas are read back. Each is bound once, in order. -/
theorem members_bound :
    (∀ text, coerce text .oneOf = .list (members text) ∧
        ∀ item ∈ members text, IsItem item.toList) ∧
      (∀ a b, members (a ++ "," ++ b) = members a ++ members b) ∧
      (∀ items, (∀ item ∈ items, IsItem item.toList) →
        coerce (",".intercalate items) .oneOf = .list items) ∧
      ∀ items, List.Forall₂ BoundFor items (toValues (.list items)) := by
  refine ⟨fun text => ⟨rfl, ?_⟩, ?_, ?_, ?_⟩
  · intro item mem
    obtain ⟨cs, read, rfl⟩ := List.mem_map.1 mem
    rw [String.toList_ofList]
    exact isItem_of_mem read
  · intro a b
    have joined : (a ++ "," ++ b).toList = a.toList ++ ',' :: b.toList := by simp
    rw [members, joined, itemsOf_append_comma, List.map_append]
    rfl
  · intro items h
    have read : itemsOf (",".intercalate items).toList = items.map String.toList := by
      rw [String.toList_intercalate]
      exact itemsOf_intercalate (List.forall_mem_map.2 h)
    rw [coerce, read, List.map_map]
    simp
  · intro items
    rw [toValues, List.forall₂_map_right_iff, List.forall₂_same]
    exact fun item _ => boundFor_itemValue item

example : coerce " a, b ,,c " .oneOf = .list ["a", "b", "c"] ∧ coerce " , " .oneOf = .list [] :=
  ⟨rfl, rfl⟩

instance (cs : List Char) : Decidable (IsItem cs) :=
  decidable_of_iff (cs ≠ [] ∧ ',' ∉ cs ∧ cs.head?.all (!isBlank ·) ∧
      cs.getLast?.all (!isBlank ·)) <| by
    simp only [Option.all_eq_true, Bool.not_eq_true']
    exact ⟨fun h => ⟨h.1, h.2.1, h.2.2.1, h.2.2.2⟩, fun h => ⟨h.1, h.2, h.3, h.4⟩⟩

/-- A number with a zero that could be left out, text with a blank inside, and JSON. -/
theorem members_bound_mixed :
    let items := ["-1.50", "ß é", "[1]"]
    ((∀ item ∈ items, IsItem item.toList) ∧ coerce "-1.50,ß é,[1]" .oneOf = .list items) ∧
      toValues (.list items) =
        [(coerce "-1.50" .eq).toValue, (coerce "ß é" .eq).toValue, .string "[1]"] := by
  intro items
  obtain ⟨-, -, joined, bound⟩ := members_bound
  have each : ∀ item ∈ items, IsItem item.toList := by decide
  refine ⟨⟨each, joined items each⟩, ?_⟩
  have values : toValues (.list items) =
      [itemValue "-1.50", itemValue "ß é", itemValue "[1]"] := rfl
  have bound := bound items
  simp only [values, items, List.forall₂_cons] at bound ⊢
  obtain ⟨number, text, json, -⟩ := bound
  have is_json : IsJson "[1]".toList (.arr [.int 1]) :=
    ⟨.inl rfl, .inl rfl, by decide, rfl⟩
  rw [number.as_equality fun j h => absurd h.first (by decide),
    text.as_equality fun j h => absurd h.first (by decide), json.as_text _ is_json]

end Operand
end ListQuery
