import ListQuery.Proofs.Store.Related

/-! Related collections of rows with one key. The first of them takes the items of the key and leaves
none, so that rows with one key show one collection exactly if no key that has items repeats. -/
namespace ListQuery

open Sql

theorem mem_take_iff {α : Type} {l : List α} {n : Nat} {a : α} :
    a ∈ l.take n ↔ ∃ i < n, l[i]? = some a := by
  rw [List.mem_iff_getElem?]
  apply exists_congr
  intro i
  rw [List.getElem?_take]
  by_cases h : i < n <;> simp [h]

namespace Related

/-- The items of a key. -/
def offered (entries : List (String × Json)) (key : Option String) : List Json :=
  (entries.filter (some ·.1 = key)).map (·.2)

theorem received_eq (entries : List (String × Json)) (earlier : List (Option String))
    (key : Option String) :
    received entries earlier key = if key ∈ earlier then [] else offered entries key := by
  cases key with
  | none => simp [received, offered]
  | some text => simp [received, offered]

/-- A key of two rows has no items. -/
def Unshared (entries : List (String × Json)) (keys : List (Option String)) : Prop :=
  keys.Pairwise fun key later => later = key → offered entries key = []

instance (entries : List (String × Json)) (keys : List (Option String)) :
    Decidable (Unshared entries keys) := inferInstanceAs (Decidable (List.Pairwise _ _))

section Places

variable {entries : List (String × Json)} {keys : List (Option String)} {key : Option String}

/-- What the row at a place receives. -/
def receivedAt (entries : List (String × Json)) (keys : List (Option String)) (i : Nat) :
    Option (List Json) :=
  keys[i]?.map (received entries (keys.take i))

theorem receivedAt_first {i : Nat} (here : keys[i]? = some key) (first : key ∉ keys.take i) :
    receivedAt entries keys i = some (offered entries key) := by
  rw [receivedAt, here, Option.map_some, received_eq, if_neg first]

theorem receivedAt_later {i j : Nat} (earlier : i < j) (there : keys[i]? = some key)
    (here : keys[j]? = some key) : receivedAt entries keys j = some [] := by
  have before : key ∈ keys.take j := mem_take_iff.2 ⟨i, earlier, there⟩
  rw [receivedAt, here, Option.map_some, received_eq, if_pos before]

theorem unshared_iff :
    Unshared entries keys ↔ ∀ (i j : Nat) key, i < j → keys[i]? = some key →
      keys[j]? = some key → offered entries key = [] := by
  rw [Unshared, List.pairwise_iff_getElem]
  constructor
  · intro pairs i j key earlier there here
    obtain ⟨hi, first⟩ := List.getElem?_eq_some_iff.1 there
    obtain ⟨hj, second⟩ := List.getElem?_eq_some_iff.1 here
    rw [← first]
    exact pairs i j hi hj earlier (second.trans first.symm)
  · intro places i j hi hj earlier same
    apply places i j _ earlier (List.getElem?_eq_getElem hi)
    rw [List.getElem?_eq_getElem hj, same]

theorem receivedAt_of_unshared (h : Unshared entries keys) {i : Nat} (here : keys[i]? = some key) :
    receivedAt entries keys i = some (offered entries key) := by
  by_cases before : key ∈ keys.take i
  · obtain ⟨j, earlier, there⟩ := mem_take_iff.1 before
    rw [receivedAt_later earlier there here, unshared_iff.1 h j i key earlier there here]
  · exact receivedAt_first here before

/-- Rows with one key receive the same exactly if it has no items. -/
theorem receivedAt_same_iff :
    (∀ i j : Nat, keys[i]? = keys[j]? → receivedAt entries keys i = receivedAt entries keys j) ↔
      Unshared entries keys := by
  rw [unshared_iff]
  constructor
  · intro same i
    -- Not the first row of the two need be the first with the key: go back to that one.
    induction i using Nat.strongRecOn with
    | ind i ih =>
      intro j key earlier there here
      by_cases before : key ∈ keys.take i
      · obtain ⟨k, back, first⟩ := mem_take_iff.1 before
        exact ih k back j key (Nat.lt_trans back earlier) first here
      · have both := same i j (there.trans here.symm)
        rw [receivedAt_first there before, receivedAt_later earlier there here] at both
        exact Option.some.inj both
  · intro places i j same
    have unshared := unshared_iff.2 places
    cases there : keys[i]? with
    | none =>
      rw [receivedAt, receivedAt, ← same, there]
      rfl
    | some key =>
      rw [receivedAt_of_unshared unshared there, receivedAt_of_unshared unshared (same ▸ there)]

end Places

/-- The collections that an answered lookup leaves on the rows, place by place. -/
theorem related_attached {r : Relation} {found : List Row} {keys : List Value} {rows : List Model}
    {listed : List (Listed Model)} (h : Attached r found keys rows listed) (i : Nat) :
    listed[i]?.map (·.related) =
      (receivedAt (usable r found) (keys.map valueKey) i).map fun items => some (r.field, items) := by
  rw [← List.getElem?_map, h.collections, List.getElem?_mapIdx, receivedAt]
  cases (keys.map valueKey)[i]? <;> rfl

/-- The first row with a key carries all items of the key that an answered lookup found, and every
later one none. So rows with one key carry the same exactly if no key of two rows has items, and
then every row carries all items of its key. -/
theorem attach_shares_iff (s : Store) (e : Entity) (r : Relation) (rows : List Model)
    (resource : String) {c : ColumnDef} (column : e.column? r.primaryKey = some c)
    {found : List Row} (answered : rows ≠ [] → Store.reply s.answers 0 = .ok found) :
    let keys := (rows.map (Model.get · c)).map valueKey
    let items := offered (usable r found)
    ∃ listed, (attach s e r rows resource).1 = .ok listed ∧ listed.map (·.item) = rows ∧
      (∀ (i : Nat) key, keys[i]? = some key → key ∉ keys.take i →
        listed[i]?.map (·.related) = some (some (r.field, items key))) ∧
      (∀ (i j : Nat) key, i < j → keys[i]? = some key → keys[j]? = some key →
        listed[j]?.map (·.related) = some (some (r.field, []))) ∧
      ((∀ i j : Nat, keys[i]? = keys[j]? →
        listed[i]?.map (·.related) = listed[j]?.map (·.related)) ↔
          Unshared (usable r found) keys) ∧
      (Unshared (usable r found) keys → ∀ (i : Nat) key, keys[i]? = some key →
        listed[i]?.map (·.related) = some (some (r.field, items key))) := by
  intro keys items
  have attached := attached_distribute r (holds_group r found) rows c
  refine ⟨_, congrArg Prod.fst (attach_eq s e r rows resource column answered),
    attached.same_rows, ?_⟩
  simp only [related_attached attached]
  refine ⟨?_, ?_, ?_, ?_⟩
  · intro i key here first
    rw [receivedAt_first here first]
    rfl
  · intro i j key earlier there here
    rw [receivedAt_later earlier there here]
    rfl
  · rw [← receivedAt_same_iff]
    have injective : Function.Injective fun items : List Json => some (r.field, items) := by
      intro a b same
      simpa using same
    exact forall₂_congr fun i j => imp_congr_right fun _ => (Option.map_injective injective).eq_iff
  · intro unshared i key here
    rw [receivedAt_of_unshared unshared here]
    rfl

/-- Labels by the status of products. -/
def statusLabels : Relation where
  field := "labels"
  joinTable := "statuses_labels"
  localKey := "status"
  foreignKey := "label_id"
  primaryKey := "status"

def withStatus (id status : String) : Model :=
  [(Catalog.stringColumn "id", .string id), (Catalog.stringColumn "status", .string status)]

def labelledStatus (status label : String) : Row :=
  [("status", .string status), ("label_id", .string label)]

/-- Two products are active, and active products have no labels. -/
theorem attach_shares_archived :
    let s : Store := { dialect := .sqlite, answers := [.rows [labelledStatus "archived" "l1"]] }
    let rows := [withStatus "p1" "active", withStatus "p2" "archived", withStatus "p3" "active"]
    ∃ listed, (attach s Catalog.productEntity statusLabels rows "products").1 = .ok listed ∧
      listed[0]?.map (·.related) = some (some ("labels", [])) ∧
      listed[1]?.map (·.related) = some (some ("labels", [.str "l1"])) ∧
      listed[2]?.map (·.related) = some (some ("labels", [])) := by
  intro s rows
  let found := [labelledStatus "archived" "l1"]
  have column : Catalog.productEntity.column? statusLabels.primaryKey =
      some (Catalog.stringColumn "status") := by decide
  have answered : rows ≠ [] → Store.reply s.answers 0 = .ok found := fun _ => rfl
  obtain ⟨listed, attached, -, -, -, -, all⟩ :=
    attach_shares_iff s Catalog.productEntity statusLabels rows "products" column answered
  have unshared : Unshared (usable statusLabels found)
      [some "active", some "archived", some "active"] := by decide
  exact ⟨listed, attached, all unshared 0 (some "active") rfl,
    all unshared 1 (some "archived") rfl, all unshared 2 (some "active") rfl⟩

/-- Both products are active, and the label of active products goes to the first of them. -/
theorem attach_active_twice :
    let s : Store := { dialect := .sqlite, answers := [.rows [labelledStatus "active" "l1"]] }
    let rows := [withStatus "p1" "active", withStatus "p2" "active"]
    let attached := (attach s Catalog.productEntity statusLabels rows "products").1
    rows.map (·.get (Catalog.stringColumn "status")) = [.string "active", .string "active"] ∧
      attached.toOption.map (·.map (·.related)) =
        some [some ("labels", [.str "l1"]), some ("labels", [])] := by
  intro s rows attached
  exact ⟨rfl, rfl⟩

end Related
end ListQuery
