import ListQuery.Listing.Catalog
import ListQuery.Proofs.Json.Equality
import ListQuery.Proofs.Listing.Protocol
import ListQuery.Proofs.Sql.Values

/-! Related collections beside the rows of their lookup. Every lookup row that can be used goes to
the first row with its key, in the order of the lookup, and none goes anywhere else. -/
namespace ListQuery

open Sql

section Lookup

variable {α : Type}

/-- After a narrow filter a wider one is not seen. -/
theorem filter_filter_of_imp {narrow wide : α → Bool} (h : ∀ a, narrow a → wide a) (l : List α) :
    (l.filter wide).filter narrow = l.filter narrow := by
  rw [List.filter_filter]
  apply List.filter_congr
  intro a _
  by_cases holds : narrow a
  · rw [h a holds, Bool.and_true]
  · simp [holds]

theorem lookup_cons_ite (key k : String) (a : α) (l : List (String × α)) :
    ((k, a) :: l).lookup key = if key = k then some a else l.lookup key := by
  rw [List.lookup_cons]
  by_cases h : key = k
  · simp [h]
  · simp [beq_eq_false_iff_ne.2 h, h]

/-- Keeping some keys keeps what is found under them. -/
theorem lookup_filter (f : String → Bool) (key : String) (l : List (String × α)) :
    (l.filter fun e => f e.1).lookup key = if f key then l.lookup key else none := by
  induction l with
  | nil => simp
  | cons e l ih =>
    obtain ⟨k, a⟩ := e
    by_cases here : key = k
    · subst here
      cases hf : f key <;> simp [hf, ih]
    · cases hf : f k <;> simp [hf, lookup_cons_ite, here, ih]

end Lookup

/-- A member that is there and not null. -/
def Json.Has (name : String) (members : Json.Members) : Prop :=
  ∃ v ∈ members.lookup name, v ≠ .null

instance (name : String) (members : Json.Members) : Decidable (Json.Has name members) :=
  inferInstanceAs (Decidable (∃ v ∈ members.lookup name, v ≠ .null))

/-- The collection of a listed item. -/
def Listed.collection {α : Type} (l : Listed α) : List Json := l.related.elim [] (·.2)

namespace Groups

theorem lookup_push (g : Groups) (k : String) (item : Json) (key : String) :
    (g.push k item).lookup key =
      if key = k then some ((g.lookup k).getD [] ++ [item]) else g.lookup key := by
  induction g with
  | nil => simp [push, lookup_cons_ite]
  | cons e g ih =>
    obtain ⟨k', items⟩ := e
    rw [push]
    by_cases here : k' = k
    · subst here
      by_cases h : key = k' <;> simp [lookup_cons_ite, h]
    · rw [if_neg here, lookup_cons_ite, lookup_cons_ite, lookup_cons_ite, ih, if_neg (Ne.symm here)]
      by_cases h : key = k' <;> simp [h, here]

/-- The groups hold the items of some entries by their keys, in order. -/
def Holds (g : Groups) (entries : List (String × Json)) : Prop :=
  ∀ key, (g.lookup key).getD [] = (entries.filter (·.1 = key)).map (·.2)

theorem Holds.push {g : Groups} {entries : List (String × Json)} (h : g.Holds entries)
    (e : String × Json) : (g.push e.1 e.2).Holds (entries ++ [e]) := by
  intro key
  rw [lookup_push, List.filter_append, List.map_append, ← h key]
  by_cases same : key = e.1
  · simp [same]
  · have apart : e.1 ≠ key := Ne.symm same
    simp [same, apart]

/-- Entries pushed one after another go behind those that are held. -/
theorem Holds.foldl {g : Groups} {entries : List (String × Json)} (h : g.Holds entries)
    (more : List (String × Json)) :
    Holds (more.foldl (fun g e => g.push e.1 e.2) g) (entries ++ more) := by
  induction more generalizing g entries with
  | nil => simpa using h
  | cons e more ih =>
    rw [List.foldl_cons, List.append_cons]
    exact ih (h.push e)

/-- Taking a group leaves the groups of the other entries. -/
theorem Holds.take {g : Groups} {entries : List (String × Json)} (h : g.Holds entries)
    (key : String) :
    (g.take key).1 = (entries.filter (·.1 = key)).map (·.2) ∧
      (g.take key).2.Holds (entries.filter (·.1 ≠ key)) := by
  refine ⟨h key, ?_⟩
  intro k
  have left : (g.take key).2.lookup k = if k ≠ key then g.lookup k else none := by
    rw [Groups.take, lookup_filter (· != key)]
    simp
  rw [left]
  by_cases same : k = key
  · subst same
    simp [List.filter_filter]
  · rw [if_pos same, h k, filter_filter_of_imp]
    intro e here
    have here : e.1 = k := by simpa using here
    simpa [here] using same

end Groups

namespace Related

/-- A lookup row can be used if its local key is there and, where related keys are listed, the
related key is too. The local key is taken out first: no column is both. -/
structure Usable (r : Relation) (row : Json.Members) : Prop where
  local_key : Json.Has r.localKey row
  foreign_key : r.relatedTable = none → r.foreignKey ≠ r.localKey ∧ Json.Has r.foreignKey row

theorem usable_iff {r : Relation} {row : Json.Members} :
    Usable r row ↔ Json.Has r.localKey row ∧
      (r.relatedTable = none → r.foreignKey ≠ r.localKey ∧ Json.Has r.foreignKey row) :=
  ⟨fun h => ⟨h.1, h.2⟩, fun h => ⟨h.1, h.2⟩⟩

instance (r : Relation) (row : Json.Members) : Decidable (Usable r row) :=
  decidable_of_iff _ usable_iff.symm

/-- The text of the key that a lookup row belongs to. -/
def localText (r : Relation) (row : Json.Members) : String :=
  ((row.lookup r.localKey).bind jsonKey).getD ""

/-- What is embedded of a lookup row. -/
def item (r : Relation) (row : Json.Members) : Json :=
  match r.relatedTable with
  | some _ => .obj (Json.erase r.localKey row)
  | none => (row.lookup r.foreignKey).getD .null

/-- The items of the rows of a lookup that can be used, by the texts of their keys. -/
def usable (r : Relation) (found : List Row) : List (String × Json) :=
  ((found.map membersOf).filter (Usable r ·)).map fun row => (localText r row, item r row)

/-- What a row receives after the rows before it: the items of its key, unless one of them has the
same key. -/
def received (entries : List (String × Json)) (earlier : List (Option String)) :
    Option String → List Json
  | none => []
  | some key => if some key ∈ earlier then [] else (entries.filter (·.1 = key)).map (·.2)

/-- Listed rows with the collections of a relation, as the rows of its lookup have them. -/
structure Attached (r : Relation) (found : List Row) (keys : List Value) (rows : List Model)
    (listed : List (Listed Model)) : Prop where
  same_rows : listed.map (·.item) = rows
  collections : listed.map (·.related) = (keys.map valueKey).mapIdx fun i own =>
    some (r.field, received (usable r found) ((keys.map valueKey).take i) own)
  each_once : (listed.flatMap (·.collection)).Perm
    (((usable r found).filter (some ·.1 ∈ keys.map valueKey)).map (·.2))

section Lookup

variable (r : Relation) (row : Json.Members)

theorem has_iff {name : String} :
    Json.Has name row ↔ ∃ text, (row.lookup name).bind jsonKey = some text := by
  unfold Json.Has
  cases row.lookup name with
  | none => simp
  | some j => cases j <;> simp [jsonKey]

/-- The related key is looked for in what is left without the local key. -/
theorem lookup_erase :
    (Json.erase r.localKey row).lookup r.foreignKey =
      if r.foreignKey ≠ r.localKey then row.lookup r.foreignKey else none := by
  rw [Json.erase, lookup_filter (· != r.localKey)]
  simp

variable {r row}

theorem entry?_of_usable (h : Usable r row) :
    entry? r row = some (localText r row, item r row) := by
  obtain ⟨text, key⟩ := (has_iff row).1 h.local_key
  unfold entry? localText item
  cases table : r.relatedTable with
  | some t => simp [key]
  | none =>
    obtain ⟨apart, j, there, present⟩ := h.foreign_key table
    have found : row.lookup r.foreignKey = some j := there
    simp only [key, lookup_erase, if_pos apart, found]
    cases j with
    | null => exact absurd rfl present
    | _ => rfl

theorem entry?_of_not_usable (h : ¬Usable r row) : entry? r row = none := by
  unfold entry?
  cases key : (row.lookup r.localKey).bind jsonKey with
  | none => rfl
  | some text =>
    have local_key : Json.Has r.localKey row := (has_iff row).2 ⟨text, key⟩
    cases table : r.relatedTable with
    | some t =>
      have usable : Usable r row := ⟨local_key, by simp [table]⟩
      exact absurd usable h
    | none =>
      simp only [lookup_erase]
      by_cases apart : r.foreignKey ≠ r.localKey
      · rw [if_pos apart]
        cases found : row.lookup r.foreignKey with
        | none => rfl
        | some j =>
          cases j with
          | null => rfl
          | _ =>
            have foreign_key : Json.Has r.foreignKey row := ⟨_, found, by simp⟩
            exact absurd ⟨local_key, fun _ => ⟨apart, foreign_key⟩⟩ h
      · rw [if_neg apart]

variable (r)

theorem filterMap_usable (found : List Row) :
    found.filterMap (fun row => entry? r (membersOf row)) = usable r found := by
  unfold usable
  induction found with
  | nil => rfl
  | cons row found ih =>
    by_cases h : Usable r (membersOf row)
    · simp [entry?_of_usable h, ih, h]
    · simp [entry?_of_not_usable h, ih, h]

theorem holds_group (found : List Row) : (group r found).Holds (usable r found) := by
  have empty : Groups.Holds [] [] := fun _ => rfl
  rw [group, filterMap_usable]
  exact empty.foldl (usable r found)

end Lookup

section Distribute

/-- Once the first row has its items, the others receive what is left. -/
theorem received_cons (entries : List (String × Json)) (first : Option String)
    (earlier : List (Option String)) (own : Option String) :
    received entries (first :: earlier) own =
      received (entries.filter (some ·.1 ≠ first)) earlier own := by
  cases own with
  | none => rfl
  | some key =>
    simp only [received, List.mem_cons]
    by_cases same : some key = first
    · subst same
      simp [List.filter_filter]
    · rw [filter_filter_of_imp]
      · simp only [same, false_or]
      · intro e here
        have here : e.1 = key := by simpa using here
        simpa [here] using same

/-- With no row before it, a row receives all items of its key. -/
theorem received_nil (entries : List (String × Json)) (own : Option String) :
    received entries [] own = (entries.filter (some ·.1 = own)).map (·.2) := by
  cases own <;> simp [received]

theorem distribute_items (field : String) (g : Groups) (rows : List (Model × Value)) :
    (distribute field g rows).map (·.item) = rows.map (·.1) := by
  induction rows generalizing g with
  | nil => rfl
  | cons row rows ih =>
    obtain ⟨m, v⟩ := row
    rw [distribute]
    cases valueKey v <;> simp [ih]

/-- Each row takes the group of its key out of the groups: what the groups hold is received row by
row. -/
theorem distribute_collections (field : String) {g : Groups} {entries : List (String × Json)}
    (h : g.Holds entries) (rows : List (Model × Value)) :
    (distribute field g rows).map (·.related) =
      (rows.map (valueKey ·.2)).mapIdx fun i own =>
        some (field, received entries ((rows.map (valueKey ·.2)).take i) own) := by
  induction rows generalizing g entries with
  | nil => rfl
  | cons row rows ih =>
    obtain ⟨m, v⟩ := row
    rw [distribute, List.map_cons, List.mapIdx_cons]
    simp only [List.take_zero, List.take_succ_cons, received_cons, received_nil]
    cases valueKey v with
    | none =>
      have nothing : entries.filter (some ·.1 = none) = [] := by simp
      have all : entries.filter (some ·.1 ≠ none) = entries := by simp
      rw [nothing, all, List.map_cons, ih h]
      rfl
    | some text =>
      obtain ⟨items, left⟩ := h.take text
      simp only [Option.some.injEq, List.map_cons, items, ne_eq]
      rw [ih left]

/-- Every entry whose key is the key of some row is received once. -/
theorem received_perm (entries : List (String × Json)) (texts : List (Option String)) :
    (texts.mapIdx fun i own => received entries (texts.take i) own).flatten.Perm
      ((entries.filter (some ·.1 ∈ texts)).map (·.2)) := by
  induction texts generalizing entries with
  | nil => simp
  | cons first texts ih =>
    rw [List.mapIdx_cons, List.flatten_cons]
    simp only [List.take_zero, List.take_succ_cons, received_cons, received_nil]
    have of_first : (entries.filter (some ·.1 ∈ first :: texts)).filter (some ·.1 = first) =
        entries.filter (some ·.1 = first) := by
      apply filter_filter_of_imp
      intro e here
      simp [of_decide_eq_true here]
    have of_others :
        (entries.filter (some ·.1 ∈ first :: texts)).filter (fun e => !decide (some e.1 = first)) =
          (entries.filter (some ·.1 ≠ first)).filter (some ·.1 ∈ texts) := by
      rw [List.filter_filter, List.filter_filter]
      apply List.filter_congr
      intro e _
      by_cases same : some e.1 = first <;> simp [same]
    have split := List.filter_append_perm (some ·.1 = first)
      (entries.filter (some ·.1 ∈ first :: texts))
    rw [of_first, of_others] at split
    refine .trans ?_ (split.map _)
    rw [List.map_append]
    exact (ih _).append_left _

theorem attached_distribute (r : Relation) {g : Groups} {found : List Row}
    (h : g.Holds (usable r found)) (rows : List Model) (c : ColumnDef) :
    let keys := rows.map (Model.get · c)
    Attached r found keys rows (distribute r.field g (rows.zip keys)) := by
  intro keys
  have zipped : rows.zip keys = rows.map fun m => (m, m.get c) := by
    rw [← List.zip_map', List.map_id']
  have texts : (rows.zip keys).map (valueKey ·.2) = keys.map valueKey := by
    simp [zipped, keys]
  have collections := distribute_collections r.field h (rows.zip keys)
  rw [texts] at collections
  refine ⟨?_, collections, ?_⟩
  · rw [distribute_items, zipped, List.map_map]
    exact List.map_id rows
  · have each : (distribute r.field g (rows.zip keys)).map (·.collection) =
        (keys.map valueKey).mapIdx fun i own =>
          received (usable r found) ((keys.map valueKey).take i) own := by
      have of_related := congrArg (List.map fun c => c.elim [] (·.2)) collections
      simpa [List.mapIdx_eq_zipIdx_map, Function.comp_def, Listed.collection] using of_related
    rw [List.flatMap_def, each]
    exact received_perm _ _

end Distribute

/-- An answered lookup is grouped and distributed to the rows. -/
theorem attach_eq (s : Store) (e : Entity) (r : Relation) (rows : List Model) (resource : String)
    {c : ColumnDef} (column : e.column? r.primaryKey = some c) {found : List Row}
    (answered : rows ≠ [] → Store.reply s.answers 0 = .ok found) :
    let keys := rows.map (Model.get · c)
    attach s e r rows resource =
      (.ok (distribute r.field (group r found) (rows.zip keys)),
        s.after (if rows = [] then [] else [.rows (r.lookup keys)]), []) := by
  intro keys
  by_cases no_rows : rows = []
  · subst no_rows
    simp [attach, column, load, distribute]
  · have some_keys : keys ≠ [] := by simpa [keys] using no_rows
    have loaded : load s r keys resource =
        (.ok (group r found), s.after [.rows (r.lookup keys)]) := by
      simp [load, some_keys, Store.send_eq, answered no_rows]
    rw [attach, column, if_neg no_rows]
    simp only [loaded, keys]

/-- One lookup attaches the related collections of all rows: it binds the keys of the rows, in
order, and is not sent without rows. If it is answered, the rows are listed as they are, and every
lookup row that can be used is embedded once, with the first row of its key. -/
theorem attach_answered (s : Store) (e : Entity) (r : Relation) (rows : List Model)
    (resource : String) {c : ColumnDef} (column : e.column? r.primaryKey = some c)
    {found : List Row} (answered : rows ≠ [] → Store.reply s.answers 0 = .ok found) :
    let keys := rows.map (Model.get · c)
    let sent := if rows = [] then [] else [Query.rows (r.lookup keys)]
    ∃ listed, attach s e r rows resource = (.ok listed, s.after sent, []) ∧
      (∀ q ∈ sent, (q.statement s.dialect).values = keys) ∧
      Attached r found keys rows listed := by
  intro keys sent
  refine ⟨_, attach_eq s e r rows resource column answered, ?_,
    attached_distribute r (holds_group r found) rows c⟩
  intro q hq
  by_cases no_rows : rows = []
  · simp [sent, no_rows] at hq
  · have some_keys : keys ≠ [] := by simpa [keys] using no_rows
    obtain rfl : q = .rows (r.lookup keys) := by simpa [sent, no_rows] using hq
    exact r.values_lookup some_keys s.dialect

/-- Tags by the codes of things, which may be null or the same. -/
def codeTags : Relation where
  field := "tags"
  joinTable := "codes_tags"
  localKey := "code"
  foreignKey := "tag_id"
  primaryKey := "code"

def codeColumn : ColumnDef := ⟨"code", "code", .string, true⟩

/-- Things with two codes, the first of them twice, and one without. -/
def codedThings : List Model :=
  [.string "a", .string "b", .string "a", .null .string].map fun v => [(codeColumn, v)]

/-- Tags in turns, of a code that no thing has, without a code, and a code without a tag. -/
def codeTagRows : List Row :=
  [("a", some 1), ("b", some 2), ("c", some 3), ("a", none), ("a", some 4)].map
      (fun (code, tag) =>
        [("code", .string code), ("tag_id", tag.elim (.null (.int .int)) (.int .int))]) ++
    [[("code", .null .string), ("tag_id", .int .int 5)]]

theorem attach_codeTags :
    let s : Store := { dialect := .sqlite, answers := [.rows codeTagRows] }
    ∃ listed store,
      attach s Catalog.thingEntity codeTags codedThings "things" = (.ok listed, store, []) ∧
      store.log.length = 1 ∧
      listed.map (·.related) =
        [some ("tags", [.int 1, .int 4]), some ("tags", [.int 2]), some ("tags", []),
          some ("tags", [])] := by
  intro s
  have column : Catalog.thingEntity.column? codeTags.primaryKey = some codeColumn := by decide
  have answered : codedThings ≠ [] → Store.reply s.answers 0 = .ok codeTagRows := fun _ => rfl
  obtain ⟨listed, attached, -, to_rows⟩ :=
    attach_answered s Catalog.thingEntity codeTags codedThings "things" column answered
  refine ⟨listed, _, attached, rfl, ?_⟩
  rw [to_rows.collections]
  decide

/-- A relation whose two keys are one column. -/
def selfLabels : Relation where
  field := "labels"
  joinTable := "products_labels"
  localKey := "product_id"
  foreignKey := "product_id"

/-- With one column for both keys nothing is listed: the row has either key, neither is null, and its
key is the key of the product, but the local key is taken out before the related key is read. -/
theorem attach_selfLabels :
    let product : Model := [(Catalog.stringColumn "id", .string "p1")]
    let row : Row := [("product_id", .string "p1")]
    let s : Store := { dialect := .sqlite, answers := [.rows [row]] }
    let attached := attach s Catalog.productEntity selfLabels [product] "products"
    (Json.Has selfLabels.localKey (membersOf row) ∧ Json.Has selfLabels.foreignKey (membersOf row) ∧
        valueKey (product.get (Catalog.stringColumn "id")) = some "p1" ∧
        localText selfLabels (membersOf row) = "p1") ∧
      attached.1.toOption.map (·.map (·.related)) = some [some ("labels", [])] := by
  intro product row s attached
  refine ⟨by decide, ?_⟩
  rfl

end Related
end ListQuery
