import ListQuery.Listing.Event
import ListQuery.Proofs.Json.Equality
import ListQuery.Proofs.Request.Notices

/-! Events account for what a request does not show of its query string: a field of filters is shown,
spoiled by an unknown token or left without a value, and as many sort keys and numbers are missing as
events say so. -/
namespace ListQuery

namespace Event

/-- Whether an event of the lowest level has a message. -/
def Says (message : String) (e : Event) : Prop := e.level = .trace ∧ e.message = message

/-- Whether such an event is about a field. -/
def Names (message field : String) (e : Event) : Prop :=
  e.Says message ∧ ("field", Json.str field) ∈ e.details

instance (message : String) : DecidablePred (Says message) :=
  fun e => inferInstanceAs (Decidable (e.level = .trace ∧ e.message = message))

instance (message field : String) : DecidablePred (Names message field) :=
  fun e => inferInstanceAs (Decidable (e.Says message ∧ ("field", Json.str field) ∈ e.details))

/-- Whether an event says that a token of a filter is unknown. -/
def NamesUnknown (field : String) (e : Event) : Prop :=
  e.Names "unknown filter operator" field ∨ e.Names "unknown negated operator" field

instance (field : String) : DecidablePred (NamesUnknown field) :=
  fun e => inferInstanceAs (Decidable (e.Names _ field ∨ e.Names _ field))

variable {n : Notice} {field : String}

theorem namesUnknown_noticed : (noticed n).NamesUnknown field ↔ n.Unknown field := by
  rw [Notice.unknown_iff]
  cases n <;> simp [NamesUnknown, Names, Says, level, message, details, eq_comm]

theorem names_valueless_noticed :
    (noticed n).Names "dropping filter without a value" field ↔ n = .valuelessFilter field := by
  cases n <;> simp [Names, Says, level, message, details, eq_comm]

theorem says_direction_noticed :
    (noticed n).Says "unknown sort direction" ↔ ∃ field raw, n = .unknownDirection field raw := by
  cases n <;> simp [Says, level, message]

theorem says_number_noticed :
    (noticed n).Says "ignoring non-integer pagination value" ↔
      ∃ key raw, n = .unreadableNumber key raw := by
  cases n <;> simp [Says, level, message]

end Event

open Request

namespace Key

/-- Whether a key is one of sorting. -/
def IsSort (s : String) : Prop := ∃ field, Spelled (.sort field) s

theorem isSort_iff {s : String} : IsSort s ↔ ∃ field, ofString s = .sort field := by
  simp [IsSort, spelled_iff]

instance : DecidablePred IsSort := fun s =>
  match h : ofString s with
  | .sort field => isTrue (isSort_iff.2 ⟨field, h⟩)
  | .page | .limit | .q | .filter .. | .other => isFalse fun sort => by simp [isSort_iff, h] at sort

theorem ofString_eq_page_iff {s : String} : ofString s = .page ↔ s = "page" := by
  constructor
  · intro h
    cases (spelled_iff.2 ⟨h, nofun⟩ : Spelled .page s)
    rfl
  · rintro rfl
    rfl

theorem ofString_eq_limit_iff {s : String} : ofString s = .limit ↔ s = "limit" := by
  constructor
  · intro h
    cases (spelled_iff.2 ⟨h, nofun⟩ : Spelled .limit s)
    rfl
  · rintro rfl
    rfl

end Key

/-- What becomes of the pairs on a field of filters. -/
inductive Fate where
  | shown
  | spoiled
  | valueless
deriving DecidableEq

variable {X : Type}

/-- How a request and the events of its reading tell what became of a field. -/
def Fate.Told (r : Request X) (events : List Event) (field : String) : Fate → Prop
  | .shown => ∃ f ∈ r.filters, f.field = field
  | .spoiled => ∃ e ∈ events, e.NamesUnknown field
  | .valueless => events.countP (·.Names "dropping filter without a value" field) = 1

instance (r : Request X) (events : List Event) (field : String) :
    DecidablePred (Fate.Told r events field)
  | .shown => inferInstanceAs (Decidable (∃ f ∈ r.filters, f.field = field))
  | .spoiled => inferInstanceAs (Decidable (∃ e ∈ events, e.NamesUnknown field))
  | .valueless => inferInstanceAs (Decidable (events.countP _ = 1))

/-- Events that say what a request does not show of some pairs, and no more. -/
structure Accounts (ps : List Form.Pair) (r : Request X) (events : List Event) : Prop where
  fields : ∀ field, Mentions ps field → ∃! fate : Fate, fate.Told r events field
  named : ∀ e ∈ events, ∀ field,
    e.NamesUnknown field ∨ e.Names "dropping filter without a value" field → Mentions ps field
  directions : events.countP (·.Says "unknown sort direction") + r.sort.length =
    ps.countP (Key.IsSort ·.1)
  numbers : events.countP (·.Says "ignoring non-integer pagination value") =
    ps.countP fun p => (p.1 = "page" ∨ p.1 = "limit") ∧ ¬ Text.IsInt64 (Text.trimmed p.2.toList)

namespace Request

section

variable [Extras X] {ps : List Form.Pair} {field : String}

/-- What becomes of a field, by its pairs alone. -/
def fateOf (ps : List Form.Pair) (field : String) : Fate :=
  if tokensAcceptable ps field then if (filterOn? ps field).isSome then .shown else .valueless
  else .spoiled

theorem field_of_filterOn? {f : Filter} (h : filterOn? ps field = some f) : f.field = field := by
  rw [← OpenFilter.finish_gathered] at h
  exact (OpenFilter.finish_eq_some h).1

theorem shown_iff (mem : field ∈ filterFields ps) :
    (∃ f ∈ (meaning ps : Request X).filters, f.field = field) ↔
      (filterOn? ps field).isSome = true := by
  rw [Option.isSome_iff_exists]
  constructor
  · rintro ⟨f, hf, rfl⟩
    obtain ⟨other, -, made⟩ := List.mem_filterMap.1 hf
    exact ⟨f, (field_of_filterOn? made).symm ▸ made⟩
  · rintro ⟨f, made⟩
    exact ⟨f, List.mem_filterMap.2 ⟨field, mem, made⟩, field_of_filterOn? made⟩

theorem spoiled_iff :
    (∃ e ∈ (noticesOf ps).map Event.noticed, e.NamesUnknown field) ↔
      tokensAcceptable ps field = false := by
  rw [← exists_unknown_iff]
  constructor
  · rintro ⟨e, he, names⟩
    obtain ⟨n, said, rfl⟩ := List.mem_map.1 he
    exact ⟨n, said, Event.namesUnknown_noticed.1 names⟩
  · rintro ⟨n, said, unknown⟩
    exact ⟨_, List.mem_map_of_mem said, Event.namesUnknown_noticed.2 unknown⟩

theorem countP_names_valueless :
    ((noticesOf ps).map Event.noticed).countP (·.Names "dropping filter without a value" field) =
      if field ∈ filterFields ps ∧ valueless ps field = true then 1 else 0 := by
  rw [List.countP_map, ← count_valueless, List.count]
  apply List.countP_congr
  intro n _
  simp [Event.names_valueless_noticed]

/-- A filter is only made of acceptable tokens. -/
theorem tokensAcceptable_of_filterOn? (h : (filterOn? ps field).isSome = true) :
    tokensAcceptable ps field = true := by
  unfold filterOn? at h
  split at h
  next acceptable => exact acceptable
  next => cases h

theorem told_iff (mem : field ∈ filterFields ps) (fate : Fate) :
    fate.Told (meaning ps : Request X) ((noticesOf ps).map .noticed) field ↔
      fate = fateOf ps field := by
  have only : (filterOn? ps field).isSome = true → tokensAcceptable ps field = true :=
    tokensAcceptable_of_filterOn?
  unfold fateOf
  cases fate with
  | shown =>
    rw [Fate.Told, shown_iff mem]
    split
    next => split <;> simp_all
    next spoiled => simp [mt only spoiled]
  | spoiled =>
    rw [Fate.Told, spoiled_iff]
    split
    next acceptable => split <;> simp [acceptable]
    next spoiled => simp [spoiled]
  | valueless =>
    have once : (if field ∈ filterFields ps ∧ valueless ps field = true then 1 else 0) = 1 ↔
        valueless ps field = true := by simp [mem]
    rw [Fate.Told, countP_names_valueless, once, valueless, ← Option.not_isSome]
    split
    next => split <;> simp_all
    next spoiled => simp [spoiled]

/-- A message that is never about a field without a value comes as often as pairs give rise to it. -/
theorem countP_message {message : String} {raises : Form.Pair → Prop} [DecidablePred raises]
    (h : message ≠ "dropping filter without a value")
    (pair : ∀ p, (∃ n, Noticed p n ∧ (Event.noticed n).Says message) ↔ raises p) :
    ((noticesOf ps).map Event.noticed).countP (·.Says message) = ps.countP (raises ·) := by
  have ofFields (fields : List String) :
      ((fields.map Notice.valuelessFilter).map Event.noticed).countP (·.Says message) = 0 := by
    rw [List.countP_eq_zero]
    intro e he same
    simp only [List.mem_map] at he
    obtain ⟨_, ⟨field, -, rfl⟩, rfl⟩ := he
    exact h (of_decide_eq_true same).2.symm
  rw [noticesOf, List.map_append, List.countP_append, ofFields, List.countP_map,
    List.countP_filterMap]
  apply List.countP_congr
  intro p _
  simp only [decide_eq_true_iff, ← pair, ← notice?_eq_some_iff]
  cases notice? p <;> simp

/-- A pair of a sort key makes one, or an event says that it does not. -/
theorem accounts_directions :
    ((noticesOf ps).map Event.noticed).countP (·.Says "unknown sort direction") +
      (ps.filterMap sortKey?).length = ps.countP (Key.IsSort ·.1) := by
  have unread (p : Form.Pair) :
      (∃ n, Noticed p n ∧ (Event.noticed n).Says "unknown sort direction") ↔
        Key.IsSort p.1 ∧ sortKey? p = none := by
    rw [Key.isSort_iff, ← exists_direction_iff]
    simp only [Event.says_direction_noticed]
    grind
  rw [countP_message (by simp) unread, List.length_filterMap_eq_countP, Nat.add_comm,
    List.countP_eq_countP_filter_add ps (Key.IsSort ·.1) (sortKey? · |>.isSome),
    List.countP_filter, List.countP_filter]
  congr 1
  · apply List.countP_congr
    intro p _
    have sort : (sortKey? p).isSome = true → Key.IsSort p.1 :=
      fun made => Key.isSort_iff.2 (exists_of_sortKey? made)
    simpa using sort
  · apply List.countP_congr
    intro p _
    simp

theorem accounts_numbers :
    ((noticesOf ps).map Event.noticed).countP (·.Says "ignoring non-integer pagination value") =
      ps.countP fun p =>
        (p.1 = "page" ∨ p.1 = "limit") ∧ ¬ Text.IsInt64 (Text.trimmed p.2.toList) := by
  apply countP_message (by simp)
  intro p
  rw [← Key.ofString_eq_page_iff, ← Key.ofString_eq_limit_iff, ← exists_number_iff]
  simp only [Event.says_number_noticed]
  grind

/-- Events about filters name fields of filters. -/
theorem mem_filterFields_of_named {e : Event} (he : e ∈ (noticesOf ps).map Event.noticed)
    (names : e.NamesUnknown field ∨ e.Names "dropping filter without a value" field) :
    field ∈ filterFields ps := by
  rcases names with unknown | unvalued
  · have spoiled := spoiled_iff.1 ⟨e, he, unknown⟩
    obtain ⟨p, hp, n, noticed, unknown⟩ := tokensAcceptable_eq_false_iff.1 spoiled
    obtain ⟨part, key⟩ : ∃ part, Key.ofString p.1 = .filter field part := by
      cases unknown <;> cases noticed <;> exact ⟨_, by assumption⟩
    exact mem_filterFields.2 ⟨p, hp, part, Key.spelled_iff.2 ⟨key, nofun⟩⟩
  · have counted : 0 < ((noticesOf ps).map Event.noticed).countP
        (·.Names "dropping filter without a value" field) :=
      List.countP_pos_iff.2 ⟨e, he, decide_eq_true unvalued⟩
    rw [countP_names_valueless] at counted
    by_contra absent
    simp [absent] at counted

/-- Nothing is passed over in silence, and nothing is said that is not so. -/
theorem decode_accounts (query : String) :
    Accounts (pairsOf query) (decode query : Request X)
      ((decodeNoting (X := X) query).2.map Event.noticed) := by
  rw [decode, decodeNoting_eq]
  refine ⟨?_, ?_, accounts_directions, accounts_numbers⟩
  · intro field mentioned
    have told := told_iff (X := X) (mem_filterFields.2 mentioned)
    exact ⟨_, (told _).2 rfl, fun fate => (told fate).1⟩
  · intro e he field names
    exact mem_filterFields.1 (mem_filterFields_of_named he names)

end

/-- A field shown, a field spoiled, a field without a value, a bad direction and a bad number. -/
def mixedPairs : List Form.Pair :=
  [("filter[a]", "1"), ("filter[b]", "2"), ("filter[b][operator]", "near"), ("filter[c]", ""),
    ("sort[d]", "up"), ("sort[e]", "asc"), ("page", "x")]

def mixedQuery : String :=
  "filter[a]=1&filter[b]=2&filter[b][operator]=near&filter[c]=&sort[d]=up&sort[e]=asc&page=x"

theorem decode_accounts_mixed :
    let request : Request NoExtras := decode mixedQuery
    let events := (decodeNoting (X := NoExtras) mixedQuery).2.map Event.noticed
    (Fate.shown.Told request events "a" ∧ Fate.spoiled.Told request events "b" ∧
        Fate.valueless.Told request events "c") ∧
      ¬ Fate.shown.Told request events "b" ∧
      events.countP (·.Says "unknown sort direction") = 1 ∧
      events.countP (·.Says "ignoring non-integer pagination value") = 1 := by
  intro request events
  have pairs : pairsOf mixedQuery = mixedPairs := by decide +kernel
  have request_eq : request =
      { sort := [⟨"e", .asc⟩], filters := [{ field := "a", value := "1" }], extras := {} } := by
    change (decodeNoting mixedQuery).1 = _
    rw [decodeNoting_eq, pairs]
    decide +kernel
  have events_eq : events =
      [.noticed (.unknownOperator "b" "near"), .noticed (.unknownDirection "d" "up"),
        .noticed (.unreadableNumber "page" "x"), .noticed (.valuelessFilter "c")] := by
    change (decodeNoting mixedQuery).2.map Event.noticed = _
    rw [decodeNoting_eq, pairs]
    decide +kernel
  have accounts : Accounts mixedPairs request events := pairs ▸ decode_accounts mixedQuery
  have spoiled : Fate.spoiled.Told request events "b" := by rw [request_eq, events_eq]; decide
  refine ⟨⟨?_, spoiled, ?_⟩, ?_, ?_, ?_⟩
  · rw [request_eq, events_eq]
    decide
  · rw [request_eq, events_eq]
    decide
  · intro also
    have mentioned : "b" ∈ filterFields mixedPairs := by decide +kernel
    cases (accounts.fields "b" (mem_filterFields.1 mentioned)).unique also spoiled
  · have sorts : mixedPairs.countP (Key.IsSort ·.1) = 2 := by decide +kernel
    have total := accounts.directions
    rw [sorts, request_eq] at total
    exact Nat.succ.inj total
  · rw [accounts.numbers]
    decide +kernel

end Request
end ListQuery
