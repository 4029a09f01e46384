import ListQuery.Proofs.Json.Reserved
import ListQuery.Proofs.Shape.Text

/-! The JSON forms of requests and pages are read back as what they were written for: as values and
as text, with their members in any order, with unknown members and with null for unset parts. -/
namespace ListQuery
namespace Shape

open Json

/-- The names that a record is read by, and how it is written and read. -/
structure Record (α : Type) where
  names : List String
  write : α → Json
  read : Json → Option α
  readText : String → Option α

def sortKeys : Record SortKey := ⟨["field", "dir"], ofSortKey, sortKey?, sortKeyOfText?⟩

def filters : Record Filter :=
  ⟨["field", "value", "operator", "notOp"], ofFilter, filter?, filterOfText?⟩

def totals : Record Pagination :=
  ⟨["page", "pageSize", "totalItems", "totalPages"], ofPagination, pagination?, paginationOfText?⟩

/-- The object of `a`, and every rendering of it, is read as `a`, as a value and as text. Unknown
members may hold anything, nested to any depth; a known one that comes twice in a text is
refused. -/
structure Record.Keeps {α : Type} (r : Record α) (a : α) : Prop where
  value : r.read (r.write a) = some a
  text : r.readText (r.write a).text = some a
  rendering : ∀ j, Renders r.names (r.write a) j → r.read j = some a
  renderingText : ∀ j, Renders r.names (r.write a) j → r.readText j.text = some a
  repeatedText : ∀ ms m, Renders r.names (r.write a) (.obj ms) → m ∈ ms → m.1 ∈ r.names →
    r.readText (Json.obj (m :: ms)).text = none

/-- Parts that read the members of an object as they stand, and null for a member that it has
not. -/
structure Fits (parts : List (String × Reader)) (own : Members) : Prop where
  known : ∀ m ∈ own, m.1 ∈ parts.map Prod.fst
  reads : ∀ part ∈ parts, ∀ depth,
    (∃ v, (part.1, v) ∈ own ∧ Answers part.2 depth v (some v)) ∨
      part.1 ∉ own.map Prod.fst ∧ Answers part.2 depth .null (some .null)

namespace Fits

variable {parts : List (String × Reader)} {own ms : Members}

theorem partsAnswer (fits : Fits parts own) (h : Renders (parts.map Prod.fst) (.obj own) (.obj ms))
    (depth : Nat) : PartsAnswer parts depth ms fun m => some m.2 := by
  intro m mem read found
  cases h with
  | @obj _ others _ perm distinct unset =>
    have names : ((own ++ others).map Prod.fst).Nodup := (perm.map Prod.fst).nodup_iff.1 distinct
    have part := mem_of_lookup found
    have mem := perm.mem_iff.1 mem
    rcases fits.reads _ part depth with ⟨v, set, reads⟩ | ⟨absent, reads⟩
    · have same : (m.1, v) = m :=
        List.inj_on_of_nodup_map names (List.mem_append_left _ set) mem rfl
      rwa [← same]
    · rcases List.mem_append.1 mem with mem | mem
      · exact absurd (List.mem_map_of_mem mem) absent
      · have null : m.2 = .null := unset m mem (List.mem_map_of_mem (f := Prod.fst) part)
        simp only [null]
        exact reads

/-- The text of a rendering is read as another one, without its unknown members. -/
theorem exists_answer (fits : Fits parts own) {j : Json}
    (h : Renders (parts.map Prod.fst) (.obj own) j) (depth : Nat) :
    ∃ known, Answers (recordPart parts) (depth + 1) j (some known) ∧
      Renders (parts.map Prod.fst) (.obj own) known := by
  obtain ⟨ms, rfl⟩ := h.exists_members
  have whole := recordPart_distinct h.distinct (fits.partsAnswer h depth)
  rw [kept_eq_filter fun m _ _ => rfl] at whole
  exact ⟨_, whole, h.filter fits.known⟩

/-- A known member may not be written twice. -/
theorem partsOf?_repeated (fits : Fits parts own) {m : String × Json}
    (h : Renders (parts.map Prod.fst) (.obj own) (.obj ms)) (mem : m ∈ ms)
    (known : m.1 ∈ parts.map Prod.fst) : partsOf? parts (Json.obj (m :: ms)).text = none := by
  have answers : PartsAnswer parts 126 (m :: ms) fun m => some m.2 :=
    List.forall_mem_cons.2 ⟨fits.partsAnswer h 126 m mem, fits.partsAnswer h 126⟩
  refine partsOf?_text (recordPart_repeated ?_ answers)
  rw [List.map_cons, List.filter_cons, if_pos (decide_eq_true known), List.nodup_cons]
  have again : m.1 ∈ (ms.map Prod.fst).filter (· ∈ parts.map Prod.fst) :=
    List.mem_filter.2 ⟨List.mem_map_of_mem mem, decide_eq_true known⟩
  exact fun distinct => distinct.1 again

end Fits

/-- A record is kept if the renderings of its object are read as they should and its parts fit. -/
theorem Record.Keeps.of_fits {α : Type} {r : Record α} {a : α} (own : Members)
    (written : r.write a = ofMembers own) (distinct : (own.map Prod.fst).Nodup)
    (read : ∀ j, Renders r.names (.obj own) j → r.read j = some a)
    (parts : List (String × Reader)) (names : r.names = parts.map Prod.fst) (fits : Fits parts own)
    (readText : ∀ s, r.readText s = (partsOf? parts s).bind r.read) : r.Keeps a := by
  have text (j : Json) (h : Renders r.names (.obj own) j) : r.readText j.text = some a := by
    rw [names] at h read
    obtain ⟨known, answers, same⟩ := fits.exists_answer h 126
    rw [readText, partsOf?_text answers]
    exact read known same
  constructor
  case value =>
    rw [written]
    exact read _ (renders_self distinct)
  case text =>
    rw [written]
    exact text _ (renders_self distinct)
  case rendering =>
    intro j renders
    rw [written, renders_ofMembers distinct] at renders
    exact read j renders
  case renderingText =>
    intro j renders
    rw [written, renders_ofMembers distinct] at renders
    exact text j renders
  case repeatedText =>
    intro ms m renders mem known
    rw [written, renders_ofMembers distinct, names] at renders
    rw [names] at known
    rw [readText, fits.partsOf?_repeated renders mem known]
    rfl

section Parts

variable {names : List String} {own ms : Members} {name : String}

@[simp] theorem direction?_ofDirection (d : Direction) : direction? (ofDirection d) = some d :=
  Direction.ofToken?_token d

@[simp] theorem operator?_ofOperator (o : Operator) : operator? (ofOperator o) = some o :=
  Operator.ofToken?_token o

@[simp] theorem negation?_ofNegation (n : Negation) : negation? (ofNegation n) = some n :=
  Negation.ofToken?_token n

@[simp] theorem unsigned?_ofUnsigned (n : UInt64) : unsigned? (some (ofUnsigned n)) = some n := by
  have range := n.toNat_lt
  rw [ofUnsigned, unsigned?, if_pos (by omega), Int.toNat_natCast, UInt64.ofNat_toNat]

theorem optional?_some {α : Type} {read : Json → Option α} {j : Json} (h : j ≠ .null) :
    optional? read (some j) = (read j).map some := by
  cases j with
  | null => exact absurd rfl h
  | _ => rfl

/-- An optional part is read as it was set, or as unset where it has null or is not there. -/
theorem optional?_lookup {α : Type} {read : Json → Option α} (write : α → Json) {o : Option α}
    (h : Renders names (.obj own) (.obj ms)) (known : name ∈ names)
    (back : ∀ a, read (write a) = some a ∧ write a ≠ .null)
    (set : ∀ a, o = some a → (name, write a) ∈ own)
    (unset : o = none → name ∉ own.map Prod.fst) : optional? read (ms.lookup name) = some o := by
  cases o with
  | none =>
    rcases h.lookup_unset known (unset rfl) with found | found
    · rw [found]
      rfl
    · rw [found]
      rfl
  | some a =>
    obtain ⟨same, notNull⟩ := back a
    rw [h.lookup_own (set a rfl), optional?_some notNull, same]
    rfl

end Parts

/-- The members of a sort key's object. -/
def sortKeyMembers (k : SortKey) : Members :=
  [("field", .str k.field), ("dir", ofDirection k.direction)]

theorem distinct_sortKeyMembers (k : SortKey) : ((sortKeyMembers k).map Prod.fst).Nodup := by
  simp [sortKeyMembers]

theorem fits_sortKeyMembers (k : SortKey) : Fits sortKeyParts (sortKeyMembers k) := by
  refine ⟨by simp [sortKeyMembers, sortKeyParts], ?_⟩
  simp only [sortKeyParts, List.forall_mem_cons]
  refine ⟨fun depth => .inl ⟨_, ?_, textPart_answers k.field⟩,
    fun depth => .inl ⟨_, ?_, tokenPart_answers k.direction.token⟩, by simp⟩
  · simp [sortKeyMembers]
  · simp [sortKeyMembers, ofDirection]

theorem sortKeys_keep (k : SortKey) : sortKeys.Keeps k := by
  refine .of_fits (sortKeyMembers k) rfl (distinct_sortKeyMembers k) ?_ sortKeyParts rfl
    (fits_sortKeyMembers k) fun _ => rfl
  intro j renders
  obtain ⟨ms, rfl⟩ := renders.exists_members
  have field : ms.lookup "field" = some (.str k.field) :=
    renders.lookup_own (by simp [sortKeyMembers])
  have dir : ms.lookup "dir" = some (ofDirection k.direction) :=
    renders.lookup_own (by simp [sortKeyMembers])
  simp [sortKeys, sortKey?, fields?, field, dir, string?]

/-- The members of a filter's object. -/
def filterMembers (f : Filter) : Members :=
  [("field", .str f.field), ("value", .str f.value)] ++
    (f.operator.map fun o => ("operator", ofOperator o)).toList ++
    (f.negation.map fun n => ("notOp", ofNegation n)).toList

theorem filterMembers_names (f : Filter) :
    ((filterMembers f).map Prod.fst).Sublist filters.names := by
  obtain ⟨field, value, operator, negation⟩ := f
  cases operator <;> cases negation <;> simp [filterMembers, filters]

theorem distinct_filterMembers (f : Filter) : ((filterMembers f).map Prod.fst).Nodup :=
  (filterMembers_names f).nodup (by simp [filters])

theorem fits_filterMembers (f : Filter) : Fits filterParts (filterMembers f) := by
  have optional {name : String} {o : Option String}
      (set : ∀ s, o = some s → (name, .str s) ∈ filterMembers f)
      (unset : o = none → name ∉ (filterMembers f).map Prod.fst) (depth : Nat) :
      (∃ v, (name, v) ∈ filterMembers f ∧ Answers (optionalPart tokenPart) depth v (some v)) ∨
        name ∉ (filterMembers f).map Prod.fst ∧
          Answers (optionalPart tokenPart) depth .null (some .null) := by
    cases o with
    | none => exact .inr ⟨unset rfl, optionalPart_null tokenPart⟩
    | some s => exact .inl ⟨_, set s rfl, optionalPart_answers (tokenPart_answers s)⟩
  have operator := @optional "operator" (f.operator.map Operator.token)
    (by simp [filterMembers, ofOperator]) (by simp +contextual [filterMembers])
  have negation := @optional "notOp" (f.negation.map Negation.token)
    (by simp [filterMembers, ofNegation]) (by simp +contextual [filterMembers])
  refine ⟨?_, ?_⟩
  · intro m mem
    exact filterMembers_names f |>.subset (List.mem_map_of_mem mem)
  · simp only [filterParts, List.forall_mem_cons]
    refine ⟨fun depth => .inl ⟨_, ?_, textPart_answers f.field⟩,
      fun depth => .inl ⟨_, ?_, textPart_answers f.value⟩, operator, negation, by simp⟩
    · simp [filterMembers]
    · simp [filterMembers]

theorem filters_keep (f : Filter) : filters.Keeps f := by
  refine .of_fits (filterMembers f) rfl (distinct_filterMembers f) ?_ filterParts rfl
    (fits_filterMembers f) fun _ => rfl
  intro j renders
  obtain ⟨ms, rfl⟩ := renders.exists_members
  have field : ms.lookup "field" = some (.str f.field) :=
    renders.lookup_own (by simp [filterMembers])
  have value : ms.lookup "value" = some (.str f.value) :=
    renders.lookup_own (by simp [filterMembers])
  have operator : optional? operator? (ms.lookup "operator") = some f.operator := by
    refine optional?_lookup ofOperator renders (by simp [filters])
      (fun o => ⟨operator?_ofOperator o, by simp [ofOperator]⟩) ?_ ?_
    · intro o set
      simp [filterMembers, set]
    · intro unset
      simp [filterMembers, unset]
  have negation : optional? negation? (ms.lookup "notOp") = some f.negation := by
    refine optional?_lookup ofNegation renders (by simp [filters])
      (fun n => ⟨negation?_ofNegation n, by simp [ofNegation]⟩) ?_ ?_
    · intro n set
      simp [filterMembers, set]
    · intro unset
      simp [filterMembers, unset]
  simp [filters, filter?, fields?, field, value, operator, negation, string?]

/-- The members of the object of a page's totals. -/
def totalMembers (p : Pagination) : Members :=
  [("page", ofUnsigned p.page), ("pageSize", ofUnsigned p.pageSize),
    ("totalItems", ofUnsigned p.totalItems), ("totalPages", ofUnsigned p.totalPages)]

theorem distinct_totalMembers (p : Pagination) : ((totalMembers p).map Prod.fst).Nodup := by
  simp [totalMembers]

theorem fits_totalMembers (p : Pagination) : Fits paginationParts (totalMembers p) := by
  refine ⟨by simp [totalMembers, paginationParts], ?_⟩
  simp only [paginationParts, List.forall_mem_cons]
  refine ⟨fun depth => .inl ⟨_, ?_, unsignedPart_answers p.page⟩,
    fun depth => .inl ⟨_, ?_, unsignedPart_answers p.pageSize⟩,
    fun depth => .inl ⟨_, ?_, unsignedPart_answers p.totalItems⟩,
    fun depth => .inl ⟨_, ?_, unsignedPart_answers p.totalPages⟩, by simp⟩
  all_goals simp [totalMembers]

theorem totals_keep (p : Pagination) : totals.Keeps p := by
  refine .of_fits (totalMembers p) rfl (distinct_totalMembers p) ?_ paginationParts rfl
    (fits_totalMembers p) fun _ => rfl
  intro j renders
  obtain ⟨ms, rfl⟩ := renders.exists_members
  have page : ms.lookup "page" = some (ofUnsigned p.page) :=
    renders.lookup_own (by simp [totalMembers])
  have size : ms.lookup "pageSize" = some (ofUnsigned p.pageSize) :=
    renders.lookup_own (by simp [totalMembers])
  have items : ms.lookup "totalItems" = some (ofUnsigned p.totalItems) :=
    renders.lookup_own (by simp [totalMembers])
  have pages : ms.lookup "totalPages" = some (ofUnsigned p.totalPages) :=
    renders.lookup_own (by simp [totalMembers])
  simp [totals, pagination?, fields?, page, size, items, pages]

section Envelopes

def envelopeNames : List String := ["data", "pagination"]

/-- The members of an envelope's object. -/
def envelopeMembers (rows : List Json) (page : Json) : Members :=
  [("data", .arr rows), ("pagination", page)]

theorem distinct_envelopeMembers (rows : List Json) (page : Json) :
    ((envelopeMembers rows page).map Prod.fst).Nodup := by
  simp [envelopeMembers]

variable {rows : List Json} {p : Pagination} {page j : Json} {e : Envelope Json}

/-- However its object is rendered, an envelope is read by its totals and its rows, with embedded
documents opened. -/
theorem envelope?_of_renders (inner : Renders totals.names (ofPagination p) page)
    (outer : Renders envelopeNames (.obj (envelopeMembers rows page)) j) :
    envelope? j = (openedItems? rows).map fun rows => ⟨rows, p⟩ := by
  obtain ⟨ms, rfl⟩ := outer.exists_members
  have data : ms.lookup "data" = some (.arr rows) :=
    outer.lookup_own (by simp [envelopeMembers])
  have pagination : ms.lookup "pagination" = some page :=
    outer.lookup_own (by simp [envelopeMembers])
  have read : pagination? page = some p := (totals_keep p).rendering page inner
  simp only [envelope?, envelopeWith?, fields?, List.map_cons, List.map_nil, data, pagination, read]
  cases openedItems? rows <;> rfl

theorem envelope?_of_own (own : ∀ row ∈ e.data, Everywhere IsOwn row)
    (inner : Renders totals.names (ofPagination e.pagination) page)
    (outer : Renders envelopeNames (.obj (envelopeMembers e.data page)) j) :
    envelope? j = some e := by
  have same := openedItems?_eq_some_self.2 fun row mem => opened?_eq_some_self.2 (own row mem)
  rw [envelope?_of_renders inner outer, same, Option.map_some]

theorem renders_ofPagination (p : Pagination) :
    Renders totals.names (ofPagination p) (ofPagination p) :=
  (renders_ofMembers (distinct_totalMembers p)).2 (renders_self (distinct_totalMembers p))

theorem renders_ofEnvelope (e : Envelope Json) :
    Renders envelopeNames (.obj (envelopeMembers e.data (ofPagination e.pagination)))
      (ofEnvelope e) :=
  renders_self (distinct_envelopeMembers _ _)

/-- An envelope's object is read back exactly if no row holds an embedded document. -/
theorem envelope?_ofEnvelope_iff :
    envelope? (ofEnvelope e) = some e ↔ ∀ row ∈ e.data, Everywhere IsOwn row := by
  constructor
  · intro read row mem
    rw [envelope?_of_renders (renders_ofPagination e.pagination) (renders_ofEnvelope e),
      Option.map_eq_some_iff] at read
    obtain ⟨rows, opened, same⟩ := read
    obtain rfl : rows = e.data := congrArg Envelope.data same
    exact opened?_eq_some_self.1 (openedItems?_eq_some_self.1 opened row mem)
  · exact fun own => envelope?_of_own own (renders_ofPagination _) (renders_ofEnvelope e)

/-- What is made of the rows and the totals of an envelope's text. -/
def envelopeOut (rows : List Json) (page : Json) (m : String × Json) : Option Json :=
  if m.1 = "data" then
    if ∀ row ∈ rows, row.depth ≤ 125 then some (.arr (rows.map canonical)) else none
  else some page

theorem envelope_partsAnswer {ms : Members} {known : Json}
    (plain : ∀ row ∈ rows, Everywhere IsPlain row) (distinct : (ms.map Prod.fst).Nodup)
    (data : ms.lookup "data" = some (.arr rows)) (pagination : ms.lookup "pagination" = some page)
    (pageAnswers : Answers (recordPart paginationParts) 126 page (some known)) :
    PartsAnswer envelopeParts 126 ms (envelopeOut rows known) := by
  intro m mem read found
  have here := (lookup_eq_some_iff_mem distinct).2 mem
  have part := mem_of_lookup found
  simp only [envelopeParts, List.mem_cons, Prod.mk.injEq, List.not_mem_nil, or_false] at part
  rcases part with ⟨name, rfl⟩ | ⟨name, rfl⟩
  · rw [name, data] at here
    obtain rfl : m = ("data", .arr rows) := Prod.ext name (Option.some.inj here).symm
    exact rowsPart_answers plain 125
  · rw [name, pagination] at here
    obtain rfl : m = ("pagination", page) := Prod.ext name (Option.some.inj here).symm
    exact pageAnswers

/-- However it is rendered, the text of an envelope is read by its rows and its totals, unless a row
is nested too deep. -/
theorem envelopeOfText?_of_renders (plain : ∀ row ∈ rows, Everywhere IsPlain row)
    (inner : Renders totals.names (ofPagination p) page)
    (outer : Renders envelopeNames (.obj (envelopeMembers rows page)) j) :
    envelopeOfText? j.text =
      if ∀ row ∈ rows, row.depth ≤ 125 then some ⟨rows.map canonical, p⟩ else none := by
  obtain ⟨ms, rfl⟩ := outer.exists_members
  have ofTotals {j : Json} := @renders_ofMembers totals.names _ j (distinct_totalMembers p)
  obtain ⟨known, pageAnswers, same⟩ := (fits_totalMembers p).exists_answer (ofTotals.1 inner) 125
  have pageRead : pagination? known = some p := (totals_keep p).rendering known (ofTotals.2 same)
  have distinct := outer.distinct
  have data : ms.lookup "data" = some (.arr rows) :=
    outer.lookup_own (by simp [envelopeMembers])
  have pagination : ms.lookup "pagination" = some page :=
    outer.lookup_own (by simp [envelopeMembers])
  have answers := envelope_partsAnswer plain distinct data pagination pageAnswers
  rw [envelopeOfText?, partsOf?_text (recordPart_distinct distinct answers)]
  split
  next shallow =>
    obtain ⟨all, found⟩ : ∃ all, kept envelopeParts (envelopeOut rows known) ms = some all := by
      refine exists_kept fun m _ _ => ?_
      rw [envelopeOut, if_pos shallow]
      split <;> exact Option.some_ne_none _
    have dataRead : all.lookup "data" = _ := lookup_kept found (by simp [envelopeParts])
    have totalsRead : all.lookup "pagination" = _ := lookup_kept found (by simp [envelopeParts])
    rw [data, Option.bind_some, envelopeOut, if_pos rfl, if_pos shallow] at dataRead
    rw [pagination, Option.bind_some, envelopeOut, if_neg (by simp)] at totalsRead
    rw [found]
    simp only [Option.map_some, Option.bind_some, envelopeWith?, fields?, List.map_cons,
      List.map_nil, dataRead, totalsRead, pageRead]
  next deep =>
    have refused : envelopeOut rows known ("data", .arr rows) = none := by
      rw [envelopeOut, if_pos rfl, if_neg deep]
    rw [kept_eq_none ((lookup_eq_some_iff_mem distinct).1 data) (by simp [envelopeParts]) refused]
    rfl

theorem lookup_data {ms : Members} (read : envelopeWith? some (.obj ms) = some e) :
    ms.lookup "data" = some (.arr e.data) := by
  simp only [envelopeWith?, fields?, List.map_cons, List.map_nil] at read
  split at read
  next data page parts =>
    obtain ⟨rows, -⟩ := List.cons.inj (Option.some.inj parts)
    rw [rows]
    split at read
    next found _ =>
      cases found
      cases read
      rfl
    next => cases read
  next => cases read

theorem isOwn_of_envelopeOfText?
    (exact : ∀ row ∈ e.data, Everywhere IsExact row ∧ Everywhere IsOrdered row)
    (read : envelopeOfText? (ofEnvelope e).text = some e) :
    ∀ row ∈ e.data, Everywhere IsOwn row := by
  obtain ⟨whole, parts, fields⟩ := Option.bind_eq_some_iff.1 read
  have order : ["data", "pagination"].Pairwise (· < ·) := by decide
  have arranged : ofEnvelope e = .obj (envelopeMembers e.data (ofPagination e.pagination)) :=
    congrArg Json.obj (arranged_eq_self order)
  rw [arranged, envelopeMembers] at parts
  have part : envelopeParts.lookup "data" = some rowsPart := rfl
  obtain ⟨known, j, rest, left, rfl, look, ends, list⟩ := partsOf?_first part parts
  obtain rfl : Json.arr e.data = j := Option.some.inj ((lookup_data fields).symm.trans look)
  have array : Json.value (2 * (chars (.arr e.data) ++ rest).length + 2) 126
      (chars (.arr e.data) ++ rest) = some (.arr e.data, left) := by
    rw [chars_arr_append] at list ⊢
    exact list
  have back := returns (everywhere_arr.2 ⟨trivial, fun row mem => (exact row mem).1⟩)
    (everywhere_arr.2 ⟨trivial, fun row mem => (exact row mem).2⟩)
  have own := (back (by rw [List.length_append]; omega) ends array).2 rfl
  exact (everywhere_arr.1 own).2

/-- An envelope's text is read back exactly if no row holds an embedded document or is nested too
deep. -/
theorem envelopeOfText?_ofEnvelope_iff
    (exact : ∀ row ∈ e.data, Everywhere IsExact row ∧ Everywhere IsOrdered row) :
    envelopeOfText? (ofEnvelope e).text = some e ↔
      (∀ row ∈ e.data, Everywhere IsOwn row) ∧ ∀ row ∈ e.data, row.depth ≤ 125 := by
  have same : e.data.map canonical = e.data := by
    rw [List.map_congr_left fun row mem => canonical_eq_self (exact row mem).2]
    exact List.map_id' e.data
  have step (own : ∀ row ∈ e.data, Everywhere IsOwn row) :
      envelopeOfText? (ofEnvelope e).text = some e ↔ ∀ row ∈ e.data, row.depth ≤ 125 := by
    have plain : ∀ row ∈ e.data, Everywhere IsPlain row := fun row mem i occurs =>
      ⟨(exact row mem).1 i occurs, own row mem i occurs⟩
    rw [envelopeOfText?_of_renders plain (renders_ofPagination _) (renders_ofEnvelope e), same]
    simp
  constructor
  · intro read
    have own := isOwn_of_envelopeOfText? exact read
    exact ⟨own, (step own).1 read⟩
  · rintro ⟨own, shallow⟩
    exact (step own).2 shallow

/-- The object of an envelope, and every rendering of it, is read as the envelope if and only if no
row holds an embedded document. The same goes for text whose rows are not nested too deep; the rows
of a text may have the members of their objects in any order, and unknown members may hold
anything. -/
structure KeepsRows (e : Envelope Json) : Prop where
  value : envelope? (ofEnvelope e) = some e ↔ ∀ row ∈ e.data, Everywhere IsOwn row
  text : envelopeOfText? (ofEnvelope e).text = some e ↔
    (∀ row ∈ e.data, Everywhere IsOwn row) ∧ ∀ row ∈ e.data, row.depth ≤ 125
  rendering : (∀ row ∈ e.data, Everywhere IsOwn row) → ∀ page j,
    Renders totals.names (ofPagination e.pagination) page →
    Renders envelopeNames (.obj (envelopeMembers e.data page)) j → envelope? j = some e
  renderingText : ∀ rows page j,
    rows.map canonical = e.data → (∀ row ∈ rows, Everywhere IsPlain row) →
    Renders totals.names (ofPagination e.pagination) page →
    Renders envelopeNames (.obj (envelopeMembers rows page)) j →
    (envelopeOfText? j.text = some e ↔ ∀ row ∈ rows, row.depth ≤ 125)

end Envelopes

/-- A page with the greatest number as its total; its row has a quote, a line break and an array. -/
def nestedPage : Envelope Json :=
  ⟨[.obj [("a", .arr [.int (-1), .null]), ("b", .str "\"\n")]], ⟨1, 10, 0xFFFFFFFFFFFFFFFF, 1⟩⟩

/-- Arrays inside one another. -/
def nested : Nat → Json
  | 0 => .null
  | n + 1 => .arr [nested n]

theorem depth_nested (n : Nat) : (nested n).depth = n := by
  induction n with
  | zero => rfl
  | succ n ih => rw [nested, Json.depth, depthOfItems, ih, depthOfItems, Nat.max_zero]

theorem everywhere_nested {q : Json → Prop} (leaf : q .null) (list : ∀ js, q (.arr js)) (n : Nat) :
    Everywhere q (nested n) := by
  induction n with
  | zero => exact (everywhere_leaf rfl).2 leaf
  | succ n ih => exact everywhere_arr.2 ⟨list _, by simpa using ih⟩

/-- A filter with its members in reverse, an unknown one and null for the operator. -/
def looseFilter (extra : Json) : Json :=
  .obj [("operator", .null), ("extra", extra), ("notOp", .str "like"), ("value", .str ""),
    ("field", .str "name")]

theorem looseFilter_renders (extra : Json) :
    Renders filters.names (ofFilter ⟨"name", "", none, some .like⟩) (looseFilter extra) := by
  let others : Members := [("extra", extra), ("operator", .null)]
  have perm := List.reverse_perm (filterMembers ⟨"name", "", none, some .like⟩ ++ others)
  have unset : ∀ m ∈ others, m.1 ∈ filters.names → m.2 = .null := by simp [others, filters]
  have distinct : ["operator", "extra", "notOp", "value", "field"].Nodup := by decide
  exact (renders_ofMembers (distinct_filterMembers _)).2 (.obj perm distinct unset)

/-- Every sort key, filter and total of a page comes back from its JSON form, and an envelope whose
rows are values without floats comes back as far as its rows can. -/
theorem records_kept (k : SortKey) (f : Filter) (p : Pagination) (e : Envelope Json)
    (exact : ∀ row ∈ e.data, Everywhere IsExact row ∧ Everywhere IsOrdered row) :
    sortKeys.Keeps k ∧ filters.Keeps f ∧ totals.Keeps p ∧ KeepsRows e := by
  refine ⟨sortKeys_keep k, filters_keep f, totals_keep p, ?_⟩
  constructor
  case value => exact envelope?_ofEnvelope_iff
  case text => exact envelopeOfText?_ofEnvelope_iff exact
  case rendering => exact fun own page j inner outer => envelope?_of_own own inner outer
  case renderingText =>
    intro rows page j same plain inner outer
    rw [envelopeOfText?_of_renders plain inner outer, same]
    simp

theorem records_kept_nestedPage :
    (∀ row ∈ nestedPage.data, Everywhere IsExact row ∧ Everywhere IsOrdered row) ∧
      sortKeys.Keeps ⟨"created at", .desc⟩ ∧ filters.Keeps ⟨"name", "", none, some .like⟩ ∧
      totals.Keeps ⟨0, 0, 0xFFFFFFFFFFFFFFFF, 7⟩ ∧ KeepsRows nestedPage ∧
      filter? (looseFilter (.arr [.bool true])) = some ⟨"name", "", none, some .like⟩ ∧
      filterOfText? (looseFilter (nested 200)).text = some ⟨"name", "", none, some .like⟩ ∧
      envelope? (ofEnvelope nestedPage) = some nestedPage ∧
      envelopeOfText? (ofEnvelope nestedPage).text = some nestedPage := by
  have exact : ∀ row ∈ nestedPage.data, Everywhere IsExact row ∧ Everywhere IsOrdered row := by
    have order : ["a", "b"].Pairwise (· < ·) := by decide
    refine List.forall_mem_singleton.2 ⟨?_, ?_⟩
    · simp (disch := decide) [everywhere_obj, everywhere_arr, everywhere_leaf, IsExact]
    · refine everywhere_obj.2 ⟨order, ?_⟩
      simp (disch := decide) [everywhere_arr, everywhere_leaf, IsOrdered]
  have own : ∀ row ∈ nestedPage.data, Everywhere IsOwn row := by
    simp (disch := decide) [nestedPage, everywhere_obj, everywhere_arr, everywhere_leaf, IsOwn,
      embeddedName]
  obtain ⟨sort, filter, page, rows⟩ := records_kept ⟨"created at", .desc⟩
    ⟨"name", "", none, some .like⟩ ⟨0, 0, 0xFFFFFFFFFFFFFFFF, 7⟩ nestedPage exact
  have loose := filter.rendering _ (looseFilter_renders (.arr [.bool true]))
  have looseText (extra : Json) :
      filterOfText? (looseFilter extra).text = some ⟨"name", "", none, some .like⟩ :=
    filter.renderingText _ (looseFilter_renders extra)
  exact ⟨exact, sort, filter, page, rows, loose, looseText (nested 200), rows.value.2 own,
    rows.text.2 ⟨own, by decide⟩⟩

/-- A row that is an embedded document comes back as the document, and the text of a row that is
nested too deep is refused, though neither holds a float. -/
theorem reserved_deep_not_kept :
    let reserved : Json := .obj [(embeddedName, .str "1")]
    let page : Pagination := ⟨1, 10, 1, 1⟩
    (Everywhere IsExact reserved ∧ Everywhere IsOrdered reserved ∧
      envelope? (ofEnvelope ⟨[reserved], page⟩) = some ⟨[.int 1], page⟩ ∧
      envelopeOfText? (ofEnvelope ⟨[reserved], page⟩).text ≠ some ⟨[reserved], page⟩) ∧
    (Everywhere IsExact (nested 126) ∧ Everywhere IsOrdered (nested 126) ∧
      envelopeOfText? (ofEnvelope ⟨[nested 126], page⟩).text ≠ some ⟨[nested 126], page⟩) := by
  intro reserved page
  have rowExact : Everywhere IsExact reserved := by
    simp (disch := decide) [reserved, everywhere_obj, everywhere_leaf, IsExact]
  have rowOrder : Everywhere IsOrdered reserved := by
    simp (disch := decide) [reserved, everywhere_obj, everywhere_leaf, IsOrdered]
  have deepExact : Everywhere IsExact (nested 126) :=
    everywhere_nested trivial (fun _ => trivial) 126
  have deepOrder : Everywhere IsOrdered (nested 126) :=
    everywhere_nested trivial (fun _ => trivial) 126
  refine ⟨⟨rowExact, rowOrder, ?_, ?_⟩, deepExact, deepOrder, ?_⟩
  · have opened : openedItems? [reserved] = some [.int 1] := by rfl
    rw [envelope?_of_renders (renders_ofPagination page) (renders_ofEnvelope ⟨[reserved], page⟩),
      opened]
    rfl
  · intro read
    have own := isOwn_of_envelopeOfText? (by simpa using ⟨rowExact, rowOrder⟩) read
    exact (own reserved List.mem_cons_self).self rfl
  · intro read
    have shallow := ((envelopeOfText?_ofEnvelope_iff (by simpa using ⟨deepExact, deepOrder⟩)).1
      read).2
    have deep := shallow (nested 126) List.mem_cons_self
    rw [depth_nested] at deep
    omega

end Shape
end ListQuery
