import ListQuery.Form
import ListQuery.Request.Basic
import ListQuery.Request.Key
import ListQuery.Request.Notice
import ListQuery.Text.Integer

/-! Requests as query strings. Reading is total: pairs outside the grammar are kept, malformed ones
are dropped with a notice. Writing emits the keys in a fixed order. -/
namespace ListQuery

/-- A filter whose parts are still arriving. -/
structure OpenFilter where
  field : String
  value : Option String := none
  operator : Option Operator := none
  negation : Option Negation := none
  /-- Whether some part held an unknown token. -/
  malformed : Bool := false

namespace OpenFilter

/-- Records one part. An empty operator or negation unsets it; an unknown one spoils the filter. -/
def set (d : OpenFilter) (part : Part) (raw : String) : OpenFilter × List Notice :=
  match part with
  | .value => ({ d with value := some raw }, [])
  | .operator =>
    if raw = "" then ({ d with operator := none }, [])
    else
      match Operator.ofToken? raw with
      | some o => ({ d with operator := some o }, [])
      | none => ({ d with malformed := true }, [.unknownOperator d.field raw])
  | .negation =>
    if raw = "" then ({ d with negation := none }, [])
    else
      match Negation.ofToken? raw with
      | some n => ({ d with negation := some n }, [])
      | none => ({ d with malformed := true }, [.unknownNegation d.field raw])

/-- The filter that the parts make, if they make one. -/
def finish (d : OpenFilter) : Option Filter × List Notice :=
  if d.malformed then (none, [])
  else
    match d.value with
    | some v =>
      if v = "" then (none, [.valuelessFilter d.field])
      else (some ⟨d.field, v, d.operator, d.negation⟩, [])
    | none => (none, [.valuelessFilter d.field])

/-- Records a part of the filter on `field`, opening the filter if it is new. -/
def record (field : String) (part : Part) (raw : String) :
    List OpenFilter → List OpenFilter × List Notice
  | [] =>
    let (d, ns) := OpenFilter.set { field := field } part raw
    ([d], ns)
  | d :: ds =>
    if d.field = field then
      let (d, ns) := d.set part raw
      (d :: ds, ns)
    else
      let (ds, ns) := record field part raw ds
      (d :: ds, ns)

end OpenFilter

/-- A request while its pairs are being read; `pending` become its filters at the end. -/
structure Reading (X : Type) where
  request : Request X
  pending : List OpenFilter := []
  notices : List Notice := []

namespace Reading

variable {X : Type} [Extras X]

def start : Reading X where
  request := { extras := Extras.empty }

def number (key value : String) : Option Int64 × List Notice :=
  match Text.int64Of? (Text.trimmed value.toList) with
  | some n => (some n, [])
  | none => (none, [.unreadableNumber key value])

def step (s : Reading X) (pair : Form.Pair) : Reading X :=
  let r := s.request
  let (key, value) := pair
  match Key.ofString key with
  | .page =>
    let (n, ns) := number "page" value
    { s with request := { r with page := n }, notices := s.notices ++ ns }
  | .limit =>
    let (n, ns) := number "limit" value
    { s with request := { r with limit := n }, notices := s.notices ++ ns }
  | .q => { s with request := { r with q := some value } }
  | .sort field =>
    match Direction.ofToken? value with
    | some d => { s with request := { r with sort := r.sort ++ [⟨field, d⟩] } }
    | none => { s with notices := s.notices ++ [.unknownDirection field value] }
  | .filter field part =>
    let (ds, ns) := OpenFilter.record field part value s.pending
    { s with pending := ds, notices := s.notices ++ ns }
  | .other =>
    match Extras.claim r.extras key value with
    | some x => { s with request := { r with extras := x } }
    | none => { s with request := { r with passthrough := r.passthrough ++ [(key, value)] } }

def finish (s : Reading X) : Request X × List Notice :=
  ({ s.request with filters := s.pending.filterMap (·.finish.1) },
    s.notices ++ s.pending.flatMap (·.finish.2))

end Reading

namespace Request

variable {X : Type} [Extras X]

/-- The pairs of a query string, with or without a question mark in front. -/
def pairsOf (query : String) : List Form.Pair :=
  match query.toList with
  | '?' :: cs => Form.parse cs
  | cs => Form.parse cs

/-- Reads a query string and says what was passed over. -/
def decodeNoting (query : String) : Request X × List Notice :=
  ((pairsOf query).foldl Reading.step Reading.start).finish

def decode (query : String) : Request X := (decodeNoting query).1

def numberPairs (key : String) (n : Option Int64) : List Form.Pair :=
  match n with
  | some n => if n = 0 then [] else [(key, n.toInt.repr)]
  | none => []

def queryPairs (q : Option String) : List Form.Pair :=
  match q with
  | some q => if q = "" then [] else [("q", q)]
  | none => []

def filterPairs (f : Filter) : List Form.Pair :=
  (if f.value = "" then [] else [(Key.filterText f.field .value, f.value)]) ++
    (f.operator.map fun o => (Key.filterText f.field .operator, o.token)).toList ++
    (f.negation.map fun n => (Key.filterText f.field .negation, n.token)).toList

/-- Paging, free text, sort keys, filters, extras and passthrough, in this order. Numbers that are
zero and empty texts are left out. -/
def toPairs (r : Request X) : List Form.Pair :=
  numberPairs "page" r.page ++ numberPairs "limit" r.limit ++ queryPairs r.q ++
    r.sort.map (fun k => (Key.sortText k.field, k.direction.token)) ++
    r.filters.flatMap filterPairs ++ Extras.pairs r.extras ++ r.passthrough

/-- The query string of a request, without a question mark. -/
def encode (r : Request X) : String := Form.render r.toPairs

end Request
end ListQuery
