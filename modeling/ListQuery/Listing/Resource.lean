import ListQuery.Compile
import ListQuery.Store.Related

/-! Resources: entities with what their list offers, and the listing of one page. -/
namespace ListQuery

open Sql

/-- A listed entity whose requests carry extras of type `X`. -/
structure Resource (X : Type) where
  /-- The plural name. -/
  name : String
  entity : Entity
  /-- The rows that are listed at all. -/
  base : Select
  relation : Option Relation := none
  /-- The columns of the free-text search. -/
  searchColumns : List String := []
  /-- The text-search configuration. -/
  language : String := "english"
  defaults : Defaults := {}

/-- What a listing leaves behind: its answer, the store, and the events in order. -/
structure Outcome (α : Type) where
  answer : Except ListError α
  store : Store
  events : List Event

namespace Resource

variable {X : Type}

def config (r : Resource X) (d : Dialect) : ListConfig where
  resource := r.name
  relation := r.relation
  searchColumns := r.searchColumns
  language := r.language
  dialect := d

/-- The event of a compilation. -/
def compiledEvent (cfg : ListConfig) (n : Resolved X) (c : Compiled) : Event :=
  let b := cfg.byKind n.filters
  .compiled cfg.resource c.join b.relation.length b.base.length b.negation.length
    b.fulltext.length n.page n.limit

/-- Counts the rows and reads the page. Without rows there is no page to read. -/
def run (r : Resource X) (c : Compiled) (s : Store) :
    Except ListError (List Model × UInt64) × Store :=
  match s.count c.counted with
  | (.error e, s) => (.error ⟨r.name, e⟩, s)
  | (.ok total, s) =>
    if total = 0 then (.ok ([], 0), s)
    else
      match s.send (.rows c.paged) with
      | (.error e, s) => (.error ⟨r.name, e⟩, s)
      | (.ok rows, s) =>
        match r.entity.readAll rows with
        | .error e => (.error ⟨r.name, e⟩, s)
        | .ok models => (.ok (models, total), s)

/-- Attaches the related collections, if the resource has a relation. -/
def attachAll (r : Resource X) (s : Store) (rows : List Model) :
    Except ListError (List (Listed Model)) × Store × List Event :=
  match r.relation with
  | some rel => Related.attach s r.entity rel rows r.name
  | none => (.ok (rows.map (⟨·, none⟩)), s, [])

/-- Lists the page that a request asks for. -/
def list [Extras X] (r : Resource X) (req : Request X) (s : Store) :
    Outcome (Envelope (Listed Model)) :=
  let n := req.resolve r.defaults
  let cfg := r.config s.dialect
  let c := compile cfg r.base n
  let compiled := compiledEvent cfg n c
  match r.run c s with
  | (.error e, s) => ⟨.error e, s, [compiled]⟩
  | (.ok (rows, total), s) =>
    match r.attachAll s rows with
    | (.error e, s, events) => ⟨.error e, s, compiled :: events⟩
    | (.ok data, s, events) =>
      ⟨.ok (.of data total n.page n.limit), s,
        compiled :: (events ++ [.listed r.name data.length total])⟩

end Resource
end ListQuery
