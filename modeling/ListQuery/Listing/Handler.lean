import ListQuery.Listing.Resource
import ListQuery.Request.QueryString
import ListQuery.Shape

/-! Requests over HTTP. What the store says is logged and never sent to the client. -/
namespace ListQuery

structure Response where
  status : Nat
  body : Json

/-- A failed listing as its client sees it, with the cause kept for the log. -/
structure ApiError where
  message : String
  cause : ListError

namespace ApiError

def ofListError (e : ListError) : ApiError := ⟨"A database error occurred", e⟩

def status (_ : ApiError) : Nat := 500

def event (e : ApiError) : Event := .failed e.cause.resource e.cause.source.message

def response (e : ApiError) : Response := ⟨e.status, .ofMembers [("error", .str e.message)]⟩

end ApiError

namespace Handler

/-- The part of a URI after the first question mark and before the fragment. -/
def queryOf (uri : String) : String :=
  String.ofList (((uri.toList.takeWhile (· != '#')).dropWhile (· != '?')).drop 1)

/-- The items of a page are rows of typed columns, and none of them fails to be written
(`Listed.toJson?_model`). -/
def pageJson (e : Envelope (Listed Model)) : Json :=
  Shape.ofEnvelope ⟨e.data.map Listed.modelJson, e.pagination⟩

/-- Answers a request for a list. -/
def handle {X : Type} [Extras X] (r : Resource X) (uri : String) (s : Store) :
    Response × Store × List Event :=
  let (req, notices) := Request.decodeNoting (X := X) (queryOf uri)
  let outcome := r.list req s
  let events := notices.map Event.noticed ++ outcome.events
  match outcome.answer with
  | .ok page => (⟨200, pageJson page⟩, outcome.store, events)
  | .error e =>
    let failure := ApiError.ofListError e
    (failure.response, outcome.store, events ++ [failure.event])

end Handler
end ListQuery
