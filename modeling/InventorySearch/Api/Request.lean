import InventorySearch.Search.Assembly
import InventorySearch.Store.Database
import InventorySearch.Text.Network

set_option autoImplicit false

/-!
# Requests and responses

Paths and query strings, as the server understands them, what they are answered with,
and who may read it.
-/
namespace InventorySearch.Api
open Store Text

/-!
## Responses

What a request is answered with, and the answers that report errors. An error
body names a kind, a code and a message. Failures of the store are reported
without their text, except those of the filter that was asked for.
-/

inductive Content where
  | empty
  | json (body : Json)
  | text (body : String)
  | document (mediaType : String)

structure Response where
  status : Nat
  headers : List (String × String)
  content : Content

namespace Response

def noContent : Response := ⟨204, [], .empty⟩

def json (status : Nat) (body : Json) : Response :=
  ⟨status, [("content-type", "application/json")], .json body⟩

def plain (status : Nat) (body : String) : Response :=
  ⟨status, [("content-type", "text/plain; charset=utf-8")], .text body⟩

def document (mediaType : String) : Response :=
  ⟨200, [("content-type", mediaType)], .document mediaType⟩

def withHeaders (r : Response) (headers : List (String × String)) : Response :=
  { r with headers := r.headers ++ headers }

def withoutContent (r : Response) : Response := { r with content := .empty }

end Response

inductive Problem where
  | badRequest (code message : String)
  | notFound (code message : String)
  | unavailable (message : String)
  | internal (code message : String)
deriving DecidableEq, Repr

namespace Problem

def status : Problem → Nat
  | .badRequest .. => 400
  | .notFound .. => 404
  | .unavailable _ => 503
  | .internal .. => 500

def kind : Problem → String
  | .badRequest .. => "bad_request"
  | .notFound .. => "not_found"
  | .unavailable _ => "service_unavailable"
  | .internal .. => "internal_error"

def code : Problem → String
  | .badRequest code _ | .notFound code _ | .internal code _ => code
  | .unavailable _ => "SERVICE_UNAVAILABLE"

def message : Problem → String
  | .badRequest _ message | .notFound _ message | .internal _ message | .unavailable message =>
    message

def body (p : Problem) : Json :=
  .object [("error", .text p.kind), ("code", .text p.code), ("message", .text p.message)]

def response (p : Problem) : Response := .json p.status p.body

def unspecific (message : String) : Problem := .internal "INTERNAL" message

/-- What the asker did wrong is told in full, and why the store cannot answer too. -/
def ofFilter (e : Filter.Error) : Problem :=
  if e.isClientError then .badRequest e.code e.message
  else
    match e with
    | .execution _ => .internal e.code e.message
    | _ => unspecific "An unexpected error occurred"

def ofFailure (f : Failure) : Problem :=
  match f with
  | .filter e => ofFilter e
  | f =>
    if f.isTransient then .unavailable "Database is busy, try again later"
    else unspecific "Database operation failed"

end Problem

/-!
## Origins

Which web origins may read answers. A server at the local host allows its own
pages; one at all interfaces also those at the addresses of the machine. Every
`OPTIONS` request is answered here and goes no further.
-/

def isAllInterfaces (host : String) : Bool := host == "0.0.0.0" || host == "::" || host == "[::]"

def isHeaderText (s : String) : Bool :=
  s.toList.all fun c => (32 ≤ c.toNat && c.toNat != 127) || c == '\t'

def allowedOrigins (addresses : List String) (host : String) (portNumber : Nat) : List String :=
  let everywhere := isAllInterfaces host
  let hosts :=
    if everywhere || host == "127.0.0.1" || host == "localhost" then ["localhost", "127.0.0.1"]
    else [host]
  let own := hosts.flatMap fun h => [s!"http://{h}:{portNumber}", s!"http://{h}"]
  let others := if everywhere then addresses.map fun a => s!"http://{a}:{portNumber}" else []
  (own ++ others).filter isHeaderText

def originHeader (allowed : List String) (origin : Option String) : List (String × String) :=
  match origin with
  | some o => if allowed.contains o then [("access-control-allow-origin", o)] else []
  | none => []

/-- Answers a request under the rules for origins; `inner` answers what is no preflight. -/
def shareWith (allowed : List String) (method : String) (origin : Option String)
    (inner : Response) : Response :=
  if method = "OPTIONS" then
    ⟨200, originHeader allowed origin ++
      [("access-control-allow-methods", "GET,OPTIONS"),
       ("access-control-allow-headers", "content-type,accept,origin,cache-control")], .empty⟩
  else inner.withHeaders (originHeader allowed origin)

/-!
## Routes

The requests that the server knows. Paths match exactly and segment by segment,
and a named segment goes before a variable one, which is kept encoded and is not
empty.
-/

open Search

inductive Route where
  | health
  | openApi
  | docs
  | list (entity : Entity)
  | entity (entity : Entity) (id : String)
  | interfaces (id : String)
  | interface (id address : String)
  | services (id address : String)
  | service (id address name : String)
  | categories
  | category (name : String)
  | foreignSourceMissing
  | foreignSource (name : String)
deriving DecidableEq, Repr

namespace Route

private def filled (segments : List String) (route : Route) : Option Route :=
  if segments.any String.isEmpty then none else some route

def ofSegments? : List String → Option Route
  | ["health"] => some .health
  | ["nodes", "categories"] => some .categories
  | ["nodes", "categories", name] => filled [name] (.category name)
  | ["nodes", "foreignSource"] => some .foreignSourceMissing
  | ["nodes", "foreignSource", name] => filled [name] (.foreignSource name)
  | ["nodes", id, "ipinterfaces"] => filled [id] (.interfaces id)
  | ["nodes", id, "ipinterfaces", address] => filled [id, address] (.interface id address)
  | ["nodes", id, "ipinterfaces", address, "services"] =>
    filled [id, address] (.services id address)
  | ["nodes", id, "ipinterfaces", address, "services", name] =>
    filled [id, address, name] (.service id address name)
  | [name] => (Entity.ofName? name).map .list
  | [name, id] => (Entity.ofName? name).bind fun e => filled [id] (.entity e id)
  | _ => none

/-- The route of a path, with its variable segments still encoded. -/
def ofPath? (path : String) : Option Route :=
  match (path.toList.splitOn '/').map String.ofList with
  | ["", "api", "openapi.json"] => some .openApi
  | ["", "api", "docs"] | ["", "api", "docs", ""] => some .docs
  | "" :: "api" :: "v1" :: segments => ofSegments? segments
  | _ => none

end Route

/-!
## List parameters

The query string of a list request. Unknown parameters are ignored, a known one
given twice is refused, and the first fault from the left is reported; bounds are
checked only after all parameters are read.
-/

structure Limits where
  default : Nat
  max : Nat
deriving DecidableEq, Repr

structure Params where
  filter : Option String
  limit : Option Nat
  offset : Option Nat
  orderBy : Option String
  order : Option String
deriving DecidableEq, Repr

namespace Params

def none : Params := ⟨.none, .none, .none, .none, .none⟩

def maxNumber : Nat := 0xFFFFFFFF

private def unreadable (reason : String) : Problem :=
  .badRequest "QUERY_PARSE_ERROR" ("Failed to deserialize query string: " ++ reason)

def assign (name value : String) : Option String → Except Problem (Option String)
  | .none => .ok (some value)
  | some _ => .error (unreadable s!"duplicate field `{name}`")

def assignNumber (name value : String) : Option Nat → Except Problem (Option Nat)
  | .none =>
    match Numeral.natural maxNumber value.toList with
    | .ok n => .ok (some n)
    | .error fault => .error (unreadable (name ++ ": " ++ fault.message))
  | some _ => .error (unreadable s!"duplicate field `{name}`")

def add (p : Params) (name value : String) : Except Problem Params :=
  match name with
  | "_s" => (assign name value p.filter).map fun filter => { p with filter }
  | "limit" => (assignNumber name value p.limit).map fun limit => { p with limit }
  | "offset" => (assignNumber name value p.offset).map fun offset => { p with offset }
  | "orderBy" => (assign name value p.orderBy).map fun orderBy => { p with orderBy }
  | "order" => (assign name value p.order).map fun order => { p with order }
  | _ => .ok p

def read (query : String) : Except Problem Params := do
  let p ← (Form.pairs query).foldlM (fun p pair => p.add pair.1 pair.2) none
  if p.limit = some 0 then throw (.badRequest "VALIDATION_ERROR" "limit must be at least 1")
  return p

def direction (order : Option String) : Except Problem Direction :=
  match order with
  | .none => .ok .asc
  | some "" => .ok .asc
  | some s =>
    match Direction.read? s with
    | some d => .ok d
    | .none =>
      .error (.badRequest "INVALID_ORDER" s!"Invalid order '{s}'. Use 'asc' or 'desc'")

def request (p : Params) (limits : Limits) : Except Problem Request := do
  let limit := p.limit.getD limits.default
  if limits.max < limit then
    throw (.badRequest "VALIDATION_ERROR" s!"limit must be between 1 and {limits.max}")
  return ⟨p.filter.getD "", limit, p.offset.getD 0, p.orderBy.getD "", ← direction p.order⟩

end Params

def requestOfQuery (limits : Limits) (query : String) : Except Problem Request :=
  (Params.read query).bind fun p => p.request limits

end InventorySearch.Api
