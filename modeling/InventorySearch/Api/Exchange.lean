import InventorySearch.Api.Request
import InventorySearch.Store.Session

set_option autoImplicit false

/-!
# Answers and exchanges

What the server answers, and the bytes that go to and fro.
-/
namespace InventorySearch.Api
open Search Store Text

/-!
## Answers

What the server answers to a request, from an open or closed store. Only `GET` is
answered, and `HEAD` like it without the content. A list that has nothing to show
is answered without content.
-/

def decodeSegments : List (String × String) → Except String (List String)
  | [] => .ok []
  | (name, segment) :: rest =>
    match decodeSegment? segment with
    | none => .error s!"Invalid UTF-8 in `{name}`"
    | some s => (decodeSegments rest).map (s :: ·)

/-- The store as a request finds it, which asks it once at most. -/
structure Access where
  session : Session
  interruption : Option Interruption

def inquire {α : Type} (access : Access) (question : Database → Except Failure α) :
    Except Problem α :=
  (access.session.askUnless access.interruption question).mapError Problem.ofFailure

def inspect {α : Type} (access : Access) (question : Database → Except Fault α) :
    Except Problem α :=
  inquire access fun db => (question db).mapError Failure.database

def notThere (what : String) : Problem := .notFound "NOT_FOUND" (what ++ " was not found")

def listResponse (records : List Record) : Response :=
  if records.isEmpty then .noContent
  else .json 200 (.object
    [("data", .array (records.map .object)), ("totalCount", .integer records.length)])

def pageResponse (request : Request) (page : Page) : Response :=
  if page.records.isEmpty then .noContent
  else .json 200 (.object
    [("data", .array (page.records.map .object)),
     ("meta", .object
       [("limit", .integer request.limit), ("offset", .integer request.offset),
        ("totalCount", .integer page.total)])])

def recordResponse (record : Record) : Response := .json 200 (.object record)

def answerList (access : Access) (limits : Limits) (entity : Entity) (query : String) :
    Except Problem Response := do
  let request ← requestOfQuery limits query
  let page ← inquire access fun db => db.search entity request
  return pageResponse request page

def namesOf (q : String) : List String :=
  ((q.toList.splitOn ',').map fun piece => String.ofList (trim piece)).filter fun name =>
    !name.isEmpty

def answerCategories (access : Access) (q : String) : Except Problem Response := do
  let names := namesOf q
  if names.isEmpty then
    let known ← inspect access Database.categories
    return .json 400 (.object
      [("message", .text "Please specify a set of categories in the 'q' parameter"),
       ("data", .array (known.map fun c => .object c.record))])
  else
    match ← inspect access fun db => db.nodesByCategories names with
    | some nodes => return listResponse nodes
    | none => throw (.badRequest "INVALID_CATEGORY" "Please specify a set of valid categories")

def categoriesParameter (query : String) : Except String (Option String) :=
  match (Form.pairs query).filter fun pair => pair.1 == "q" with
  | [] => .ok none
  | [pair] => .ok (some pair.2)
  | _ => .error "Failed to deserialize query string: duplicate field `q`"

private def withNumber (segments : List (String × String))
    (answer : Int → List String → Except Problem Response) : Except Problem Response :=
  match decodeSegments segments with
  | .error reason => .error (.badRequest "PATH_PARSE_ERROR" reason)
  | .ok [] => .error (.unspecific "no id")
  | .ok (id :: others) =>
    match Numeral.int64? id with
    | some n => answer n others
    | none => .error (.badRequest "INVALID_ID" s!"Invalid id '{id}': must be an integer")

private def withName (key segment : String) (answer : String → Except Problem Response) :
    Except Problem Response :=
  match decodeSegment? segment with
  | none => .ok (.plain 400 s!"Invalid UTF-8 in `{key}`")
  | some s => answer s

def answerRoute (access : Access) (limits : Limits) (query : String) :
    Route → Except Problem Response
  | .health => .ok (.json 200 (.object [("status", .text "ok"), ("version", .text "0.1.0")]))
  | .openApi => .ok (.document "application/json")
  | .docs => .ok (.document "text/html; charset=utf-8")
  | .list entity => answerList access limits entity query
  | .entity entity id => withNumber [("id", id)] fun n _ => do
    match ← inquire access fun db => db.byId entity n with
    | some found => return recordResponse found
    | none => throw (notThere (entity.label ++ " " ++ Numeral.decimal n))
  | .interfaces id => withNumber [("id", id)] fun n _ => do
    match ← inspect access fun db => db.ipInterfaces n with
    | some found => return listResponse (found.map IpInterface.record)
    | none => throw (notThere ("Node " ++ Numeral.decimal n))
  | .interface id address => withNumber [("id", id), ("ip_address", address)] fun n others => do
    let address := others.headD ""
    match ← inspect access fun db => db.ipInterface n address with
    | some found => return recordResponse found.record
    | none => throw (notThere (s!"IP interface {address} on node " ++ Numeral.decimal n))
  | .services id address => withNumber [("id", id), ("ip_address", address)] fun n others => do
    let address := others.headD ""
    match ← inspect access fun db => db.services n address with
    | some found => return listResponse (found.map Service.record)
    | none => throw (notThere (s!"IP interface {address} on node " ++ Numeral.decimal n))
  | .service id address name =>
    withNumber [("id", id), ("ip_address", address), ("service_name", name)] fun n others => do
      let address := others.headD ""
      let name := others.getD 1 ""
      match ← inspect access fun db => db.service n address name with
      | some found => return recordResponse found.record
      | none => throw (notThere (s!"Service {name} on {address} of node " ++ Numeral.decimal n))
  | .categories =>
    match categoriesParameter query with
    | .error reason => .ok (.plain 400 reason)
    | .ok q => answerCategories access (q.getD "")
  | .category name => withName "category" name fun name => do
    match ← inspect access fun db => db.nodesByCategory name with
    | some nodes => return listResponse nodes
    | none => throw (.badRequest "INVALID_CATEGORY" "Please specify a valid category")
  | .foreignSourceMissing =>
    .error (.badRequest "MISSING_FOREIGN_SOURCE" "Please specify a valid foreignSource")
  | .foreignSource name => withName "foreign_source" name fun name => do
    return listResponse (← inspect access fun db => db.nodesByForeignSource name)

def routeNotFound (path : String) : Response :=
  Problem.response (.notFound "ROUTE_NOT_FOUND" ("No route for " ++ path))

structure HttpRequest where
  method : String
  path : String
  query : String
  origin : Option String
deriving DecidableEq, Repr

def answerPath (access : Access) (limits : Limits) (r : HttpRequest) : Response :=
  match Route.ofPath? r.path with
  | none => routeNotFound r.path
  | some route =>
    if r.method = "GET" ∨ r.method = "HEAD" then
      match answerRoute access limits r.query route with
      | .ok response => response
      | .error problem => problem.response
    else ⟨405, [("allow", "GET,HEAD")], .empty⟩

def answer (access : Access) (limits : Limits) (allowed : List String) (r : HttpRequest) :
    Response :=
  let response := shareWith allowed r.method r.origin (answerPath access limits r)
  if r.method = "HEAD" then response.withoutContent else response

/-!
## Exchanges

Requests and responses as they are sent: a line, header lines, an empty line and
the content. Of the headers of a request only the origin counts.
-/

/-- The path and the query of a target. What follows a number sign belongs to neither. -/
def splitTarget (target : String) : String × String :=
  let target := ((cut? '#' target).map Prod.fst).getD target
  (cut? '?' target).getD (target, "")

def header? (name : String) (lines : List String) : Option String :=
  lines.findSome? fun line =>
    match cut? ':' line with
    | some (key, value) =>
      if sameLetters key name then some (String.ofList (trim value.toList)) else none
    | none => none

def HttpRequest.ofLines? : List String → Option HttpRequest
  | first :: headers =>
    match (first.toList.splitOn ' ').map String.ofList with
    | [method, target, _] =>
      let (path, query) := splitTarget target
      some ⟨method, path, query, header? "origin" headers⟩
    | _ => none
  | [] => none

def reason : Nat → String
  | 200 => "OK"
  | 204 => "No Content"
  | 400 => "Bad Request"
  | 404 => "Not Found"
  | 405 => "Method Not Allowed"
  | 503 => "Service Unavailable"
  | _ => "Internal Server Error"

namespace Response

def body (r : Response) : String :=
  match r.content with
  | .empty | .document _ => ""
  | .json value => value.render
  | .text s => s

def render (r : Response) : String :=
  let length := Numeral.decimal r.body.utf8ByteSize
  let headers := (r.headers ++ [("content-length", length)]).map fun h => h.1 ++ ": " ++ h.2
  let first := "HTTP/1.1 " ++ Numeral.decimal r.status ++ " " ++ reason r.status
  String.intercalate "\r\n" (first :: headers ++ ["", r.body])

end Response

end InventorySearch.Api
