import InventorySearch.Store.Sample
import InventorySearch.Store.Search

set_option autoImplicit false

/-!
# Sessions

A store over time: a file that is opened, asked and changed, closed and opened
again. A closed store answers no question and keeps its contents. After an
opening that failed there is no store until one succeeds.
-/
namespace InventorySearch.Store
open Search

inductive Call where
  | search (entity : Entity) (request : Request)
  | byId (entity : Entity) (id : Int)
  | ipInterfaces (node : Int)
  | ipInterface (node : Int) (address : String)
  | services (node : Int) (address : String)
  | service (node : Int) (address name : String)
  | categories
  | nodesByCategories (names : List String)
  | nodesByCategory (name : String)
  | nodesByForeignSource (source : String)

inductive Answer where
  | page (page : Page)
  | record (found : Option Record)
  | records (found : Option (List Record))

namespace Database

def answer (db : Database) (call : Call) : Except Failure Answer :=
  let lift {α : Type} (show? : α → Answer) (result : Except Fault α) : Except Failure Answer :=
    (result.map show?).mapError .database
  match call with
  | .search entity request => (db.search entity request).map .page
  | .byId entity id => (db.byId entity id).map .record
  | .ipInterfaces node =>
    lift (fun found => .records (found.map fun is => is.map IpInterface.record))
      (db.ipInterfaces node)
  | .ipInterface node address =>
    lift (fun found => .record (found.map IpInterface.record)) (db.ipInterface node address)
  | .services node address =>
    lift (fun found => .records (found.map fun ss => ss.map Service.record))
      (db.services node address)
  | .service node address name =>
    lift (fun found => .record (found.map Service.record)) (db.service node address name)
  | .categories => lift (fun found => .records (some (found.map Category.record))) db.categories
  | .nodesByCategories names => lift .records (db.nodesByCategories names)
  | .nodesByCategory name => lift .records (db.nodesByCategory name)
  | .nodesByForeignSource source =>
    lift (fun found => .records (some found)) (db.nodesByForeignSource source)

end Database

inductive Status where
  | opened
  | closed
  /-- The last opening failed. -/
  | absent
deriving DecidableEq, Repr

@[ext] structure Session where
  contents : Database
  status : Status

inductive Step where
  | call (call : Call)
  | seed
  | checkpoint
  | close
  | reopen
  | shutdown
  | insert (table : String) (rows : List (List (String × Value)))
  | count (table : String)
  | clear (table : String)
  | version
  | setVersion (version : Int)
  | deleteVersion
  | dropServices

inductive Reply where
  | done
  | answer (answer : Answer)
  | seeded (loaded : Bool)
  | stopped
  | inserted (kept : Nat)
  /-- Rows were kept up to one that the store refused. -/
  | refused (kept : Nat) (fault : Fault)
  | counted (rows : Nat)
  | version (version : Int) (description : Option String)
  | failed (failure : Failure) (message : String)
  | noDatabase

namespace Session

def start (now : Int) : Session :=
  match (Work.migrate now).onFile .empty with
  | (.ok _, contents) => ⟨contents, .opened⟩
  | (.error _, contents) => ⟨contents, .absent⟩

def connected (s : Session) : Except Failure Database :=
  match s.status with
  | .opened => .ok s.contents
  | _ => .error .closed

def ask {α : Type} (s : Session) (question : Database → Except Failure α) : Except Failure α :=
  s.connected >>= question

theorem ask_opened {α : Type} {s : Session} (h : s.status = .opened)
    (question : Database → Except Failure α) : s.ask question = question s.contents := by
  rw [ask, connected, h]
  rfl

/-- Asks in a task of its own, which an interruption keeps from giving the answer. -/
def askUnless {α : Type} (s : Session) (interruption : Option Interruption)
    (question : Database → Except Failure α) : Except Failure α :=
  match interruption with
  | some i => .error i.failure
  | none => s.ask question

/-- Writes the log of an open store into its file, of which nothing is seen from outside. -/
def checkpoint (s : Session) : Session := s

def close (s : Session) : Session :=
  match s.status with
  | .opened => { s.checkpoint with status := .closed }
  | _ => s

def shutdown (s : Session) : Session := s.checkpoint.close

def reopen (s : Session) (now : Int) : Reply × Session :=
  match (Work.migrate now).onFile s.close.contents with
  | (.ok _, contents) => (.done, ⟨contents, .opened⟩)
  | (.error failure, contents) =>
    (.failed failure failure.serviceMessage, ⟨contents, .absent⟩)

def callReply : Except Failure Answer → Reply
  | .ok answer => .answer answer
  | .error failure => .failed failure failure.message

def serviceFailure (failure : Failure) : Reply := .failed failure failure.serviceMessage

def statement (db : Database) (result : Except Fault (Reply × Database)) : Reply × Database :=
  match result with
  | .ok after => after
  | .error fault => (serviceFailure (.database fault), db)

def changeRows (db : Database) (table : Table) (f : List Row → Option (List Row)) :
    Except Fault (Reply × Database) := do
  return (.done, db.set table (f (← db.rows table)))

def isVersionRow (row : Row) : Bool := row.get "id" == .integer 1

def withVersion (version : Int) (row : Row) : Row :=
  if isVersionRow row then
    ⟨row.cells.map fun cell => if cell.1 = "version" then ("version", .integer version) else cell⟩
  else row

def runOpen (db : Database) : Step → Reply × Database
  | .seed =>
    match Work.seed.onFile db with
    | (.ok loaded, after) => (.seeded loaded, after)
    | (.error failure, after) => (serviceFailure failure, after)
  | .insert table rows =>
    match Database.table table with
    | .error fault => (if rows.isEmpty then .inserted 0 else .refused 0 fault, db)
    | .ok t =>
      match db.insertAll t rows with
      | (after, kept, none) => (.inserted kept, after)
      | (after, kept, some fault) => (.refused kept fault, after)
  | .count table =>
    statement db do
      return (.counted (← db.rows (← Database.table table)).length, db)
  | .clear table =>
    statement db do
      changeRows db (← Database.table table) fun _ => some []
  | .version =>
    statement db do
      match (← db.rows .schemaVersion).find? isVersionRow with
      | some row => return (.version (row.integer "version") (row.get "description").text?, db)
      | none => throw .noRows
  | .setVersion version =>
    statement db (
      if fitsBits 32 version then
        changeRows db .schemaVersion fun rows => some (rows.map (withVersion version))
      else .error (.wrongType "version"))
  | .deleteVersion =>
    statement db (changeRows db .schemaVersion fun rows =>
      some (rows.filter fun row => !isVersionRow row))
  | .dropServices => statement db (changeRows db .monitoredServices fun _ => none)
  | .call _ | .checkpoint | .close | .reopen | .shutdown => (.done, db)

def step (s : Session) (now : Int) (step : Step) : Reply × Session :=
  match step, s.status with
  | .reopen, _ => s.reopen now
  | _, .absent => (.noDatabase, s)
  | .checkpoint, _ => (.done, s.checkpoint)
  | .close, _ => (.done, s.close)
  | .shutdown, _ => (.stopped, s.shutdown)
  | .call call, _ => (callReply (s.ask fun db => db.answer call), s)
  | step, _ =>
    match s.connected with
    | .error failure => (serviceFailure failure, s)
    | .ok db =>
      let (reply, after) := runOpen db step
      (reply, { s with contents := after })

def run (now : Int) (s : Session) : List Step → List Reply
  | [] => []
  | step :: steps =>
    let (reply, after) := s.step now step
    reply :: run now after steps

end Session
end InventorySearch.Store
