import InventorySearch.Filter.Restriction
import InventorySearch.Store.Table
import InventorySearch.Text.Json

set_option autoImplicit false

/-!
# Databases and work on them

The contents of a store and the text in which they last from one run to the next; the
statements and transactions that change them, how these fail, and the migrations
that a file goes through when it is opened.
-/
namespace InventorySearch.Store

/-!
## Databases

The contents of a store: for each table its rows in the order of their insertion,
if the table exists. Nothing else of a database file can be seen from outside.
-/

@[ext] structure Database where
  rows? : Table → Option (List Row)

namespace Database

def empty : Database := ⟨fun _ => none⟩

def rows (db : Database) (table : Table) : Except Fault (List Row) :=
  match db.rows? table with
  | some rows => .ok rows
  | none => .error (.missingTable table.name)

def rowsOrNone (db : Database) (table : Table) : List Row := (db.rows? table).getD []

def set (db : Database) (table : Table) (rows : Option (List Row)) : Database :=
  ⟨fun t => if t = table then rows else db.rows? t⟩

@[simp] theorem rows?_set_self (db : Database) (table : Table) (rows : Option (List Row)) :
    (db.set table rows).rows? table = rows := by
  simp [set]

theorem rows?_set_of_ne (db : Database) {table other : Table} (rows : Option (List Row))
    (h : other ≠ table) : (db.set table rows).rows? other = db.rows? other := by
  simp [set, h]

def createTables (db : Database) : Database := ⟨fun t => some (db.rowsOrNone t)⟩

def insert (db : Database) (table : Table) (assigned : List (String × Value)) :
    Except Fault Database := do
  let before ← db.rows table
  let row ← table.fullRow assigned
  return db.set table (some (← table.addRow before row))

/-- Inserts row after row up to the first that is refused, and counts those kept. -/
def insertAll (db : Database) (table : Table) :
    List (List (String × Value)) → Database × Nat × Option Fault
  | [] => (db, 0, none)
  | assigned :: rest =>
    match db.insert table assigned with
    | .error fault => (db, 0, some fault)
    | .ok db' =>
      let (last, kept, fault) := insertAll db' table rest
      (last, kept + 1, fault)

def table (name : String) : Except Fault Table :=
  match Table.ofName? name with
  | some t => .ok t
  | none => .error (.missingTable name)

end Database

/-!
## Archives

A database as a JSON text, in which it is kept between runs: an object with the
rows of each table that exists. A timestamp is a list of one number, so that it
differs from the number itself.
-/

open Text

namespace Value

def toJson : Value → Json
  | .null => .null
  | .integer n => .integer n
  | .text s => .text s
  | .moment n => .array [.integer n]

def ofNode? : JsonNode → Option Value
  | .null => some .null
  | .text (some s) => some (.text s)
  | .array [node] => node.integer?.map .moment
  | node => node.integer?.map .integer

end Value

namespace Row

def toJson (row : Row) : Json := .object (row.cells.map fun cell => (cell.1, cell.2.toJson))

def ofNode? : JsonNode → Option Row
  | .object members => do
    let cells ← members.mapM fun m => return (← m.1, ← Value.ofNode? m.2)
    return ⟨cells⟩
  | _ => none

end Row

namespace Database

def toJson (db : Database) : Json :=
  .object (Table.all.filterMap fun table =>
    (db.rows? table).map fun rows => (table.name, .array (rows.map Row.toJson)))

def archive (db : Database) : String := db.toJson.render

private def tableOfNode? (m : Option String × JsonNode) : Option (Table × List Row) :=
  match m with
  | (some name, .array items) => do return (← Table.ofName? name, ← items.mapM Row.ofNode?)
  | _ => none

def ofNode? : JsonNode → Option Database
  | .object members => do
    let tables ← members.mapM tableOfNode?
    return ⟨fun table => tables.lookup table⟩
  | _ => none

def ofArchive? (text : String) : Option Database := (JsonNode.read? text).bind ofNode?

end Database

/-!
## Failures

Why a request to the store fails. The service and the calls built on it word
some failures differently.
-/

inductive Failure where
  | filter (error : Filter.Error)
  | database (fault : Fault)
  | migration (version : Int) (name reason : String)
  | io (text : String)
  | timeout (seconds : Nat)
  | closed
deriving DecidableEq

namespace Failure

private def migrationMessage (version : Int) (name reason : String) : String :=
  "Migration " ++ Text.Numeral.decimal version ++ s!" ({name}) failed: {reason}"

def message : Failure → String
  | .filter error => error.message
  | .database fault => "DuckDB error: " ++ fault.message
  | .migration version name reason => migrationMessage version name reason
  | .io text => "IO error: " ++ text
  | .timeout seconds => s!"Query timeout after {seconds}s"
  | .closed => "Database connection is closed"

/-- The wording of the service itself. -/
def serviceMessage : Failure → String
  | .filter error => error.message
  | .database fault => "Database error: " ++ fault.message
  | .migration version name reason => migrationMessage version name reason
  | .io text => "IO error: " ++ text
  | .timeout seconds => s!"Query timed out after {seconds}s"
  | .closed => "DuckDB connection already closed"

def isTransient : Failure → Bool
  | .timeout _ => true
  | _ => false

end Failure

/-- What can keep a question from being answered, whatever the store holds. -/
inductive Interruption where
  | timeout (seconds : Nat)
  | taskLost (reason : String)
deriving DecidableEq, Repr

def Interruption.failure : Interruption → Failure
  | .timeout seconds => .timeout seconds
  | .taskLost reason => .io reason

/-!
## Connections

A file that is worked on by one statement after another. What a statement has
changed stays, whatever becomes of the next one, but for a transaction: it keeps
the contents from its beginning, and goes back to them when its work fails.
-/

structure Connection where
  contents : Database
  /-- The contents from the beginning of the open transaction. -/
  begun? : Option Database

namespace Connection

def ofContents (db : Database) : Connection := ⟨db, none⟩

/-- What the file holds if nothing more is done. -/
def committed (c : Connection) : Database := c.begun?.getD c.contents

def begin (c : Connection) : Connection := { c with begun? := some c.contents }

def commit (c : Connection) : Connection := { c with begun? := none }

def rollback (c : Connection) : Connection := ⟨c.committed, none⟩

end Connection

abbrev Work := ExceptT Failure (StateM Connection)

namespace Work

def on {α : Type} (work : Work α) (c : Connection) : Except Failure α × Connection := work.run.run c

def onFile {α : Type} (work : Work α) (db : Database) : Except Failure α × Database :=
  let (result, c) := work.on (.ofContents db)
  (result, c.committed)

def statement (change : Database → Except Fault Database) : Work Unit := do
  let c ← get
  match change c.contents with
  | .ok after => set { c with contents := after }
  | .error fault => throw (.database fault)

def query {α : Type} (ask : Database → Except Fault α) : Work α := do
  match ask (← get).contents with
  | .ok a => return a
  | .error fault => throw (.database fault)

/-- Does all of the work, or undoes what is done when it fails. -/
def transaction {α : Type} (work : Work α) : Work α := .mk do
  modify Connection.begin
  match ← work.run with
  | .ok a =>
    modify Connection.commit
    return .ok a
  | .error failure =>
    modify Connection.rollback
    return .error failure

end Work

/-!
## Schema versions

A file that is opened is brought to the current version of the schema: a fresh
one at once, an older one version by version, each in a transaction. A file of a
newer version, or of one below the first, is refused and left as it is.
-/

def currentVersion : Int := 2

def migration? : Int → Option String
  | 1 => some "Initial schema"
  | 2 => some "Add monitored_services"
  | _ => none

namespace Database

def versionRow? (db : Database) : Option Row :=
  (db.rowsOrNone .schemaVersion).find? fun row => row.get "id" == .integer 1

def storedVersion? (db : Database) : Option Int :=
  db.versionRow?.bind fun row => (row.get "version").integer?

def recordVersion (db : Database) (now version : Int) (description : String) : Database :=
  let others := (db.rowsOrNone .schemaVersion).filter fun row => row.get "id" != .integer 1
  db.set .schemaVersion (some (others ++
    [⟨[("id", .integer 1), ("version", .integer version), ("applied_at", .integer now),
       ("description", .text description)]⟩]))

end Database

def noMigration (version : Int) : Failure :=
  .migration version "unknown"
    ("No migration defined for version " ++ Text.Numeral.decimal version)

def newerSchema (version : Int) : Failure :=
  .migration version "version_check"
    ("Database schema version " ++ Text.Numeral.decimal version ++ " is newer than this build (" ++
      Text.Numeral.decimal currentVersion ++ "). Upgrade NmsQuery.")

namespace Work

def apply (now version : Int) (description : String) : Work Unit := do
  statement fun db => .ok db.createTables
  statement fun db => .ok (db.recordVersion now version description)

def migrateTo (now version : Int) : Work Unit := transaction do
  match migration? version with
  | some description => apply now version description
  | none => throw (noMigration version)

/-- Goes on from a version to the current one, up to the first step that fails. -/
def upgrade (now version : Int) : Work Unit :=
  if version < currentVersion then do
    migrateTo now (version + 1)
    upgrade now (version + 1)
  else pure ()
termination_by (currentVersion - version).toNat

def migrate (now : Int) : Work Unit := do
  match ← query fun db => .ok db.storedVersion? with
  | none => transaction (apply now currentVersion "Initial schema")
  | some version =>
    if currentVersion < version then throw (newerSchema version) else upgrade now version

end Work

end InventorySearch.Store
