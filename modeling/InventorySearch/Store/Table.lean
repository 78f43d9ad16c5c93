import InventorySearch.Calendar.Timestamp

set_option autoImplicit false

/-!
# Rows and tables

What the tables of the store hold, and what they let in.
-/
namespace InventorySearch.Store

/-!
## Values and rows

What a cell of the store holds, and rows as cells under column names. Texts are
ordered by their UTF-8 bytes, timestamps by their count of microseconds; values
of different types, and missing ones, cannot be compared.
-/

inductive Value where
  | null
  | integer (n : Int)
  | text (s : String)
  /-- Microseconds since the start of 1970. -/
  | moment (micros : Int)
deriving DecidableEq, Repr

namespace Value

def compare? : Value → Value → Option Ordering
  | .integer m, .integer n => some (compare m n)
  | .text s, .text t => some (compare (Text.bytes s) (Text.bytes t))
  | .moment m, .moment n => some (compare m n)
  | _, _ => none

def rank : Value → Nat
  | .integer _ => 0
  | .text _ => 1
  | .moment _ => 2
  | .null => 3

def order (a b : Value) : Ordering := (compare? a b).getD (compare a.rank b.rank)

def integer? : Value → Option Int
  | .integer n => some n
  | _ => none

def text? : Value → Option String
  | .text s => some s
  | _ => none

def moment? : Value → Option Calendar.Timestamp
  | .moment n => some (.ofMicros n)
  | _ => none

end Value

structure Row where
  cells : List (String × Value)
deriving DecidableEq, Repr

/-- The value in a column; a column that the row lacks has no value. -/
def Row.get (row : Row) (column : String) : Value := (row.cells.lookup column).getD .null

/-!
## Tables

The tables of the inventory and of the faults, their columns, and the rules that
every row of them keeps: required columns, ranges, and keys without repetition.
-/

inductive Table where
  | schemaVersion
  | nodes | categories | categoryNode | ipInterfaces | monitoredServices | snmpInterfaces
  | alarms | events | notifications | outages
deriving DecidableEq, Repr

namespace Table

def all : List Table :=
  [.schemaVersion, .nodes, .categories, .categoryNode, .ipInterfaces, .monitoredServices,
   .snmpInterfaces, .alarms, .events, .notifications, .outages]

def name : Table → String
  | .schemaVersion => "schema_version"
  | .nodes => "nodes"
  | .categories => "categories"
  | .categoryNode => "category_node"
  | .ipInterfaces => "ip_interfaces"
  | .monitoredServices => "monitored_services"
  | .snmpInterfaces => "snmp_interfaces"
  | .alarms => "alarms"
  | .events => "events"
  | .notifications => "notifications"
  | .outages => "outages"

def ofName? (name : String) : Option Table := all.find? fun t => t.name == name

end Table

inductive ColumnType where
  | bigint | integer | text | timestamp
deriving DecidableEq, Repr

structure Column where
  name : String
  type : ColumnType
  required : Bool
  /-- What a row holds that gives no value for the column. -/
  fallback : Value
deriving DecidableEq, Repr

namespace Column

def optional (type : ColumnType) (name : String) : Column := ⟨name, type, false, .null⟩

def mandatory (type : ColumnType) (name : String) : Column := ⟨name, type, true, .null⟩

end Column

namespace Table
open Column

def columns : Table → List Column
  | .schemaVersion =>
    [mandatory .integer "id", mandatory .integer "version", mandatory .bigint "applied_at",
     optional .text "description"]
  | .nodes =>
    [mandatory .bigint "id", mandatory .text "label"] ++
    ["node_type", "sys_name", "sys_description", "sys_location", "sys_contact", "foreign_source",
     "foreign_id", "location"].map (optional .text) ++
    ["create_time", "last_capsd_poll"].map (optional .timestamp)
  | .categories =>
    [mandatory .bigint "id", mandatory .text "name", optional .text "description"]
  | .categoryNode => [mandatory .bigint "category_id", mandatory .bigint "node_id"]
  | .ipInterfaces =>
    [mandatory .bigint "id", mandatory .bigint "node_id", mandatory .text "ip_address",
     optional .text "ip_hostname", optional .text "is_managed", optional .text "snmp_primary",
     optional .timestamp "last_capsd_poll"]
  | .monitoredServices =>
    [mandatory .bigint "id", mandatory .bigint "ip_interface_id", mandatory .text "service_name",
     optional .text "status", optional .timestamp "last_good", optional .timestamp "last_fail"]
  | .snmpInterfaces =>
    [mandatory .bigint "id", mandatory .bigint "node_id", optional .bigint "if_index",
     optional .text "if_name", optional .text "if_descr", optional .text "phys_addr"]
  | .alarms =>
    [mandatory .bigint "id", mandatory .text "uei", optional .bigint "node_id",
     optional .text "ip_addr", optional .bigint "if_index", optional .text "reduction_key",
     optional .bigint "alarm_type", ⟨"counter", .bigint, true, .integer 1⟩,
     mandatory .integer "severity", optional .text "description", optional .text "log_msg"] ++
    ["first_event_time", "last_event_time", "first_automation_time", "suppressed_until",
     "suppressed_time", "alarm_ack_time"].map (optional .timestamp) ++
    [optional .text "alarm_ack_user"]
  | .events =>
    [mandatory .bigint "event_id", mandatory .text "event_uei", optional .bigint "node_id",
     mandatory .timestamp "event_time", mandatory .timestamp "event_create_time",
     optional .text "event_host", optional .text "event_source", optional .text "ip_addr",
     optional .integer "event_severity", optional .text "event_log_msg",
     optional .text "event_descr", optional .text "event_ack_user",
     optional .timestamp "event_ack_time"]
  | .notifications =>
    [mandatory .bigint "notify_id", optional .text "text_msg", optional .text "subject",
     optional .text "numeric_msg", optional .timestamp "page_time",
     optional .timestamp "respond_time", optional .text "answered_by", optional .bigint "node_id",
     optional .bigint "event_id", optional .text "event_uei", optional .text "ip_address",
     optional .text "queue_id"]
  | .outages =>
    [mandatory .bigint "id", optional .bigint "node_id", optional .text "ip_addr",
     optional .text "service_name", mandatory .timestamp "if_lost_service",
     optional .timestamp "if_regained_service", optional .timestamp "suppress_time",
     optional .text "suppressed_by"]

def primaryKey : Table → List String
  | .categoryNode => ["category_id", "node_id"]
  | .events => ["event_id"]
  | .notifications => ["notify_id"]
  | _ => ["id"]

def keys : Table → List (List String)
  | .categories => [primaryKey .categories, ["name"]]
  | table => [table.primaryKey]

end Table

inductive Fault where
  | missingTable (name : String)
  | unknownColumn (name : String)
  | emptyRow
  | wrongType (column : String)
  | missingValue (column : String)
  | repeatedKey (columns : List String)
  | wrongVersionKey
  | noRows
  | conversion
deriving DecidableEq, Repr

def Fault.message : Fault → String
  | .missingTable name => s!"Catalog Error: Table with name {name} does not exist"
  | .unknownColumn name => s!"Binder Error: no column with name {name}"
  | .emptyRow => "Parser Error: a row without columns"
  | .wrongType column => s!"Conversion Error: wrong type for column {column}"
  | .missingValue column => s!"Constraint Error: NOT NULL constraint failed: {column}"
  | .repeatedKey columns =>
    "Constraint Error: duplicate key " ++ String.intercalate ", " columns
  | .wrongVersionKey => "Constraint Error: CHECK constraint failed: schema_version"
  | .noRows => "Query returned no rows"
  | .conversion => "Conversion Error"

def signedBound (bits : Nat) : Int := Nat.pow 2 (bits - 1)

def fitsBits (bits : Nat) (n : Int) : Bool := -signedBound bits ≤ n && n < signedBound bits

namespace Column

def convert? : ColumnType → Value → Option Value
  | .bigint, .integer n => if fitsBits 64 n then some (.integer n) else none
  | .integer, .integer n => if fitsBits 32 n then some (.integer n) else none
  | .bigint, .text s => (Text.Numeral.int64? s).map .integer
  | .integer, .text s => (Text.Numeral.int32? s).map .integer
  | .text, .text s => some (.text s)
  | .text, .integer n => some (.text (Text.Numeral.decimal n))
  | .timestamp, .text s =>
    (Calendar.Timestamp.readStored? s.toList).map fun t => .moment t.micros
  | .timestamp, .moment n => some (.moment n)
  | _, _ => none

def accept (c : Column) : Value → Except Fault Value
  | .null => if c.required then .error (.missingValue c.name) else .ok .null
  | v =>
    match convert? c.type v with
    | some stored => .ok stored
    | none => .error (.wrongType c.name)

end Column

namespace Table

def fullRow (table : Table) (assigned : List (String × Value)) : Except Fault Row := do
  if assigned.isEmpty then throw .emptyRow
  match assigned.find? fun a => table.columns.all fun c => c.name != a.1 with
  | some a => throw (.unknownColumn a.1)
  | none => pure ()
  let cells ← table.columns.mapM fun c =>
    return (c.name, ← c.accept ((assigned.lookup c.name).getD c.fallback))
  return ⟨cells⟩

/-- Rows agree on columns when they have the same values there, and all of them have one. -/
def agree (columns : List String) (a b : Row) : Bool :=
  columns.all fun c => a.get c == b.get c && a.get c != .null

def addRow (table : Table) (rows : List Row) (row : Row) : Except Fault (List Row) :=
  if table = .schemaVersion ∧ row.get "id" ≠ .integer 1 then .error .wrongVersionKey
  else
    match table.keys.find? fun key => rows.any fun other => agree key other row with
    | some key => .error (.repeatedKey key)
    | none => .ok (rows ++ [row])

end Table

end InventorySearch.Store
