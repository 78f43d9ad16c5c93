import InventorySearch.Search.Plan
import InventorySearch.Store.Database

set_option autoImplicit false

/-!
# Questions to a database

Searches by a filter, and the lists that are asked for without one.
-/
namespace InventorySearch.Store
open InventorySearch.Filter Search Text

/-!
## Searching a database

A search finds the rows for which its condition is true, counts them, sorts them
and takes one page. The references in a filter are looked up in the database
that is searched.
-/

abbrev Record := List (String × Json)

structure Page where
  records : List Record
  /-- How many rows match on all pages together. -/
  total : Nat

def Value.json : Value → Json
  | .null => .null
  | .integer n => .integer n
  | .text s => .text s
  | .moment n => .text (Calendar.Timestamp.ofMicros n).text

def record (schema : Schema) (row : Row) : Record :=
  schema.shown.map fun f => (f.name, (row.get f.column).json)

/-- The order of two values in a sort column. Missing values come last in both directions. -/
def compareIn (direction : Direction) (a b : Value) : Ordering :=
  if a = .null ∨ b = .null then a.order b
  else
    match direction with
    | .asc => a.order b
    | .desc => b.order a

def compareRows : List (String × Direction) → Row → Row → Ordering
  | [], _, _ => .eq
  | (column, direction) :: rest, a, b =>
    (compareIn direction (a.get column) (b.get column)).then (compareRows rest a b)

def sortRows (order : List (String × Direction)) (rows : List Row) : List Row :=
  rows.mergeSort fun a b => (compareRows order a b).isLE

namespace Database

def lookup (db : Database) : Lookup := fun kind key =>
  let found : Except Fault (Option Reference) := do
    match kind with
    | .category =>
      let rows ← db.rows .categories
      return (rows.find? fun row => row.get "name" == .text key).map fun row =>
        ⟨.category, (row.get "id").integer?.getD 0, (row.get "name").text?.getD ""⟩
    | .node =>
      let rows ← db.rows .nodes
      return (Numeral.int64? key).bind fun id =>
        (rows.find? fun row => row.get "id" == .integer id).map fun row =>
          ⟨.node, id, (row.get "label").text?.getD ""⟩
  found.mapError fun fault => .unexpected ("lookup failed: " ++ fault.message)

def matching (db : Database) (table : Table) (condition : Condition) : List Row :=
  (db.rowsOrNone table).filter fun row => condition.eval db.rowsOrNone row == some true

/-- What keeps the store from deciding a condition on the rows of a table. The literals are read
first, so that a timestamp it cannot read is in the way even where no row is compared with it. -/
def obstacle? (db : Database) (table : Table) (condition : Condition) : Option Fault :=
  match (table :: condition.tables).find? fun t => (db.rows? t).isNone with
  | some t => some (.missingTable t.name)
  | none => if condition.readable then none else some .conversion

def plan (db : Database) (entity : Entity) (request : Request) : Except Error Plan := do
  let spec ← assemble entity (coercer entity.rules db.lookup) request
  (spec.plan entity.schema).mapError PlanFault.toError

def search (db : Database) (entity : Entity) (request : Request) : Except Failure Page := do
  let plan ← (db.plan entity request).mapError .filter
  match db.obstacle? entity.schema.table plan.condition with
  | some fault => throw (.filter (.execution fault.message))
  | none =>
    let found := db.matching entity.schema.table plan.condition
    let page := ((sortRows plan.order found).drop request.offset).take request.limit
    return ⟨page.map (record entity.schema), found.length⟩

def byId (db : Database) (entity : Entity) (id : Int) : Except Failure (Option Record) := do
  let rows ← (db.rows entity.schema.table).mapError .database
  let found := rows.find? fun row => row.get entity.schema.key == .integer id
  return found.map (record entity.schema)

end Database

/-!
## The inventory of nodes

Interfaces, services and categories of nodes, asked for directly and not through
the filter language. `none` stands for a node, interface or category that is not
there, which differs from one with nothing to list.
-/

open Calendar

structure IpInterface where
  id : Int
  nodeId : Int
  address : String
  hostName : Option String
  isManaged : Option String
  snmpPrimary : Option String
  lastPoll : Option Timestamp
deriving DecidableEq

structure Service where
  id : Int
  nodeId : Int
  address : String
  name : String
  status : Option String
  lastGood : Option Timestamp
  lastFail : Option Timestamp
deriving DecidableEq

structure Category where
  id : Int
  name : String
  description : Option String
deriving DecidableEq

namespace Row

/-- The number in a column that always has one. -/
def integer (row : Row) (column : String) : Int := (row.get column).integer?.getD 0

def text (row : Row) (column : String) : String := (row.get column).text?.getD ""

end Row

def IpInterface.ofRow (row : Row) : IpInterface where
  id := row.integer "id"
  nodeId := row.integer "node_id"
  address := row.text "ip_address"
  hostName := (row.get "ip_hostname").text?
  isManaged := (row.get "is_managed").text?
  snmpPrimary := (row.get "snmp_primary").text?
  lastPoll := (row.get "last_capsd_poll").moment?

def Service.ofRows (service interface : Row) : Service where
  id := service.integer "id"
  nodeId := interface.integer "node_id"
  address := interface.text "ip_address"
  name := service.text "service_name"
  status := (service.get "status").text?
  lastGood := (service.get "last_good").moment?
  lastFail := (service.get "last_fail").moment?

def Category.ofRow (row : Row) : Category where
  id := row.integer "id"
  name := row.text "name"
  description := (row.get "description").text?

private def momentJson : Option Timestamp → Json := .ofOption fun t => .text t.preciseText

private def textJson : Option String → Json := .ofOption .text

def IpInterface.record (i : IpInterface) : Record :=
  [("id", .integer i.id), ("nodeId", .integer i.nodeId), ("ipAddress", .text i.address),
   ("ipHostName", textJson i.hostName), ("isManaged", textJson i.isManaged),
   ("snmpPrimary", textJson i.snmpPrimary), ("lastCapsdPoll", momentJson i.lastPoll)]

def Service.record (s : Service) : Record :=
  [("id", .integer s.id), ("nodeId", .integer s.nodeId), ("ipAddress", .text s.address),
   ("serviceName", .text s.name), ("status", textJson s.status),
   ("lastGood", momentJson s.lastGood), ("lastFail", momentJson s.lastFail)]

def Category.record (c : Category) : Record :=
  [("id", .integer c.id), ("name", .text c.name), ("description", textJson c.description)]

def isAt (node : Int) (address : String) (row : Row) : Bool :=
  row.get "node_id" == .integer node && row.get "ip_address" == .text address

namespace Database

def ipInterfaces (db : Database) (node : Int) : Except Fault (Option (List IpInterface)) := do
  let nodes ← db.rows .nodes
  if nodes.any fun row => row.get "id" == .integer node then
    let rows := (← db.rows .ipInterfaces).filter fun row => row.get "node_id" == .integer node
    return some ((sortRows [("ip_address", .asc)] rows).map .ofRow)
  else return none

def ipInterface (db : Database) (node : Int) (address : String) :
    Except Fault (Option IpInterface) := do
  return ((← db.rows .ipInterfaces).find? (isAt node address)).map .ofRow

def servicesAt (db : Database) (node : Int) (address : String) :
    Except Fault (List (Row × Row)) := do
  let interfaces := (← db.rows .ipInterfaces).filter (isAt node address)
  let services ← db.rows .monitoredServices
  return services.flatMap fun service =>
    (interfaces.filter fun i => i.get "id" == service.get "ip_interface_id").map fun i =>
      (service, i)

def services (db : Database) (node : Int) (address : String) :
    Except Fault (Option (List Service)) := do
  match ← db.ipInterface node address with
  | none => return none
  | some _ =>
    let found ← db.servicesAt node address
    let sorted := found.mergeSort fun a b =>
      (compareRows [("service_name", .asc)] a.1 b.1).isLE
    return some (sorted.map fun (service, i) => .ofRows service i)

def service (db : Database) (node : Int) (address name : String) :
    Except Fault (Option Service) := do
  let found := (← db.servicesAt node address).find? fun p => p.1.get "service_name" == .text name
  return found.map fun (service, i) => .ofRows service i

def categories (db : Database) : Except Fault (List Category) := do
  return (sortRows [("name", .asc)] (← db.rows .categories)).map .ofRow

def categoryId? (db : Database) (name : String) : Except Fault (Option Int) := do
  let found := (← db.rows .categories).find? fun row => row.get "name" == .text name
  return found.map fun row => row.integer "id"

def categoryIds? (db : Database) : List String → Except Fault (Option (List Int))
  | [] => .ok (some [])
  | name :: names => do
    match ← db.categoryId? name with
    | none => return none
    | some id => return (← categoryIds? db names).map (id :: ·)

private def byLabel (rows : List Row) : List Record :=
  (sortRows [("label", .asc), ("id", .asc)] rows).map (record Entity.node.schema)

def nodesByCategories (db : Database) (names : List String) :
    Except Fault (Option (List Record)) := do
  if names.isEmpty then return some []
  match ← db.categoryIds? names with
  | none => return none
  | some ids =>
    let nodes ← db.rows .nodes
    let links := (← db.rows .categoryNode).filter fun l => ids.contains (l.integer "category_id")
    return some (byLabel (nodes.filter fun n => links.any fun l => l.get "node_id" == n.get "id"))

def nodesByCategory (db : Database) (name : String) : Except Fault (Option (List Record)) :=
  db.nodesByCategories [name]

def nodesByForeignSource (db : Database) (source : String) : Except Fault (List Record) := do
  let nodes ← db.rows .nodes
  return byLabel (nodes.filter fun n => n.get "foreign_source" == .text source)

end Database

end InventorySearch.Store
