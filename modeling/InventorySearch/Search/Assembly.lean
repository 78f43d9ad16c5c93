import InventorySearch.Filter.Parser

set_option autoImplicit false

/-!
# Requests and specifications

What a search can be asked for, of which kinds of entity, and the specification that
a request becomes.
-/
namespace InventorySearch.Search

/-!
## Search specifications

A search request, as a caller makes it, and the specification that is assembled
from it: the restriction, the sort keys with the primary one first, the page,
and the aliases under which filters reach associated rows.
-/

inductive Direction where
  | asc | desc
deriving DecidableEq, Repr

def Direction.read? (s : String) : Option Direction :=
  if Text.sameLetters s "asc" then some .asc
  else if Text.sameLetters s "desc" then some .desc
  else none

def Direction.keyword : Direction → String
  | .asc => "ASC"
  | .desc => "DESC"

structure SortKey where
  field : String
  direction : Direction
deriving DecidableEq, Repr

/-- A left join gives a row without associated rows one that is empty throughout. -/
inductive Join where
  | left | inner
deriving DecidableEq, Repr

structure Alias where
  path : String
  name : String
  join : Join
deriving DecidableEq, Repr

structure Request where
  /-- A filter expression; the empty text matches every row. -/
  query : String
  limit : Nat
  offset : Nat
  /-- The field to sort by; the empty text keeps the default order. -/
  orderBy : String
  direction : Direction
deriving DecidableEq, Repr

structure Spec where
  restriction : Option Filter.Restriction
  order : List SortKey
  limit : Nat
  offset : Nat
  aliases : List Alias
deriving DecidableEq

def Spec.alias? (spec : Spec) (name : String) : Option Alias :=
  spec.aliases.find? fun a => a.name == name

/-!
## Searchable entities

The five kinds of entity, and for each the fields whose literals are coerced,
the default order and the aliases.
-/

open InventorySearch.Filter

inductive Entity where
  | alarm | event | node | notification | outage
deriving DecidableEq, Repr

namespace Entity

def all : List Entity := [.alarm, .event, .node, .notification, .outage]

def name : Entity → String
  | .alarm => "alarms"
  | .event => "events"
  | .node => "nodes"
  | .notification => "notifications"
  | .outage => "outages"

def ofName? (name : String) : Option Entity := all.find? fun e => e.name == name

def label : Entity → String
  | .alarm => "Alarm"
  | .event => "Event"
  | .node => "Node"
  | .notification => "Notification"
  | .outage => "Outage"

def rules : Entity → RuleTable
  | .alarm =>
    [("firstEventTime", .timestamp), ("lastEventTime", .timestamp),
     ("firstAutomationTime", .timestamp), ("suppressedUntil", .timestamp),
     ("suppressedTime", .timestamp), ("alarmAckTime", .timestamp), ("id", .integer),
     ("ifIndex", .integer), ("counter", .integer), ("severity", .severity)]
  | .event =>
    [("eventCreateTime", .timestamp), ("eventTime", .timestamp), ("eventAckTime", .timestamp),
     ("eventId", .integer), ("eventSeverity", .integer), ("nodeId", .node)]
  | .node =>
    [("createTime", .timestamp), ("lastCapsdPoll", .timestamp), ("id", .integer),
     ("categories", .category)]
  | .notification => [("pageTime", .timestamp), ("respondTime", .timestamp), ("id", .integer)]
  | .outage =>
    [("ifLostService", .timestamp), ("ifRegainedService", .timestamp),
     ("suppressTime", .timestamp), ("id", .integer)]

def defaultOrder : Entity → List SortKey
  | .alarm => [⟨"lastEventTime", .desc⟩, ⟨"id", .desc⟩]
  | .event => [⟨"eventTime", .asc⟩]
  | .node => [⟨"label", .asc⟩]
  | .notification => [⟨"notifyId", .desc⟩]
  | .outage => [⟨"id", .desc⟩]

def aliases : Entity → List Alias
  | .node =>
    [⟨"snmpInterfaces", "snmpInterface", .left⟩, ⟨"ipInterfaces", "ipInterface", .left⟩,
     ⟨"categories", "category", .left⟩]
  | _ => []

end Entity

/-!
## Assembling searches

A request becomes a specification: a named sort field replaces the default order
altogether, and an empty query restricts nothing.
-/

def assemble (entity : Entity) (coerce : Coercer) (request : Request) : Except Error Spec := do
  let order :=
    if request.orderBy.isEmpty then entity.defaultOrder
    else [⟨request.orderBy, request.direction⟩]
  let restriction ←
    if request.query.isEmpty then pure none else some <$> parse coerce request.query
  return ⟨restriction, order, request.limit, request.offset, entity.aliases⟩

end InventorySearch.Search
