import InventorySearch.Search.Assembly
import InventorySearch.Store.Table

set_option autoImplicit false

/-!
# Searchable fields

Which column stands behind each field of an entity, and which rows an entity is
associated with. In conditions a row of the entity is called `p`, an associated
row `c`, and a row of the table that links the two `l`.
-/
namespace InventorySearch.Search
open Store

inductive ScalarKind where
  | text | integer | timestamp
deriving DecidableEq, Repr

def ScalarKind.name : ScalarKind → String
  | .text => "text"
  | .integer => "integer"
  | .timestamp => "timestamp"

inductive FieldKind where
  | scalar (kind : ScalarKind)
  /-- Being an `owner` in `link`, together with the `member` asked for. -/
  | membership (link : Table) (owner member : String)
deriving DecidableEq, Repr

def FieldKind.name : FieldKind → String
  | .scalar kind => kind.name
  | .membership .. => "membership"

structure Field (Kind : Type) where
  name : String
  column : String
  kind : Kind
deriving DecidableEq, Repr

def field? {Kind : Type} (fields : List (Field Kind)) (name : String) : Option (Field Kind) :=
  fields.find? fun f => f.name == name

inductive Source where
  | owned (table : Table) (owner : String)
  /-- The rows of `table` that `link` ties to the row's key by their column `key`. -/
  | linked (link : Table) (owner member : String) (table : Table) (key : String)
deriving DecidableEq, Repr

namespace Source

def tables : Source → String
  | .owned table _ => s!"{table.name} c"
  | .linked link _ member table key =>
    s!"{link.name} l JOIN {table.name} c ON c.{key} = l.{member}"

def parent : Source → String
  | .owned _ owner => "c." ++ owner
  | .linked _ owner _ _ _ => "l." ++ owner

end Source

structure Association where
  path : String
  source : Source
  fields : List (Field ScalarKind)
deriving DecidableEq, Repr

structure Schema where
  table : Table
  key : String
  fields : List (Field FieldKind)
  associations : List Association
deriving DecidableEq, Repr

namespace Schema

def association? (schema : Schema) (path : String) : Option Association :=
  schema.associations.find? fun a => a.path == path

/-- Keeps the first field of each column, and of those the ones that hold a value. -/
def shownFrom (seen : List String) : List (Field FieldKind) → List (Field ScalarKind)
  | [] => []
  | f :: rest =>
    match f.kind with
    | .scalar kind =>
      if seen.contains f.column then shownFrom (f.column :: seen) rest
      else ⟨f.name, f.column, kind⟩ :: shownFrom (f.column :: seen) rest
    | .membership .. => shownFrom (f.column :: seen) rest

def shown (schema : Schema) : List (Field ScalarKind) := shownFrom [] schema.fields

end Schema

private def text (name column : String) : Field FieldKind := ⟨name, column, .scalar .text⟩

private def integer (name column : String) : Field FieldKind := ⟨name, column, .scalar .integer⟩

private def timestamp (name column : String) : Field FieldKind :=
  ⟨name, column, .scalar .timestamp⟩

namespace Entity

def schema : Entity → Schema
  | .node =>
    { table := .nodes
      key := "id"
      fields :=
        [integer "id" "id", text "label" "label", text "type" "node_type",
         text "sysName" "sys_name", text "sysDescription" "sys_description",
         text "sysLocation" "sys_location", text "sysContact" "sys_contact",
         text "foreignSource" "foreign_source", text "foreignId" "foreign_id",
         text "location" "location", timestamp "createTime" "create_time",
         timestamp "lastCapsdPoll" "last_capsd_poll",
         ⟨"categories", "category_node", .membership .categoryNode "node_id" "category_id"⟩]
      associations :=
        [⟨"snmpInterfaces", .owned .snmpInterfaces "node_id",
          [⟨"ifIndex", "if_index", .integer⟩, ⟨"ifName", "if_name", .text⟩,
           ⟨"ifDescr", "if_descr", .text⟩, ⟨"physAddr", "phys_addr", .text⟩]⟩,
         ⟨"ipInterfaces", .owned .ipInterfaces "node_id",
          [⟨"ipAddress", "ip_address", .text⟩, ⟨"ipHostName", "ip_hostname", .text⟩,
           ⟨"isManaged", "is_managed", .text⟩, ⟨"snmpPrimary", "snmp_primary", .text⟩,
           ⟨"lastCapsdPoll", "last_capsd_poll", .timestamp⟩]⟩,
         ⟨"categories", .linked .categoryNode "node_id" "category_id" .categories "id",
          [⟨"name", "name", .text⟩, ⟨"description", "description", .text⟩]⟩] }
  | .alarm =>
    { table := .alarms
      key := "id"
      fields :=
        [integer "id" "id", text "uei" "uei", integer "nodeId" "node_id",
         text "ipAddr" "ip_addr", integer "ifIndex" "if_index",
         text "reductionKey" "reduction_key", integer "alarmType" "alarm_type",
         integer "counter" "counter", integer "severity" "severity",
         text "description" "description", text "logMsg" "log_msg",
         timestamp "firstEventTime" "first_event_time",
         timestamp "lastEventTime" "last_event_time",
         timestamp "firstAutomationTime" "first_automation_time",
         timestamp "suppressedUntil" "suppressed_until",
         timestamp "suppressedTime" "suppressed_time",
         timestamp "alarmAckTime" "alarm_ack_time", text "alarmAckUser" "alarm_ack_user"]
      associations := [] }
  | .event =>
    { table := .events
      key := "event_id"
      fields :=
        [integer "eventId" "event_id", integer "id" "event_id", text "eventUei" "event_uei",
         integer "nodeId" "node_id", timestamp "eventTime" "event_time",
         timestamp "eventCreateTime" "event_create_time", text "eventHost" "event_host",
         text "eventSource" "event_source", text "ipAddr" "ip_addr",
         integer "eventSeverity" "event_severity", text "eventLogMsg" "event_log_msg",
         text "eventDescr" "event_descr", text "eventAckUser" "event_ack_user",
         timestamp "eventAckTime" "event_ack_time"]
      associations := [] }
  | .notification =>
    { table := .notifications
      key := "notify_id"
      fields :=
        [integer "notifyId" "notify_id", integer "id" "notify_id", text "textMsg" "text_msg",
         text "subject" "subject", text "numericMsg" "numeric_msg",
         timestamp "pageTime" "page_time", timestamp "respondTime" "respond_time",
         text "answeredBy" "answered_by", integer "nodeId" "node_id",
         integer "eventId" "event_id", text "eventUei" "event_uei",
         text "ipAddress" "ip_address", text "queueId" "queue_id"]
      associations := [] }
  | .outage =>
    { table := .outages
      key := "id"
      fields :=
        [integer "id" "id", integer "nodeId" "node_id", text "ipAddr" "ip_addr",
         text "serviceName" "service_name", timestamp "ifLostService" "if_lost_service",
         timestamp "ifRegainedService" "if_regained_service",
         timestamp "suppressTime" "suppress_time", text "suppressedBy" "suppressed_by"]
      associations := [] }

end Entity
end InventorySearch.Search
