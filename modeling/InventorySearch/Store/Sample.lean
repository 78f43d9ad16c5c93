import InventorySearch.Store.Database

set_option autoImplicit false

/-!
# Sample data

Four nodes with their interfaces, services and categories, and a handful of
alarms, events, notifications and outages about them. Loading is all or nothing,
and only into a store without nodes.
-/
namespace InventorySearch.Store

structure Batch where
  table : Table
  columns : List String
  rows : List (List Value)

def sample : List Batch :=
  [{ table := .categories
     columns :=
       ["id", "name", "description"]
     rows :=
       [[.integer 1, .text "Servers", .text "Server hosts"],
        [.integer 2, .text "Routers", .text "Core routing"],
        [.integer 3, .text "Production", .null],
        [.integer 4, .text "Development", .null]] },
   { table := .nodes
     columns :=
       ["id", "label", "node_type", "sys_name", "sys_description", "sys_location", "sys_contact",
        "foreign_source", "foreign_id", "location", "create_time", "last_capsd_poll"]
     rows :=
       [[.integer 1, .text "web01", .text "A", .text "web01.example.org", .text "Linux web01",
         .text "Rack 1", .text "ops@example.org", .text "Servers", .text "web01", .text "Default",
         .text "2013-05-01 08:00:00", .text "2013-12-01 10:00:00"],
        [.integer 2, .text "core-rtr", .text "A", .text "core-rtr", .text "Cisco IOS",
         .text "Core", .text "netops@example.org", .text "Network", .text "rtr-1",
         .text "Default", .text "2013-06-20 12:30:00", .text "2013-12-20 09:00:00"],
        [.integer 3, .text "db01", .text "D", .text "db01.example.org", .text "Linux db01",
         .text "Rack 2", .null, .text "Servers", .text "db01", .text "Default",
         .text "2013-07-02 15:45:00", .text "2014-01-15 22:10:00"],
        [.integer 4, .text "lab-sw", .text "D", .null, .null, .null, .null, .null, .null,
         .text "Lab", .text "2012-11-11 11:11:11", .null]] },
   { table := .categoryNode
     columns :=
       ["category_id", "node_id"]
     rows :=
       [[.integer 1, .integer 1],
        [.integer 3, .integer 1],
        [.integer 2, .integer 2],
        [.integer 3, .integer 2],
        [.integer 1, .integer 3]] },
   { table := .ipInterfaces
     columns :=
       ["id", "node_id", "ip_address", "ip_hostname", "is_managed", "snmp_primary",
        "last_capsd_poll"]
     rows :=
       [[.integer 1, .integer 1, .text "10.0.0.10", .text "web01.example.org", .text "M",
         .text "P", .text "2013-12-01 10:00:00"],
        [.integer 2, .integer 1, .text "192.168.1.10", .text "web01-mgmt", .text "M", .text "S",
         .text "2013-12-01 10:00:00"],
        [.integer 3, .integer 2, .text "10.0.0.1", .text "core-rtr", .text "M", .text "P",
         .text "2013-12-20 09:00:00"],
        [.integer 4, .integer 3, .text "10.0.0.20", .null, .text "U", .text "N", .null]] },
   { table := .monitoredServices
     columns :=
       ["id", "ip_interface_id", "service_name", "status", "last_good", "last_fail"]
     rows :=
       [[.integer 1, .integer 1, .text "ICMP", .text "A", .text "2013-12-01 10:00:00", .null],
        [.integer 2, .integer 1, .text "HTTP", .text "A", .text "2013-12-01 10:00:00",
         .text "2013-11-30 23:15:00"],
        [.integer 3, .integer 2, .text "SSH", .text "A", .text "2013-12-01 09:55:00", .null],
        [.integer 4, .integer 3, .text "SNMP", .text "A", .text "2013-12-20 09:00:00", .null],
        [.integer 5, .integer 3, .text "ICMP", .text "F", .null, .text "2014-01-02 03:00:00"]] },
   { table := .snmpInterfaces
     columns :=
       ["id", "node_id", "if_index", "if_name", "if_descr", "phys_addr"]
     rows :=
       [[.integer 1, .integer 1, .integer 1, .text "eth0", .text "Intel eth0",
         .text "00:11:22:33:44:55"],
        [.integer 2, .integer 2, .integer 1, .text "Gi0/0", .text "GigabitEthernet0/0",
         .text "00:aa:bb:cc:dd:01"],
        [.integer 3, .integer 2, .integer 2, .text "Gi0/1", .text "GigabitEthernet0/1",
         .text "00:aa:bb:cc:dd:02"]] },
   { table := .alarms
     columns :=
       ["id", "uei", "node_id", "ip_addr", "if_index", "reduction_key", "alarm_type", "counter",
        "severity", "description", "log_msg", "first_event_time", "last_event_time",
        "first_automation_time", "suppressed_until", "suppressed_time", "alarm_ack_time",
        "alarm_ack_user"]
     rows :=
       [[.integer 1, .text "uei.opennms.org/nodes/nodeDown", .integer 1, .text "10.0.0.10", .null,
         .text "nodeDown::1", .integer 1, .integer 3, .integer 6, .text "Node down",
         .text "Node web01 is down", .text "2013-12-01 10:00:00", .text "2013-12-01 10:05:00",
         .null, .null, .null, .null, .null],
        [.integer 2, .text "uei.opennms.org/nodes/interfaceDown", .integer 2, .text "10.0.0.1",
         .integer 1, .text "interfaceDown::2:1", .integer 1, .integer 1, .integer 7,
         .text "Interface down", .text "Gi0/0 on core-rtr is down", .text "2014-01-02 03:00:00",
         .text "2014-01-02 03:00:00", .null, .null, .null, .text "2014-01-02 04:00:00",
         .text "admin"],
        [.integer 3, .text "uei.opennms.org/nodes/nodeUp", .integer 1, .text "10.0.0.10", .null,
         .text "nodeUp::1", .integer 2, .integer 1, .integer 2, .text "Node up",
         .text "Node web01 is up", .text "2013-12-01 11:00:00", .text "2013-12-01 11:00:00",
         .null, .null, .null, .null, .null],
        [.integer 4, .text "uei.opennms.org/threshold/highThresholdExceeded", .integer 3,
         .text "10.0.0.20", .null, .text "threshold::3:cpu", .integer 1, .integer 5, .integer 4,
         .text "High threshold exceeded", .text "CPU above 90% on db01",
         .text "2013-11-10 00:00:00", .text "2013-12-15 08:30:00", .text "2013-11-10 00:05:00",
         .text "2013-12-16 00:00:00", .text "2013-12-15 09:00:00", .null, .null]] },
   { table := .events
     columns :=
       ["event_id", "event_uei", "node_id", "event_time", "event_create_time", "event_host",
        "event_source", "ip_addr", "event_severity", "event_log_msg", "event_descr",
        "event_ack_user", "event_ack_time"]
     rows :=
       [[.integer 1, .text "uei.opennms.org/nodes/nodeDown", .integer 1,
         .text "2013-12-01 10:00:00", .text "2013-12-01 10:00:01", .text "nms01", .text "poller",
         .text "10.0.0.10", .integer 6, .text "Node web01 is down", .text "All interfaces down",
         .null, .null],
        [.integer 2, .text "uei.opennms.org/nodes/nodeUp", .integer 1,
         .text "2013-12-01 11:00:00", .text "2013-12-01 11:00:01", .text "nms01", .text "poller",
         .text "10.0.0.10", .integer 2, .text "Node web01 is up", .null, .null, .null],
        [.integer 3, .text "uei.opennms.org/nodes/interfaceDown", .integer 2,
         .text "2014-01-02 03:00:00", .text "2014-01-02 03:00:01", .text "nms01", .text "poller",
         .text "10.0.0.1", .integer 7, .text "Gi0/0 on core-rtr is down", .null, .text "admin",
         .text "2014-01-02 04:00:00"],
        [.integer 4, .text "uei.opennms.org/threshold/highThresholdExceeded", .integer 3,
         .text "2013-12-15 08:30:00", .text "2013-12-15 08:30:02", .text "nms01",
         .text "collectd", .text "10.0.0.20", .integer 4, .text "CPU above 90% on db01", .null,
         .null, .null],
        [.integer 5, .text "uei.opennms.org/internal/discoveryConfigChange", .null,
         .text "2013-10-01 00:00:00", .text "2013-10-01 00:00:00", .text "nms01", .text "webui",
         .null, .integer 3, .text "Discovery configuration changed", .null, .null, .null]] },
   { table := .notifications
     columns :=
       ["notify_id", "text_msg", "subject", "numeric_msg", "page_time", "respond_time",
        "answered_by", "node_id", "event_id", "event_uei", "ip_address", "queue_id"]
     rows :=
       [[.integer 1, .text "Node web01 is down", .text "Notice #1: web01 down", .text "111",
         .text "2013-12-01 10:01:00", .text "2013-12-01 10:20:00", .text "admin", .integer 1,
         .integer 1, .text "uei.opennms.org/nodes/nodeDown", .text "10.0.0.10", .text "default"],
        [.integer 2, .text "Interface down on core-rtr", .text "Notice #2: core-rtr Gi0/0 down",
         .null, .text "2014-01-02 03:01:00", .null, .null, .integer 2, .integer 3,
         .text "uei.opennms.org/nodes/interfaceDown", .text "10.0.0.1", .text "default"],
        [.integer 3, .text "Threshold exceeded on db01", .text "Notice #3: db01 CPU", .null,
         .text "2013-12-15 08:31:00", .text "2013-12-15 09:00:00", .text "oncall", .integer 3,
         .integer 4, .text "uei.opennms.org/threshold/highThresholdExceeded", .text "10.0.0.20",
         .text "default"]] },
   { table := .outages
     columns :=
       ["id", "node_id", "ip_addr", "service_name", "if_lost_service", "if_regained_service",
        "suppress_time", "suppressed_by"]
     rows :=
       [[.integer 1, .integer 1, .text "10.0.0.10", .text "ICMP", .text "2013-12-01 10:00:00",
         .text "2013-12-01 11:00:00", .null, .null],
        [.integer 2, .integer 2, .text "10.0.0.1", .text "SNMP", .text "2014-01-02 03:00:00",
         .null, .null, .null],
        [.integer 3, .integer 3, .text "10.0.0.20", .text "HTTP", .text "2013-12-15 08:30:00",
         .text "2013-12-15 08:45:00", .text "2013-12-15 08:35:00", .text "admin"]] }]

def Database.insertBatch (db : Database) (batch : Batch) : Except Fault Database :=
  batch.rows.foldlM (fun db row => db.insert batch.table (batch.columns.zip row)) db

/-- Adds the sample rows to a store without nodes; says whether it did. -/
def Work.seed : Work Bool := do
  let nodes ← query fun db => db.rows .nodes
  if nodes.isEmpty then
    transaction (sample.forM fun batch => statement fun db => db.insertBatch batch)
    return true
  else return false

end InventorySearch.Store
