import InventorySearch.Proofs.Store.Conversion
import InventorySearch.Proofs.Store.Integrity

set_option autoImplicit false

/-!
# Interfaces and services

The questions about the interfaces of a node and about the services on them are put
to three tables that do not refer to each other, and in which an address may repeat.
Their answers agree all the same.
-/
namespace InventorySearch.Store
open InventorySearch.Filter Search Text

namespace Database
variable {db : Database} {node : Int} {address : String}

theorem Complete.rows_eq (h : db.Complete) (table : Table) :
    db.rows table = .ok (db.rowsOrNone table) := by
  obtain ⟨rows, hrows⟩ := Option.isSome_iff_exists.mp (h table)
  rw [rows_of_some hrows, rowsOrNone_of_some hrows]

/-! ## What is asked for -/

def HasNode (db : Database) (node : Int) : Prop :=
  ∃ row ∈ db.rowsOrNone .nodes, row.get "id" = .integer node

/-- Being an interface with the number of the node, whether there is such a node or not. -/
def InterfaceOf (db : Database) (node : Int) (row : Row) : Prop :=
  row ∈ db.rowsOrNone .ipInterfaces ∧ row.get "node_id" = .integer node

def InterfaceAt (db : Database) (node : Int) (address : String) (row : Row) : Prop :=
  db.InterfaceOf node row ∧ row.get "ip_address" = .text address

def ServiceAt (db : Database) (node : Int) (address : String) (service interface : Row) : Prop :=
  service ∈ db.rowsOrNone .monitoredServices ∧ db.InterfaceAt node address interface ∧
    interface.get "id" = service.get "ip_interface_id"

def ListsInterfaces (db : Database) (node : Int) : List IpInterface → Prop :=
  ListsAll (fun i => ∃ row, db.InterfaceOf node row ∧ i = .ofRow row) IpInterface.id
    IpInterface.address

def ListsServices (db : Database) (node : Int) (address : String) : List Service → Prop :=
  ListsAll (fun x => ∃ service interface, db.ServiceAt node address service interface ∧
    x = .ofRows service interface) Service.id Service.name

/-- The answers about a node, an address and the name of a service. -/
structure Told where
  interfaces : Option (List IpInterface)
  interface : Option IpInterface
  services : Option (List Service)
  service : Option Service

def Tells (db : Database) (node : Int) (address name : String) (told : Told) : Prop :=
  db.ipInterfaces node = .ok told.interfaces ∧ db.ipInterface node address = .ok told.interface ∧
    db.services node address = .ok told.services ∧
    db.service node address name = .ok told.service

/-- Being answers of which none says what another one denies. -/
structure Told.Agree (told : Told) (address name : String) : Prop where
  services_iff : told.services.isSome = true ↔ told.interface.isSome = true
  service_iff : told.service.isSome = true ↔ ∃ xs ∈ told.services, ∃ x ∈ xs, x.name = name
  service_mem : ∀ x ∈ told.service, ∃ xs ∈ told.services, x ∈ xs ∧ x.name = name
  interface_iff : ∀ is ∈ told.interfaces,
    (told.interface.isSome = true ↔ ∃ i ∈ is, i.address = address)
  interface_mem : ∀ is ∈ told.interfaces, ∀ i ∈ told.interface, i ∈ is ∧ i.address = address

/-! ## Interfaces -/

theorem find?_map_spec {α β : Type} {xs : List α} {p : α → Bool} {P : α → Prop}
    (h : ∀ x, x ∈ xs ∧ p x = true ↔ P x) (f : α → β) :
    (((xs.find? p).map f).isSome = true ↔ ∃ x, P x) ∧
      ∀ y ∈ (xs.find? p).map f, ∃ x, P x ∧ y = f x := by
  constructor
  · rw [Option.isSome_map, List.find?_isSome]
    exact exists_congr h
  · intro y hy
    obtain ⟨x, hfound, rfl⟩ := Option.map_eq_some_iff.mp hy
    exact ⟨x, (h x).mp ⟨List.mem_of_find?_eq_some hfound, List.find?_some hfound⟩, rfl⟩

def interfaceRows (db : Database) (node : Int) : List Row :=
  (db.rowsOrNone .ipInterfaces).filter fun row => row.get "node_id" == .integer node

theorem mem_interfaceRows {row : Row} : row ∈ db.interfaceRows node ↔ db.InterfaceOf node row := by
  rw [interfaceRows, List.mem_filter, beq_iff_eq, InterfaceOf]

theorem mem_isAt_iff {row : Row} :
    row ∈ db.rowsOrNone .ipInterfaces ∧ isAt node address row = true ↔
      db.InterfaceAt node address row := by
  rw [isAt, Bool.and_eq_true, beq_iff_eq, beq_iff_eq, InterfaceAt, InterfaceOf, and_assoc]

theorem any_node_iff :
    (db.rowsOrNone .nodes).any (fun row => row.get "id" == .integer node) = true ↔
      db.HasNode node := by
  simp only [List.any_eq_true, beq_iff_eq, HasNode]

theorem ipInterfaces_of_node (h : db.Complete) (hnode : db.HasNode node) :
    db.ipInterfaces node =
      .ok (some ((sortRows [("ip_address", .asc)] (db.interfaceRows node)).map .ofRow)) := by
  rw [ipInterfaces, h.rows_eq .nodes, h.rows_eq .ipInterfaces]
  exact if_pos (any_node_iff.mpr hnode)

theorem ipInterfaces_of_no_node (h : db.Complete) (hnode : ¬ db.HasNode node) :
    db.ipInterfaces node = .ok none := by
  rw [ipInterfaces, h.rows_eq .nodes, h.rows_eq .ipInterfaces]
  exact if_neg (mt any_node_iff.mp hnode)

theorem ipInterface_eq (h : db.Complete) :
    db.ipInterface node address =
      .ok (((db.rowsOrNone .ipInterfaces).find? (isAt node address)).map .ofRow) := by
  rw [ipInterface, h.rows_eq]
  rfl

theorem exists_ipInterface (h : db.Complete) (node : Int) (address : String) :
    ∃ interface, db.ipInterface node address = .ok interface ∧
      (interface.isSome = true ↔ ∃ row, db.InterfaceAt node address row) ∧
      ∀ i ∈ interface, ∃ row, db.InterfaceAt node address row ∧ i = .ofRow row :=
  ⟨_, ipInterface_eq h, find?_map_spec (fun _ => mem_isAt_iff) _⟩

/-! ## Services -/

def serviceRows (db : Database) (node : Int) (address : String) : List (Row × Row) :=
  (db.rowsOrNone .monitoredServices).flatMap fun service =>
    (((db.rowsOrNone .ipInterfaces).filter (isAt node address)).filter fun i =>
      i.get "id" == service.get "ip_interface_id").map fun i => (service, i)

theorem mem_serviceRows {p : Row × Row} :
    p ∈ db.serviceRows node address ↔ db.ServiceAt node address p.1 p.2 := by
  obtain ⟨service, interface⟩ := p
  simp only [serviceRows, List.mem_flatMap, List.mem_map, List.mem_filter, mem_isAt_iff,
    Prod.mk.injEq, beq_iff_eq, ServiceAt]
  constructor
  · rintro ⟨_, hservice, _, ⟨hat, hid⟩, rfl, rfl⟩
    exact ⟨hservice, hat, hid⟩
  · rintro ⟨hservice, hat, hid⟩
    exact ⟨_, hservice, _, ⟨hat, hid⟩, rfl, rfl⟩

theorem servicesAt_eq (h : db.Complete) :
    db.servicesAt node address = .ok (db.serviceRows node address) := by
  rw [servicesAt, h.rows_eq, h.rows_eq]
  rfl

theorem services_of_interface (h : db.Complete) {i : IpInterface}
    (hinterface : db.ipInterface node address = .ok (some i)) :
    db.services node address =
      .ok (some (((db.serviceRows node address).mergeSort fun a b =>
        (compareRows [("service_name", .asc)] a.1 b.1).isLE).map fun p => .ofRows p.1 p.2)) := by
  rw [services, hinterface, servicesAt_eq h]
  rfl

theorem services_of_no_interface (hinterface : db.ipInterface node address = .ok none) :
    db.services node address = .ok none := by
  rw [services, hinterface]
  rfl

theorem service_eq (h : db.Complete) (name : String) :
    db.service node address name = .ok (((db.serviceRows node address).find? fun p =>
      p.1.get "service_name" == .text name).map fun p => .ofRows p.1 p.2) := by
  rw [service, servicesAt_eq h]
  rfl

/-! ## What is listed -/

theorem pairwise_of_length_le_one {α : Type} {R : α → α → Prop} {xs : List α}
    (h : xs.length ≤ 1) : xs.Pairwise R := by
  match xs with
  | [] => exact .nil
  | [a] => exact List.pairwise_singleton R a

section
variable (hdb : Lawful db.rowsOrNone)
include hdb

theorem exists_address {node : Int} {row : Row} (h : db.InterfaceOf node row) :
    ∃ s, row.get "ip_address" = .text s :=
  hdb.exists_text (by decide) (by decide : Column.mandatory .text "ip_address" ∈
    Table.ipInterfaces.columns) h.1

theorem exists_serviceName {node : Int} {address : String} {service interface : Row}
    (h : db.ServiceAt node address service interface) :
    ∃ s, service.get "service_name" = .text s :=
  hdb.exists_text (by decide) (by decide : Column.mandatory .text "service_name" ∈
    Table.monitoredServices.columns) h.1

theorem listsInterfaces_sortRows (node : Int) :
    db.ListsInterfaces node
      ((sortRows [("ip_address", .asc)] (db.interfaceRows node)).map .ofRow) := by
  refine listsAll_mergeSort hdb (fun row hrow => (mem_interfaceRows.mp hrow).1)
    (by decide) ((pairwise_id hdb (by decide) (by decide)).sublist List.filter_sublist) (by decide)
    (fun _ => rfl) (fun _ => rfl) fun i => ?_
  exact exists_congr fun row => and_congr mem_interfaceRows.symm eq_comm

theorem pairwise_serviceRows (node : Int) (address : String) :
    (db.serviceRows node address).Pairwise fun p q => p.1.get "id" ≠ q.1.get "id" := by
  refine List.pairwise_flatMap.mpr ⟨fun service _ => ?_, ?_⟩
  · have hone : AtMostOne (db.rowsOrNone .ipInterfaces) "id" (service.get "ip_interface_id") :=
      (hdb .ipInterfaces (by decide)).atMostOne (by decide) _
    have hsub : (((db.rowsOrNone .ipInterfaces).filter (isAt node address)).filter fun i =>
        i.get "id" == service.get "ip_interface_id").Sublist
        ((db.rowsOrNone .ipInterfaces).filter fun i =>
          i.get "id" == service.get "ip_interface_id") := List.filter_sublist.filter _
    refine pairwise_of_length_le_one ?_
    rw [List.length_map]
    exact Nat.le_trans hsub.length_le hone
  · refine (pairwise_id hdb (by decide) (by decide)).imp fun hne p hp q hq => ?_
    obtain ⟨_, -, rfl⟩ := List.mem_map.mp hp
    obtain ⟨_, -, rfl⟩ := List.mem_map.mp hq
    exact hne

theorem listsServices_mergeSort (node : Int) (address : String) :
    db.ListsServices node address (((db.serviceRows node address).mergeSort fun a b =>
      (compareRows [("service_name", .asc)] a.1 b.1).isLE).map fun p => .ofRows p.1 p.2) := by
  refine listsAll_mergeSort hdb (fun p hp => (mem_serviceRows.mp hp).1) (by decide)
    (pairwise_serviceRows hdb node address) (by decide) (fun _ => rfl) (fun _ => rfl) fun x => ?_
  rw [Prod.exists]
  exact exists_congr fun service => exists_congr fun interface =>
    and_congr (mem_serviceRows (p := (service, interface))).symm eq_comm

/-! ## Answers -/

theorem exists_services (h : db.Complete) {node : Int} {address : String}
    {interface : Option IpInterface} (hinterface : db.ipInterface node address = .ok interface) :
    ∃ services, db.services node address = .ok services ∧
      (services.isSome = true ↔ interface.isSome = true) ∧
      ∀ xs ∈ services, db.ListsServices node address xs := by
  cases interface with
  | none => exact ⟨none, services_of_no_interface hinterface, Iff.rfl, nofun⟩
  | some i =>
    refine ⟨_, services_of_interface h hinterface, by simp, ?_⟩
    rintro xs ⟨⟩
    exact listsServices_mergeSort hdb node address

theorem exists_service (h : db.Complete) (node : Int) (address name : String) :
    ∃ service, db.service node address name = .ok service ∧
      (service.isSome = true ↔ ∃ p : Row × Row, db.ServiceAt node address p.1 p.2 ∧
        (Service.ofRows p.1 p.2).name = name) ∧
      ∀ x ∈ service, ∃ p : Row × Row, (db.ServiceAt node address p.1 p.2 ∧
        (Service.ofRows p.1 p.2).name = name) ∧ x = .ofRows p.1 p.2 := by
  refine ⟨_, service_eq h name, find?_map_spec (fun p => ?_) _⟩
  rw [mem_serviceRows]
  refine and_congr_right fun hp => ?_
  rw [beq_iff_eq]
  exact Row.get_eq_text_iff (exists_serviceName hdb hp)

theorem exists_ipInterfaces (h : db.Complete) (node : Int) :
    ∃ interfaces, db.ipInterfaces node = .ok interfaces ∧
      (interfaces = none ↔ ¬ db.HasNode node) ∧
      ∀ is ∈ interfaces, db.ListsInterfaces node is := by
  by_cases hnode : db.HasNode node
  · refine ⟨_, ipInterfaces_of_node h hnode, by simp [hnode], ?_⟩
    rintro is ⟨⟩
    exact listsInterfaces_sortRows hdb node
  · exact ⟨none, ipInterfaces_of_no_node h hnode, by simp [hnode], nofun⟩

end

end Database

/-- On a reachable store with all its tables, what is told of the interfaces of a node agrees with
what is told of one of them, of the services on it, and of one of those: whatever is told of alone
is in the list, and is told of if the list has it. A node that is not there has no list, and the
lists have everything there is to tell of, once and in order. -/
theorem Session.Reachable.inventory_agrees {s : Session} (h : s.Reachable)
    (htables : s.contents.Complete) (node : Int) (address name : String) :
    ∃ told, s.contents.Tells node address name told ∧ told.Agree address name ∧
      (told.interfaces = none ↔ ¬ s.contents.HasNode node) ∧
      (∀ is ∈ told.interfaces, s.contents.ListsInterfaces node is) ∧
      ∀ xs ∈ told.services, s.contents.ListsServices node address xs := by
  have hdb := h.lawful
  obtain ⟨interfaces, hinterfaces, hmissing, hlists⟩ :=
    Database.exists_ipInterfaces hdb htables node
  obtain ⟨interface, hinterface, hsome, hrow⟩ := Database.exists_ipInterface htables node address
  obtain ⟨services, hservices, hiff, hlisted⟩ := Database.exists_services hdb htables hinterface
  obtain ⟨service, hservice, hfound, hnamed⟩ :=
    Database.exists_service hdb htables node address name
  have hlist {row place : Row} (hat : s.contents.ServiceAt node address row place) :
      ∃ xs ∈ services, Service.ofRows row place ∈ xs := by
    obtain ⟨xs, hxs⟩ := Option.isSome_iff_exists.mp (hiff.mpr (hsome.mpr ⟨place, hat.2.1⟩))
    exact ⟨xs, hxs, ((hlisted xs hxs).mem_iff _).mpr ⟨row, place, hat, rfl⟩⟩
  have haddress {row : Row} (hof : s.contents.InterfaceOf node row) :
      row.get "ip_address" = .text address ↔ (IpInterface.ofRow row).address = address :=
    Row.get_eq_text_iff (Database.exists_address hdb hof)
  refine ⟨⟨interfaces, interface, services, service⟩,
    ⟨hinterfaces, hinterface, hservices, hservice⟩,
    ⟨hiff, ⟨?_, ?_⟩, ?_, fun is his => ⟨?_, ?_⟩, ?_⟩, hmissing, hlists, hlisted⟩
  · intro hservice
    obtain ⟨⟨row, place⟩, hat, hname⟩ := hfound.mp hservice
    obtain ⟨xs, hxs, hx⟩ := hlist hat
    exact ⟨xs, hxs, _, hx, hname⟩
  · rintro ⟨xs, hxs, x, hx, hname⟩
    obtain ⟨row, place, hat, rfl⟩ := ((hlisted xs hxs).mem_iff x).mp hx
    exact hfound.mpr ⟨(row, place), hat, hname⟩
  · intro x hx
    obtain ⟨⟨row, place⟩, ⟨hat, hname⟩, rfl⟩ := hnamed x hx
    obtain ⟨xs, hxs, hmem⟩ := hlist hat
    exact ⟨xs, hxs, hmem, hname⟩
  · intro hinterface
    obtain ⟨row, hof, hat⟩ := hsome.mp hinterface
    exact ⟨_, ((hlists is his).mem_iff _).mpr ⟨row, hof, rfl⟩, (haddress hof).mp hat⟩
  · rintro ⟨i, hi, hat⟩
    obtain ⟨row, hof, rfl⟩ := ((hlists is his).mem_iff i).mp hi
    exact hsome.mpr ⟨row, hof, (haddress hof).mpr hat⟩
  · intro is his i hi
    obtain ⟨row, ⟨hof, hat⟩, rfl⟩ := hrow i hi
    exact ⟨((hlists is his).mem_iff _).mpr ⟨row, hof, rfl⟩, (haddress hof).mp hat⟩

/-! ## An address that is used three times -/

/-- The address is on two interfaces of a node, and on one of a node that is not there. -/
def sharedAddress : Session :=
  (Session.start 0).after
    [(0, .insert "nodes" [[("id", .integer 1), ("label", .text "core")]]),
     (0, .insert "ip_interfaces"
      [[("id", .integer 5), ("node_id", .integer 1), ("ip_address", .text "10.0.0.1")],
       [("id", .integer 6), ("node_id", .integer 1), ("ip_address", .text "10.0.0.1")],
       [("id", .integer 7), ("node_id", .integer 9), ("ip_address", .text "10.0.0.1")]]),
     (0, .insert "monitored_services"
      [[("id", .integer 11), ("ip_interface_id", .integer 6), ("service_name", .text "SSH")],
       [("id", .integer 12), ("ip_interface_id", .integer 5), ("service_name", .text "HTTP")],
       [("id", .integer 13), ("ip_interface_id", .integer 8), ("service_name", .text "SSH")]])]

theorem complete_sharedAddress : sharedAddress.contents.Complete := by
  intro table
  cases table <;> rfl

theorem not_hasNode_sharedAddress : ¬ sharedAddress.contents.HasNode 9 := by
  rintro ⟨row, hrow, hid⟩
  obtain rfl := List.mem_singleton.mp hrow
  exact absurd hid (by decide)

/-- The service on the second interface with the address is listed with those on the first. The
interface of the missing node is told of, but not in a list. -/
theorem inventory_sharedAddress :
    (∃ told, sharedAddress.contents.Tells 1 "10.0.0.1" "SSH" told ∧
      ∃ xs ∈ told.services, ∃ x ∈ xs, x.id = 11 ∧ x.name = "SSH") ∧
    ∃ told, sharedAddress.contents.Tells 9 "10.0.0.1" "SSH" told ∧ told.interfaces = none ∧
      told.services.isSome = true ∧ told.service = none := by
  have hreachable : sharedAddress.Reachable := (Session.Reachable.start 0).after _
  constructor
  · obtain ⟨told, htells, hagree, -⟩ :=
      hreachable.inventory_agrees complete_sharedAddress 1 "10.0.0.1" "SSH"
    obtain ⟨x, hx, hid⟩ : ∃ x, sharedAddress.contents.service 1 "10.0.0.1" "SSH" = .ok (some x) ∧
        x.id = 11 := ⟨_, rfl, rfl⟩
    have htold : told.service = some x := Except.ok.inj (htells.2.2.2.symm.trans hx)
    obtain ⟨xs, hxs, hmem, hname⟩ := hagree.service_mem x htold
    exact ⟨told, htells, xs, hxs, x, hmem, hid, hname⟩
  · obtain ⟨told, htells, hagree, hmissing, -⟩ :=
      hreachable.inventory_agrees complete_sharedAddress 9 "10.0.0.1" "SSH"
    obtain ⟨i, hi⟩ : ∃ i, sharedAddress.contents.ipInterface 9 "10.0.0.1" = .ok (some i) :=
      ⟨_, rfl⟩
    have hinterface : told.interface = some i := Except.ok.inj (htells.2.1.symm.trans hi)
    have hnone : sharedAddress.contents.service 9 "10.0.0.1" "SSH" = .ok none := rfl
    refine ⟨told, htells, hmissing.mpr not_hasNode_sharedAddress,
      hagree.services_iff.mpr ?_, Except.ok.inj (htells.2.2.2.symm.trans hnone)⟩
    rw [hinterface]
    rfl

end InventorySearch.Store
