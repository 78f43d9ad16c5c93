import InventorySearch.Proofs.Store.Insertion
import InventorySearch.Store.Session

set_option autoImplicit false

/-!
# Reachable stores keep the constraints

A store that was opened on a new file and then used in whatever way, at whatever
times, is lawful: every step keeps it so.
-/
namespace InventorySearch.Store

namespace Database

/-! ## Migrations -/

theorem lawful_empty : Lawful Database.empty.rowsOrNone := fun table _ => table.lawful_nil

theorem lawful_advance {db : Database} (h : Lawful db.rowsOrNone) (now version : Int)
    (description : String) : Lawful (db.advance now version description).rowsOrNone := by
  have hcreated : Lawful db.createTables.rowsOrNone := h
  exact lawful_set hcreated fun hne => absurd rfl hne

theorem lawful_opening {db after : Database} (h : Lawful db.rowsOrNone) {now : Int}
    (hopening : db.opening now = .ok after) : Lawful after.rowsOrNone := by
  rcases of_opening hopening with ⟨-, rfl⟩ | ⟨-, description, rfl⟩
  · exact h
  · exact lawful_advance h _ _ _

end Database

namespace Session

/-- Being what a session can come to. -/
inductive Reachable : Session → Prop
  | start (now : Int) : Reachable (.start now)
  | step {s : Session} (now : Int) (st : Step) (h : Reachable s) : Reachable (s.step now st).2

/-! ## Steps -/

/-- All that a step can make of the contents of an open store. -/
inductive Changes (db : Database) : Step → Database → Prop
  | nothing (st : Step) : Changes db st db
  | loaded {after : Database} (h : sample.foldlM Database.insertBatch db = .ok after) :
      Changes db .seed after
  | inserted (name : String) (table : Table) (rows : List (List (String × Value))) :
      Changes db (.insert name rows) (db.insertAll table rows).1
  | cleared {name : String} {table : Table} (h : Database.table name = .ok table) :
      Changes db (.clear name) (db.set table (some []))
  | versionSet {version : Int} (h : fitsBits 32 version = true) {rows : List Row}
      (hrows : db.rows .schemaVersion = .ok rows) :
      Changes db (.setVersion version)
        (db.set .schemaVersion (some (rows.map (withVersion version))))
  | versionDeleted {rows : List Row} (hrows : db.rows .schemaVersion = .ok rows) :
      Changes db .deleteVersion
        (db.set .schemaVersion (some (rows.filter fun row => !isVersionRow row)))
  | servicesDropped : Changes db .dropServices (db.set .monitoredServices none)

theorem changes_statement {db : Database} {st : Step} {result : Except Fault (Reply × Database)}
    (h : ∀ after, result = .ok after → Changes db st after.2) :
    Changes db st (statement db result).2 := by
  cases result with
  | ok after => exact h after rfl
  | error fault => exact .nothing st

theorem changes_changeRows {db : Database} {st : Step} {table : Table}
    {f : List Row → Option (List Row)}
    (h : ∀ rows, db.rows table = .ok rows → Changes db st (db.set table (f rows)))
    {after : Reply × Database} (hchange : changeRows db table f = .ok after) :
    Changes db st after.2 := by
  obtain ⟨rows, hrows, hchange⟩ := Except.exists_of_bind_eq_ok hchange
  obtain rfl := Except.ok.inj hchange
  exact h rows hrows

theorem changes_runOpen (db : Database) (st : Step) : Changes db st (runOpen db st).2 := by
  cases st with
  | call call => exact .nothing _
  | seed =>
    rw [runOpen, Work.seed_onFile]
    cases db.rows .nodes with
    | error fault => exact .nothing _
    | ok nodes =>
      by_cases hnodes : nodes.isEmpty = true
      · simp only [if_pos hnodes]
        cases hload : sample.foldlM Database.insertBatch db with
        | ok after => exact .loaded hload
        | error fault => exact .nothing _
      · simp only [if_neg hnodes]
        exact .nothing _
  | checkpoint => exact .nothing _
  | close => exact .nothing _
  | reopen => exact .nothing _
  | shutdown => exact .nothing _
  | insert name rows =>
    rw [runOpen]
    split
    · exact .nothing _
    · next table _ =>
      have hinserted : Changes db (.insert name rows) _ := .inserted name table rows
      split
      · next heq => rwa [heq] at hinserted
      · next heq => rwa [heq] at hinserted
  | count name =>
    refine changes_statement fun after hafter => ?_
    obtain ⟨table, -, hafter⟩ := Except.exists_of_bind_eq_ok hafter
    obtain ⟨rows, -, hafter⟩ := Except.exists_of_bind_eq_ok hafter
    exact Except.ok.inj hafter ▸ .nothing _
  | clear name =>
    refine changes_statement fun after hafter => ?_
    obtain ⟨table, htable, hafter⟩ := Except.exists_of_bind_eq_ok hafter
    exact changes_changeRows (fun _ _ => .cleared htable) hafter
  | version =>
    refine changes_statement fun after hafter => ?_
    obtain ⟨rows, -, hafter⟩ := Except.exists_of_bind_eq_ok hafter
    split at hafter
    · exact Except.ok.inj hafter ▸ .nothing _
    · cases hafter
  | setVersion version =>
    refine changes_statement fun after hafter => ?_
    split at hafter
    · next hfits => exact changes_changeRows (fun _ hrows => .versionSet hfits hrows) hafter
    · cases hafter
  | deleteVersion =>
    exact changes_statement fun after hafter =>
      changes_changeRows (fun _ hrows => .versionDeleted hrows) hafter
  | dropServices =>
    exact changes_statement fun after hafter =>
      changes_changeRows (fun _ _ => .servicesDropped) hafter

theorem start_eq (now : Int) :
    start now = ⟨Database.empty.advance now currentVersion "Initial schema", .opened⟩ := by
  rw [start, Work.migrate_onFile]
  rfl

theorem close_contents (s : Session) : s.close.contents = s.contents := by
  unfold close
  split <;> rfl

theorem reopen_eq (s : Session) (now : Int) :
    s.reopen now =
      match s.contents.opening now with
      | .ok after => (.done, ⟨after, .opened⟩)
      | .error failure =>
        (.failed failure failure.serviceMessage, ⟨s.contents, .absent⟩) := by
  rw [reopen, Work.migrate_onFile, close_contents]
  cases s.contents.opening now <;> rfl

theorem connected_eq_ok {s : Session} {db : Database} (h : s.connected = .ok db) :
    s.contents = db := by
  unfold connected at h
  split at h
  · exact Except.ok.inj h
  · cases h

/-- Contents change as an open store changes them, or by being opened. -/
theorem step_contents (s : Session) (now : Int) (st : Step) :
    Changes s.contents st (s.step now st).2.contents ∨
      st = .reopen ∧ s.contents.opening now = .ok (s.step now st).2.contents := by
  unfold step
  split
  · rw [reopen_eq]
    cases hopening : s.contents.opening now with
    | ok after => exact .inr ⟨rfl, rfl⟩
    | error failure => exact .inl (.nothing _)
  · exact .inl (.nothing _)
  · exact .inl (.nothing _)
  · exact .inl (close_contents s ▸ .nothing _)
  · exact .inl (close_contents s ▸ .nothing _)
  · exact .inl (.nothing _)
  · refine .inl ?_
    cases hconnected : s.connected with
    | error failure => exact .nothing _
    | ok db => exact connected_eq_ok hconnected ▸ changes_runOpen _ _

/-! ## Lawful stores -/

theorem Changes.lawful {db after : Database} {st : Step} (h : Lawful db.rowsOrNone)
    (hchanges : Changes db st after) : Lawful after.rowsOrNone := by
  cases hchanges with
  | nothing => exact h
  | loaded hload =>
    exact Database.keeps_load (P := fun db => Lawful db.rowsOrNone)
      (fun h hinsert => Database.lawful_insert h hinsert) h hload
  | inserted name table rows =>
    exact Database.keeps_insertAll (P := fun db => Lawful db.rowsOrNone)
      (fun h hinsert => Database.lawful_insert h hinsert) h table rows
  | @cleared _ table _ => exact Database.lawful_set h fun _ => table.lawful_nil
  | versionSet _ _ => exact Database.lawful_set h fun hne => absurd rfl hne
  | versionDeleted _ => exact Database.lawful_set h fun hne => absurd rfl hne
  | servicesDropped => exact Database.lawful_set h fun _ => Table.lawful_nil _

theorem lawful_step {s : Session} (h : Lawful s.contents.rowsOrNone) (now : Int) (st : Step) :
    Lawful (s.step now st).2.contents.rowsOrNone := by
  rcases s.step_contents now st with hchanges | ⟨-, hopening⟩
  · exact hchanges.lawful h
  · exact Database.lawful_opening h hopening

theorem Reachable.lawful {s : Session} (h : s.Reachable) : Lawful s.contents.rowsOrNone := by
  induction h with
  | start now =>
    rw [start_eq]
    exact Database.lawful_advance Database.lawful_empty _ _ _
  | step now st _ ih => exact lawful_step ih now st

end Session
end InventorySearch.Store
