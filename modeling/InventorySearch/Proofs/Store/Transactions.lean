import InventorySearch.Proofs.Outcome
import InventorySearch.Store.Sample

set_option autoImplicit false

/-!
# What work leaves in a file

A transaction is all or nothing, provided that its work begins and ends none of
its own. With this, opening a file and loading the sample are functions of what
the file holds.
-/
namespace InventorySearch.Store

namespace Database

def advance (db : Database) (now version : Int) (description : String) : Database :=
  db.createTables.recordVersion now version description

/-- The contents that a file has once it is opened. -/
def opening (db : Database) (now : Int) : Except Failure Database :=
  match db.storedVersion? with
  | none => .ok (db.advance now currentVersion "Initial schema")
  | some version =>
    if currentVersion < version then .error (newerSchema version)
    else if version = currentVersion then .ok db
    else if 0 ≤ version then .ok (db.advance now currentVersion "Add monitored_services")
    else .error (noMigration (version + 1))

theorem advance_advance (db : Database) (now earlier version : Int) (first second : String) :
    (db.advance now earlier first).advance now version second = db.advance now version second := by
  ext table : 2
  by_cases h : table = .schemaVersion
  · subst h
    simp [advance, recordVersion, createTables, rowsOrNone, List.filter_append, Row.get]
  · simp [advance, recordVersion, createTables, rowsOrNone, set, h]

/-- A file that can be opened is left as it is, or brought to the current version in one go. -/
theorem of_opening {db after : Database} {now : Int} (h : db.opening now = .ok after) :
    db.storedVersion? = some currentVersion ∧ after = db ∨
      db.storedVersion? ≠ some currentVersion ∧
        ∃ description, after = db.advance now currentVersion description := by
  rw [opening] at h
  cases hstored : db.storedVersion? with
  | none =>
    simp only [hstored] at h
    exact .inr ⟨by simp, _, (Except.ok.inj h).symm⟩
  | some version =>
    simp only [hstored] at h
    by_cases hnew : currentVersion < version
    · rw [if_pos hnew] at h
      cases h
    · rw [if_neg hnew] at h
      by_cases hcurrent : version = currentVersion
      · rw [if_pos hcurrent] at h
        exact .inl ⟨congrArg some hcurrent, (Except.ok.inj h).symm⟩
      · rw [if_neg hcurrent] at h
        refine .inr ⟨fun heq => hcurrent (Option.some.inj heq), ?_⟩
        by_cases hold : 0 ≤ version
        · rw [if_pos hold] at h
          exact ⟨_, (Except.ok.inj h).symm⟩
        · rw [if_neg hold] at h
          cases h

end Database

namespace Work

variable {α β : Type}

/-! ## Statements -/

theorem on_bind (work : Work α) (next : α → Work β) (c : Connection) :
    (work >>= next).on c =
      match work.on c with
      | (.ok a, left) => (next a).on left
      | (.error failure, left) => (.error failure, left) := by
  unfold on
  rw [ExceptT.run_bind, StateT.run_bind]
  rcases StateT.run work.run c with ⟨_ | _, left⟩ <;> rfl

theorem on_statement (change : Database → Except Fault Database) (c : Connection) :
    (statement change).on c =
      match change c.contents with
      | .ok after => (.ok (), { c with contents := after })
      | .error fault => (.error (.database fault), c) := by
  change ((match change c.contents with
    | .ok after => set { c with contents := after }
    | .error fault => throw (.database fault) : Work Unit).on c) = _
  cases change c.contents <;> rfl

theorem on_query (ask : Database → Except Fault α) (c : Connection) :
    (query ask).on c =
      match ask c.contents with
      | .ok a => (.ok a, c)
      | .error fault => (.error (.database fault), c) := by
  change ((match ask c.contents with
    | .ok a => pure a
    | .error fault => throw (.database fault) : Work α).on c) = _
  cases ask c.contents <;> rfl

/-! ## Transactions -/

def IsPlain (work : Work α) : Prop := ∀ c, (work.on c).2.begun? = c.begun?

theorem isPlain_throw (failure : Failure) : IsPlain (throw failure : Work α) := fun _ => rfl

theorem isPlain_statement (change : Database → Except Fault Database) :
    IsPlain (statement change) := by
  intro c
  rw [on_statement]
  split <;> rfl

theorem IsPlain.bind {work : Work α} {next : α → Work β} (h : work.IsPlain)
    (hnext : ∀ a, (next a).IsPlain) : (work >>= next).IsPlain := by
  intro c
  have hwork := h c
  rw [on_bind]
  split
  · next a left heq => rw [hnext a left, ← hwork, heq]
  · next heq => rw [← hwork, heq]

theorem transaction_on (work : Work α) (c : Connection) :
    (transaction work).on c =
      match work.on c.begin with
      | (.ok a, left) => (.ok a, left.commit)
      | (.error failure, left) => (.error failure, left.rollback) := by
  unfold transaction on
  rw [ExceptT.run_mk, StateT.run_bind, StateT.run_modify]
  change StateT.run (work.run >>= _) c.begin = _
  rw [StateT.run_bind]
  rcases StateT.run work.run c.begin with ⟨_ | _, left⟩ <;> rfl

/-- A transaction is done as a whole or leaves the file as it was. -/
theorem transaction_on_file {work : Work α} (h : work.IsPlain) (db : Database) :
    (transaction work).on (.ofContents db) =
      match work.on (Connection.ofContents db).begin with
      | (.ok a, left) => (.ok a, .ofContents left.contents)
      | (.error failure, _) => (.error failure, .ofContents db) := by
  have hbegun := h (Connection.ofContents db).begin
  rw [transaction_on]
  generalize work.on (Connection.ofContents db).begin = done at hbegun
  rcases done with ⟨failure | a, left⟩
  · have hdb : left.committed = db := congrArg (fun saved => saved.getD left.contents) hbegun
    exact congrArg (fun kept => (Except.error failure, Connection.mk kept none)) hdb
  · rfl

/-! ## Opening -/

theorem apply_on (now version : Int) (description : String) (c : Connection) :
    (apply now version description).on c =
      (.ok (), { c with contents := c.contents.advance now version description }) := rfl

theorem apply_transaction_on (now version : Int) (description : String) (db : Database) :
    (transaction (apply now version description)).on (.ofContents db) =
      (.ok (), .ofContents (db.advance now version description)) := by
  rw [transaction_on_file fun c => rfl, apply_on]
  rfl

theorem migrateTo_on (now version : Int) (db : Database) :
    (migrateTo now version).on (.ofContents db) =
      match migration? version with
      | some description => (.ok (), .ofContents (db.advance now version description))
      | none => (.error (noMigration version), .ofContents db) := by
  rw [migrateTo]
  cases migration? version with
  | some description => exact apply_transaction_on now version description db
  | none => exact transaction_on_file (isPlain_throw _) db

theorem migration?_eq_none {version : Int} (h : version < 1) : migration? version = none := by
  unfold migration?
  split
  · omega
  · omega
  · rfl

/-- Every step records its version over that of the step before, so the last one shows. -/
theorem upgrade_on (now version : Int) (db : Database) (h : version ≤ currentVersion) :
    (upgrade now version).on (.ofContents db) =
      if version = currentVersion then (.ok (), .ofContents db)
      else if 0 ≤ version then
        (.ok (), .ofContents (db.advance now currentVersion "Add monitored_services"))
      else (.error (noMigration (version + 1)), .ofContents db) := by
  induction version using upgrade.induct generalizing db with
  | case1 version hlt ih =>
    rw [upgrade, if_pos hlt, on_bind, migrateTo_on, if_neg (Int.ne_of_lt hlt)]
    by_cases hfirst : 0 ≤ version
    · rw [if_pos hfirst]
      obtain rfl | rfl : version = 0 ∨ version = 1 := by
        rw [currentVersion] at hlt
        omega
      · have hnext := ih (db.advance now 1 "Initial schema") (by decide)
        rw [Database.advance_advance] at hnext
        exact hnext
      · exact ih (db.advance now 2 "Add monitored_services") (by decide)
    · rw [migration?_eq_none (by omega), if_neg hfirst]
  | case2 version hge =>
    rw [upgrade, if_neg hge, if_pos (by omega)]
    rfl

theorem migrate_onFile (now : Int) (db : Database) :
    (migrate now).onFile db =
      match db.opening now with
      | .ok after => (.ok (), after)
      | .error failure => (.error failure, db) := by
  have hcontents : (Connection.ofContents db).contents = db := rfl
  rw [onFile, migrate, on_bind, on_query, hcontents, Database.opening]
  cases db.storedVersion? with
  | none =>
    simp only [apply_transaction_on]
    rfl
  | some version =>
    by_cases hnew : currentVersion < version
    · simp only [if_pos hnew]
      rfl
    · simp only [if_neg hnew, upgrade_on now version db (by omega)]
      by_cases hcurrent : version = currentVersion
      · simp only [if_pos hcurrent]
        rfl
      · by_cases hold : 0 ≤ version
        · simp only [if_neg hcurrent, if_pos hold]
          rfl
        · simp only [if_neg hcurrent, if_neg hold]
          rfl

/-! ## Loading the sample -/

theorem isPlain_forM {f : α → Work Unit} (h : ∀ a, (f a).IsPlain) (as : List α) :
    IsPlain (as.forM f) := by
  induction as with
  | nil => exact fun _ => rfl
  | cons a as ih => exact (h a).bind fun _ => ih

theorem forM_statement_on (change : Database → α → Except Fault Database) (as : List α)
    (c : Connection) : ∃ left,
    (as.forM fun a => statement fun db => change db a).on c =
      match as.foldlM change c.contents with
      | .ok after => (.ok (), { c with contents := after })
      | .error fault => (.error (.database fault), left) := by
  induction as generalizing c with
  | nil => exact ⟨c, rfl⟩
  | cons a as ih =>
    have hcons : (a :: as).forM (fun a => statement fun db => change db a) =
        (statement fun db => change db a) >>= fun _ =>
          as.forM fun a => statement fun db => change db a := rfl
    rw [List.foldlM_cons, hcons, on_bind, on_statement]
    cases change c.contents a with
    | error fault => exact ⟨c, rfl⟩
    | ok next => exact ih { c with contents := next }

theorem statements_on_file (change : Database → α → Except Fault Database) (as : List α)
    (db : Database) :
    (transaction (as.forM fun a => statement fun db => change db a)).on (.ofContents db) =
      match as.foldlM change db with
      | .ok after => (.ok (), .ofContents after)
      | .error fault => (.error (.database fault), .ofContents db) := by
  have hplain := isPlain_forM (fun a => isPlain_statement fun db => change db a) as
  obtain ⟨left, hleft⟩ := forM_statement_on change as (Connection.ofContents db).begin
  have hcontents : (Connection.ofContents db).begin.contents = db := rfl
  rw [transaction_on_file hplain, hleft, hcontents]
  cases as.foldlM change db <;> rfl

/-- Loading adds the sample to a file without nodes, or meets a fault and leaves the file. -/
theorem seed_onFile (db : Database) :
    seed.onFile db =
      match db.rows .nodes with
      | .error fault => (.error (.database fault), db)
      | .ok nodes =>
        if nodes.isEmpty then
          match sample.foldlM Database.insertBatch db with
          | .ok after => (.ok true, after)
          | .error fault => (.error (.database fault), db)
        else (.ok false, db) := by
  have hcontents : (Connection.ofContents db).contents = db := rfl
  rw [onFile, seed, on_bind, on_query, hcontents]
  cases db.rows .nodes with
  | error fault => rfl
  | ok nodes =>
    by_cases hnodes : nodes.isEmpty = true
    · simp only [if_pos hnodes, on_bind, statements_on_file]
      cases sample.foldlM Database.insertBatch db <;> rfl
    · simp only [if_neg hnodes]
      rfl

end Work
end InventorySearch.Store
