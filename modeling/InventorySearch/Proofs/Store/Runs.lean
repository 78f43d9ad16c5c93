import InventorySearch.Proofs.Store.Opening

set_option autoImplicit false

/-!
# Runs of a session

What steps at given times come to, one after another, and what is replied to
them. Whatever the steps are, the table of schema versions keeps its constraints.
-/
namespace InventorySearch.Store

namespace Session

def after (s : Session) : List (Int × Step) → Session
  | [] => s
  | (now, st) :: rest => (s.step now st).2.after rest

def replies (s : Session) : List (Int × Step) → List Reply
  | [] => []
  | (now, st) :: rest => (s.step now st).1 :: (s.step now st).2.replies rest

variable (s : Session) (first second : List (Int × Step))

theorem after_append : s.after (first ++ second) = (s.after first).after second := by
  induction first generalizing s with
  | nil => rfl
  | cons p first ih => exact ih (s.step p.1 p.2).2

theorem replies_append :
    s.replies (first ++ second) = s.replies first ++ (s.after first).replies second := by
  induction first generalizing s with
  | nil => rfl
  | cons p first ih => exact congrArg (List.cons _) (ih (s.step p.1 p.2).2)

theorem run_eq (now : Int) (steps : List Step) :
    run now s steps = s.replies (steps.map fun st => (now, st)) := by
  induction steps generalizing s with
  | nil => rfl
  | cons st steps ih => exact congrArg (List.cons _) (ih (s.step now st).2)

theorem Reachable.after {s : Session} (h : s.Reachable) (steps : List (Int × Step)) :
    (s.after steps).Reachable := by
  induction steps generalizing s with
  | nil => exact h
  | cons p steps ih => exact ih (.step p.1 p.2 h)

theorem reachable_iff {s : Session} :
    s.Reachable ↔ ∃ now steps, s = (start now).after steps := by
  constructor
  · intro h
    induction h with
    | start now => exact ⟨now, [], rfl⟩
    | @step s now st _ ih =>
      obtain ⟨begun, steps, rfl⟩ := ih
      exact ⟨begun, steps ++ [(now, st)], (after_append _ steps [(now, st)]).symm⟩
  · rintro ⟨now, steps, rfl⟩
    exact (Reachable.start now).after steps

theorem keeps_after {P : Session → Prop} {s : Session} {steps : List (Int × Step)}
    (hstep : ∀ s, ∀ p ∈ steps, P s → P (s.step p.1 p.2).2) (h : P s) : P (s.after steps) := by
  induction steps generalizing s with
  | nil => exact h
  | cons p steps ih =>
    exact ih (fun s q hq => hstep s q (List.mem_cons_of_mem _ hq))
      (hstep s p List.mem_cons_self h)

end Session

/-! ## Versions -/

theorem ColumnType.exists_of_has_integer {v : Value} (h : ColumnType.integer.Has v) :
    ∃ n, fitsBits 32 n = true ∧ v = .integer n := by
  cases v with
  | integer n => exact ⟨n, h, rfl⟩
  | null => exact h.elim
  | text s => exact h.elim
  | moment n => exact h.elim

namespace Table

/-- The only row that the table of versions accepts is its first. -/
theorem tracked_of_addRow {rows after : List Row} {row : Row} (h : Tracked rows)
    (hrow : ∀ c ∈ schemaVersion.columns, c.Admits (row.get c.name))
    (hadd : schemaVersion.addRow rows row = .ok after) : Tracked after := by
  obtain ⟨rfl, hid, hapart⟩ := of_addRow hadd
  have hempty : rows = [] := by
    refine List.eq_nil_iff_forall_not_mem.mpr fun other hother => ?_
    have hdiffers := hapart ["id"] (by decide) other hother
    simp [agree, h.numbered other hother, hid rfl] at hdiffers
  rw [hempty, List.nil_append]
  rcases hrow (.mandatory .integer "version") (by decide) with ⟨_, hopt⟩ | htype
  · exact absurd hopt (by decide)
  · obtain ⟨v, hfits, hv⟩ := ColumnType.exists_of_has_integer htype
    exact tracked_singleton (hid rfl) hfits hv

end Table

namespace Database

section
variable {db after : Database} {table : Table} {assigned : List (String × Value)}

theorem rows?_insert_of_ne {other : Table} (h : db.insert table assigned = .ok after)
    (hne : other ≠ table) : after.rows? other = db.rows? other := by
  obtain ⟨rows, row, -, -, -, rfl⟩ := of_insert h
  exact rows?_set_of_ne db _ hne

theorem tracked_insert (h : Tracked (db.rowsOrNone .schemaVersion))
    (hinsert : db.insert table assigned = .ok after) :
    Tracked (after.rowsOrNone .schemaVersion) := by
  by_cases hne : Table.schemaVersion = table
  · subst hne
    obtain ⟨rows, row, hrows, hrow, hadd, rfl⟩ := of_insert hinsert
    rw [rowsOrNone_of_rows hrows] at h
    rw [rowsOrNone, rows?_set_self]
    exact Table.tracked_of_addRow h (Table.admits_of_fullRow hrow) hadd
  · rwa [rowsOrNone, rows?_insert_of_ne hinsert hne]

end

theorem tracked_opening {db after : Database} (h : Tracked (db.rowsOrNone .schemaVersion))
    {now : Int} (hopening : db.opening now = .ok after) :
    Tracked (after.rowsOrNone .schemaVersion) :=
  (brings_of_opening h hopening).tracked

end Database

theorem lookup_cons_eq (cell : String × Value) (cells : List (String × Value)) (column : String) :
    (cell :: cells).lookup column =
      if column = cell.1 then some cell.2 else cells.lookup column := by
  obtain ⟨name, v⟩ := cell
  rw [List.lookup_cons]
  by_cases h : column = name
  · simp [h]
  · simp [beq_eq_false_iff_ne.mpr h, h]

theorem lookup_version (version : Int) (cells : List (String × Value)) (column : String) :
    (cells.map fun cell =>
      if cell.1 = "version" then ("version", .integer version) else cell).lookup column =
      if column = "version" then (cells.lookup column).map fun _ => .integer version
      else cells.lookup column := by
  induction cells with
  | nil => simp
  | cons cell cells ih =>
    rw [List.map_cons, lookup_cons_eq, lookup_cons_eq, ih]
    by_cases hname : cell.1 = "version"
    · by_cases hcolumn : column = "version" <;> simp [hname, hcolumn]
    · by_cases hcolumn : column = cell.1 <;> simp [hname, hcolumn]

namespace Session

theorem tracked_withVersion {rows : List Row} (h : Tracked rows) {version : Int}
    (hfits : fitsBits 32 version = true) : Tracked (rows.map (withVersion version)) := by
  match rows with
  | [] => exact tracked_nil
  | row :: rest =>
    have hrow : row ∈ row :: rest := List.mem_cons_self
    have hid := h.numbered row hrow
    obtain ⟨old, -, hold⟩ := h.versioned row hrow
    have hcells : withVersion version row = ⟨row.cells.map fun cell =>
        if cell.1 = "version" then ("version", .integer version) else cell⟩ :=
      if_pos (beq_iff_eq.mpr hid)
    have hversion : (withVersion version row).get "version" = .integer version := by
      cases hlookup : row.cells.lookup "version" with
      | none => rw [Row.get, hlookup] at hold; cases hold
      | some v => simp [hcells, Row.get, lookup_version, hlookup]
    have hother : (withVersion version row).get "id" = row.get "id" := by
      simp [hcells, Row.get, lookup_version]
    rw [h.eq_singleton hrow]
    exact tracked_singleton (hother.trans hid) hfits hversion

theorem Changes.tracked {db after : Database} {st : Step}
    (h : Tracked (db.rowsOrNone .schemaVersion)) (hchanges : Changes db st after) :
    Tracked (after.rowsOrNone .schemaVersion) := by
  cases hchanges with
  | nothing => exact h
  | loaded hload =>
    exact Database.keeps_load (P := fun db => Tracked (db.rowsOrNone .schemaVersion))
      (fun h hinsert => Database.tracked_insert h hinsert) h hload
  | inserted name table rows =>
    exact Database.keeps_insertAll (P := fun db => Tracked (db.rowsOrNone .schemaVersion))
      (fun h hinsert => Database.tracked_insert h hinsert) h table rows
  | @cleared _ table _ =>
    by_cases hne : Table.schemaVersion = table
    · rw [Database.rowsOrNone, hne, Database.rows?_set_self]
      exact tracked_nil
    · rwa [Database.rowsOrNone, Database.rows?_set_of_ne db _ hne]
  | versionSet hfits hrows =>
    rw [Database.rowsOrNone_of_rows hrows] at h
    rw [Database.rowsOrNone, Database.rows?_set_self]
    exact tracked_withVersion h hfits
  | versionDeleted hrows =>
    rw [Database.rowsOrNone_of_rows hrows] at h
    rw [Database.rowsOrNone, Database.rows?_set_self]
    exact h.sublist List.filter_sublist
  | servicesDropped => exact h

theorem Reachable.tracked {s : Session} (h : s.Reachable) :
    Tracked (s.contents.rowsOrNone .schemaVersion) := by
  induction h with
  | start now =>
    rw [start_eq]
    have hempty : Tracked (Database.empty.rowsOrNone .schemaVersion) := tracked_nil
    exact Database.tracked_opening hempty (rfl : Database.empty.opening now = .ok _)
  | @step s now st _ ih =>
    rcases s.step_contents now st with hchanges | ⟨-, hopening⟩
    · exact hchanges.tracked ih
    · exact Database.tracked_opening ih hopening

end Session
end InventorySearch.Store
