import InventorySearch.Proofs.Store.Reachability

set_option autoImplicit false

/-!
# Opening a file

What becomes of a file when it is opened depends on the version that it says.
Either it is brought to the current version without loss, or it is refused and
stays as it was, however often it is tried.
-/
namespace InventorySearch.Store

/-- What the constraints on the table of schema versions come to. -/
structure Tracked (rows : List Row) : Prop where
  single : rows.length ≤ 1
  numbered : ∀ row ∈ rows, row.get "id" = .integer 1
  versioned : ∀ row ∈ rows, ∃ v, fitsBits 32 v = true ∧ row.get "version" = .integer v

theorem tracked_nil : Tracked [] := ⟨Nat.zero_le 1, by simp, by simp⟩

theorem tracked_singleton {row : Row} {version : Int} (hid : row.get "id" = .integer 1)
    (hfits : fitsBits 32 version = true) (hv : row.get "version" = .integer version) :
    Tracked [row] := by
  refine ⟨Nat.le_refl 1, fun other hother => ?_, fun other hother => ⟨version, hfits, ?_⟩⟩
  · rwa [List.mem_singleton.mp hother]
  · rwa [List.mem_singleton.mp hother]

theorem Tracked.eq_singleton {rows : List Row} (h : Tracked rows) {row : Row} (hrow : row ∈ rows) :
    rows = [row] := by
  obtain ⟨other, rfl⟩ := List.length_eq_one_iff.mp
    (Nat.le_antisymm h.single (List.length_pos_of_mem hrow))
  rw [List.mem_singleton.mp hrow]

theorem Tracked.sublist {rows kept : List Row} (h : Tracked rows) (hsub : kept.Sublist rows) :
    Tracked kept :=
  ⟨Nat.le_trans hsub.length_le h.single, fun row hrow => h.numbered row (hsub.subset hrow),
    fun row hrow => h.versioned row (hsub.subset hrow)⟩

namespace Database

def SaysVersion (db : Database) (version : Int) : Prop :=
  ∃ row ∈ db.rowsOrNone .schemaVersion,
    row.get "id" = .integer 1 ∧ row.get "version" = .integer version

section
variable {db : Database} (h : Tracked (db.rowsOrNone .schemaVersion))
include h

theorem storedVersion?_eq_some_iff {version : Int} :
    db.storedVersion? = some version ↔ db.SaysVersion version := by
  rw [storedVersion?, versionRow?, SaysVersion]
  match hrows : db.rowsOrNone .schemaVersion with
  | [] => simp
  | row :: rest =>
    have hrow : row ∈ db.rowsOrNone .schemaVersion := hrows ▸ List.mem_cons_self
    obtain ⟨v, -, hv⟩ := h.versioned row hrow
    have hrest := hrows ▸ h.eq_singleton hrow
    simp [hrest, h.numbered row hrow, hv, Value.integer?]

theorem exists_row_of_saysVersion {version : Int} (hsaid : db.SaysVersion version) :
    ∃ row, db.rows? .schemaVersion = some [row] ∧ row.get "id" = .integer 1 ∧
      row.get "version" = .integer version := by
  obtain ⟨row, hrow, hid, hv⟩ := hsaid
  refine ⟨row, ?_, hid, hv⟩
  have hrows := h.eq_singleton hrow
  rw [rowsOrNone] at hrow hrows
  cases hsome : db.rows? .schemaVersion with
  | none => simp [hsome] at hrow
  | some rows => rw [hsome] at hrows; exact congrArg some hrows

theorem exists_row_advance (now version : Int) (description : String) :
    ∃ row, (db.advance now version description).rows? .schemaVersion = some [row] ∧
      row.get "id" = .integer 1 ∧ row.get "version" = .integer version := by
  have hothers : (db.createTables.rowsOrNone .schemaVersion).filter
      (fun row => row.get "id" != .integer 1) = [] :=
    List.filter_eq_nil_iff.mpr fun row hrow => by simp [h.numbered row hrow]
  rw [advance, recordVersion, rows?_set_self, hothers, List.nil_append]
  exact ⟨_, rfl, rfl, rfl⟩

end

section
variable {db : Database}

theorem rows?_advance_of_ne (now version : Int) (description : String) {table : Table}
    (h : table ≠ .schemaVersion) :
    (db.advance now version description).rows? table = some (db.rowsOrNone table) :=
  rows?_set_of_ne db.createTables _ h

/-! ## Which files are opened -/

theorem opening_current {now : Int} (h : db.storedVersion? = some currentVersion) :
    db.opening now = .ok db := by
  rw [opening, h]
  rfl

/-- Opening fails for the version alone, and names it or the step that is missing. -/
theorem opening_eq_error_iff {now : Int} {failure : Failure} :
    db.opening now = .error failure ↔
      ∃ version, db.storedVersion? = some version ∧
        (currentVersion < version ∧ failure = newerSchema version ∨
          version < 0 ∧ failure = noMigration (version + 1)) := by
  rw [opening]
  cases db.storedVersion? with
  | none => simp
  | some version =>
    by_cases hnew : currentVersion < version
    · have hnot : ¬ version < 0 := by
        rw [currentVersion] at hnew
        omega
      simp [hnew, hnot, eq_comm]
    · by_cases hcurrent : version = currentVersion
      · have hnot : ¬ currentVersion < 0 := by decide
        simp [hcurrent, hnot]
      · by_cases hold : 0 ≤ version
        · simp [hnew, hcurrent, hold, Int.not_lt.mpr hold]
        · simp [hnew, hcurrent, hold, Int.not_le.mp hold, eq_comm]

theorem exists_opening_iff (db : Database) (now : Int) :
    (∃ after, db.opening now = .ok after) ↔
      ∀ version, db.storedVersion? = some version → 0 ≤ version ∧ version ≤ currentVersion := by
  constructor
  · rintro ⟨after, hopening⟩ version hstored
    have hfails (failure : Failure) : ¬ (currentVersion < version ∧ failure = newerSchema version ∨
        version < 0 ∧ failure = noMigration (version + 1)) := fun hcause => by
      rw [opening_eq_error_iff.mpr ⟨version, hstored, hcause⟩] at hopening
      cases hopening
    refine ⟨Int.not_lt.mp fun hold => hfails _ (.inr ⟨hold, rfl⟩),
      Int.not_lt.mp fun hnew => hfails _ (.inl ⟨hnew, rfl⟩)⟩
  · intro hrange
    cases hopening : db.opening now with
    | ok after => exact ⟨after, rfl⟩
    | error failure =>
      obtain ⟨version, hstored, hcause⟩ := opening_eq_error_iff.mp hopening
      obtain ⟨hlow, hhigh⟩ := hrange version hstored
      rcases hcause with ⟨hnew, -⟩ | ⟨hold, -⟩
      · exact absurd hnew (Int.not_lt.mpr hhigh)
      · exact absurd hold (Int.not_lt.mpr hlow)

/-- Being what opening makes of contents: at the current version, and without loss. -/
structure Brings (before after : Database) : Prop where
  version : ∃ row, after.rows? .schemaVersion = some [row] ∧ row.get "id" = .integer 1 ∧
    row.get "version" = .integer 2
  kept : before.SaysVersion 2 → after = before
  created : ¬ before.SaysVersion 2 → ∀ table, table ≠ .schemaVersion →
    after.rows? table = some (before.rowsOrNone table)

theorem brings_of_opening {after : Database} {now : Int}
    (h : Tracked (db.rowsOrNone .schemaVersion)) (hopening : db.opening now = .ok after) :
    db.Brings after := by
  rcases of_opening hopening with ⟨hstored, rfl⟩ | ⟨hstored, description, rfl⟩
  · have hsaid := (storedVersion?_eq_some_iff h).mp hstored
    exact ⟨exists_row_of_saysVersion h hsaid, fun _ => rfl, fun hnot => absurd hsaid hnot⟩
  · have hsaid := mt (storedVersion?_eq_some_iff h).mpr hstored
    exact ⟨exists_row_advance h now currentVersion description,
      fun hcurrent => absurd hcurrent hsaid,
      fun _ table hne => rows?_advance_of_ne now currentVersion description hne⟩

theorem Brings.tracked {before : Database} (h : before.Brings db) :
    Tracked (db.rowsOrNone .schemaVersion) := by
  obtain ⟨row, hrow, hid, hv⟩ := h.version
  rw [rowsOrNone, hrow]
  exact tracked_singleton hid (by decide) hv

theorem Brings.opening_eq {before : Database} (h : before.Brings db) (now : Int) :
    db.opening now = .ok db := by
  obtain ⟨row, hrow, hid, hv⟩ := h.version
  refine opening_current ((storedVersion?_eq_some_iff h.tracked).mpr ⟨row, ?_, hid, hv⟩)
  rw [rowsOrNone, hrow]
  exact List.mem_singleton_self row

end
end Database

namespace Session

/-- A file is opened if it says no version or one up to the current. It is then at the current
version, without loss, and opening it again changes nothing. Any other file is refused for its
version, now and later, and nothing of it changes. -/
theorem reopen_outcome {s : Session} (h : Tracked (s.contents.rowsOrNone .schemaVersion))
    (now : Int) :
    ((s.reopen now).1 = .done ↔
      ∀ version, s.contents.SaysVersion version → 0 ≤ version ∧ version ≤ 2) ∧
    ((s.reopen now).1 = .done →
      (s.reopen now).2.status = .opened ∧ s.contents.Brings (s.reopen now).2.contents ∧
        ∀ later, (s.reopen now).2.reopen later = (.done, (s.reopen now).2)) ∧
    ((s.reopen now).1 ≠ .done →
      ∃ version failure, s.contents.SaysVersion version ∧
        (2 < version ∧ failure = newerSchema version ∨
          version < 0 ∧ failure = noMigration (version + 1)) ∧
        s.reopen now = (.failed failure failure.serviceMessage, ⟨s.contents, .absent⟩) ∧
        ∀ later, (s.reopen now).2.reopen later = s.reopen now) := by
  have hopens := s.contents.exists_opening_iff now
  simp only [Database.storedVersion?_eq_some_iff h] at hopens
  cases hopening : s.contents.opening now with
  | ok after =>
    have hbrings := Database.brings_of_opening h hopening
    have hnow : s.reopen now = (.done, ⟨after, .opened⟩) := by rw [reopen_eq, hopening]
    rw [hnow]
    refine ⟨⟨fun _ => hopens.mp ⟨after, hopening⟩, fun _ => rfl⟩,
      fun _ => ⟨rfl, hbrings, fun later => ?_⟩, fun hfailed => absurd rfl hfailed⟩
    rw [reopen_eq]
    simp only [hbrings.opening_eq later]
  | error failure =>
    obtain ⟨version, hstored, hcause⟩ := Database.opening_eq_error_iff.mp hopening
    have hfailed (status : Status) (later : Int) : reopen ⟨s.contents, status⟩ later =
        (.failed failure failure.serviceMessage, ⟨s.contents, .absent⟩) := by
      rw [reopen_eq, Database.opening_eq_error_iff.mpr ⟨version, hstored, hcause⟩]
    rw [hfailed s.status now]
    refine ⟨⟨fun hdone => (nomatch hdone), fun hrange => ?_⟩, fun hdone => (nomatch hdone),
      fun _ => ⟨version, failure, (Database.storedVersion?_eq_some_iff h).mp hstored, hcause, rfl,
        hfailed .absent⟩⟩
    obtain ⟨after, hafter⟩ := hopens.mpr hrange
    rw [hopening] at hafter
    cases hafter

/-! ## A file without services -/

/-- A file with a node and without the table of services, which says the version. -/
def withoutServices (version : Int) : Session :=
  let node := [("id", .integer 1), ("label", .text "core")]
  let inserted := ((start 0).step 0 (.insert "nodes" [node])).2
  ((inserted.step 0 .dropServices).2.step 0 (.setVersion version)).2

theorem rows_withoutServices {version : Int} (h : fitsBits 32 version = true) :
    (withoutServices version).contents.rowsOrNone .schemaVersion =
      [⟨[("id", .integer 1), ("version", .integer version), ("applied_at", .integer 0),
        ("description", .text "Initial schema")]⟩] := by
  change (runOpen _ (.setVersion version)).2.rowsOrNone .schemaVersion = _
  rw [runOpen, if_pos h]
  rfl

theorem tracked_withoutServices {version : Int} (h : fitsBits 32 version = true) :
    Tracked ((withoutServices version).contents.rowsOrNone .schemaVersion) := by
  rw [rows_withoutServices h]
  exact tracked_singleton rfl h rfl

theorem says_withoutServices {version said : Int} (h : fitsBits 32 version = true) :
    (withoutServices version).contents.SaysVersion said ↔ version = said := by
  rw [Database.SaysVersion, rows_withoutServices h]
  constructor
  · rintro ⟨row, hrow, -, hv⟩
    rw [List.mem_singleton.mp hrow] at hv
    exact Value.integer.inj hv
  · rintro rfl
    exact ⟨_, List.mem_singleton_self _, rfl, rfl⟩

theorem reopen_withoutServices :
    ((withoutServices 0).reopen 1).1 = .done ∧
      ((withoutServices 0).reopen 1).2.contents.rows? .monitoredServices = some [] ∧
      (((withoutServices 0).reopen 1).2.contents.rowsOrNone .nodes).length = 1 ∧
      (withoutServices (-1)).reopen 1 =
        (.failed (noMigration 0) (noMigration 0).serviceMessage,
          ⟨(withoutServices (-1)).contents, .absent⟩) := by
  have hzero : fitsBits 32 0 = true := by decide
  have hminus : fitsBits 32 (-1) = true := by decide
  obtain ⟨hopens, hopened, -⟩ := reopen_outcome (tracked_withoutServices hzero) 1
  obtain ⟨hrefuses, -, hrefused⟩ := reopen_outcome (tracked_withoutServices hminus) 1
  have hdone := hopens.mpr fun said hsaid => by
    rw [← (says_withoutServices hzero).mp hsaid]
    decide
  obtain ⟨-, hbrings, -⟩ := hopened hdone
  have hcreated := hbrings.created fun hsaid =>
    absurd ((says_withoutServices hzero).mp hsaid) (by decide)
  refine ⟨hdone, hcreated .monitoredServices (by decide), ?_, ?_⟩
  · rw [Database.rowsOrNone, hcreated .nodes (by decide)]
    rfl
  · have hfailed := mt hrefuses.mp fun hrange =>
      absurd (hrange (-1) ((says_withoutServices hminus).mpr rfl)).1 (by decide)
    obtain ⟨said, failure, hsaid, hcause, hreply, -⟩ := hrefused hfailed
    rw [← (says_withoutServices hminus).mp hsaid] at hcause
    rcases hcause with ⟨hnew, -⟩ | ⟨-, rfl⟩
    · exact absurd hnew (by decide)
    · exact hreply

end Session
end InventorySearch.Store
