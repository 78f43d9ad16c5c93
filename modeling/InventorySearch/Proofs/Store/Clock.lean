import Mathlib.Data.List.Find
import InventorySearch.Proofs.Store.Paging
import InventorySearch.Proofs.Store.Runs

set_option autoImplicit false

/-!
# The clock

The time of a step shows in the table of schema versions alone, and no reply
tells of it. So the replies to steps are the same whenever the steps are taken.
-/
namespace InventorySearch.Search
open Store

/-! ## Conditions -/

section
variable {db other : Rows} (h : ∀ table, table ≠ .schemaVersion → other table = db table)
include h

theorem Source.rows_congr {source : Source} (hsource : source.Fits) (key : Value) :
    source.rows other key = source.rows db key := by
  cases source with
  | owned table owner => rw [Source.rows, Source.rows, h table hsource.1]
  | linked link owner member table column =>
    obtain ⟨howner, -, hcolumn⟩ := hsource
    rw [Source.rows, Source.rows, h link howner.1, h table hcolumn.1]

theorem Condition.eval_congr {table : Table} {c : Condition} (hfits : c.Fits table) (row : Row) :
    c.eval other row = c.eval db row := by
  induction hfits with
  | always => rfl
  | test _ => rfl
  | membership hkey howner hasked => simp only [Condition.eval, h _ howner.1]
  | related hkey hsource hne htests => simp only [Condition.eval, Source.rows_congr h hsource]
  | @all parts hne hparts ih =>
    rw [Condition.eval, Condition.eval]
    clear hne hparts
    induction parts with
    | nil => rfl
    | cons c cs ihcs =>
      rw [evalAll, evalAll, ih c List.mem_cons_self,
        ihcs fun c hc => ih c (List.mem_cons_of_mem _ hc)]
  | either hleft hright ihleft ihright => rw [Condition.eval, Condition.eval, ihleft, ihright]

end

theorem Condition.tables_ne {table : Table} {c : Condition} (hfits : c.Fits table) :
    ∀ asked ∈ c.tables, asked ≠ .schemaVersion := by
  induction hfits with
  | always => simp [tables]
  | test _ => simp [tables]
  | membership hkey howner hasked => simpa [tables] using howner.1
  | @related orNone source key tests hkey hsource hne htests =>
    cases source with
    | owned table owner => simpa [tables] using hsource.1
    | linked link owner member table column =>
      obtain ⟨howner, -, hcolumn⟩ := hsource
      simpa [tables] using ⟨howner.1, hcolumn.1⟩
  | @all parts hne hparts ih =>
    rw [tables]
    clear hne hparts
    induction parts with
    | nil => simp [tablesOf]
    | cons c cs ihcs =>
      intro asked hasked
      rcases List.mem_append.mp hasked with hin | hin
      · exact ih c List.mem_cons_self asked hin
      · exact ihcs (fun c hc => ih c (List.mem_cons_of_mem _ hc)) asked hin
  | either hleft hright ihleft ihright =>
    intro asked hasked
    rcases List.mem_append.mp hasked with hin | hin
    · exact ihleft asked hin
    · exact ihright asked hin

end InventorySearch.Search

namespace InventorySearch.Store
open Search

/-! ## Answers -/

namespace Database
variable (db : Database) (versions : Option (List Row))

theorem plan_setVersions (entity : Entity) (request : Request) :
    (db.set .schemaVersion versions).plan entity request = db.plan entity request := by
  have hlookup : (db.set .schemaVersion versions).lookup = db.lookup := by
    funext kind key
    cases kind <;> rfl
  rw [Database.plan, Database.plan, hlookup]

theorem obstacle?_setVersions {table : Table} (htable : table ≠ .schemaVersion)
    {condition : Condition} (hfits : condition.Fits table) :
    (db.set .schemaVersion versions).obstacle? table condition = db.obstacle? table condition := by
  have hfind : (table :: condition.tables).find?
        (fun t => ((db.set .schemaVersion versions).rows? t).isNone) =
      (table :: condition.tables).find? (fun t => (db.rows? t).isNone) := by
    refine List.find?_congr fun asked hasked => ?_
    rw [rows?_set_of_ne]
    rcases List.mem_cons.mp hasked with rfl | hin
    · exact htable
    · exact Condition.tables_ne hfits asked hin
  rw [obstacle?, obstacle?, hfind]

theorem matching_setVersions {table : Table} (htable : table ≠ .schemaVersion)
    {condition : Condition} (hfits : condition.Fits table) :
    (db.set .schemaVersion versions).matching table condition = db.matching table condition := by
  have hrows : ∀ t, t ≠ .schemaVersion →
      (db.set .schemaVersion versions).rowsOrNone t = db.rowsOrNone t := fun t ht => by
    rw [rowsOrNone, rowsOrNone, rows?_set_of_ne db versions ht]
  rw [matching, matching, hrows table htable]
  refine List.filter_congr fun row _ => ?_
  rw [Condition.eval_congr hrows hfits]

theorem search_setVersions (entity : Entity) (request : Request) :
    (db.set .schemaVersion versions).search entity request = db.search entity request := by
  have hplans := plan_setVersions db versions entity request
  cases hplan : db.plan entity request with
  | error e =>
    rw [search, search, hplans, hplan]
    rfl
  | ok plan =>
    have htable := entity.schema_fits.key.1
    obtain ⟨spec, -, hspec⟩ := exists_of_plan hplan
    have hfits := Spec.fits_of_plan entity.schema_fits hspec
    have hobstacles := obstacle?_setVersions db versions htable hfits
    cases hobstacle : db.obstacle? entity.schema.table plan.condition with
    | some fault =>
      rw [search_error hplan hobstacle,
        search_error (hplans.trans hplan) (hobstacles.trans hobstacle)]
    | none =>
      rw [search_eq hplan hobstacle, search_eq (hplans.trans hplan) (hobstacles.trans hobstacle),
        matching_setVersions db versions htable hfits]

theorem categoryIds?_setVersions (names : List String) :
    (db.set .schemaVersion versions).categoryIds? names = db.categoryIds? names := by
  induction names with
  | nil => rfl
  | cons name names ih =>
    have hfirst : (db.set .schemaVersion versions).categoryId? name = db.categoryId? name := rfl
    rw [categoryIds?, categoryIds?, hfirst, ih]

theorem nodesByCategories_setVersions (names : List String) :
    (db.set .schemaVersion versions).nodesByCategories names = db.nodesByCategories names := by
  rw [nodesByCategories, nodesByCategories, categoryIds?_setVersions]
  rfl

/-- No call asks for the table of versions. -/
theorem answer_setVersions (call : Call) :
    (db.set .schemaVersion versions).answer call = db.answer call := by
  cases call with
  | search entity request =>
    exact congrArg (Except.map Answer.page) (search_setVersions db versions entity request)
  | byId entity id => cases entity <;> rfl
  | nodesByCategories names =>
    rw [answer, answer, nodesByCategories_setVersions]
  | nodesByCategory name =>
    have hname : (db.set .schemaVersion versions).nodesByCategory name = db.nodesByCategory name :=
      nodesByCategories_setVersions db versions [name]
    rw [answer, answer, hname]
  | _ => rfl

end Database

/-! ## Rows without their time -/

namespace Row

def timeless (row : Row) : Row := ⟨row.cells.filter fun cell => cell.1 ≠ "applied_at"⟩

theorem get_timeless (row : Row) {column : String} (h : column ≠ "applied_at") :
    row.timeless.get column = row.get column := by
  have hlookup : row.timeless.cells.lookup column = row.cells.lookup column := by
    rw [timeless]
    induction row.cells with
    | nil => rfl
    | cons cell cells ih =>
      by_cases hcell : cell.1 = "applied_at"
      · rw [List.filter_cons_of_neg (by simp [hcell]), ih, lookup_cons_eq,
          if_neg (by rwa [hcell])]
      · rw [List.filter_cons_of_pos (by simp [hcell]), lookup_cons_eq, ih,
          lookup_cons_eq]
  rw [get, get, hlookup]

theorem isVersionRow_timeless (row : Row) :
    Session.isVersionRow row.timeless = Session.isVersionRow row := by
  rw [Session.isVersionRow, Session.isVersionRow, get_timeless row (by decide)]

theorem withVersion_timeless (version : Int) (row : Row) :
    Session.withVersion version row.timeless = (Session.withVersion version row).timeless := by
  rw [Session.withVersion, Session.withVersion, isVersionRow_timeless]
  by_cases hrow : Session.isVersionRow row = true
  · rw [if_pos hrow, if_pos hrow, timeless, timeless, List.filter_map]
    refine congrArg (fun cells => Row.mk (List.map _ cells)) (List.filter_congr fun cell _ => ?_)
    by_cases hcell : cell.1 = "version" <;> simp [hcell]
  · rw [if_neg hrow, if_neg hrow]

section
variable {p : Row → Bool} (hp : ∀ row : Row, p row.timeless = p row) (rows : List Row)
include hp

theorem filter_timeless : (rows.map timeless).filter p = (rows.filter p).map timeless := by
  rw [List.filter_map]
  exact congrArg _ (List.filter_congr fun row _ => hp row)

theorem find?_timeless : (rows.map timeless).find? p = (rows.find? p).map timeless := by
  rw [List.find?_map]
  exact congrArg _ (List.find?_congr fun row _ => hp row)

end
end Row

/-! ## Contents that differ in times -/

namespace Database

/-- Being rows of a table that differ in times at most, and of the table of versions only. -/
structure AlikeRows (table : Table) (rows others : List Row) : Prop where
  timeless : others.map Row.timeless = rows.map Row.timeless
  eq_of_ne : table ≠ .schemaVersion → others = rows

/-- Being contents that differ in the time at which their version was recorded at most. -/
structure Alike (db other : Database) : Prop where
  rows : ∀ table, table ≠ .schemaVersion → other.rows? table = db.rows? table
  versions : (other.rows? .schemaVersion).map (List.map Row.timeless) =
    (db.rows? .schemaVersion).map (List.map Row.timeless)

theorem Alike.refl (db : Database) : db.Alike db := ⟨fun _ _ => rfl, rfl⟩

section
variable {db other : Database} (h : db.Alike other)
include h

theorem Alike.answer_eq (call : Call) : other.answer call = db.answer call := by
  have hother : other = db.set .schemaVersion (other.rows? .schemaVersion) := by
    ext table : 2
    by_cases htable : table = .schemaVersion
    · rw [htable, rows?_set_self]
    · rw [rows?_set_of_ne db _ htable, h.rows table htable]
  rw [hother, answer_setVersions]

theorem Alike.rows_cases (table : Table) :
    (∃ fault, db.rows table = .error fault ∧ other.rows table = .error fault) ∨
      ∃ rows others, db.rows table = .ok rows ∧ other.rows table = .ok others ∧
        AlikeRows table rows others := by
  rw [Database.rows, Database.rows]
  by_cases htable : table = .schemaVersion
  · subst htable
    have hversions := h.versions
    cases hrows : db.rows? .schemaVersion with
    | none =>
      rw [hrows, Option.map_none, Option.map_eq_none_iff] at hversions
      exact .inl ⟨_, rfl, by rw [hversions]⟩
    | some rows =>
      rw [hrows, Option.map_some, Option.map_eq_some_iff] at hversions
      obtain ⟨others, hothers, htimeless⟩ := hversions
      exact .inr ⟨rows, others, rfl, by rw [hothers], htimeless, fun hne => absurd rfl hne⟩
  · rw [h.rows table htable]
    cases db.rows? table with
    | none => exact .inl ⟨_, rfl, rfl⟩
    | some rows => exact .inr ⟨rows, rows, rfl, rfl, rfl, fun _ => rfl⟩

theorem Alike.set {table : Table} {rows others : Option (List Row)}
    (htimeless : others.map (List.map Row.timeless) = rows.map (List.map Row.timeless))
    (heq : table ≠ .schemaVersion → others = rows) :
    (db.set table rows).Alike (other.set table others) := by
  by_cases htable : table = .schemaVersion
  · subst htable
    refine ⟨fun t ht => ?_, ?_⟩
    · rw [rows?_set_of_ne db _ ht, rows?_set_of_ne other _ ht, h.rows t ht]
    · rwa [rows?_set_self, rows?_set_self]
  · rw [heq htable]
    refine ⟨fun t ht => ?_, ?_⟩
    · by_cases hsame : t = table
      · rw [hsame, rows?_set_self, rows?_set_self]
      · rw [rows?_set_of_ne db _ hsame, rows?_set_of_ne other _ hsame, h.rows t ht]
    · rw [rows?_set_of_ne db _ (Ne.symm htable), rows?_set_of_ne other _ (Ne.symm htable)]
      exact h.versions

/-! ## Inserted rows -/

inductive AlikeAfter : Except Fault Database → Except Fault Database → Prop
  | ok {db other : Database} (h : db.Alike other) : AlikeAfter (.ok db) (.ok other)
  | error (fault : Fault) : AlikeAfter (.error fault) (.error fault)

omit h in
theorem addRow_alike {table : Table} {rows others : List Row} (h : AlikeRows table rows others)
    (row : Row) :
    (∃ fault, table.addRow rows row = .error fault ∧ table.addRow others row = .error fault) ∨
      table.addRow rows row = .ok (rows ++ [row]) ∧
        table.addRow others row = .ok (others ++ [row]) := by
  have hany (key : List String) (hkey : key ∈ table.keys) :
      (others.any fun other => Table.agree key other row) =
        rows.any fun other => Table.agree key other row := by
    by_cases htable : table = .schemaVersion
    · subst htable
      obtain rfl := List.mem_singleton.mp hkey
      have hagree : (fun other : Row => Table.agree ["id"] other row) =
          (fun other => Table.agree ["id"] other row) ∘ Row.timeless := by
        funext other
        simp [Table.agree, Row.get_timeless]
      change others.any (fun other => Table.agree ["id"] other row) =
        rows.any fun other => Table.agree ["id"] other row
      rw [hagree, ← List.any_map, ← List.any_map, h.timeless]
    · rw [h.eq_of_ne htable]
  have hfind : table.keys.find? (fun key => others.any fun other => Table.agree key other row) =
      table.keys.find? fun key => rows.any fun other => Table.agree key other row :=
    List.find?_congr hany
  unfold Table.addRow
  rw [hfind]
  split
  · exact .inl ⟨_, rfl, rfl⟩
  · split
    · exact .inl ⟨_, rfl, rfl⟩
    · exact .inr ⟨rfl, rfl⟩

theorem alike_insert (table : Table) (assigned : List (String × Value)) :
    AlikeAfter (db.insert table assigned) (other.insert table assigned) := by
  rw [insert, insert]
  rcases h.rows_cases table with ⟨fault, hrows, hothers⟩ | ⟨rows, others, hrows, hothers, halike⟩
  · rw [hrows, hothers]
    exact .error fault
  · rw [hrows, hothers]
    cases hrow : table.fullRow assigned with
    | error fault => exact .error fault
    | ok row =>
      change AlikeAfter (table.addRow rows row >>= fun after => pure (db.set table (some after)))
        (table.addRow others row >>= fun after => pure (other.set table (some after)))
      rcases addRow_alike halike row with ⟨fault, hadd, hadd'⟩ | ⟨hadd, hadd'⟩
      · rw [hadd, hadd']
        exact .error fault
      · rw [hadd, hadd']
        refine .ok (h.set ?_ fun hne => by rw [halike.eq_of_ne hne])
        simp [halike.timeless]

theorem alike_insertAll (table : Table) (rows : List (List (String × Value))) :
    (other.insertAll table rows).2 = (db.insertAll table rows).2 ∧
      (db.insertAll table rows).1.Alike (other.insertAll table rows).1 := by
  induction rows generalizing db other with
  | nil => exact ⟨rfl, h⟩
  | cons assigned rest ih =>
    have hinsert := alike_insert h table assigned
    rw [insertAll, insertAll]
    generalize db.insert table assigned = first, other.insert table assigned = second at hinsert
    cases hinsert with
    | error fault => exact ⟨rfl, h⟩
    | ok halike =>
      obtain ⟨hreply, hrest⟩ := ih halike
      exact ⟨congrArg (fun kept => (kept.1 + 1, kept.2)) hreply, hrest⟩

end

theorem alike_foldlM {α : Type} {f : Database → α → Except Fault Database}
    (hf : ∀ {db other : Database}, db.Alike other → ∀ a, AlikeAfter (f db a) (f other a))
    {db other : Database} (h : db.Alike other) (as : List α) :
    AlikeAfter (as.foldlM f db) (as.foldlM f other) := by
  induction as generalizing db other with
  | nil => exact .ok h
  | cons a as ih =>
    have hfirst := hf h a
    rw [List.foldlM_cons, List.foldlM_cons]
    generalize f db a = first, f other a = second at hfirst
    cases hfirst with
    | error fault => exact .error fault
    | ok halike => exact ih halike

theorem alike_load {db other : Database} (h : db.Alike other) :
    AlikeAfter (sample.foldlM insertBatch db) (sample.foldlM insertBatch other) :=
  alike_foldlM (fun h batch => alike_foldlM
    (fun h row => alike_insert h batch.table (batch.columns.zip row)) h batch.rows) h sample

/-! ## Opened files -/

section
variable {db other : Database} (h : db.Alike other)
include h

theorem Alike.versionsOrNone :
    (other.rowsOrNone .schemaVersion).map Row.timeless =
      (db.rowsOrNone .schemaVersion).map Row.timeless := by
  have hversions := h.versions
  rw [rowsOrNone, rowsOrNone]
  cases hdb : db.rows? .schemaVersion <;> cases hother : other.rows? .schemaVersion <;>
    simp_all

theorem storedVersion?_alike : other.storedVersion? = db.storedVersion? := by
  have hversion : ((fun row => (row.get "version").integer?) ∘ Row.timeless) =
      fun row : Row => (row.get "version").integer? := by
    funext row
    rw [Function.comp_apply, row.get_timeless (by decide)]
  have hstored (db : Database) : db.storedVersion? =
      (((db.rowsOrNone .schemaVersion).map Row.timeless).find? fun row =>
        row.get "id" == .integer 1).bind fun row => (row.get "version").integer? := by
    rw [Row.find?_timeless fun row => by rw [row.get_timeless (by decide)], Option.bind_map,
      hversion]
    rfl
  rw [hstored db, hstored other, h.versionsOrNone]

theorem alike_advance (now later version : Int) (description : String) :
    (db.advance now version description).Alike (other.advance later version description) := by
  refine ⟨fun table htable => ?_, ?_⟩
  · rw [rows?_advance_of_ne _ _ _ htable, rows?_advance_of_ne _ _ _ htable, rowsOrNone, rowsOrNone,
      h.rows table htable]
  · have hversions (db : Database) (now : Int) :
        (((db.advance now version description).rows? .schemaVersion).map (List.map Row.timeless)) =
          some (((db.rowsOrNone .schemaVersion).map Row.timeless).filter (fun row =>
              row.get "id" != .integer 1) ++
            [⟨[("id", .integer 1), ("version", .integer version),
              ("description", .text description)]⟩]) := by
      rw [Row.filter_timeless fun row => by rw [row.get_timeless (by decide)], advance,
        recordVersion, rows?_set_self, Option.map_some, List.map_append]
      rfl
    rw [hversions db now, hversions other later, h.versionsOrNone]

theorem alike_opening (now later : Int) :
    (∃ failure, db.opening now = .error failure ∧ other.opening later = .error failure) ∨
      ∃ after after', db.opening now = .ok after ∧ other.opening later = .ok after' ∧
        after.Alike after' := by
  rw [opening, opening, storedVersion?_alike h]
  cases db.storedVersion? with
  | none => exact .inr ⟨_, _, rfl, rfl, alike_advance h now later _ _⟩
  | some version =>
    by_cases hnew : currentVersion < version
    · simp only [if_pos hnew]
      exact .inl ⟨_, rfl, rfl⟩
    · by_cases hcurrent : version = currentVersion
      · simp only [if_neg hnew, if_pos hcurrent]
        exact .inr ⟨_, _, rfl, rfl, h⟩
      · by_cases hold : 0 ≤ version
        · simp only [if_neg hnew, if_neg hcurrent, if_pos hold]
          exact .inr ⟨_, _, rfl, rfl, alike_advance h now later _ _⟩
        · simp only [if_neg hnew, if_neg hcurrent, if_neg hold]
          exact .inl ⟨_, rfl, rfl⟩

end
end Database

/-! ## Steps -/

namespace Session

def AlikeReplies (first second : Reply × Database) : Prop :=
  second.1 = first.1 ∧ first.2.Alike second.2

section
variable {db other : Database} (h : db.Alike other)
include h

theorem alike_changeRows {table : Table} {f : List Row → Option (List Row)}
    (hf : ∀ {rows others : List Row}, others.map Row.timeless = rows.map Row.timeless →
      (f others).map (List.map Row.timeless) = (f rows).map (List.map Row.timeless)) :
    AlikeReplies (statement db (changeRows db table f))
      (statement other (changeRows other table f)) := by
  rw [changeRows, changeRows]
  rcases h.rows_cases table with ⟨fault, hrows, hothers⟩ | ⟨rows, others, hrows, hothers, halike⟩
  · rw [hrows, hothers]
    exact ⟨rfl, h⟩
  · rw [hrows, hothers]
    exact ⟨rfl, h.set (hf halike.timeless) fun hne => by rw [halike.eq_of_ne hne]⟩

theorem alike_seed : AlikeReplies (runOpen db .seed) (runOpen other .seed) := by
  rw [runOpen, runOpen, Work.seed_onFile, Work.seed_onFile]
  rcases h.rows_cases .nodes with ⟨fault, hrows, hothers⟩ | ⟨rows, others, hrows, hothers, halike⟩
  · rw [hrows, hothers]
    exact ⟨rfl, h⟩
  · rw [hrows, hothers, halike.eq_of_ne (by decide)]
    by_cases hnodes : rows.isEmpty = true
    · have hload := Database.alike_load h
      simp only [if_pos hnodes]
      generalize sample.foldlM Database.insertBatch db = first,
        sample.foldlM Database.insertBatch other = second at hload
      cases hload with
      | ok halike => exact ⟨rfl, halike⟩
      | error fault => exact ⟨rfl, h⟩
    · simp only [if_neg hnodes]
      exact ⟨rfl, h⟩

theorem alike_insertRows (name : String) (rows : List (List (String × Value))) :
    AlikeReplies (runOpen db (.insert name rows)) (runOpen other (.insert name rows)) := by
  rw [runOpen, runOpen]
  cases Database.table name with
  | error fault => exact ⟨rfl, h⟩
  | ok table =>
    obtain ⟨hkept, halike⟩ := Database.alike_insertAll h table rows
    dsimp only
    generalize db.insertAll table rows = first, other.insertAll table rows = second at hkept halike
    obtain ⟨after, kept, fault?⟩ := first
    obtain ⟨after', kept', fault'?⟩ := second
    obtain ⟨rfl, rfl⟩ := Prod.mk.inj hkept
    cases fault'? <;> exact ⟨rfl, halike⟩

theorem alike_count (name : String) :
    AlikeReplies (runOpen db (.count name)) (runOpen other (.count name)) := by
  rw [runOpen, runOpen]
  cases Database.table name with
  | error fault => exact ⟨rfl, h⟩
  | ok table =>
    change AlikeReplies
      (statement db (db.rows table >>= fun rows => pure (.counted rows.length, db)))
      (statement other (other.rows table >>= fun rows => pure (.counted rows.length, other)))
    rcases h.rows_cases table with ⟨fault, hrows, hothers⟩ | ⟨rows, others, hrows, hothers, halike⟩
    · rw [hrows, hothers]
      exact ⟨rfl, h⟩
    · have hlength : others.length = rows.length := by
        simpa using congrArg List.length halike.timeless
      rw [hrows, hothers]
      exact ⟨congrArg Reply.counted hlength, h⟩

theorem alike_clear (name : String) :
    AlikeReplies (runOpen db (.clear name)) (runOpen other (.clear name)) := by
  rw [runOpen, runOpen]
  cases Database.table name with
  | error fault => exact ⟨rfl, h⟩
  | ok table => exact alike_changeRows h fun _ => rfl

theorem alike_version : AlikeReplies (runOpen db .version) (runOpen other .version) := by
  rw [runOpen, runOpen]
  rcases h.rows_cases .schemaVersion with
    ⟨fault, hrows, hothers⟩ | ⟨rows, others, hrows, hothers, halike⟩
  · rw [hrows, hothers]
    exact ⟨rfl, h⟩
  · have hsame : (others.find? isVersionRow).map Row.timeless =
        (rows.find? isVersionRow).map Row.timeless := by
      rw [← Row.find?_timeless Row.isVersionRow_timeless, halike.timeless,
        Row.find?_timeless Row.isVersionRow_timeless]
    rw [hrows, hothers]
    simp only [bind, Except.bind]
    cases hrow : rows.find? isVersionRow with
    | none =>
      rw [hrow, Option.map_none, Option.map_eq_none_iff] at hsame
      rw [hsame]
      exact ⟨rfl, h⟩
    | some row =>
      rw [hrow, Option.map_some, Option.map_eq_some_iff] at hsame
      obtain ⟨row', hrow', htimeless⟩ := hsame
      have hget {column : String} (hne : column ≠ "applied_at") :
          row'.get column = row.get column := by
        rw [← row'.get_timeless hne, htimeless, row.get_timeless hne]
      rw [hrow']
      refine ⟨?_, h⟩
      change Reply.version (row'.integer "version") (row'.get "description").text? =
        .version (row.integer "version") (row.get "description").text?
      rw [Row.integer, Row.integer, hget (by decide), hget (by decide)]

theorem alike_runOpen (st : Step) : AlikeReplies (runOpen db st) (runOpen other st) := by
  cases st with
  | seed => exact alike_seed h
  | insert name rows => exact alike_insertRows h name rows
  | count name => exact alike_count h name
  | clear name => exact alike_clear h name
  | version => exact alike_version h
  | setVersion version =>
    rw [runOpen, runOpen]
    by_cases hfits : fitsBits 32 version = true
    · rw [if_pos hfits, if_pos hfits]
      refine alike_changeRows h fun {rows others} hrows => congrArg some ?_
      have hversion (rows : List Row) : (rows.map (withVersion version)).map Row.timeless =
          (rows.map Row.timeless).map (withVersion version) := by
        simp [Row.withVersion_timeless]
      rw [hversion, hversion, hrows]
    · rw [if_neg hfits, if_neg hfits]
      exact ⟨rfl, h⟩
  | deleteVersion =>
    refine alike_changeRows h fun {rows others} hrows => congrArg some ?_
    have hkept (row : Row) : (!isVersionRow row.timeless) = !isVersionRow row := by
      rw [Row.isVersionRow_timeless]
    rw [← Row.filter_timeless hkept, hrows, Row.filter_timeless hkept]
  | dropServices => exact alike_changeRows h fun _ => rfl
  | _ => exact ⟨rfl, h⟩

end

structure Alike (s other : Session) : Prop where
  contents : s.contents.Alike other.contents
  status : other.status = s.status

theorem Alike.reopen {s other : Session} (h : s.Alike other) (now later : Int) :
    (other.reopen later).1 = (s.reopen now).1 ∧ (s.reopen now).2.Alike (other.reopen later).2 := by
  rw [reopen_eq, reopen_eq]
  rcases Database.alike_opening h.contents now later with
    ⟨failure, hopening, hopening'⟩ | ⟨after, after', hopening, hopening', halike⟩
  · rw [hopening, hopening']
    exact ⟨rfl, h.contents, rfl⟩
  · rw [hopening, hopening']
    exact ⟨rfl, halike, rfl⟩

theorem Alike.step {s other : Session} (h : s.Alike other) (now later : Int) (st : Step) :
    (other.step later st).1 = (s.step now st).1 ∧
      (s.step now st).2.Alike (other.step later st).2 := by
  obtain ⟨db, status⟩ := s
  obtain ⟨db', status'⟩ := other
  obtain rfl : status' = status := h.status
  have hruns := alike_runOpen h.contents st
  have hkept (status : Status) : Alike ⟨db, status⟩ ⟨db', status⟩ := ⟨h.contents, rfl⟩
  cases st with
  | reopen => exact h.reopen now later
  | call call =>
    cases status' with
    | opened => exact ⟨congrArg callReply (h.contents.answer_eq call), hkept _⟩
    | _ => exact ⟨rfl, hkept _⟩
  | checkpoint | close | shutdown => cases status' <;> exact ⟨rfl, hkept _⟩
  | _ =>
    cases status' with
    | opened => exact ⟨hruns.1, hruns.2, rfl⟩
    | _ => exact ⟨rfl, hkept _⟩

theorem Alike.replies_eq {s other : Session} (h : s.Alike other)
    {steps laters : List (Int × Step)} (hsteps : laters.map Prod.snd = steps.map Prod.snd) :
    other.replies laters = s.replies steps := by
  induction steps generalizing s other laters with
  | nil =>
    obtain rfl := List.map_eq_nil_iff.mp hsteps
    rfl
  | cons p steps ih =>
    obtain ⟨q, rest, rfl, hq, hrest⟩ := List.map_eq_cons_iff.mp hsteps
    obtain ⟨hreply, halike⟩ := h.step p.1 q.1 p.2
    rw [replies, replies, hq, hreply, ih halike hrest]

/-- The replies to steps do not depend on their times. -/
theorem replies_eq_of_steps (s : Session) {steps laters : List (Int × Step)}
    (h : laters.map Prod.snd = steps.map Prod.snd) : s.replies laters = s.replies steps :=
  Alike.replies_eq ⟨.refl s.contents, rfl⟩ h

theorem run_eq_run (now later : Int) (s : Session) (steps : List Step) :
    run later s steps = run now s steps := by
  rw [run_eq, run_eq]
  exact s.replies_eq_of_steps (by simp)

end Session
end InventorySearch.Store
