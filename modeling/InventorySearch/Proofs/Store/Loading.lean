import InventorySearch.Proofs.Store.Runs

set_option autoImplicit false

/-!
# Loading the sample

The guard of the load asks for nodes alone, and rows of ten tables follow one
another. No two rows of the sample share a key, so a row is refused in the course
of the load just when the contents from before it refuse the row.
-/
namespace InventorySearch.Store

namespace Database

def place (db : Database) (entry : Table × Row) : Except Fault Database := do
  let before ← db.rows entry.1
  return db.set entry.1 (some (← entry.1.addRow before entry.2))

theorem insert_eq_place {db : Database} {table : Table} {assigned : List (String × Value)}
    {row : Row} (h : table.fullRow assigned = .ok row) :
    db.insert table assigned = db.place (table, row) := by
  rw [insert, place, h]
  rfl

def rowsFor (entries : List (Table × Row)) (table : Table) : List Row :=
  (entries.filter fun entry => entry.1 = table).map Prod.snd

def added (db : Database) (entries : List (Table × Row)) : Database :=
  ⟨fun table => (db.rows? table).map fun rows => rows ++ rowsFor entries table⟩

/-- The causes for which a row is not added. -/
inductive Refuses (db : Database) : Table × Row → Fault → Prop
  | missing {table : Table} {row : Row} (h : db.rows? table = none) :
      Refuses db (table, row) (.missingTable table.name)
  | repeated {table : Table} {row other : Row} {rows : List Row} {key : List String}
      (hrows : db.rows? table = some rows) (hother : other ∈ rows) (hkey : key ∈ table.keys)
      (hagree : Table.agree key other row = true) : Refuses db (table, row) (.repeatedKey key)

/-! ## One row -/

theorem rows?_added (db : Database) (entries : List (Table × Row)) (table : Table) :
    (db.added entries).rows? table =
      (db.rows? table).map fun rows => rows ++ rowsFor entries table := rfl

theorem added_nil (db : Database) : db.added [] = db := by
  ext table : 2
  simp [added, rowsFor]

theorem added_cons (db : Database) (entry : Table × Row) (entries : List (Table × Row)) :
    db.added (entry :: entries) = (db.added [entry]).added entries := by
  ext table : 2
  by_cases h : entry.1 = table <;> simp [added, rowsFor, h, Function.comp_def]

theorem mem_rowsOrNone_added {db : Database} {entries : List (Table × Row)} {table : Table}
    {row : Row} (hrows : db.rows? table ≠ none) (h : (table, row) ∈ entries) :
    row ∈ (db.added entries).rowsOrNone table := by
  obtain ⟨rows, hrows⟩ := Option.ne_none_iff_exists'.mp hrows
  have hrow : row ∈ rowsFor entries table :=
    List.mem_map.mpr ⟨(table, row), List.mem_filter.mpr ⟨h, decide_eq_true rfl⟩, rfl⟩
  rw [rowsOrNone, rows?_added, hrows]
  exact List.mem_append_right rows hrow

theorem place_eq {db : Database} {entry : Table × Row} {rows : List Row}
    (hrows : db.rows? entry.1 = some rows) :
    db.place entry =
      match entry.1.addRow rows entry.2 with
      | .ok after => .ok (db.set entry.1 (some after))
      | .error fault => .error fault := by
  rw [place, rows_of_some hrows]
  change (entry.1.addRow rows entry.2 >>= fun after => _) = _
  cases entry.1.addRow rows entry.2 <;> rfl

theorem place_cases (db : Database) {entry : Table × Row} (hne : entry.1 ≠ .schemaVersion) :
    (∀ fault, ¬ db.Refuses entry fault) ∧ db.place entry = .ok (db.added [entry]) ∨
      ∃ fault, db.Refuses entry fault ∧ db.place entry = .error fault := by
  obtain ⟨table, row⟩ := entry
  cases hrows : db.rows? table with
  | none =>
    refine .inr ⟨_, .missing hrows, ?_⟩
    rw [place, rows_of_none hrows]
    rfl
  | some rows =>
    rw [place_eq hrows, Table.addRow, if_neg fun h => hne h.1]
    cases hfind : table.keys.find? fun key => rows.any fun other => Table.agree key other row with
    | some key =>
      have hcollides : (rows.any fun other => Table.agree key other row) = true :=
        List.find?_some (p := fun key => rows.any fun other => Table.agree key other row) hfind
      obtain ⟨other, hother, hagree⟩ := List.any_eq_true.mp hcollides
      exact .inr ⟨_, .repeated hrows hother (List.mem_of_find?_eq_some hfind) hagree, rfl⟩
    | none =>
      refine .inl ⟨fun fault hrefuses => ?_, congrArg Except.ok ?_⟩
      · cases hrefuses with
        | missing h =>
          rw [hrows] at h
          cases h
        | repeated h hother hkey hagree =>
          obtain rfl := Option.some.inj (hrows.symm.trans h)
          exact List.find?_eq_none.mp hfind _ hkey (List.any_eq_true.mpr ⟨_, hother, hagree⟩)
      · ext other : 2
        by_cases heq : other = table
        · subst heq
          simp [added, rowsFor, hrows]
        · rw [rows?_set_of_ne db _ heq]
          simp [added, rowsFor, Ne.symm heq]

/-! ## Row after row -/

/-- Being rows that can be in the store together. -/
def Apart (entry other : Table × Row) : Prop :=
  entry.1 = other.1 → ∀ key ∈ other.1.keys, Table.agree key entry.2 other.2 = false

instance (entry other : Table × Row) : Decidable (Apart entry other) :=
  inferInstanceAs (Decidable (_ → _))

theorem refuses_added_iff (db : Database) {entry other : Table × Row} (h : Apart entry other)
    {fault : Fault} : (db.added [entry]).Refuses other fault ↔ db.Refuses other fault := by
  constructor
  · intro hrefuses
    cases hrefuses with
    | missing hnone => exact .missing (Option.map_eq_none_iff.mp hnone)
    | @repeated table row found rows key hrows hfound hkey hagree =>
      obtain ⟨before, hbefore, rfl⟩ := Option.map_eq_some_iff.mp hrows
      rcases List.mem_append.mp hfound with hin | hin
      · exact .repeated hbefore hin hkey hagree
      · obtain ⟨placed, hplaced, rfl⟩ := List.mem_map.mp hin
        obtain ⟨hsingle, htable⟩ := List.mem_filter.mp hplaced
        obtain rfl := List.mem_singleton.mp hsingle
        have hapart := h (of_decide_eq_true htable) key hkey
        rw [hagree] at hapart
        cases hapart
  · intro hrefuses
    cases hrefuses with
    | missing hnone => exact .missing (Option.map_eq_none_iff.mpr hnone)
    | @repeated table _ _ _ _ hrows hother hkey hagree =>
      have hadded := db.rows?_added [entry] table
      rw [hrows] at hadded
      exact .repeated hadded (List.mem_append_left _ hother) hkey hagree

theorem foldlM_place {entries : List (Table × Row)} (hapart : entries.Pairwise Apart)
    (hne : ∀ entry ∈ entries, entry.1 ≠ .schemaVersion) (db : Database) :
    (∀ entry ∈ entries, ∀ fault, ¬ db.Refuses entry fault) ∧
        entries.foldlM place db = .ok (db.added entries) ∨
      ∃ entry ∈ entries, ∃ fault, db.Refuses entry fault ∧
        entries.foldlM place db = .error fault := by
  induction entries generalizing db with
  | nil => exact .inl ⟨by simp, congrArg Except.ok (added_nil db).symm⟩
  | cons entry entries ih =>
    obtain ⟨hfirst, hapart⟩ := List.pairwise_cons.mp hapart
    rcases db.place_cases (hne entry List.mem_cons_self) with ⟨hfits, hplace⟩ | ⟨fault, h, hplace⟩
    · rcases ih hapart (fun other hother => hne other (List.mem_cons_of_mem _ hother))
        (db.added [entry]) with ⟨hrest, hfold⟩ | ⟨other, hother, fault, hrefuses, hfold⟩
      · refine .inl ⟨fun other hother fault => ?_, ?_⟩
        · rcases List.mem_cons.mp hother with rfl | hin
          · exact hfits fault
          · exact mt (db.refuses_added_iff (hfirst other hin)).mpr (hrest other hin fault)
        · rw [List.foldlM_cons, hplace, db.added_cons entry entries]
          exact hfold
      · have hbefore := (db.refuses_added_iff (hfirst other hother)).mp hrefuses
        refine .inr ⟨other, List.mem_cons_of_mem _ hother, fault, hbefore, ?_⟩
        rw [List.foldlM_cons, hplace]
        exact hfold
    · refine .inr ⟨entry, List.mem_cons_self, fault, h, ?_⟩
      rw [List.foldlM_cons, hplace]
      rfl

end Database

/-! ## The sample -/

namespace Batch

def entries (batch : Batch) : List (Table × Row) :=
  batch.rows.filterMap fun row =>
    (batch.table.fullRow (batch.columns.zip row)).toOption.map fun stored => (batch.table, stored)

def WellFormed (batch : Batch) : Prop :=
  ∀ row ∈ batch.rows, (batch.table.fullRow (batch.columns.zip row)).isOk = true

instance (batch : Batch) : Decidable batch.WellFormed := inferInstanceAs (Decidable (∀ _ ∈ _, _))

theorem WellFormed.insertBatch_eq {batch : Batch} (h : batch.WellFormed) (db : Database) :
    db.insertBatch batch = batch.entries.foldlM Database.place db := by
  obtain ⟨table, columns, rows⟩ := batch
  induction rows generalizing db with
  | nil => rfl
  | cons row rows ih =>
    have hrow := h row List.mem_cons_self
    cases hfull : table.fullRow (columns.zip row) with
    | error fault => rw [hfull] at hrow; cases hrow
    | ok stored =>
      have hentries : entries ⟨table, columns, row :: rows⟩ =
          (table, stored) :: entries ⟨table, columns, rows⟩ := by
        rw [entries, List.filterMap_cons, hfull]
        rfl
      rw [hentries, List.foldlM_cons, ← Database.insert_eq_place hfull, Database.insertBatch,
        List.foldlM_cons]
      exact bind_congr fun after => ih after fun row hrow => h row (List.mem_cons_of_mem _ hrow)

end Batch

def sampleEntries : List (Table × Row) := sample.flatMap Batch.entries

theorem wellFormed_sample : ∀ batch ∈ sample, batch.WellFormed := by decide +kernel

theorem apart_sampleEntries : sampleEntries.Pairwise Database.Apart := by decide +kernel

theorem exists_node_sampleEntries : ∃ row, (Table.nodes, row) ∈ sampleEntries := by
  have hnode : ∃ entry ∈ sampleEntries, entry.1 = .nodes := by decide +kernel
  obtain ⟨⟨table, row⟩, hentry, rfl⟩ := hnode
  exact ⟨row, hentry⟩

theorem table_ne_of_mem_sampleEntries {entry : Table × Row} (h : entry ∈ sampleEntries) :
    entry.1 ≠ .schemaVersion := by
  obtain ⟨batch, hbatch, hentry⟩ := List.mem_flatMap.mp h
  obtain ⟨row, -, hrow⟩ := List.mem_filterMap.mp hentry
  obtain ⟨stored, -, rfl⟩ := Option.map_eq_some_iff.mp hrow
  have htables : ∀ batch ∈ sample, batch.table ≠ .schemaVersion := by decide
  exact htables batch hbatch

theorem foldlM_insertBatch {batches : List Batch} (h : ∀ batch ∈ batches, batch.WellFormed)
    (db : Database) :
    batches.foldlM Database.insertBatch db =
      (batches.flatMap Batch.entries).foldlM Database.place db := by
  induction batches generalizing db with
  | nil => rfl
  | cons batch batches ih =>
    rw [List.foldlM_cons, List.flatMap_cons, List.foldlM_append,
      (h batch List.mem_cons_self).insertBatch_eq]
    have hrest : ∀ batch ∈ batches, batch.WellFormed := fun batch hbatch =>
      h batch (List.mem_cons_of_mem _ hbatch)
    exact bind_congr (ih hrest)

/-- The sample is added whole, or one of its rows is refused by what was there before. -/
theorem load_sample (db : Database) :
    (∀ entry ∈ sampleEntries, ∀ fault, ¬ db.Refuses entry fault) ∧
        sample.foldlM Database.insertBatch db = .ok (db.added sampleEntries) ∨
      ∃ entry ∈ sampleEntries, ∃ fault, db.Refuses entry fault ∧
        sample.foldlM Database.insertBatch db = .error fault := by
  rw [foldlM_insertBatch wellFormed_sample]
  exact Database.foldlM_place apart_sampleEntries (fun _ => table_ne_of_mem_sampleEntries) db

/-! ## Rows that stay -/

namespace Database

theorem table_eq_ok {name : String} {table : Table} (h : Database.table name = .ok table) :
    name = table.name := by
  unfold Database.table at h
  split at h
  · next t hfind =>
    obtain rfl := Except.ok.inj h
    have hname := List.find?_some hfind
    exact (beq_iff_eq.mp hname).symm
  · cases h

theorem prefix_insert {db after : Database} {table : Table} {assigned : List (String × Value)}
    (h : db.insert table assigned = .ok after) (other : Table) :
    db.rowsOrNone other <+: after.rowsOrNone other := by
  by_cases hne : other = table
  · subst hne
    obtain ⟨rows, row, hrows, -, -, rfl⟩ := of_insert h
    rw [rowsOrNone_of_rows hrows, rowsOrNone, rows?_set_self]
    exact List.prefix_append rows [row]
  · have hsame : after.rowsOrNone other = db.rowsOrNone other := by
      rw [rowsOrNone, rowsOrNone, rows?_insert_of_ne h hne]
    exact hsame ▸ List.prefix_rfl

theorem prefix_opening {db after : Database} {now : Int} (h : db.opening now = .ok after)
    {table : Table} (hne : table ≠ .schemaVersion) :
    db.rowsOrNone table <+: after.rowsOrNone table := by
  rcases of_opening h with ⟨-, rfl⟩ | ⟨-, description, rfl⟩
  · exact List.prefix_rfl
  · have hsame : (db.advance now currentVersion description).rowsOrNone table =
        db.rowsOrNone table :=
      congrArg (fun rows => rows.getD []) (rows?_advance_of_ne now currentVersion description hne)
    exact hsame ▸ List.prefix_rfl

end Database

namespace Session

/-- Rows of the inventory go when their table is cleared, and services with their table. -/
theorem Changes.prefix {db after : Database} {st : Step} (h : Changes db st after) {table : Table}
    (hversion : table ≠ .schemaVersion) (hclear : st ≠ .clear table.name)
    (hdrop : st = .dropServices → table ≠ .monitoredServices) :
    db.rowsOrNone table <+: after.rowsOrNone table := by
  have hset {changed : Table} (rows : Option (List Row)) (hne : table ≠ changed) :
      db.rowsOrNone table <+: (db.set changed rows).rowsOrNone table := by
    have hsame : (db.set changed rows).rowsOrNone table = db.rowsOrNone table := by
      rw [Database.rowsOrNone, Database.rowsOrNone, Database.rows?_set_of_ne db rows hne]
    exact hsame ▸ List.prefix_rfl
  cases h with
  | nothing => exact List.prefix_rfl
  | loaded hload =>
    exact Database.keeps_load (P := fun after => db.rowsOrNone table <+: after.rowsOrNone table)
      (fun h hinsert => h.trans (Database.prefix_insert hinsert table)) List.prefix_rfl hload
  | inserted name into rows =>
    exact Database.keeps_insertAll
      (P := fun after => db.rowsOrNone table <+: after.rowsOrNone table)
      (fun h hinsert => h.trans (Database.prefix_insert hinsert table)) List.prefix_rfl into rows
  | cleared hname =>
    refine hset _ ?_
    rintro rfl
    exact hclear (congrArg Step.clear (Database.table_eq_ok hname))
  | versionSet _ _ => exact hset _ hversion
  | versionDeleted _ => exact hset _ hversion
  | servicesDropped => exact hset _ (hdrop rfl)

theorem nodes_after {s : Session} (h : s.contents.rowsOrNone .nodes ≠ [])
    {steps : List (Int × Step)} (hsteps : ∀ p ∈ steps, p.2 ≠ .clear "nodes") :
    (s.after steps).contents.rowsOrNone .nodes ≠ [] := by
  refine keeps_after (P := fun s => s.contents.rowsOrNone .nodes ≠ []) (fun s p hp hnodes => ?_) h
  have hprefix : s.contents.rowsOrNone .nodes <+:
      (s.step p.1 p.2).2.contents.rowsOrNone .nodes := by
    rcases s.step_contents p.1 p.2 with hchanges | ⟨-, hopening⟩
    · exact hchanges.prefix (by decide) (hsteps p hp) fun _ => by decide
    · exact Database.prefix_opening hopening (by decide)
  exact fun hnil => hnodes (List.prefix_nil.mp (hnil ▸ hprefix))

/-! ## The outcome of a load -/

theorem step_seed {s : Session} (hopened : s.status = .opened) (now : Int) :
    s.step now .seed = ((runOpen s.contents .seed).1, ⟨(runOpen s.contents .seed).2, .opened⟩) := by
  obtain ⟨db, status⟩ := s
  obtain rfl : status = .opened := hopened
  rfl

theorem seed_cases {s : Session} (hopened : s.status = .opened) (now : Int) :
    s.contents.rowsOrNone .nodes ≠ [] ∧ s.step now .seed = (.seeded false, s) ∨
      s.contents.rowsOrNone .nodes = [] ∧
        ((∀ entry ∈ sampleEntries, ∀ fault, ¬ s.contents.Refuses entry fault) ∧
            s.step now .seed = (.seeded true, ⟨s.contents.added sampleEntries, .opened⟩) ∨
          ∃ entry ∈ sampleEntries, ∃ fault, s.contents.Refuses entry fault ∧
            s.step now .seed = (serviceFailure (.database fault), s)) := by
  rw [step_seed hopened, runOpen, Work.seed_onFile]
  cases hrows : s.contents.rows? .nodes with
  | none =>
    obtain ⟨row, hentry⟩ := exists_node_sampleEntries
    refine .inr ⟨by rw [Database.rowsOrNone, hrows]; rfl, .inr ⟨_, hentry, _, .missing hrows, ?_⟩⟩
    simp only [Database.rows_of_none hrows, ← hopened]
  | some nodes =>
    have hfound := Database.rows_of_some hrows
    rw [Database.rowsOrNone_of_rows hfound]
    simp only [hfound, List.isEmpty_iff]
    by_cases hnodes : nodes = []
    · simp only [if_pos hnodes]
      refine .inr ⟨hnodes, ?_⟩
      rcases load_sample s.contents with ⟨hfits, hload⟩ | ⟨entry, hentry, fault, hrefuses, hload⟩
      · simp only [hload]
        exact .inl ⟨hfits, trivial⟩
      · refine .inr ⟨entry, hentry, fault, hrefuses, ?_⟩
        simp only [hload, ← hopened]
    · simp only [if_neg hnodes, ← hopened]
      exact .inl ⟨hnodes, trivial⟩

theorem nodes_of_seeded {s : Session} (hopened : s.status = .opened) {now : Int}
    (hseeded : (s.step now .seed).1 = .seeded true) :
    (s.step now .seed).2.contents.rowsOrNone .nodes ≠ [] := by
  rcases seed_cases hopened now with ⟨-, hseed⟩ | ⟨-, ⟨hfits, hseed⟩ | ⟨_, -, fault, -, hseed⟩⟩
  · rw [hseed] at hseeded
    cases hseeded
  · obtain ⟨row, hentry⟩ := exists_node_sampleEntries
    have hthere : s.contents.rows? .nodes ≠ none := fun hnone =>
      hfits _ hentry _ (.missing hnone)
    rw [hseed]
    exact List.ne_nil_of_mem (Database.mem_rowsOrNone_added hthere hentry)
  · rw [hseed] at hseeded
    cases hseeded

/-- Loading is all or nothing. It does nothing in a store with nodes, adds the sample to one that
can take every row of it, and otherwise fails for one of the rows. Once it is done, there are nodes
until they are cleared. -/
theorem Reachable.seed_outcome {s : Session} (h : s.Reachable) (hopened : s.status = .opened)
    (now : Int) :
    ((s.step now .seed).1 = .seeded false ↔ s.contents.rowsOrNone .nodes ≠ []) ∧
    ((s.step now .seed).1 = .seeded false → (s.step now .seed).2 = s) ∧
    (s.contents.rowsOrNone .nodes = [] →
      (∀ entry ∈ sampleEntries, ∀ fault, ¬ s.contents.Refuses entry fault) →
        s.step now .seed = (.seeded true, ⟨s.contents.added sampleEntries, .opened⟩)) ∧
    (s.contents.rowsOrNone .nodes = [] →
      (∃ entry ∈ sampleEntries, ∃ fault, s.contents.Refuses entry fault) →
        ∃ entry ∈ sampleEntries, ∃ fault, s.contents.Refuses entry fault ∧
          s.step now .seed = (serviceFailure (.database fault), s)) ∧
    (Lawful (s.step now .seed).2.contents.rowsOrNone ∧
      Tracked ((s.step now .seed).2.contents.rowsOrNone .schemaVersion)) ∧
    ((s.step now .seed).1 = .seeded true → ∀ steps : List (Int × Step),
      (∀ p ∈ steps, p.2 ≠ .clear "nodes") →
        ((s.step now .seed).2.after steps).status = .opened → ∀ later,
          ((s.step now .seed).2.after steps).step later .seed =
            (.seeded false, (s.step now .seed).2.after steps)) := by
  have hafter := Reachable.step now .seed h
  have hlater : (s.step now .seed).1 = .seeded true → ∀ steps : List (Int × Step),
      (∀ p ∈ steps, p.2 ≠ .clear "nodes") →
        ((s.step now .seed).2.after steps).status = .opened → ∀ later,
          ((s.step now .seed).2.after steps).step later .seed =
            (.seeded false, (s.step now .seed).2.after steps) := by
    intro hseeded steps hsteps hstatus later
    have hnodes := nodes_after (nodes_of_seeded hopened hseeded) hsteps
    rcases seed_cases hstatus later with ⟨-, hseed⟩ | ⟨hnone, -⟩
    · exact hseed
    · exact absurd hnone hnodes
  rcases seed_cases hopened now with
    ⟨hnodes, hseed⟩ | ⟨hnodes, ⟨hfits, hseed⟩ | ⟨entry, hentry, fault, hrefuses, hseed⟩⟩
  · refine ⟨?_, ?_, fun hnone => absurd hnone hnodes, fun hnone => absurd hnone hnodes,
      ⟨hafter.lawful, hafter.tracked⟩, hlater⟩
    · simp [hseed, hnodes]
    · simp [hseed]
  · refine ⟨?_, ?_, fun _ _ => hseed, ?_, ⟨hafter.lawful, hafter.tracked⟩, hlater⟩
    · simp [hseed, hnodes]
    · simp [hseed]
    · rintro - ⟨entry, hentry, fault, hrefuses⟩
      exact absurd hrefuses (hfits entry hentry fault)
  · refine ⟨?_, ?_, fun _ hfits => absurd hrefuses (hfits entry hentry fault),
      fun _ _ => ⟨entry, hentry, fault, hrefuses, hseed⟩, ⟨hafter.lawful, hafter.tracked⟩, hlater⟩
    · simp [hseed, hnodes, serviceFailure]
    · simp [hseed]

/-! ## A fresh store, and one with a category of the sample -/

theorem not_refuses_start {now : Int} {entry : Table × Row} (hentry : entry ∈ sampleEntries)
    (fault : Fault) : ¬ (start now).contents.Refuses entry fault := by
  have hempty : (start now).contents.rows? entry.1 = some [] := by
    rw [start_eq]
    exact Database.rows?_advance_of_ne _ _ _ (table_ne_of_mem_sampleEntries hentry)
  intro hrefuses
  cases hrefuses with
  | missing hnone =>
    rw [hempty] at hnone
    cases hnone
  | repeated hrows hother _ _ =>
    rw [hempty] at hrows
    obtain rfl := Option.some.inj hrows
    cases hother

/-- A store that has a category of the same name as one of the sample. -/
def withServers : Session :=
  ((start 0).step 0 (.insert "categories" [[("id", .integer 9), ("name", .text "Servers")]])).2

theorem refuses_withServers :
    ∃ entry ∈ sampleEntries, ∃ fault, withServers.contents.Refuses entry fault := by
  have hentry : ∃ entry ∈ sampleEntries, entry.1 = .categories ∧
      Table.agree ["name"] ⟨[("name", .text "Servers")]⟩ entry.2 = true := by decide +kernel
  obtain ⟨⟨table, row⟩, hrow, rfl, hagree⟩ := hentry
  exact ⟨_, hrow, _, .repeated (rfl : withServers.contents.rows? .categories = some _)
    List.mem_cons_self (List.mem_cons_of_mem _ List.mem_cons_self) hagree⟩

theorem seed_withServers :
    (start 0).step 0 .seed = (.seeded true, ⟨(start 0).contents.added sampleEntries, .opened⟩) ∧
      ((start 0).step 0 .seed).2.step 1 .seed = (.seeded false, ((start 0).step 0 .seed).2) ∧
      ∃ fault, withServers.step 0 .seed = (serviceFailure (.database fault), withServers) := by
  obtain ⟨-, -, hloads, -, -, hlater⟩ := (Reachable.start 0).seed_outcome rfl 0
  have hseed := hloads rfl fun _ => not_refuses_start
  have hagain := hlater (by rw [hseed]) [] (by simp) (by rw [hseed, after]) 1
  rw [after] at hagain
  refine ⟨hseed, hagain, ?_⟩
  have hreachable : withServers.Reachable := .step 0 _ (.start 0)
  obtain ⟨-, -, -, hfails, -⟩ := hreachable.seed_outcome rfl 0
  obtain ⟨_, -, fault, -, hfailed⟩ := hfails rfl refuses_withServers
  exact ⟨fault, hfailed⟩

end Session
end InventorySearch.Store
