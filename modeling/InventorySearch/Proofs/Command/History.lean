import InventorySearch.Command.Program
import InventorySearch.Proofs.Store.Loading
import InventorySearch.Proofs.Text.Basic

set_option autoImplicit false

/-!
# Confirmed deletions

What a deletion has to be answered with, and what a data directory holds after any
number of runs on it.
-/
namespace InventorySearch.Command
open Text

/-!
## Answers on the input

What an answer has to be for a deletion to go on: its first line is "y" or "yes" in
letters of any case, with blanks around it or none.
-/

/-! ### Yes -/

def IsFirstLine (input : String) (line : List Char) : Prop :=
  '\n' ∉ line ∧ (input.toList = line ∨ ∃ rest, input.toList = line ++ '\n' :: rest)

def IsYes (word : List Char) : Prop :=
  word.map Char.toLower = ['y'] ∨ word.map Char.toLower = ['y', 'e', 's']

/-- Having a first line that says yes between blanks. -/
def SaysYes (input : String) : Prop :=
  ∃ front word back, IsFirstLine input (front ++ word ++ back) ∧
    (∀ c ∈ front ++ back, isBlank c = true) ∧ IsYes word

theorem isFirstLine_iff {input : String} {line : List Char} :
    IsFirstLine input line ↔ input.toList.takeWhile (fun c => c != '\n') = line := by
  constructor
  · rintro ⟨hline, hinput⟩
    have hall : ∀ c ∈ line, (c != '\n') = true := fun c hc =>
      bne_iff_ne.mpr fun h => hline (h ▸ hc)
    rcases hinput with hinput | ⟨rest, hinput⟩
    · rw [hinput, List.takeWhile_eq_self_iff]
      exact hall
    · rw [hinput, List.takeWhile_append_of_pos hall, List.takeWhile_cons_of_neg (by simp),
        List.append_nil]
  · rintro rfl
    refine ⟨fun h => by simpa using List.mem_takeWhile_imp h, ?_⟩
    have hinput := List.takeWhile_append_dropWhile (p := fun c => c != '\n') (l := input.toList)
    cases hrest : input.toList.dropWhile fun c => c != '\n' with
    | nil => exact .inl (by rw [hrest, List.append_nil] at hinput; exact hinput.symm)
    | cons c rest =>
      have hc := List.head?_dropWhile_not (fun c => c != '\n') input.toList
      rw [hrest] at hc
      have hfeed : c = '\n' := by simpa using hc
      rw [hrest, hfeed] at hinput
      exact .inr ⟨rest, hinput.symm⟩

/-- A blank is the same in lower case, and none of the letters. -/
theorem isBlank_of_isYes {word : List Char} (h : IsYes word) : ∀ c ∈ word, isBlank c = false := by
  intro c hc
  by_contra hblank
  have hsame := toLower_of_isBlank (eq_true_of_ne_false hblank)
  have hmem : c ∈ word.map Char.toLower := List.mem_map.mpr ⟨c, hc, hsame⟩
  have hletter : c ∈ ['y', 'e', 's'] := by
    rcases h with h | h
    · rw [h] at hmem
      exact List.mem_append_left ['e', 's'] hmem
    · rwa [h] at hmem
  have hletters : ['y', 'e', 's'].all (fun c => !isBlank c) = true := by decide
  exact hblank (by simpa using List.all_eq_true.mp hletters c hletter)

theorem isYes_iff {answer : String} :
    Program.isYes answer = true ↔ IsYes (trim answer.toList) := by
  simp only [Program.isYes, IsYes, Bool.or_eq_true, beq_iff_eq]

theorem isYes_firstLine_iff {input : String} :
    Program.isYes (String.ofList (input.toList.takeWhile fun c => c != '\n')) = true ↔
      SaysYes input := by
  rw [isYes_iff, String.toList_ofList]
  constructor
  · intro hyes
    obtain ⟨front, back, hline, hblank⟩ :=
      exists_eq_trim (input.toList.takeWhile fun c => c != '\n')
    exact ⟨front, _, back, isFirstLine_iff.mpr hline, hblank, hyes⟩
  · rintro ⟨front, word, back, hline, hblank, hyes⟩
    have hne : word ≠ [] := by
      rintro rfl
      rcases hyes with h | h <;> cases h
    rw [isFirstLine_iff.mp hline, trim_eq hblank (isBlank_of_isYes hyes) hne]
    exact hyes

end InventorySearch.Command

namespace InventorySearch

/-!
## Runs on one data directory

What the directory holds after runs that load the sample or delete, each of them a
process of its own with any words, settings and input. A deletion happens only
where it is confirmed, and the sample is there whole and once from the first load on.
-/

namespace Store

/-! ### The sample in a file -/

/-- Being at the current version, with the rows of the sample and no others. -/
structure HoldsSample (db : Database) : Prop where
  version : db.storedVersion? = some currentVersion
  rows : ∀ table, table ≠ .schemaVersion →
    db.rows? table = some (Database.rowsFor sampleEntries table)

theorem rowsFor_schemaVersion : Database.rowsFor sampleEntries .schemaVersion = [] := by
  have hnone : (sampleEntries.filter fun entry => entry.1 = .schemaVersion) = [] :=
    List.filter_eq_nil_iff.mpr fun entry hentry => by simp [table_ne_of_mem_sampleEntries hentry]
  rw [Database.rowsFor, hnone, List.map_nil]

theorem holdsSample_start (now : Int) :
    HoldsSample ((Session.start now).contents.added sampleEntries) := by
  rw [Session.start_eq]
  constructor
  · rw [Database.storedVersion?, Database.versionRow?, Database.rowsOrNone, Database.rows?_added,
      rowsFor_schemaVersion]
    rfl
  · intro table hne
    rw [Database.rows?_added, Database.rows?_advance_of_ne _ _ _ hne]
    rfl

theorem seed_start (now : Int) :
    Work.seed.onFile (Session.start now).contents =
      (.ok true, (Session.start now).contents.added sampleEntries) := by
  have hnodes : (Session.start now).contents.rows .nodes = .ok [] := by
    rw [Session.start_eq]
    exact Database.rows_of_some (Database.rows?_advance_of_ne _ _ _ (by decide))
  rw [Work.seed_onFile, hnodes]
  rcases load_sample (Session.start now).contents with ⟨-, hload⟩ | ⟨_, hentry, fault, hrefuses, -⟩
  · simp only [hload]
    rfl
  · exact absurd hrefuses (Session.not_refuses_start hentry fault)

namespace HoldsSample

variable {db : Database} (h : HoldsSample db)
include h

theorem migrate_eq (now : Int) : (Work.migrate now).onFile db = (.ok (), db) := by
  rw [Work.migrate_onFile, Database.opening_current h.version]

theorem seed_eq : Work.seed.onFile db = (.ok false, db) := by
  obtain ⟨row, hentry⟩ := exists_node_sampleEntries
  have hrow : row ∈ Database.rowsFor sampleEntries .nodes :=
    List.mem_map.mpr ⟨_, List.mem_filter.mpr ⟨hentry, decide_eq_true rfl⟩, rfl⟩
  have hsome : ¬(Database.rowsFor sampleEntries .nodes).isEmpty = true := fun hempty =>
    List.ne_nil_of_mem hrow (List.isEmpty_iff.mp hempty)
  rw [Work.seed_onFile, Database.rows_of_some (h.rows .nodes (by decide))]
  exact if_neg hsome

end HoldsSample
end Store

namespace Command
open Store

/-! ### Runs -/

structure Launch where
  site : Site
  environment : String → Option String
  words : List String
  input : String

namespace Launch

/-- The report of the run and the store that it leaves, unless it serves. -/
def outcome? (l : Launch) (store : Option Database) : Option (Report × Option Database) :=
  (Program.run l.site l.environment l.words store).conclude? l.input

/-- The words ask for a load with settings that are valid, or for a deletion. -/
inductive Asks (l : Launch) : Subcommand → Prop
  | seed {options : Options} {settings : Settings}
      (hread : Invocation.read l.environment l.words = .ok ⟨some .seed, options⟩)
      (hload : Config.load l.site.surroundings l.site.files options = .ok settings) : Asks l .seed
  | prune {confirmed : Bool} {options : Options}
      (hread : Invocation.read l.environment l.words = .ok ⟨some (.prune confirmed), options⟩) :
      Asks l (.prune confirmed)

end Launch

def loaded (data : String) : Report := .success ("Sample data loaded into " ++ data ++ "\n")

def notLoaded : Report := .success "Database already holds nodes; sample data not loaded.\n"

namespace Launch

variable {l : Launch} {db : Database}

theorem outcome_eq {i : Invocation} (hread : Invocation.read l.environment l.words = .ok i)
    (store : Option Database) :
    l.outcome? store = (Program.follow l.site store i).conclude? l.input := by
  rw [outcome?, Program.run, hread]

theorem openStore_eq {options : Options} {settings : Settings} (store : Option Database)
    (hload : Config.load l.site.surroundings l.site.files options = .ok settings)
    (hmigrate : (Work.migrate l.site.now).onFile (store.getD .empty) = (.ok (), db)) :
    Program.openStore l.site options store = .ok (settings, db) := by
  rw [Program.openStore, hload]
  simp only [hmigrate]
  rfl

theorem seed_of_seeded {site : Site} {options : Options} {settings : Settings}
    {store : Option Database} {opened after : Database} {isNew : Bool}
    (hopen : Program.openStore site options store = .ok (settings, opened))
    (hseed : Work.seed.onFile opened = (.ok isNew, after)) :
    Program.seed site options store =
      (if isNew then loaded site.data else notLoaded, some after) := by
  rw [Program.seed, hopen]
  simp only [hseed]
  cases isNew <;> rfl

theorem outcome_seed_none (h : l.Asks .seed) :
    ∃ after, l.outcome? none = some (loaded l.site.data, some after) ∧ HoldsSample after := by
  refine ⟨_, ?_, holdsSample_start l.site.now⟩
  cases h with
  | seed hread hload =>
    have hmigrate : (Work.migrate l.site.now).onFile Database.empty =
        (.ok (), (Session.start l.site.now).contents) := by
      rw [Work.migrate_onFile, Session.start_eq]
      rfl
    rw [outcome_eq hread, Program.follow]
    dsimp only
    rw [seed_of_seeded (openStore_eq none hload hmigrate) (seed_start _)]
    rfl

theorem outcome_seed_some (h : l.Asks .seed) (hdb : HoldsSample db) :
    l.outcome? (some db) = some (notLoaded, some db) := by
  cases h with
  | seed hread hload =>
    rw [outcome_eq hread, Program.follow]
    dsimp only
    rw [seed_of_seeded (openStore_eq (some db) hload (hdb.migrate_eq _)) hdb.seed_eq]
    rfl

theorem outcome_prune_none {confirmed : Bool} (h : l.Asks (.prune confirmed)) :
    ∃ report, l.outcome? none = some (report, none) := by
  cases h with
  | prune hread =>
    rw [outcome_eq hread]
    exact ⟨_, rfl⟩

theorem outcome_prune_some {confirmed : Bool} (h : l.Asks (.prune confirmed)) (db : Database) :
    ∃ report after, l.outcome? (some db) = some (report, after) ∧
      (confirmed = true ∨ SaysYes l.input → after = none) ∧
      (¬(confirmed = true ∨ SaysYes l.input) → after = some db) := by
  cases h with
  | prune hread =>
    rw [outcome_eq hread, Program.follow]
    simp only [Program.prune]
    cases confirmed with
    | true => exact ⟨_, _, rfl, fun _ => rfl, fun hnot => absurd (.inl rfl) hnot⟩
    | false =>
      simp only [Bool.false_eq_true, if_false, false_or, Outcome.conclude?]
      by_cases hyes : SaysYes l.input
      · rw [if_pos (isYes_firstLine_iff.mpr hyes)]
        exact ⟨_, _, rfl, fun _ => rfl, fun hnot => absurd hyes hnot⟩
      · rw [if_neg (mt isYes_firstLine_iff.mp hyes)]
        exact ⟨_, _, rfl, fun hsays => absurd hsays hyes, fun _ => rfl⟩

end Launch

/-! ### Histories -/

structure Event where
  task : Subcommand
  input : String
  before : Option Database
  report : Report
  after : Option Database

def Event.Deletes (e : Event) : Prop :=
  (∃ confirmed, e.task = .prune confirmed) ∧ e.before.isSome = true ∧ e.after = none

/-- Some load has run since the start, or since the last run that deletes. -/
def SeededSince (events : List Event) : Prop :=
  ∃ past e rest, events = past ++ e :: rest ∧ e.task = .seed ∧ ∀ later ∈ rest, ¬later.Deletes

/-- Runs after one another on a data directory that is not there at first, and what they leave. -/
inductive History (data : String) : List Event → Option Database → Prop
  | start : History data [] none
  | run {events : List Event} {store : Option Database} (h : History data events store)
      {l : Launch} (hdata : l.site.data = data) {task : Subcommand} (hasks : l.Asks task)
      {report : Report} {after : Option Database}
      (houtcome : l.outcome? store = some (report, after)) :
      History data (events ++ [⟨task, l.input, store, report, after⟩]) after

theorem not_seededSince_nil : ¬SeededSince [] := by
  rintro ⟨past, e, rest, hevents, -⟩
  exact List.append_ne_nil_of_right_ne_nil past (List.cons_ne_nil e rest) hevents.symm

theorem seededSince_append_iff {events : List Event} {e : Event} :
    SeededSince (events ++ [e]) ↔ e.task = .seed ∨ SeededSince events ∧ ¬e.Deletes := by
  constructor
  · rintro ⟨past, seeding, rest, hevents, hseed, hrest⟩
    rcases List.eq_nil_or_concat rest with rfl | ⟨rest, last, rfl⟩
    · obtain ⟨-, hlast⟩ := List.append_inj' hevents rfl
      exact .inl ((List.cons.inj hlast).1 ▸ hseed)
    · rw [List.concat_eq_append, ← List.cons_append, ← List.append_assoc] at hevents
      rw [List.concat_eq_append] at hrest
      obtain ⟨rfl, hlast⟩ := List.append_inj' hevents rfl
      obtain rfl := (List.cons.inj hlast).1
      refine .inr ⟨⟨past, seeding, rest, rfl, hseed, fun later hin => ?_⟩, ?_⟩
      · exact hrest later (List.mem_append_left _ hin)
      · exact hrest e (List.mem_append_right _ (List.mem_singleton_self e))
  · rintro (hseed | ⟨⟨past, seeding, rest, rfl, hseed, hrest⟩, hkeeps⟩)
    · exact ⟨events, e, [], rfl, hseed, by simp⟩
    · refine ⟨past, seeding, rest ++ [e], by simp, hseed, fun later hlater => ?_⟩
      rcases List.mem_append.mp hlater with hin | hlast
      · exact hrest later hin
      · exact List.mem_singleton.mp hlast ▸ hkeeps

/-- Being as the runs before tell: the directory is there if the sample has been loaded since the
last deletion, is deleted where that is confirmed, and is loaded once. -/
structure Event.Follows (data : String) (past : List Event) (e : Event) : Prop where
  there_iff : e.after.isSome = true ↔ SeededSince (past ++ [e])
  sample : ∀ db, e.after = some db → HoldsSample db
  prune : ∀ confirmed, e.task = .prune confirmed →
    (e.Deletes ↔ e.before.isSome = true ∧ (confirmed = true ∨ SaysYes e.input)) ∧
      (¬e.Deletes → e.after = e.before)
  seed : e.task = .seed →
    (e.report = loaded data ↔ ¬SeededSince past) ∧
      (SeededSince past → e.report = notLoaded ∧ e.after = e.before)

/-- What is known between runs. -/
structure Kept (past : List Event) (store : Option Database) : Prop where
  there_iff : store.isSome = true ↔ SeededSince past
  sample : ∀ db, store = some db → HoldsSample db

theorem notLoaded_ne_loaded (data : String) : notLoaded ≠ loaded data := by
  intro h
  have hfirst := congrArg (fun report : Report => report.output.toList.head?) h
  have hloaded : ("Sample data loaded into " ++ data ++ "\n").toList.head? = some 'S' := by
    rw [String.toList_append, String.toList_append]
    rfl
  have hnot : notLoaded.output.toList.head? = some 'D' := rfl
  cases hnot.symm.trans (hfirst.trans hloaded)

namespace Kept

variable {past : List Event} {l : Launch}

theorem follows_of_prune {data : String} {e : Event} (h : Kept past e.before) {confirmed : Bool}
    (htask : e.task = .prune confirmed)
    (hdeletes : e.Deletes ↔ e.before.isSome = true ∧ (confirmed = true ∨ SaysYes e.input))
    (hleaves : ¬e.Deletes → e.after = e.before) : e.Follows data past := by
  have hseed : e.task ≠ .seed := fun hseed => by rw [htask] at hseed; cases hseed
  refine ⟨?_, ?_, ?_, fun hseeding => absurd hseeding hseed⟩
  · rw [seededSince_append_iff, or_iff_right hseed]
    by_cases hgone : e.Deletes
    · rw [hgone.2.2]
      exact iff_of_false Bool.false_ne_true fun hkept => hkept.2 hgone
    · rw [hleaves hgone, h.there_iff]
      exact (and_iff_left hgone).symm
  · intro db hdb
    by_cases hgone : e.Deletes
    · rw [hgone.2.2] at hdb
      cases hdb
    · exact h.sample db (hleaves hgone ▸ hdb)
  · intro asked hasked
    obtain rfl := Subcommand.prune.inj (htask.symm.trans hasked)
    exact ⟨hdeletes, hleaves⟩

theorem next_seed {store : Option Database} (h : Kept past store) (hasks : l.Asks .seed) :
    ∃ report after, l.outcome? store = some (report, after) ∧
      Event.Follows l.site.data past ⟨.seed, l.input, store, report, after⟩ := by
  have hseeds (before after : Option Database) (report : Report) :
      SeededSince (past ++ [⟨.seed, l.input, before, report, after⟩]) :=
    seededSince_append_iff.mpr (.inl rfl)
  cases store with
  | none =>
    obtain ⟨after, houtcome, hafter⟩ := Launch.outcome_seed_none hasks
    have hnot : ¬SeededSince past := mt h.there_iff.mpr (by decide)
    refine ⟨_, _, houtcome, iff_of_true rfl (hseeds ..), ?_, fun _ htask => (by cases htask), ?_⟩
    · intro db hdb
      exact Option.some.inj hdb ▸ hafter
    · exact fun _ => ⟨iff_of_true rfl hnot, fun hseeded => absurd hseeded hnot⟩
  | some db =>
    have hdb := h.sample db rfl
    have hseeded : SeededSince past := h.there_iff.mp rfl
    refine ⟨_, _, Launch.outcome_seed_some hasks hdb, iff_of_true rfl (hseeds ..), h.sample,
      fun _ htask => (by cases htask), fun _ => ⟨?_, fun _ => ⟨rfl, rfl⟩⟩⟩
    exact iff_of_false (notLoaded_ne_loaded _) fun hnot => hnot hseeded

theorem next_prune {store : Option Database} (h : Kept past store) {confirmed : Bool}
    (hasks : l.Asks (.prune confirmed)) :
    ∃ report after, l.outcome? store = some (report, after) ∧
      Event.Follows l.site.data past ⟨.prune confirmed, l.input, store, report, after⟩ := by
  cases store with
  | none =>
    obtain ⟨report, houtcome⟩ := Launch.outcome_prune_none hasks
    refine ⟨_, _, houtcome, h.follows_of_prune rfl ?_ fun _ => rfl⟩
    exact iff_of_false (fun hgone => Bool.false_ne_true hgone.2.1) fun hthere =>
      Bool.false_ne_true hthere.1
  | some db =>
    obtain ⟨report, after, houtcome, hyes, hno⟩ := Launch.outcome_prune_some hasks db
    refine ⟨_, _, houtcome, h.follows_of_prune rfl ?_ ?_⟩
    · constructor
      · intro hgone
        by_contra hnot
        cases (hno fun hsays => hnot ⟨rfl, hsays⟩).symm.trans hgone.2.2
      · exact fun hthere => ⟨⟨confirmed, rfl⟩, rfl, hyes hthere.2⟩
    · exact fun hstays => hno fun hsays => hstays ⟨⟨confirmed, rfl⟩, rfl, hyes hsays⟩

theorem next {store : Option Database} (h : Kept past store) {task : Subcommand}
    (hasks : l.Asks task) :
    ∃ report after, l.outcome? store = some (report, after) ∧
      Event.Follows l.site.data past ⟨task, l.input, store, report, after⟩ := by
  cases hasks with
  | seed hread hload => exact h.next_seed (.seed hread hload)
  | prune hread => exact h.next_prune (.prune hread)

end Kept

namespace History

variable {data : String} {past : List Event} {before : Option Database}

theorem kept (h : History data past before) : Kept past before := by
  induction h with
  | start =>
    exact ⟨iff_of_false Bool.false_ne_true not_seededSince_nil, fun db hdb => by cases hdb⟩
  | run _ _ hasks houtcome ih =>
    obtain ⟨report, after, hnext, hfollows⟩ := ih.next hasks
    cases houtcome.symm.trans hnext
    exact ⟨hfollows.there_iff, hfollows.sample⟩

/-- After any runs the next one ends, and is as they tell. The directory is there, with the sample
in it, if it has been loaded since the start or the last deletion. It is deleted where it is there
and that is confirmed, by the words or by the input. The sample is loaded by the first run that
asks for it. Nothing else changes. -/
theorem next_follows (h : History data past before) {l : Launch} (hdata : l.site.data = data)
    {task : Subcommand} (hasks : l.Asks task) :
    ∃ report after, l.outcome? before = some (report, after) ∧
      Event.Follows data past ⟨task, l.input, before, report, after⟩ := by
  rw [← hdata]
  exact h.kept.next hasks

/-! A load, and then a deletion that the input declines and one that it confirms. -/

def launch (words : List String) (input : String) : Launch :=
  ⟨⟨⟨['/'], none⟩, "/data", fun _ => .missing, 0⟩, fun _ => none, words, input⟩

theorem asks_seed : (launch ["system", "seed"] "").Asks .seed := by
  have hread : Invocation.read (fun _ => none) ["system", "seed"] = .ok ⟨some .seed, .empty⟩ := by
    decide +kernel
  have hload : Config.load ⟨['/'], none⟩ (fun _ => .missing) .empty =
      .ok ⟨"127.0.0.1", 8980, ⟨10, 1000⟩, 30⟩ := by decide +kernel
  exact .seed hread hload

theorem asks_prune (input : String) : (launch ["system", "prune"] input).Asks (.prune false) := by
  have hread : Invocation.read (fun _ => none) ["system", "prune"] =
      .ok ⟨some (.prune false), .empty⟩ := by decide +kernel
  exact .prune hread

theorem next_prune_seeded :
    ∃ db, History "/data" [⟨.seed, "", none, loaded "/data", some db⟩] (some db) ∧
      (∃ report, (launch ["system", "prune"] "no\ny\n").outcome? (some db) =
        some (report, some db)) ∧
      ∃ report, (launch ["system", "prune"] " Yes\n").outcome? (some db) = some (report, none) := by
  obtain ⟨report, after, houtcome, hseeded⟩ := next_follows .start rfl asks_seed
  obtain rfl : report = loaded "/data" := (hseeded.seed rfl).1.mpr not_seededSince_nil
  obtain ⟨db, rfl⟩ := Option.isSome_iff_exists.mp
    (hseeded.there_iff.mpr (seededSince_append_iff.mpr (.inl rfl)))
  have hpast : History "/data" [⟨.seed, "", none, loaded "/data", some db⟩] (some db) :=
    run .start rfl asks_seed houtcome
  refine ⟨db, hpast, ?_, ?_⟩
  · obtain ⟨report, after, houtcome, hfollows⟩ := next_follows hpast rfl (asks_prune "no\ny\n")
    obtain ⟨hdeletes, hleaves⟩ := hfollows.prune false rfl
    have hno : ¬SaysYes "no\ny\n" := mt isYes_firstLine_iff.mpr (by decide +kernel)
    obtain rfl : after = some db := hleaves fun hgone =>
      (hdeletes.mp hgone).2.elim Bool.false_ne_true hno
    exact ⟨report, houtcome⟩
  · obtain ⟨report, after, houtcome, hfollows⟩ := next_follows hpast rfl (asks_prune " Yes\n")
    have hyes : SaysYes " Yes\n" := isYes_firstLine_iff.mp (by decide +kernel)
    obtain rfl : after = none := ((hfollows.prune false rfl).1.mpr ⟨rfl, .inr hyes⟩).2.2
    exact ⟨report, houtcome⟩

end History

end Command

end InventorySearch
