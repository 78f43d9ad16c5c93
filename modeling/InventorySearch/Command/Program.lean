import InventorySearch.Command.Config
import InventorySearch.Store.Sample

set_option autoImplicit false

/-!
# Runs of the program

What a run prints and what it leaves in the data directory, which holds the store
and need not be there. A deletion waits for the first line of the input, unless
it is confirmed before.
-/
namespace InventorySearch.Command
open Store Text

structure Site where
  surroundings : Surroundings
  data : String
  files : String → Entry
  /-- The time in microseconds. -/
  now : Int

structure Report where
  exit : Nat
  output : String
  errors : String
deriving DecidableEq, Repr

namespace Report

def success (output : String) : Report := ⟨0, output, ""⟩

def failure (message : String) : Report := ⟨1, "", "\nError: " ++ message ++ "\n\n"⟩

def ofUsage : UsageError → Report
  | .helpAsked => success "Usage: nmsquery [OPTIONS] [start | system seed | system prune [--yes]]\n"
  | .versionAsked => success "nmsquery 0.1.0\n"
  | _ => ⟨2, "", "error: the arguments are not understood; try --help\n"⟩

end Report

/-- How a run goes on after what needs no input. The store is that of the data directory. -/
inductive Outcome where
  | done (report : Report) (store : Option Database)
  | asks (question : String) (resume : String → Report × Option Database)
  | serves (settings : Settings) (store : Database)

namespace Program

def openStore (site : Site) (options : Options) (store : Option Database) :
    Except (Report × Option Database) (Settings × Database) := do
  let settings ← (Config.load site.surroundings site.files options).mapError fun e =>
    (.failure e.message, store)
  match (Work.migrate site.now).onFile (store.getD .empty) with
  | (.ok _, opened) => return (settings, opened)
  | (.error _, left) => throw (.failure "Failed to open database", some left)

def seed (site : Site) (options : Options) (store : Option Database) :
    Report × Option Database :=
  match openStore site options store with
  | .error stopped => stopped
  | .ok (_, opened) =>
    match Work.seed.onFile opened with
    | (.ok true, seeded) =>
      (.success (s!"Sample data loaded into " ++ site.data ++ "\n"), some seeded)
    | (.ok false, unchanged) =>
      (.success "Database already holds nodes; sample data not loaded.\n", some unchanged)
    | (.error _, left) => (.failure "Failed to load sample data", some left)

def isYes (answer : String) : Bool :=
  let letters := (trim answer.toList).map Char.toLower
  letters == ['y'] || letters == ['y', 'e', 's']

def prune (data : String) (confirmed : Bool) (store : Option Database) : Outcome :=
  match store with
  | none => .done (.success ("Nothing to prune: " ++ data ++ " does not exist\n")) none
  | some kept =>
    let announcement := "About to delete " ++ data ++
      " and every database in it.\nStop any running NmsQuery server first.\n"
    let deletion := "Pruned: " ++ data ++ "\n"
    if confirmed then .done (.success (announcement ++ deletion)) none
    else
      .asks (announcement ++ "\nDelete it? [y/N] ") fun answer =>
        if isYes answer then (.success deletion, none) else (.success "Aborted.\n", some kept)

def start (site : Site) (options : Options) (store : Option Database) : Outcome :=
  match openStore site options store with
  | .error (report, after) => .done report after
  | .ok (settings, opened) =>
    if Address.isAddress settings.host then .serves settings opened
    else .done (.failure "invalid IP address syntax") (some opened)

def follow (site : Site) (store : Option Database) (i : Invocation) : Outcome :=
  match i.command with
  | none | some .start => start site i.options store
  | some .seed =>
    let (report, after) := seed site i.options store
    .done report after
  | some (.prune confirmed) => prune site.data confirmed store

def run (site : Site) (environment : String → Option String) (words : List String)
    (store : Option Database) : Outcome :=
  match Invocation.read environment words with
  | .ok i => follow site store i
  | .error e => .done (.ofUsage e) store

end Program

def Outcome.conclude? (input : String) : Outcome → Option (Report × Option Database)
  | .done report store => some (report, store)
  | .asks question resume =>
    let answer := String.ofList (input.toList.takeWhile fun c => c != '\n')
    let (report, store) := resume answer
    some ({ report with output := question ++ report.output }, store)
  | .serves .. => none

end InventorySearch.Command
