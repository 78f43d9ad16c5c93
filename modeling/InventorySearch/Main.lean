import InventorySearch.Api.Exchange
import InventorySearch.Command.Program

set_option autoImplicit false

/-!
# The program

Reads what a run needs from its surroundings, runs it, and keeps what it leaves.
A server reads requests from its input and answers them on its output; the
addresses are for a listener in front of it.
-/
namespace InventorySearch.Shell
open Api Command Store

def archivePath (data : String) : String := data ++ "/store.json"

def isThere (path : String) : IO Bool := do
  try
    discard (IO.FS.realPath path)
    return true
  catch _ => return false

def entryAt (path : String) : IO Entry := do
  try
    return .text (← IO.FS.readFile path)
  catch _ => return if ← isThere path then .unreadable else .missing

def surroundings : IO Surroundings := do
  let home? := (← IO.getEnv "HOME").map String.toList
  return ⟨(← IO.currentDir).toString.toList, home?⟩

def dataPath (s : Surroundings) : IO String := do
  if let some path ← IO.getEnv "NMSQUERY_DATA_DIR" then return s.expandText path
  if let some base ← IO.getEnv "XDG_DATA_HOME" then return base ++ "/nmsquery"
  return s.expandText (if s.home?.isSome then "~/.local/share/nmsquery" else ".nmsquery")

def environment : IO (List (String × String)) := do
  let found ← OptionName.all.mapM fun option => do
    return (option.variableName, ← IO.getEnv option.variableName)
  return found.filterMap fun (name, value) => value.map fun v => (name, v)

def files (s : Surroundings) (options : Options) : IO (String → Entry) := do
  let paths := Config.mainPath s options :: (Config.profilePath? s).toList
  let found ← paths.mapM fun path => return (path, ← entryAt path)
  return fun path => (found.lookup path).getD .missing

def load (data : String) : IO (Option Database) := do
  if !(← isThere data) then return none
  match ← entryAt (archivePath data) with
  | .text content =>
    match Database.ofArchive? content with
    | some db => return some db
    | none => throw (IO.userError "Failed to open database")
  | _ => return some .empty

def keep (data : String) (store : Option Database) : IO Unit := do
  match store with
  | some db =>
    IO.FS.createDirAll data
    IO.FS.writeFile (archivePath data) db.archive
  | none => if ← isThere data then IO.FS.removeDirAll data

def finish (data : String) (report : Report) (store : Option Database) : IO UInt32 := do
  keep data store
  IO.print report.output
  IO.eprint report.errors
  return report.exit.toUInt32

partial def readLines (input : IO.FS.Stream) : IO (List String) := do
  let line := (← input.getLine).trimAsciiEnd.toString
  if line.isEmpty then return []
  return line :: (← readLines input)

partial def serve (session : Session) (settings : Settings) (allowed : List String) : IO Unit := do
  match HttpRequest.ofLines? (← readLines (← IO.getStdin)) with
  | some request =>
    IO.print (answer ⟨session, none⟩ settings.limits allowed request).render
    (← IO.getStdout).flush
    serve session settings allowed
  | none => return

def run (words : List String) : IO UInt32 := do
  let s ← surroundings
  let data ← dataPath s
  let found ← environment
  let environment := fun name => found.lookup name
  let options :=
    match Invocation.read environment words with
    | .ok i => i.options
    | .error _ => .empty
  let now := (← IO.monoNanosNow) / 1000
  let site : Site := ⟨s, data, ← files s options, now⟩
  match Program.run site environment words (← load data) with
  | .done report store => finish data report store
  | .asks question resume =>
    IO.print question
    (← IO.getStdout).flush
    let (report, store) := resume (← (← IO.getStdin).getLine)
    finish data report store
  | .serves settings store =>
    keep data (some store)
    serve ⟨store, .opened⟩ settings (allowedOrigins [] settings.host settings.portNumber)
    return 0

end InventorySearch.Shell

def main (args : List String) : IO UInt32 := InventorySearch.Shell.run args
