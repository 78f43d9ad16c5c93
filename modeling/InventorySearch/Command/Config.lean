import InventorySearch.Api.Request
import InventorySearch.Command.Invocation

set_option autoImplicit false

/-!
# Paths and configuration

The settings that a server runs with, and the paths that are written in them.
-/
namespace InventorySearch.Command

/-!
## Paths

Paths as users write them, and the absolute paths that they mean. A leading tilde
stands for the home directory, and a relative path starts at the current one.
Nothing is looked up, and dots are kept.
-/

namespace Path
open Text

def isAbsolute (path : List Char) : Bool := path.head? == some '/'

def join (base path : List Char) : List Char :=
  if isAbsolute path then path
  else if base.getLast?.any fun c => c != '/' then base ++ '/' :: path
  else base ++ path

/-- The steps from the root, or from the start of a relative path. Empty steps and dots are no
steps, but a dot at the start of a relative path is one. -/
def components (path : List Char) : List (List Char) :=
  let pieces := path.splitOn '/'
  let steps := pieces.filter fun piece => piece != [] && piece != ['.']
  if isAbsolute path then ['/'] :: steps
  else if pieces.head? == some ['.'] then ['.'] :: steps
  else steps

end Path

structure Surroundings where
  current : List Char
  home? : Option (List Char)
deriving DecidableEq, Repr

namespace Surroundings
open InventorySearch.Command.Path Text

/-- The path with a leading tilde replaced. A tilde before a user's name is a plain character. -/
def withoutTilde (s : Surroundings) (path : List Char) : List Char :=
  match s.home?, path with
  | some home, ['~'] => home
  | some home, '~' :: '/' :: rest => join home rest
  | _, path => path

def expand (s : Surroundings) (text : List Char) : List Char :=
  match trim text with
  | [] => s.current
  | path =>
    let expanded := s.withoutTilde path
    if isAbsolute expanded then expanded else join s.current expanded

def expandText (s : Surroundings) (text : String) : String :=
  String.ofList (s.expand text.toList)

end Surroundings

/-!
## Configuration

The settings that a server runs with. Options come before the file that they name
or the local file, that before the file in the home directory, and all before the
defaults. Only the outcome is checked, so a bad value that another one hides does
no harm.
-/

open Text

structure Settings where
  host : String
  portNumber : Nat
  limits : Api.Limits
  /-- The longest time for a search, in seconds. -/
  timeout : Nat
deriving DecidableEq, Repr

inductive SettingsFault where
  | emptyHost
  | zeroPort
  | zeroMaxLimit
  | defaultLimitOutOfRange (default max : Nat)
  | zeroTimeout
deriving DecidableEq, Repr

def SettingsFault.reason : SettingsFault → String
  | .emptyHost => "server.host must not be empty"
  | .zeroPort => "server.port must be greater than 0"
  | .zeroMaxLimit => "query.max_limit must be greater than 0"
  | .defaultLimitOutOfRange default max =>
    s!"query.default_limit ({default}) must be between 1 and query.max_limit ({max})"
  | .zeroTimeout => "query.timeout_secs must be greater than 0"

namespace Settings

def ofLayer (l : Layer) : Settings where
  host := l.host.getD "127.0.0.1"
  portNumber := l.portNumber.getD 8980
  limits := ⟨l.defaultLimit.getD 10, l.maxLimit.getD 1000⟩
  timeout := l.timeout.getD 30

def fault? (s : Settings) : Option SettingsFault :=
  if s.host.isEmpty then some .emptyHost
  else if s.portNumber = 0 then some .zeroPort
  else if s.limits.max = 0 then some .zeroMaxLimit
  else if s.limits.default = 0 ∨ s.limits.max < s.limits.default then
    some (.defaultLimitOutOfRange s.limits.default s.limits.max)
  else if s.timeout = 0 then some .zeroTimeout
  else none

end Settings

/-! ### Files -/

namespace Layer

/-- The member under a name, which an object may have once. -/
def member? (members : List (Option String × JsonNode)) (name : String) :
    Option (Option JsonNode) :=
  match members.filter fun m => m.1 == some name with
  | [] => some none
  | [m] => some (some m.2)
  | _ => none

/-- The named values of a section: an object, or a list of all of them. Other members may hold
anything. -/
def section? (names : List String) : JsonNode → Option (List (Option JsonNode))
  | .null => some (names.map fun _ => none)
  | .object members =>
    if members.all fun m => m.1.isSome then names.mapM (member? members) else none
  | .array items => if items.length = names.length then some (items.map some) else none
  | _ => none

def value? {α : Type} (read? : JsonNode → Option α) : Option JsonNode → Option (Option α)
  | none => some none
  | some node => if node.isNull then some none else (read? node).map some

def text? : JsonNode → Option String
  | .text characters => characters
  | _ => none

def number? (max : Nat) (node : JsonNode) : Option Nat :=
  node.integer?.bind fun n => if 0 ≤ n ∧ n ≤ max then some n.toNat else none

/-- The deepest containers that a member without a meaning may hold. -/
def maxDepth : Nat := 126

def isIgnorable (m : Option String × JsonNode) : Bool :=
  m.1 == some "server" || m.1 == some "query" || (m.1.isSome && m.2.isSound maxDepth)

def ofNode? : JsonNode → Option Layer
  | .object members => do
    guard (members.all isIgnorable)
    let server := (← member? members "server").getD .null
    let query := (← member? members "query").getD .null
    match ← section? ["host", "port"] server,
        ← section? ["default_limit", "max_limit", "timeout_secs"] query with
    | [host, portNumber], [defaultLimit, maxLimit, timeout] =>
      return ⟨← value? text? host, ← value? (number? maxPort) portNumber,
        ← value? (number? maxLimitValue) defaultLimit, ← value? (number? maxLimitValue) maxLimit,
        ← value? (number? maxTimeout) timeout⟩
    | _, _ => none
  | _ => none

def ofText? (content : String) : Option Layer := (JsonNode.read? content).bind ofNode?

end Layer

inductive Entry where
  | missing
  | unreadable
  | text (content : String)
deriving DecidableEq, Repr

inductive ConfigError where
  | notFound (path : String)
  | unreadable (path : String)
  | invalid (path : String)
  | settings (fault : SettingsFault)
deriving DecidableEq, Repr

def ConfigError.message : ConfigError → String
  | .notFound path => "Config file not found: " ++ path
  | .unreadable path => "Cannot read config file " ++ path
  | .invalid path => "Invalid JSON in config file " ++ path
  | .settings fault => "Invalid configuration: " ++ fault.reason

namespace Config

def localName : String := "nmsquery.json"

def profilePath? (s : Surroundings) : Option String :=
  s.home?.map fun home => String.ofList (Path.join home (".nmsquery/" ++ localName).toList)

def mainPath (s : Surroundings) (options : Options) : String :=
  match options.config with
  | some path => s.expandText path
  | none => localName

def readFile (files : String → Entry) (path : String) : Except ConfigError Layer :=
  match files path with
  | .missing => .ok .empty
  | .unreadable => .error (.unreadable path)
  | .text content =>
    match Layer.ofText? content with
    | some layer => .ok layer
    | none => .error (.invalid path)

def readFiles (s : Surroundings) (files : String → Entry) (options : Options) :
    Except ConfigError Layer := do
  let profile ←
    match profilePath? s with
    | some path => readFile files path
    | none => pure .empty
  let path := mainPath s options
  if options.config.isSome ∧ files path = .missing then throw (.notFound path)
  return (← readFile files path).above profile

def load (s : Surroundings) (files : String → Entry) (options : Options) :
    Except ConfigError Settings := do
  let settings := Settings.ofLayer (options.layer.above (← readFiles s files options))
  match settings.fault? with
  | some fault => throw (.settings fault)
  | none => return settings

end Config

end InventorySearch.Command
