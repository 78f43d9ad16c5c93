import InventorySearch.Text.Basic

set_option autoImplicit false

/-!
# The command line

The options of the program, and what the words after its name ask for.
-/
namespace InventorySearch.Command
open Text

/-!
## Options

The values that users may set, in words of the command line, in the environment
or in files, and how several sources are laid over each other: each value comes
from the first source that sets it.
-/

structure Layer where
  host : Option String
  portNumber : Option Nat
  defaultLimit : Option Nat
  maxLimit : Option Nat
  timeout : Option Nat
deriving DecidableEq, Repr

namespace Layer

def empty : Layer := ⟨none, none, none, none, none⟩

def above (upper lower : Layer) : Layer where
  host := upper.host.or lower.host
  portNumber := upper.portNumber.or lower.portNumber
  defaultLimit := upper.defaultLimit.or lower.defaultLimit
  maxLimit := upper.maxLimit.or lower.maxLimit
  timeout := upper.timeout.or lower.timeout

end Layer

def maxPort : Nat := 0xFFFF
def maxLimitValue : Nat := 0xFFFFFFFF
def maxTimeout : Nat := 0xFFFFFFFFFFFFFFFF

structure Options where
  layer : Layer
  config : Option String
deriving DecidableEq, Repr

inductive OptionName where
  | host | portNumber | config | defaultLimit | maxLimit | timeout
deriving DecidableEq, Repr

namespace OptionName

/-- All options, in the order in which the environment is read. -/
def all : List OptionName := [.host, .portNumber, .config, .defaultLimit, .maxLimit, .timeout]

def long : OptionName → String
  | .host => "host"
  | .portNumber => "port"
  | .config => "config"
  | .defaultLimit => "query-default-limit"
  | .maxLimit => "query-max-limit"
  | .timeout => "query-timeout-secs"

def ofLong? (name : String) : Option OptionName := all.find? fun o => o.long == name

def ofShort? : Char → Option OptionName
  | 'H' => some .host
  | 'p' => some .portNumber
  | 'c' => some .config
  | _ => none

def variableName : OptionName → String
  | .host => "NMSQUERY_HOST"
  | .portNumber => "NMSQUERY_PORT"
  | .config => "NMSQUERY_CONFIG"
  | .defaultLimit => "NMSQUERY_QUERY_DEFAULT_LIMIT"
  | .maxLimit => "NMSQUERY_QUERY_MAX_LIMIT"
  | .timeout => "NMSQUERY_QUERY_TIMEOUT_SECS"

end OptionName

inductive ValueFault where
  | empty
  | notInRange
deriving DecidableEq, Repr

/-- A number of at most 32 bits: any numeral of 64 bits whose value is in range, so zero may
have a minus sign. -/
def smallNumber? (max : Nat) (text : String) : Option Nat :=
  (Numeral.int64? text).bind fun n => if 0 ≤ n ∧ n ≤ max then some n.toNat else none

namespace Options

def empty : Options := ⟨.empty, none⟩

def isSet (o : Options) : OptionName → Bool
  | .host => o.layer.host.isSome
  | .portNumber => o.layer.portNumber.isSome
  | .config => o.config.isSome
  | .defaultLimit => o.layer.defaultLimit.isSome
  | .maxLimit => o.layer.maxLimit.isSome
  | .timeout => o.layer.timeout.isSome

def above (upper lower : Options) : Options :=
  ⟨upper.layer.above lower.layer, upper.config.or lower.config⟩

private def setNumber (max : Nat) (text : String) (put : Nat → Options) :
    Except ValueFault Options :=
  match smallNumber? max text with
  | some n => .ok (put n)
  | none => .error .notInRange

def set (o : Options) (name : OptionName) (text : String) : Except ValueFault Options :=
  match name with
  | .host => .ok { o with layer.host := some text }
  | .portNumber => setNumber maxPort text fun n => { o with layer.portNumber := some n }
  | .config => if text.isEmpty then .error .empty else .ok { o with config := some text }
  | .defaultLimit => setNumber maxLimitValue text fun n => { o with layer.defaultLimit := some n }
  | .maxLimit => setNumber maxLimitValue text fun n => { o with layer.maxLimit := some n }
  | .timeout =>
    match Numeral.natural maxTimeout text.toList with
    | .ok n => .ok { o with layer.timeout := some n }
    | .error _ => .error .notInRange

def fill (o : Options) (environment : String → Option String) : Except ValueFault Options :=
  OptionName.all.foldlM (fun o name =>
    if o.isSet name then .ok o
    else
      match environment name.variableName with
      | some text => o.set name text
      | none => .ok o) o

end Options

/-!
## Invocations

What the words of a command line ask for. Words are read on levels: each
subcommand opens a level of its own, and every level takes all options. A value
that stands in a word of its own is looked at only when the next option comes or
the level ends, so that other faults may come before its own.
-/

inductive Subcommand where
  | start
  | seed
  | prune (confirmed : Bool)
deriving DecidableEq, Repr

structure Invocation where
  /-- Without a command the server is started. -/
  command : Option Subcommand
  options : Options
deriving DecidableEq, Repr

inductive UsageError where
  | helpAsked
  | helpNeeded
  | versionAsked
  | missingSubcommand
  | unknownSubcommand
  | unknownArgument
  | missingValue
  | invalidValue
  | unwantedValue
  | repeatedArgument
deriving DecidableEq, Repr

def UsageError.ofValue : ValueFault → UsageError
  | .empty => .missingValue
  | .notInRange => .invalidValue

inductive Level where
  | top | start | system | seed | prune
deriving DecidableEq, Repr

namespace Level

def subcommand? : Level → String → Option Level
  | .top, "start" => some .start
  | .top, "system" => some .system
  | .system, "seed" => some .seed
  | .system, "prune" => some .prune
  | _, _ => none

def hasSubcommands (level : Level) : Bool := level = .top ∨ level = .system

def knows (level : Level) (word : String) : Bool :=
  level.hasSubcommands && (word == "help" || (level.subcommand? word).isSome)

def help (level : Level) : List String → UsageError
  | [] => .helpAsked
  | word :: rest =>
    match level.subcommand? word with
    | some sub => sub.help rest
    | none =>
      if level.hasSubcommands ∧ word = "help" ∧ rest = [] then .helpAsked else .unknownSubcommand

def unexpected (level : Level) (afterDashes : Bool) (word : String) : UsageError :=
  if level.hasSubcommands ∧ ¬(afterDashes ∧ level.knows word) then .unknownSubcommand
  else .unknownArgument

end Level

structure Reading where
  options : Options
  confirmed : Bool
  /-- The last option and its value, if they are not looked at yet. -/
  pending : Option (OptionName × Option String)

namespace Reading

def empty : Reading := ⟨.empty, false, none⟩

/-- The option that takes the next word as its value, unless that word starts an option. -/
def awaitsValue (r : Reading) : Option OptionName :=
  match r.pending with
  | some (name, none) => some name
  | _ => none

def set (r : Reading) (name : OptionName) (text : String) : Except UsageError Reading :=
  if r.options.isSet name then .error .repeatedArgument
  else
    match r.options.set name text with
    | .ok options => .ok { r with options }
    | .error fault => .error (.ofValue fault)

def settle (r : Reading) : Except UsageError Reading :=
  match r.pending with
  | none => .ok r
  | some (_, none) => .error .missingValue
  | some (name, some text) => { r with pending := none }.set name text

def option (r : Reading) (name : OptionName) (attached : Option String) :
    Except UsageError Reading := do
  let r ← r.settle
  match attached with
  | some text => r.set name text
  | none => return { r with pending := some (name, none) }

def confirm (r : Reading) : Except UsageError Reading := do
  let r ← r.settle
  if r.confirmed then throw .repeatedArgument
  return { r with confirmed := true }

def stop (r : Reading) (reason : UsageError) : Except UsageError Reading :=
  r.settle.bind fun _ => .error reason

def long (r : Reading) (level : Level) (body : String) : Except UsageError Reading :=
  let (name, attached) :=
    match cut? '=' body with
    | some (name, value) => (name, some value)
    | none => (body, none)
  let flag (action : Except UsageError Reading) : Except UsageError Reading :=
    if attached.isSome then .error .unwantedValue else action
  match name, level with
  | "help", _ => flag (r.stop .helpAsked)
  | "version", .top => flag (r.stop .versionAsked)
  | "yes", .prune => flag r.confirm
  | name, _ =>
    match OptionName.ofLong? name with
    | some option => r.option option attached
    | none => .error .unknownArgument

/-- A word after one dash: flags, up to an option that takes the rest as its value. -/
def short (r : Reading) (level : Level) : List Char → Except UsageError Reading
  | [] => .ok r
  | c :: cs =>
    match c, level with
    | 'h', _ => r.stop .helpAsked
    | 'V', .top => r.stop .versionAsked
    | 'y', .prune => r.confirm.bind fun r => r.short level cs
    | c, _ =>
      match OptionName.ofShort? c, cs with
      | some option, [] => r.option option none
      | some option, '=' :: value => r.option option (some (String.ofList value))
      | some option, value => r.option option (some (String.ofList value))
      | none, _ => .error .unknownArgument

def word (r : Reading) (level : Level) (word : String) : Except UsageError Reading :=
  match word.toList, r.awaitsValue with
  | '-' :: '-' :: body, _ => r.long level (String.ofList body)
  | '-' :: c :: cs, _ => r.short level (c :: cs)
  | _, some name => .ok { r with pending := some (name, some word) }
  | _, none => .error (level.unexpected false word)

end Reading

structure Said where
  given : Options
  level : Level
  confirmed : Bool

/-- The end of a level. Each level looks at the environment for the options that it lacks. -/
def Reading.finish (r : Reading) (environment : String → Option String) (level : Level)
    (below : Option Said) : Except UsageError Said := do
  let r ← r.settle
  let filled ← (r.options.fill environment).mapError .ofValue
  match below with
  | some said => return { said with given := said.given.above r.options }
  | none =>
    if level = .system then
      throw (if OptionName.all.any filled.isSet then .missingSubcommand else .helpNeeded)
    return ⟨r.options, level, r.confirmed⟩

def readLevel (environment : String → Option String) (level : Level) (r : Reading) :
    List String → Except UsageError Said
  | [] => r.finish environment level none
  | "--" :: [] => r.finish environment level none
  | "--" :: word :: _ => .error (level.unexpected true word)
  | word :: rest =>
    if r.awaitsValue.isSome then
      (r.word level word).bind fun r => readLevel environment level r rest
    else if level.hasSubcommands ∧ word = "help" then .error (level.help rest)
    else
      match level.subcommand? word with
      | some sub =>
        (readLevel environment sub .empty rest).bind fun said =>
          r.finish environment level (some said)
      | none => (r.word level word).bind fun r => readLevel environment level r rest

def Said.command (said : Said) : Option Subcommand :=
  match said.level with
  | .start => some .start
  | .seed => some .seed
  | .prune => some (.prune said.confirmed)
  | .top | .system => none

def Invocation.read (environment : String → Option String) (words : List String) :
    Except UsageError Invocation := do
  let said ← readLevel environment .top .empty words
  let options ← (said.given.fill environment).mapError .ofValue
  return ⟨said.command, options⟩

end InventorySearch.Command
