import InventorySearch.Text.Basic

set_option autoImplicit false

/-!
# JSON

JSON as it is written here, with integers only, and as it is read, with numbers kept
as they stand in the text.
-/
namespace InventorySearch.Text

/-!
## JSON values

Values with ordered members, and their text without blanks. All numbers are
integers.
-/

inductive Json where
  | null
  | bool (b : Bool)
  | integer (n : Int)
  | text (s : String)
  | array (items : List Json)
  | object (members : List (String × Json))

namespace Json

def member? (name : String) : Json → Option Json
  | .object members => members.lookup name
  | _ => none

def ofOption {α : Type} (encode : α → Json) : Option α → Json
  | some a => encode a
  | none => .null

def hexDigit (n : Nat) : Char := if n < 10 then Char.ofNat (48 + n) else Char.ofNat (87 + n)

def quoteChar (c : Char) : List Char :=
  match c with
  | '"' => ['\\', '"']
  | '\\' => ['\\', '\\']
  | '\n' => ['\\', 'n']
  | '\r' => ['\\', 'r']
  | '\t' => ['\\', 't']
  | '\x08' => ['\\', 'b']
  | '\x0c' => ['\\', 'f']
  | c =>
    if c.toNat < 32 then
      ['\\', 'u', '0', '0', hexDigit (c.toNat / 16), hexDigit (c.toNat % 16)]
    else [c]

def quote (s : String) : String := "\"" ++ String.ofList (s.toList.flatMap quoteChar) ++ "\""

mutual

def render : Json → String
  | .null => "null"
  | .bool b => if b then "true" else "false"
  | .integer n => Numeral.decimal n
  | .text s => quote s
  | .array items => "[" ++ String.intercalate "," (renderItems items) ++ "]"
  | .object members => "\x7b" ++ String.intercalate "," (renderMembers members) ++ "\x7d"

def renderItems : List Json → List String
  | [] => []
  | j :: js => j.render :: renderItems js

def renderMembers : List (String × Json) → List String
  | [] => []
  | (name, j) :: rest => (quote name ++ ":" ++ j.render) :: renderMembers rest

end

end Json

/-!
## Reading JSON

What a JSON text says, with its numbers as they are written. A text is split into
tokens, character by character, and the tokens are put together on a stack of
open containers. A name or text whose escapes give half a surrogate pair is
well-formed but has no characters.
-/

inductive JsonNode where
  | null
  | bool (b : Bool)
  | number (written : List Char)
  | text (characters : Option String)
  | array (items : List JsonNode)
  | object (members : List (Option String × JsonNode))

namespace JsonNode

/-! ### Numbers -/

def afterDigits? (cs : List Char) : Option (List Char) :=
  match cs with
  | [] => none
  | c :: rest => if c.isDigit then some (rest.dropWhile Char.isDigit) else none

/-- What is left after the digits before a point: no zero comes before another digit. -/
def afterWhole? : List Char → Option (List Char)
  | '0' :: c :: rest => if c.isDigit then none else some (c :: rest)
  | cs => afterDigits? cs

def afterFraction? : List Char → Option (List Char)
  | '.' :: rest => afterDigits? rest
  | cs => some cs

def isExponent : List Char → Bool
  | [] => true
  | e :: rest =>
    (e == 'e' || e == 'E') &&
      (match rest with
       | '+' :: digits | '-' :: digits => afterDigits? digits == some []
       | digits => afterDigits? digits == some [])

def withoutMinus : List Char → List Char
  | '-' :: rest => rest
  | cs => cs

def isNumber (cs : List Char) : Bool :=
  ((afterWhole? (withoutMinus cs)).bind afterFraction?).any isExponent

/-! ### Texts -/

/-- The characters of code units, among which surrogates have to come in pairs. -/
def characters? : List Nat → Option (List Char)
  | [] => some []
  | unit :: rest =>
    if 0xD800 ≤ unit ∧ unit < 0xDC00 then
      match rest with
      | low :: rest =>
        if 0xDC00 ≤ low ∧ low < 0xE000 then
          let code := 0x10000 + (unit - 0xD800) * 0x400 + (low - 0xDC00)
          (characters? rest).map (Char.ofNat code :: ·)
        else none
      | [] => none
    else if 0xDC00 ≤ unit ∧ unit < 0xE000 then none
    else (characters? rest).map (Char.ofNat unit :: ·)

def hexDigit? (c : Char) : Option Nat :=
  if c.isDigit then some (c.toNat - 48)
  else if 'a' ≤ c ∧ c ≤ 'f' then some (c.toNat - 87)
  else if 'A' ≤ c ∧ c ≤ 'F' then some (c.toNat - 55)
  else none

def escaped? : Char → Option Char
  | '"' => some '"'
  | '\\' => some '\\'
  | '/' => some '/'
  | 'b' => some '\x08'
  | 'f' => some '\x0c'
  | 'n' => some '\n'
  | 'r' => some '\r'
  | 't' => some '\t'
  | _ => none

/-! ### Tokens -/

inductive Token where
  | openArray | closeArray | openObject | closeObject | comma | colon
  | scalar (node : JsonNode)

/-- Where the next character stands. Units and characters read so far are in reverse. -/
inductive Place where
  | between
  | word (read : List Char)
  | text (units : List Nat)
  | escape (units : List Nat)
  | code (units : List Nat) (digits value : Nat)

def isSpace (c : Char) : Bool := c == ' ' || c == '\n' || c == '\t' || c == '\r'

def mark? : Char → Option Token
  | '[' => some .openArray
  | ']' => some .closeArray
  | '\x7b' => some .openObject
  | '\x7d' => some .closeObject
  | ',' => some .comma
  | ':' => some .colon
  | _ => none

def ofWord? (word : List Char) : Option Token :=
  if word = "null".toList then some (.scalar .null)
  else if word = "true".toList then some (.scalar (.bool true))
  else if word = "false".toList then some (.scalar (.bool false))
  else if isNumber word then some (.scalar (.number word))
  else none

def next (c : Char) : List Token × Place :=
  match mark? c with
  | some token => ([token], .between)
  | none => if isSpace c then ([], .between) else if c = '"' then ([], .text []) else ([], .word [c])

def endsWord (c : Char) : Bool := isSpace c || (mark? c).isSome || c == '"'

def tokens? : Place → List Char → Option (List Token)
  | .between, [] => some []
  | .word read, [] => (ofWord? read.reverse).map fun token => [token]
  | _, [] => none
  | .between, c :: cs =>
    let (found, place) := next c
    (tokens? place cs).map (found ++ ·)
  | .word read, c :: cs =>
    if endsWord c then do
      let token ← ofWord? read.reverse
      let (found, place) := next c
      return token :: found ++ (← tokens? place cs)
    else tokens? (.word (c :: read)) cs
  | .text units, c :: cs =>
    if c = '"' then
      let read := (characters? units.reverse).map String.ofList
      (tokens? .between cs).map (.scalar (.text read) :: ·)
    else if c = '\\' then tokens? (.escape units) cs
    else if c.toNat < 32 then none
    else tokens? (.text (c.toNat :: units)) cs
  | .escape units, c :: cs =>
    if c = 'u' then tokens? (.code units 4 0) cs
    else (escaped? c).bind fun e => tokens? (.text (e.toNat :: units)) cs
  | .code units digits value, c :: cs =>
    (hexDigit? c).bind fun d =>
      if digits ≤ 1 then tokens? (.text ((16 * value + d) :: units)) cs
      else tokens? (.code units (digits - 1) (16 * value + d)) cs

/-! ### Trees -/

/-- A container that is still open, with what it holds so far in reverse. -/
inductive Frame where
  | array (items : List JsonNode)
  | object (members : List (Option String × JsonNode))
  | member (members : List (Option String × JsonNode)) (name : Option String)

inductive Expected where
  | value
  | valueOrClose
  | nameOrClose
  | name
  | colon
  | commaOrClose
  | nothing

structure Builder where
  frames : List Frame
  expected : Expected
  result : Option JsonNode

namespace Builder

def start : Builder := ⟨[], .value, none⟩

def place (frames : List Frame) (node : JsonNode) : Option Builder :=
  match frames with
  | [] => some ⟨[], .nothing, some node⟩
  | .array items :: outer => some ⟨.array (node :: items) :: outer, .commaOrClose, none⟩
  | .member members name :: outer =>
    some ⟨.object ((name, node) :: members) :: outer, .commaOrClose, none⟩
  | .object _ :: _ => none

def step (b : Builder) : Token → Option Builder
  | .scalar node =>
    match b.expected, b.frames, node with
    | .value, frames, node | .valueOrClose, frames, node => place frames node
    | .name, .object members :: outer, .text name
    | .nameOrClose, .object members :: outer, .text name =>
      some ⟨.member members name :: outer, .colon, none⟩
    | _, _, _ => none
  | .openArray =>
    match b.expected with
    | .value | .valueOrClose => some ⟨.array [] :: b.frames, .valueOrClose, none⟩
    | _ => none
  | .openObject =>
    match b.expected with
    | .value | .valueOrClose => some ⟨.object [] :: b.frames, .nameOrClose, none⟩
    | _ => none
  | .closeArray =>
    match b.expected, b.frames with
    | .commaOrClose, .array items :: outer | .valueOrClose, .array items :: outer =>
      place outer (.array items.reverse)
    | _, _ => none
  | .closeObject =>
    match b.expected, b.frames with
    | .commaOrClose, .object members :: outer | .nameOrClose, .object members :: outer =>
      place outer (.object members.reverse)
    | _, _ => none
  | .comma =>
    match b.expected, b.frames with
    | .commaOrClose, .array _ :: _ => some { b with expected := .value }
    | .commaOrClose, .object _ :: _ => some { b with expected := .name }
    | _, _ => none
  | .colon =>
    match b.expected with
    | .colon => some { b with expected := .value }
    | _ => none

end Builder

def read? (text : String) : Option JsonNode :=
  (tokens? .between text.toList).bind fun tokens =>
    (tokens.foldlM Builder.step Builder.start).bind fun b => b.result

/-! ### Values -/

/-- An integer that is written without point and exponent, and is not zero with a sign. -/
def integer? : JsonNode → Option Int
  | .number ('-' :: digits) =>
    match (Numeral.magnitude 0x8000000000000000 digits).toOption with
    | some 0 => none
    | some n => some (-(n : Int))
    | none => none
  | .number digits => (Numeral.magnitude 0xFFFFFFFFFFFFFFFF digits).toOption.map Int.ofNat
  | _ => none

def isNull : JsonNode → Bool
  | .null => true
  | _ => false

def isFinite (written : List Char) : Bool :=
  let (mantissa, exponent) := (withoutMinus written).span fun c => c != 'e' && c != 'E'
  let whole := mantissa.takeWhile Char.isDigit
  let fraction := (mantissa.dropWhile Char.isDigit).drop 1
  let digits := (whole ++ fraction).dropWhile fun c => c == '0'
  let value (cs : List Char) : Nat := cs.foldl (fun n c => 10 * n + (c.toNat - 48)) 0
  let power : Int :=
    (match exponent.drop 1 with
     | '-' :: cs => -(value cs : Int)
     | '+' :: cs => value cs
     | cs => value cs) - fraction.length
  let size := digits.length + power
  let limit := Nat.pow 2 1024 - Nat.pow 2 970
  if digits = [] ∨ size ≤ 308 then true
  else if 310 < size then false
  else value digits * Nat.pow 10 power.toNat < limit * Nat.pow 10 (-power).toNat

mutual

/-- Whether a value can be kept: its names and texts have characters, its numbers are finite,
and its containers are at most `depth` deep. -/
def isSound (depth : Nat) : JsonNode → Bool
  | .null | .bool _ => true
  | .number written => isFinite written
  | .text characters => characters.isSome
  | .array items =>
    match depth with
    | 0 => false
    | depth + 1 => areSound depth items
  | .object members =>
    match depth with
    | 0 => false
    | depth + 1 => areSoundMembers depth members

def areSound (depth : Nat) : List JsonNode → Bool
  | [] => true
  | node :: rest => node.isSound depth && areSound depth rest

def areSoundMembers (depth : Nat) : List (Option String × JsonNode) → Bool
  | [] => true
  | (name, node) :: rest => name.isSome && node.isSound depth && areSoundMembers depth rest

end

end JsonNode

end InventorySearch.Text
