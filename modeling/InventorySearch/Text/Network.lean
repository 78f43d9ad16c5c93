import InventorySearch.Text.Basic

set_option autoImplicit false

/-!
# Texts from the network

Encoded texts, as paths and query strings hold them, and the addresses of machines.
-/
namespace InventorySearch.Text

/-!
## Encoded texts

Percent escapes and the form encoding of query strings. A percent sign that no
two hexadecimal digits follow stands for itself. Bytes that are no UTF-8 become
U+FFFD in query strings, one for each longest piece that could have begun a
character, and spoil a path segment.
-/

/-- What the bytes read so far have begun: nothing, or a character that `needed` more bytes end,
the next of them between `low` and `high`. -/
inductive Pending where
  | ready
  | inside (needed value low high : Nat)

def replacement : Char := '\ufffd'

def leadByte (b : Nat) : List Char × Pending :=
  if b < 0x80 then ([Char.ofNat b], .ready)
  else if 0xC2 ≤ b ∧ b ≤ 0xDF then ([], .inside 1 (b - 0xC0) 0x80 0xBF)
  else if b = 0xE0 then ([], .inside 2 0 0xA0 0xBF)
  else if b = 0xED then ([], .inside 2 0xD 0x80 0x9F)
  else if 0xE1 ≤ b ∧ b ≤ 0xEF then ([], .inside 2 (b - 0xE0) 0x80 0xBF)
  else if b = 0xF0 then ([], .inside 3 0 0x90 0xBF)
  else if b = 0xF4 then ([], .inside 3 4 0x80 0x8F)
  else if 0xF1 ≤ b ∧ b ≤ 0xF3 then ([], .inside 3 (b - 0xF0) 0x80 0xBF)
  else ([replacement], .ready)

def decodeBytes : Pending → List Nat → List Char
  | .ready, [] => []
  | .inside .., [] => [replacement]
  | .ready, b :: bs =>
    let (cs, next) := leadByte b
    cs ++ decodeBytes next bs
  | .inside needed value low high, b :: bs =>
    if low ≤ b ∧ b ≤ high then
      if needed = 1 then Char.ofNat (value * 64 + (b - 0x80)) :: decodeBytes .ready bs
      else decodeBytes (.inside (needed - 1) (value * 64 + (b - 0x80)) 0x80 0xBF) bs
    else
      let (cs, next) := leadByte b
      replacement :: cs ++ decodeBytes next bs

def isUtf8 : Pending → List Nat → Bool
  | .ready, [] => true
  | .inside .., [] => false
  | .ready, b :: bs =>
    match leadByte b with
    | ([_], .ready) => b < 0x80 && isUtf8 .ready bs
    | (_, next) => isUtf8 next bs
  | .inside needed value low high, b :: bs =>
    low ≤ b && b ≤ high &&
      (if needed = 1 then isUtf8 .ready bs
       else isUtf8 (.inside (needed - 1) (value * 64 + (b - 0x80)) 0x80 0xBF) bs)

def hexValue? (b : Nat) : Option Nat :=
  if 48 ≤ b ∧ b ≤ 57 then some (b - 48)
  else if 65 ≤ b ∧ b ≤ 70 then some (b - 55)
  else if 97 ≤ b ∧ b ≤ 102 then some (b - 87)
  else none

/-- Replaces the escapes; 37 is the percent sign. -/
def unescape : List Nat → List Nat
  | [] => []
  | 37 :: h :: l :: rest =>
    match hexValue? h, hexValue? l with
    | some high, some low => (16 * high + low) :: unescape rest
    | _, _ => 37 :: unescape (h :: l :: rest)
  | b :: rest => b :: unescape rest

def byteValues (s : String) : List Nat := (bytes s).map UInt8.toNat

namespace Form

def decode (s : String) : String :=
  let blanked := (byteValues s).map fun b => if b = 43 then 32 else b
  String.ofList (decodeBytes .ready (unescape blanked))

/-- The pairs of a form in their order; empty pieces between `&` are skipped. -/
def pairs (form : String) : List (String × String) :=
  ((form.toList.splitOn '&').filter fun piece => !piece.isEmpty).map fun piece =>
    match cutChars? '=' piece with
    | some (name, value) => (decode (String.ofList name), decode (String.ofList value))
    | none => (decode (String.ofList piece), "")

end Form

def decodeSegment? (segment : String) : Option String :=
  let decoded := unescape (byteValues segment)
  if isUtf8 .ready decoded then some (String.ofList (decodeBytes .ready decoded)) else none

end InventorySearch.Text

namespace InventorySearch.Text.Address

/-!
## Network addresses

Texts that are addresses of the Internet Protocol: four bytes in decimal, or
eight groups in hexadecimal, of which two colons may stand for one or more.
-/

def isByte (cs : List Char) : Bool :=
  match cs with
  | '0' :: _ :: _ => false
  | cs => cs.length ≤ 3 && cs.all Char.isDigit && (Numeral.magnitude 255 cs).toOption.isSome

def isFourBytes (cs : List Char) : Bool :=
  let pieces := cs.splitOn '.'
  pieces.length == 4 && pieces.all isByte

def isHexDigit (c : Char) : Bool :=
  c.isDigit || ('a' ≤ c && c ≤ 'f') || ('A' ≤ c && c ≤ 'F')

def isGroup (cs : List Char) : Bool := !cs.isEmpty && cs.length ≤ 4 && cs.all isHexDigit

/-- The number of groups between colons; four bytes at the end are two groups. -/
def groups? : List (List Char) → Option Nat
  | [] => some 0
  | [last] => if isGroup last then some 1 else if isFourBytes last then some 2 else none
  | piece :: rest => if isGroup piece then (groups? rest).map (· + 1) else none

def part? (cs : List Char) : Option Nat := if cs.isEmpty then some 0 else groups? (cs.splitOn ':')

def cutGap? : List Char → Option (List Char × List Char)
  | ':' :: ':' :: rest => some ([], rest)
  | c :: rest => (cutGap? rest).map fun (before, after) => (c :: before, after)
  | [] => none

def isEightGroups (cs : List Char) : Bool :=
  match cutGap? cs with
  | none => part? cs == some 8
  | some (before, after) =>
    !before.contains '.' &&
      (match part? before, part? after with
       | some m, some n => m + n ≤ 7
       | _, _ => false)

def isAddress (s : String) : Bool := isFourBytes s.toList || isEightGroups s.toList

end InventorySearch.Text.Address
