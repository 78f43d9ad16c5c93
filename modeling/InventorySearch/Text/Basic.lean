set_option autoImplicit false

/-!
# Characters, marks and numerals

What the other modules take for granted about texts: which characters are blank,
cutting a text at a mark, and decimal numerals.
-/
namespace InventorySearch.Text

/-!
## Blank characters

The characters with the Unicode property White_Space, and trimming them off the
ends of a text. Case folding here is that of the ASCII letters alone.
-/

def blankRanges : List (Nat × Nat) :=
  [(0x09, 0x0D), (0x20, 0x20), (0x85, 0x85), (0xA0, 0xA0), (0x1680, 0x1680),
   (0x2000, 0x200A), (0x2028, 0x2029), (0x202F, 0x202F), (0x205F, 0x205F), (0x3000, 0x3000)]

def isBlank (c : Char) : Bool :=
  blankRanges.any fun range => range.1 ≤ c.toNat && c.toNat ≤ range.2

def trimStart (cs : List Char) : List Char := cs.dropWhile isBlank

def trim (cs : List Char) : List Char := (trimStart (trimStart cs).reverse).reverse

def sameLetters (s t : String) : Bool := s.toList.map Char.toLower == t.toList.map Char.toLower

def byteLength : List Char → Nat
  | [] => 0
  | c :: cs => c.utf8Size + byteLength cs

@[simp] theorem byteLength_nil : byteLength [] = 0 := rfl

@[simp] theorem byteLength_cons (c : Char) (cs : List Char) :
    byteLength (c :: cs) = c.utf8Size + byteLength cs := rfl

@[simp] theorem byteLength_append (cs ds : List Char) :
    byteLength (cs ++ ds) = byteLength cs + byteLength ds := by
  induction cs with
  | nil => simp
  | cons c cs ih => simp [ih, Nat.add_assoc]

/-- The UTF-8 bytes of a text, by which the store compares texts. -/
def bytes (s : String) : List UInt8 := s.toByteArray.data.toList

theorem bytes_injective {s t : String} (h : bytes s = bytes t) : s = t := by
  have hdata : s.toByteArray.data = t.toByteArray.data := Array.toList_inj.mp h
  exact String.toByteArray_inj.mp (ByteArray.ext hdata)

/-!
## Cutting texts

Cutting a text at the first occurrence of a mark.
-/

def cutChars? (mark : Char) : List Char → Option (List Char × List Char)
  | [] => none
  | c :: cs =>
    if c = mark then some ([], cs)
    else (cutChars? mark cs).map fun (before, after) => (c :: before, after)

def cut? (mark : Char) (s : String) : Option (String × String) :=
  (cutChars? mark s.toList).map fun (before, after) => (String.ofList before, String.ofList after)

theorem cutChars?_eq_none_iff {mark : Char} {cs : List Char} :
    cutChars? mark cs = none ↔ mark ∉ cs := by
  induction cs with
  | nil => simp [cutChars?]
  | cons c cs ih =>
    by_cases h : c = mark
    · simp [cutChars?, h]
    · simp [cutChars?, h, ih, Ne.symm h]

theorem cutChars?_eq_some_iff {mark : Char} {cs before after : List Char} :
    cutChars? mark cs = some (before, after) ↔ cs = before ++ mark :: after ∧ mark ∉ before := by
  induction cs generalizing before with
  | nil => simp [cutChars?]
  | cons c cs ih =>
    by_cases h : c = mark
    · cases before with
      | nil => simp [cutChars?, h]
      | cons b bs => simp [cutChars?, h]; grind
    · cases before with
      | nil => simp [cutChars?, h]
      | cons b bs => simp [cutChars?, h, ih]; grind

end InventorySearch.Text

namespace InventorySearch.Text.Numeral

/-!
## Decimal numerals

Reading decimal numerals into bounded ranges, and writing them. A numeral is an
optional sign followed by ASCII digits only: no blanks, no separators. Reading
goes from left to right and reports the first fault it meets.
-/

inductive Fault where
  | empty
  | invalidDigit
  | tooLarge
deriving DecidableEq, Repr

def Fault.message : Fault → String
  | .empty => "cannot parse integer from empty string"
  | .invalidDigit => "invalid digit found in string"
  | .tooLarge => "number too large to fit in target type"

def digit? (c : Char) : Option Nat := if c.isDigit then some (c.toNat - 48) else none

def extend (max : Nat) (value : Nat) : List Char → Except Fault Nat
  | [] => .ok value
  | c :: cs =>
    match digit? c with
    | none => .error .invalidDigit
    | some d => if 10 * value + d ≤ max then extend max (10 * value + d) cs else .error .tooLarge

def magnitude (max : Nat) : List Char → Except Fault Nat
  | [] => .error .invalidDigit
  | cs => extend max 0 cs

/-- A number from 0 to `max`, with an optional plus sign. -/
def natural (max : Nat) : List Char → Except Fault Nat
  | [] => .error .empty
  | '+' :: cs => magnitude max cs
  | cs => magnitude max cs

/-- A number of `bits` bits in two's complement, with an optional sign. -/
def signed? (bits : Nat) : List Char → Option Int
  | '-' :: cs => ((magnitude (Nat.pow 2 (bits - 1)) cs).toOption).map fun n => -(n : Int)
  | '+' :: cs => ((magnitude (Nat.pow 2 (bits - 1) - 1) cs).toOption).map Int.ofNat
  | cs => ((magnitude (Nat.pow 2 (bits - 1) - 1) cs).toOption).map Int.ofNat

def int64? (s : String) : Option Int := signed? 64 s.toList

def int32? (s : String) : Option Int := signed? 32 s.toList

def digitChar (d : Nat) : Char := Char.ofNat (48 + d)

def digits (n : Nat) : List Char :=
  if n < 10 then [digitChar n] else digits (n / 10) ++ [digitChar (n % 10)]
termination_by n
decreasing_by omega

def padded (width n : Nat) : List Char := (digits n).leftpad width '0'

def decimal : Int → String
  | .ofNat n => String.ofList (digits n)
  | .negSucc n => String.ofList ('-' :: digits (n + 1))

end InventorySearch.Text.Numeral
