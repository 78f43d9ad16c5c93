import InventorySearch.Filter.Parser
import InventorySearch.Proofs.Outcome

set_option autoImplicit false

/-!
# Reading by byte indices

A reader of filter expressions that keeps no text but byte indices into the whole
expression, counts brackets up and down, and collects components and pivots on
two lists. Whatever such a reader could trip over stops it here as a slip, which
no caller is ever told of: an index behind the end, a range that cuts a character
apart, a count below zero, a list that is too short.
-/
namespace InventorySearch.Filter

def Pivot.ofByte? (b : UInt8) : Option Pivot :=
  if b = ';'.toUInt8 then some .and else if b = ','.toUInt8 then some .or else none

namespace Bytewise

inductive Slip where
  | noByte (position : Nat)
  | noRange (start stop : Nat)
  | belowZero
  | noCharacter (position : Nat)
  | miscount (components pivots : Nat)
  | noRuns
deriving DecidableEq, Repr

inductive Stop where
  | slip (s : Slip)
  | fault (e : Error)
deriving DecidableEq, Repr

abbrev Checked := Except Stop

def slipped {α : Type} (s : Slip) : Checked α := .error (.slip s)

def refused {α : Type} (e : Error) : Checked α := .error (.fault e)

def lowered (n by' : Nat) : Checked Nat := if by' ≤ n then .ok (n - by') else slipped .belowZero

/-! ## Bytes and ranges of a text -/

def byteAt (bytes : List UInt8) (i : Nat) : Checked UInt8 :=
  match bytes[i]? with
  | some b => .ok b
  | none => slipped (.noByte i)

/-- The text without its first `n` bytes, if a character ends there. -/
def dropBytes? : Nat → List Char → Option (List Char)
  | 0, cs => some cs
  | _ + 1, [] => none
  | n + 1, c :: cs => if c.utf8Size ≤ n + 1 then dropBytes? (n + 1 - c.utf8Size) cs else none

def takeBytes? : Nat → List Char → Option (List Char)
  | 0, _ => some []
  | _ + 1, [] => none
  | n + 1, c :: cs =>
    if c.utf8Size ≤ n + 1 then (takeBytes? (n + 1 - c.utf8Size) cs).map (c :: ·) else none

def slice (query : String) (start stop : Nat) : Checked (List Char) :=
  if start ≤ stop then
    match (dropBytes? start query.toList).bind (takeBytes? (stop - start)) with
    | some text => .ok text
    | none => slipped (.noRange start stop)
  else slipped (.noRange start stop)

/-! ## Brackets -/

/-- The index below `stop` of the bracket that closes the last of `depth` open ones, from `i` on. -/
def closeFrom (bytes : List UInt8) (stop i depth : Nat) : Checked (Option Nat) :=
  if i < stop then
    match bytes[i]? with
    | none => .ok none
    | some b =>
      if b = '('.toUInt8 then closeFrom bytes stop (i + 1) (depth + 1)
      else if b = ')'.toUInt8 then do
        let outer ← lowered depth 1
        if outer = 0 then return some i else closeFrom bytes stop (i + 1) outer
      else closeFrom bytes stop (i + 1) depth
  else .ok none
termination_by stop - i

def matchingClose (bytes : List UInt8) (start stop : Nat) : Checked (Option Nat) :=
  closeFrom bytes stop start 0

/-- Moves both ends of a range inwards over brackets that enclose it. -/
def strip (bytes : List UInt8) (start stop : Nat) : Checked (Nat × Nat) :=
  if _h : start < stop then do
    let b ← byteAt bytes start
    if b = '('.toUInt8 then
      let close ← matchingClose bytes start stop
      if close = some (stop - 1) then strip bytes (start + 1) (stop - 1)
      else return (start, stop)
    else return (start, stop)
  else return (start, stop)
termination_by stop - start

theorem le_of_closeFrom {bytes : List UInt8} {stop i depth close : Nat}
    (h : closeFrom bytes stop i depth = .ok (some close)) : i ≤ close ∧ close < stop := by
  fun_induction closeFrom bytes stop i depth with
  | case1 => cases h
  | case2 i depth hlt _ ih =>
    have := ih h
    omega
  | case3 i depth hlt _ _ ih =>
    obtain ⟨outer, -, h⟩ := Except.exists_of_bind_eq_ok h
    split at h
    · obtain rfl := Option.some.inj (Except.ok.inj h)
      omega
    · have := ih outer h
      omega
  | case4 i depth hlt _ _ _ _ ih =>
    have := ih h
    omega
  | case5 => cases h

theorem le_of_strip {bytes : List UInt8} {start stop : Nat} {range : Nat × Nat}
    (h : strip bytes start stop = .ok range) : range.2 - range.1 ≤ stop - start := by
  induction start, stop using strip.induct with
  | case1 start stop hlt ih =>
    rw [strip, dif_pos hlt] at h
    obtain ⟨b, -, h⟩ := Except.exists_of_bind_eq_ok h
    split at h
    · obtain ⟨close, -, h⟩ := Except.exists_of_bind_eq_ok h
      split at h
      · have := ih h
        omega
      · cases h
        exact Nat.le_refl _
    · cases h
      exact Nat.le_refl _
  | case2 start stop hlt =>
    rw [strip, dif_neg hlt] at h
    cases h
    exact Nat.le_refl _

/-- The fault of a bracket that stands behind something else than a pivot. -/
def pivotBefore {α : Type} (query : String) (position : Nat) : Checked α := do
  let before ← slice query 0 position
  match before.getLast? with
  | some found => refused (.illegalPivot found (← lowered position found.utf8Size))
  | none => slipped (.noCharacter position)

def pivotAfter (query : String) (close : Nat) : Checked Pivot := do
  let after ← slice query (close + 1) (Text.byteLength query.toList)
  match after with
  | [] => slipped (.noCharacter (close + 1))
  | found :: _ =>
    match Pivot.ofChar? found with
    | some pivot => return pivot
    | none => refused (.illegalPivot found (close + 1))

/-! ## Units -/

def readPrimitive (coerce : Coercer) (query : String) (start stop : Nat) : Checked Restriction := do
  let fragment ← slice query start stop
  (Primitive.read coerce start fragment).mapError .fault

def stackRuns : List Restriction → List (Pivot × Restriction) → Checked (List Restriction)
  | runs, [] => .ok runs
  | [], (.and, _) :: _ => slipped .noRuns
  | last :: earlier, (.and, next) :: rest => stackRuns (.and last next :: earlier) rest
  | runs, (.or, next) :: rest => stackRuns (next :: runs) rest

def merge (components : List Restriction) (pivots : List Pivot) : Checked Restriction :=
  if components.length = pivots.length + 1 then
    match components with
    | [] => slipped (.miscount 0 pivots.length)
    | first :: rest => do
      match (← stackRuns [first] (pivots.zip rest)).reverse with
      | [] => slipped .noRuns
      | run :: more => return more.foldl .or run
  else slipped (.miscount components.length pivots.length)

mutual

def split (coerce : Coercer) (query : String) (start stop : Nat) : Checked Restriction :=
  match _h : strip (Text.bytes query) start stop with
  | .error e => .error e
  | .ok range => do
    let (components, pivots) ← units coerce query range.1 range.2 range.1 range.1 [] []
    merge components pivots
termination_by (stop - start, 1)
decreasing_by
  have := le_of_strip _h
  simp only [Prod.lex_def]
  omega

/-- Reads on at the byte `i` of the range, in the unit that starts at `unitStart`. -/
def units (coerce : Coercer) (query : String) (start stop unitStart i : Nat)
    (components : List Restriction) (pivots : List Pivot) :
    Checked (List Restriction × List Pivot) :=
  if _hi : i < stop then do
    let b ← byteAt (Text.bytes query) i
    if b = '('.toUInt8 then
      if i = unitStart then
        match _h : matchingClose (Text.bytes query) i stop with
        | .error e => .error e
        | .ok none => refused (.unmatchedOpen i)
        | .ok (some close) => do
          let group ← split coerce query (i + 1) close
          if close + 1 = stop then
            units coerce query start stop stop stop (components ++ [group]) pivots
          else
            let pivot ← pivotAfter query close
            units coerce query start stop (close + 2) (close + 2) (components ++ [group])
              (pivots ++ [pivot])
      else pivotBefore query i
    else if b = ')'.toUInt8 then do
      let level ← slice query start stop
      refused (.strayClose (String.ofList level) i)
    else
      match Pivot.ofByte? b with
      | some pivot => do
        let primitive ← readPrimitive coerce query unitStart i
        units coerce query start stop (i + 1) (i + 1) (components ++ [primitive])
          (pivots ++ [pivot])
      | none => units coerce query start stop unitStart (i + 1) components pivots
  else if components.length = pivots.length then do
    let primitive ← readPrimitive coerce query unitStart stop
    return (components ++ [primitive], pivots)
  else return (components, pivots)
termination_by (stop - i, 0)
decreasing_by
  all_goals simp only [Prod.lex_def]
  · have := le_of_closeFrom _h
    omega
  · omega
  · have := le_of_closeFrom _h
    omega
  · omega
  · omega

end

def parse (coerce : Coercer) (query : String) : Checked Restriction :=
  split coerce query 0 (Text.bytes query).length

end Bytewise
end InventorySearch.Filter
