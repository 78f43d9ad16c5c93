import InventorySearch.Filter.Restriction

set_option autoImplicit false

/-!
# Primitives and their operands

The single comparisons of a filter expression, split into field, operator and literal,
and the operands that their literals become.
-/
namespace InventorySearch.Filter

/-!
## Primitives

A primitive is `field`, an operator and `literal`, written without blanks. The
operators are `!=`, `==`, `=lt=`, `=le=`, `=gt=` and `=ge=`; field and literal
are not empty and hold no `=`. With `==` and `!=` the literals `null` and
`notNull`, in any case, ask whether there is a value at all.
-/

abbrev Coercer := String → String → Except Error Operand

namespace Primitive

def relation? : List Char → Option Relation
  | [] => some .eq
  | ['l', 't'] => some .lt
  | ['l', 'e'] => some .le
  | ['g', 't'] => some .gt
  | ['g', 'e'] => some .ge
  | _ => none

/-- Takes a fragment apart by its `=`. The field in front of `!=` may itself end in `!`. -/
def split? (fragment : List Char) : Option (List Char × Relation × List Char) :=
  match fragment.splitOn '=' with
  | [left, literal] =>
    if left.getLast? = some '!' then some (left.dropLast, .ne, literal) else none
  | [field, middle, literal] => (relation? middle).map fun r => (field, r, literal)
  | _ => none

def shape? (fragment : List Char) : Option (String × Relation × String) :=
  match split? fragment with
  | some (field, r, literal) =>
    if field.isEmpty || literal.isEmpty then none
    else some (String.ofList field, r, String.ofList literal)
  | none => none

def nullTest? (relation : Relation) (literal : String) : Option Comparator :=
  match relation with
  | .eq =>
    if Text.sameLetters literal "null" then some .isNull
    else if Text.sameLetters literal "notNull" then some .isNotNull
    else none
  | .ne =>
    if Text.sameLetters literal "null" then some .isNotNull
    else if Text.sameLetters literal "notNull" then some .isNull
    else none
  | _ => none

/-- Reads a fragment that starts at byte `position`. The operator is checked before the literal. -/
def read (coerce : Coercer) (position : Nat) (fragment : List Char) : Except Error Restriction :=
  if fragment.isEmpty then .error (.emptyExpression position)
  else
    match shape? fragment with
    | none => .error (.unsupportedOperator (String.ofList fragment))
    | some (field, r, literal) =>
      match nullTest? r literal with
      | some test => .ok (.comparison field test none)
      | none =>
        (coerce field literal).map fun operand => .comparison field (.relation r) (some operand)

end Primitive

/-!
## Coercion

Literals become operands by the rule of their field. A rule table gives the
rules, the first entry for a field counts, and a field without one takes its
literal as text. References are resolved by a lookup that the caller supplies.
-/

open Calendar

inductive Rule where
  | timestamp | integer | severity | category | node
deriving DecidableEq, Repr

abbrev RuleTable := List (String × Rule)

abbrev Lookup := Referent → String → Except Error (Option Reference)

/-- The severities in the order of their ordinals, which start at 1. -/
def severities : List String :=
  ["INDETERMINATE", "CLEARED", "NORMAL", "WARNING", "MINOR", "MAJOR", "CRITICAL"]

/-- A severity is given by its ordinal, or by its label in any case. -/
def severity? (literal : String) : Option Int :=
  match Text.Numeral.int32? literal with
  | some n => if 1 ≤ n ∧ n ≤ severities.length then some n else none
  | none => (severities.findIdx? (Text.sameLetters literal)).map fun i => (i : Int) + 1

inductive CoercionFault where
  | timestamp
  | integer
  | severity
  | category
  | node
deriving DecidableEq, Repr

def CoercionFault.message (field literal : String) : CoercionFault → String
  | .timestamp => "Please specify dates in format \"yyyy-MM-dd'T'HH:mm:ss\""
  | .integer => s!"Please specify a numeric value for \"{field}\" instead of \"{literal}\""
  | .severity => s!"Please specify a valid severity instead of \"{literal}\""
  | .category => s!"Please specify a valid category instead of \"{literal}\""
  | .node => s!"Please specify a valid node ID instead of \"{literal}\""

def CoercionFault.toError (field literal : String) (fault : CoercionFault) : Error :=
  .coercion field (fault.message field literal)

def orFault {α : Type} (field literal : String) (fault : CoercionFault) : Option α → Except Error α
  | some value => .ok value
  | none => .error (fault.toError field literal)

def Rule.coerce (lookup : Lookup) (field literal : String) : Rule → Except Error Operand
  | .timestamp =>
    (orFault field literal .timestamp (Timestamp.read? literal.toList)).map .moment
  | .integer => (orFault field literal .integer (Text.Numeral.int64? literal)).map .integer
  | .severity => (orFault field literal .severity (severity? literal)).map .ordinal
  | .category => do
    let found ← lookup .category literal
    (orFault field literal .category found).map .reference
  | .node => do
    let id ← orFault field literal .integer (Text.Numeral.int64? literal)
    let found ← lookup .node (Text.Numeral.decimal id)
    (orFault field literal .node found).map .reference

def coercer (rules : RuleTable) (lookup : Lookup) : Coercer := fun field literal =>
  match rules.lookup field with
  | some rule => rule.coerce lookup field literal
  | none => .ok (.text literal)

end InventorySearch.Filter
