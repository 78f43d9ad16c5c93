import InventorySearch.Calendar.Timestamp

set_option autoImplicit false

/-!
# Restrictions and what is wrong with them

The tree that a filter expression stands for, and the errors for expressions that
stand for none.
-/
namespace InventorySearch.Filter
open Calendar

/-!
## Restrictions

The boolean tree that a filter expression stands for. Leaves compare one field
with one operand; a dotted field names a field of an associated row. The tree
says nothing yet about which fields exist or what rows it holds of.
-/

inductive Relation where
  | eq | ne | lt | le | gt | ge
deriving DecidableEq, Repr

def Relation.isOrdering : Relation → Bool
  | .eq | .ne => false
  | _ => true

def Relation.symbol : Relation → String
  | .eq => "="
  | .ne => "<>"
  | .lt => "<"
  | .le => "<="
  | .gt => ">"
  | .ge => ">="

inductive Comparator where
  | relation (r : Relation)
  | isNull
  | isNotNull
deriving DecidableEq, Repr

/-- What joins two neighbouring units: `;` is "and", `,` is "or". -/
inductive Pivot where
  | and | or
deriving DecidableEq, Repr

def Pivot.ofChar? : Char → Option Pivot
  | ';' => some .and
  | ',' => some .or
  | _ => none

inductive Referent where
  | category | node
deriving DecidableEq, Repr

structure Reference where
  kind : Referent
  id : Int
  name : String
deriving DecidableEq, Repr

inductive Operand where
  | integer (value : Int)
  | moment (value : Timestamp)
  | ordinal (value : Int)
  | reference (value : Reference)
  | text (value : String)
deriving DecidableEq

def Operand.describe : Operand → String
  | .integer n => Text.Numeral.decimal n
  | .moment t => t.text
  | .ordinal n => "#" ++ Text.Numeral.decimal n
  | .reference r => r.name ++ ":" ++ Text.Numeral.decimal r.id
  | .text s => "\"" ++ s ++ "\""

inductive Restriction where
  | comparison (field : String) (op : Comparator) (operand : Option Operand)
  | and (left right : Restriction)
  | or (left right : Restriction)
deriving DecidableEq

namespace Restriction

def describe : Restriction → String
  | .comparison field .isNull _ => field ++ " IS NULL"
  | .comparison field .isNotNull _ => field ++ " IS NOT NULL"
  | .comparison field (.relation r) operand =>
    field ++ " " ++ r.symbol ++ " " ++ (operand.map Operand.describe).getD "?"
  | .and left right => "AND(" ++ left.describe ++ ", " ++ right.describe ++ ")"
  | .or left right => "OR(" ++ left.describe ++ ", " ++ right.describe ++ ")"

end Restriction

/-!
## Filter errors

What can be wrong with a filter expression, or with the search it asks for.
Positions are byte offsets into the UTF-8 text of the whole expression.
-/

inductive Error where
  /-- A character next to a bracket is neither `;` nor `,`. -/
  | illegalPivot (found : Char) (position : Nat)
  | unmatchedOpen (position : Nat)
  | strayClose (level : String) (position : Nat)
  | pivotCount (components pivots : Nat)
  | emptyExpression (position : Nat)
  | unsupportedOperator (fragment : String)
  | coercion (field message : String)
  | execution (message : String)
  | unexpected (message : String)
deriving DecidableEq, Repr

namespace Error

def code : Error → String
  | .illegalPivot .. => "INVALID_PIVOT_OPERATOR"
  | .unmatchedOpen .. | .strayClose .. => "UNBALANCED_BRACKET"
  | .pivotCount .. => "PIVOT_COUNT_MISMATCH"
  | .emptyExpression .. => "EMPTY_EXPRESSION"
  | .unsupportedOperator .. => "UNSUPPORTED_OPERATOR"
  | .coercion .. => "COERCION_ERROR"
  | .execution .. => "QUERY_EXECUTION"
  | .unexpected .. => "INTERNAL"

/-- Whether the asker, and not the store, is at fault. -/
def isClientError : Error → Bool
  | .execution .. | .unexpected .. => false
  | _ => true

private def atIndex (message : String) (position : Nat) : String :=
  s!"{message} (index {position})"

def message : Error → String
  | .illegalPivot found position => s!"illegal pivot operator '{found}' at index {position}"
  | .unmatchedOpen position =>
    atIndex s!"Respective closing bracket for the opening bracket at index {position} was not found"
      position
  | .strayClose level position =>
    atIndex s!"A closing bracket in the complex query {level} doesn't match any opening brackets"
      position
  | .pivotCount .. =>
    "There is a mis use of pivot operators (; & ,). Please recorrect query string and try again"
  | .emptyExpression position => atIndex "Please specify a not-null complex query" position
  | .unsupportedOperator fragment =>
    s!"operator used with query string \"{fragment}\" is invalid. Please specify a valid operator."
  | .coercion _ message => message
  | .execution message => "Query execution failed: " ++ message
  | .unexpected message => "Unexpected error: " ++ message

end Error

end InventorySearch.Filter
