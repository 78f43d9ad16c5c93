import InventorySearch.Search.Condition

set_option autoImplicit false

/-!
# From specifications to plans

The comparisons of a specification are gathered by the rows they speak of, and then
resolved to columns.
-/
namespace InventorySearch.Search
open InventorySearch.Filter

/-!
## Grouping associated terms

Terms on one alias that are joined by "and" speak of the same associated row.
Here every maximal "and" is flattened and its dotted comparisons are gathered
under their aliases; what an "or" joins is left alone.
-/

structure Term where
  field : String
  child : String
  op : Comparator
  operand : Option Operand
deriving DecidableEq

inductive Grouped where
  | plain (field : String) (op : Comparator) (operand : Option Operand)
  | related (name : String) (terms : List Term)
  | either (left right : Grouped)
  | all (members : List Grouped)

namespace Grouped

/-- Adds a term to the group of its alias, which is opened at the end if there is none. -/
def addTerm (name : String) (term : Term) : List Grouped → List Grouped
  | [] => [.related name [term]]
  | .related other terms :: rest =>
    if other = name then .related other (terms ++ [term]) :: rest
    else .related other terms :: addTerm name term rest
  | g :: rest => g :: addTerm name term rest

mutual

def collect : Restriction → List Grouped → List Grouped
  | .and left right, before => collect right (collect left before)
  | .or left right, before => before ++ [.either (ofRestriction left) (ofRestriction right)]
  | .comparison field op operand, before =>
    match Text.cut? '.' field with
    | some (name, child) => addTerm name ⟨field, child, op, operand⟩ before
    | none => before ++ [.plain field op operand]

def ofRestriction : Restriction → Grouped
  | .and left right => .all (collect right (collect left []))
  | .or left right => .either (ofRestriction left) (ofRestriction right)
  | .comparison field op operand =>
    match Text.cut? '.' field with
    | some (name, child) => .related name [⟨field, child, op, operand⟩]
    | none => .plain field op operand

end

end Grouped

/-!
## Plans

What is asked of the store for a specification: a condition and an order over the
columns of the entity's table. There is no plan where a name cannot be resolved or
an operand does not fit its column; the fault found first in the grouped
restriction is reported, and one in the restriction before one in the order.
-/

open Calendar Store

inductive PlanFault where
  | unresolvedField (field : String) (table : Table)
  | unknownAlias (field name : String)
  | unresolvedAssociation (path : String) (table : Table)
  | unresolvedChild (child path : String)
  | orderedMembership (field : String)
  | mismatch (field : String) (expected : ScalarKind) (operand : Operand)
  | unresolvedSort (field : String) (table : Table)
  | missingOperand (field : String)
deriving DecidableEq

def PlanFault.toError : PlanFault → Error
  | .unresolvedField field table =>
    .execution s!"could not resolve property \"{field}\" of {table.name}"
  | .unknownAlias field name =>
    .execution s!"could not resolve property \"{field}\": unknown alias \"{name}\""
  | .unresolvedAssociation path table =>
    .execution s!"could not resolve association \"{path}\" of {table.name}"
  | .unresolvedChild child path =>
    .execution s!"could not resolve property \"{child}\" of {path}"
  | .orderedMembership field =>
    .execution s!"property \"{field}\" does not support ordering comparisons"
  | .mismatch field expected operand =>
    .execution (s!"type mismatch for property \"{field}\": expected {expected.name}, got " ++
      operand.describe)
  | .unresolvedSort field table =>
    .execution s!"could not resolve sort property \"{field}\" of {table.name}"
  | .missingOperand field => .unexpected s!"comparison on \"{field}\" has no operand"

/-- The literal that an operand is in a column of the kind. Text that no rule has coerced is read
here. -/
def literal? : ScalarKind → Operand → Option Literal
  | .text, .text s => some (.text s)
  | .integer, .integer n => some (.integer n)
  | .integer, .ordinal n => some (.integer n)
  | .integer, .reference r => some (.integer r.id)
  | .integer, .text s => (Text.Numeral.int64? s).map .integer
  | .timestamp, .moment t => some (.moment t)
  | .timestamp, .text s => (Timestamp.read? s.toList).map .moment
  | _, _ => none

def bindLiteral (field : String) (kind : ScalarKind) :
    Option Operand → Except PlanFault Literal
  | none => .error (.missingOperand field)
  | some operand =>
    match literal? kind operand with
    | some literal => .ok literal
    | none => .error (.mismatch field kind operand)

def scalarTest (field column : String) (kind : ScalarKind) (op : Comparator)
    (operand : Option Operand) : Except PlanFault Test :=
  match op with
  | .isNull => .ok (.isNull column)
  | .isNotNull => .ok (.isNotNull column)
  | .relation r => (bindLiteral field kind operand).map fun l => .relation column r l

namespace Schema

def membership (schema : Schema) (field : String) (link : Table) (owner member : String)
    (op : Comparator) (operand : Option Operand) : Except PlanFault Condition :=
  match op with
  | .isNull => .ok (.membership false schema.key link owner none)
  | .isNotNull => .ok (.membership true schema.key link owner none)
  | .relation r =>
    if r.isOrdering then .error (.orderedMembership field)
    else (bindLiteral field .integer operand).map fun l =>
      .membership (r == .eq) schema.key link owner (some (member, l))

def plain (schema : Schema) (field : String) (op : Comparator) (operand : Option Operand) :
    Except PlanFault Condition :=
  match field? schema.fields field with
  | none => .error (.unresolvedField field schema.table)
  | some ⟨_, _, .membership link owner member⟩ =>
    schema.membership field link owner member op operand
  | some ⟨_, column, .scalar kind⟩ => (scalarTest field column kind op operand).map .test

def childTest (association : Association) (path : String) (term : Term) :
    Except PlanFault Test :=
  match field? association.fields term.child with
  | none => .error (.unresolvedChild term.child path)
  | some f => scalarTest term.field f.column f.kind term.op term.operand

/-- Under a left join a row without associated rows has one with no values, of which tests for
missing values hold. -/
def related (schema : Schema) (spec : Spec) (name : String) (terms : List Term) :
    Except PlanFault Condition := do
  match spec.alias? name with
  | none => throw (.unknownAlias ((terms.head?.map Term.field).getD name) name)
  | some link =>
    match schema.association? link.path with
    | none => throw (.unresolvedAssociation link.path schema.table)
    | some association =>
      let tests ← terms.mapM (childTest association link.path)
      let orNone := link.join == .left && terms.all fun t => t.op == .isNull
      return .related orNone association.source schema.key tests

mutual

def condition (schema : Schema) (spec : Spec) : Grouped → Except PlanFault Condition
  | .plain field op operand => schema.plain field op operand
  | .related name terms => schema.related spec name terms
  | .either left right => do
    return .either (← schema.condition spec left) (← schema.condition spec right)
  | .all members => (schema.conditions spec members).map .all

def conditions (schema : Schema) (spec : Spec) :
    List Grouped → Except PlanFault (List Condition)
  | [] => .ok []
  | g :: gs => do
    return (← schema.condition spec g) :: (← schema.conditions spec gs)

end

def sortColumn (schema : Schema) (key : SortKey) :
    Except PlanFault (String × Direction) :=
  match field? schema.fields key.field with
  | some ⟨_, column, .scalar _⟩ => .ok (column, key.direction)
  | _ => .error (.unresolvedSort key.field schema.table)

/-- The sort columns. The key column comes last unless it is among them, so no two rows tie. -/
def order (schema : Schema) (keys : List SortKey) :
    Except PlanFault (List (String × Direction)) := do
  let columns ← keys.mapM schema.sortColumn
  if columns.any fun c => c.1 == schema.key then return columns
  else return columns ++ [(schema.key, .asc)]

end Schema

structure Plan where
  condition : Condition
  order : List (String × Direction)

def Plan.orderText (plan : Plan) : String :=
  String.intercalate ", " (plan.order.map fun c => "p." ++ c.1 ++ " " ++ c.2.keyword)

def Spec.plan (spec : Spec) (schema : Schema) : Except PlanFault Plan := do
  let condition ← match spec.restriction with
    | none => pure .always
    | some r => schema.condition spec (Grouped.ofRestriction r)
  return ⟨condition, ← schema.order spec.order⟩

end InventorySearch.Search
