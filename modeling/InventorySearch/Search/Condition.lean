import InventorySearch.Search.Schema

set_option autoImplicit false

/-!
# Conditions and their truth

What a search asks of a row, and the three truth values that this can have.
-/
namespace InventorySearch.Search

/-!
## Truth values of conditions

A condition on values that may be missing is true, false or unknown, and only
the rows where it is true are found.
-/

/-- `none` is unknown. -/
abbrev Truth := Option Bool

namespace Truth

def not : Truth → Truth
  | some b => some (!b)
  | none => none

def and : Truth → Truth → Truth
  | some false, _ | _, some false => some false
  | some true, some true => some true
  | _, _ => none

def or : Truth → Truth → Truth
  | some true, _ | _, some true => some true
  | some false, some false => some false
  | _, _ => none

def all (ts : List Truth) : Truth := ts.foldr and (some true)

def any (ts : List Truth) : Truth := ts.foldr or (some false)

@[simp] theorem and_eq_some_true {a b : Truth} :
    a.and b = some true ↔ a = some true ∧ b = some true := by
  rcases a with _ | (_ | _) <;> rcases b with _ | (_ | _) <;> decide

@[simp] theorem or_eq_some_true {a b : Truth} :
    a.or b = some true ↔ a = some true ∨ b = some true := by
  rcases a with _ | (_ | _) <;> rcases b with _ | (_ | _) <;> decide

@[simp] theorem or_eq_some_false {a b : Truth} :
    a.or b = some false ↔ a = some false ∧ b = some false := by
  rcases a with _ | (_ | _) <;> rcases b with _ | (_ | _) <;> decide

@[simp] theorem not_eq_some_true {a : Truth} : a.not = some true ↔ a = some false := by
  rcases a with _ | (_ | _) <;> decide

theorem all_eq_some_true {ts : List Truth} : all ts = some true ↔ ∀ t ∈ ts, t = some true := by
  induction ts with
  | nil => simp [all]
  | cons t ts ih => simpa [all] using fun _ => ih

theorem any_eq_some_true {ts : List Truth} : any ts = some true ↔ some true ∈ ts := by
  induction ts with
  | nil => simp [any]
  | cons t ts ih =>
    have step : any (t :: ts) = some true ↔ t = some true ∨ any ts = some true := or_eq_some_true
    rw [step, ih, List.mem_cons, eq_comm]

theorem any_eq_some_false {ts : List Truth} : any ts = some false ↔ ∀ t ∈ ts, t = some false := by
  induction ts with
  | nil => simp [any]
  | cons t ts ih => simpa [any] using fun _ => ih

end Truth

/-!
## Conditions

The condition that a search puts to the store. It has a text, in which every
literal is a placeholder, the list of literals in the order of their
placeholders, and a truth value for each row. All three follow the same tree.
-/

open Calendar InventorySearch.Filter Store

inductive Literal where
  | text (s : String)
  | integer (n : Int)
  | moment (t : Timestamp)
deriving DecidableEq

namespace Literal

def placeholder : Literal → String
  | .text _ => "?"
  | .integer _ => "CAST(? AS BIGINT)"
  | .moment _ => "CAST(? AS TIMESTAMP)"

def parameter : Literal → String
  | .text s => s
  | .integer n => Text.Numeral.decimal n
  | .moment t => t.storedText

/-- The value that the store makes of the parameter, which is written to the second. The store
knows no sixtieth second and no year written with a plus sign. -/
def value? : Literal → Option Value
  | .text s => some (.text s)
  | .integer n => some (.integer n)
  | .moment t =>
    if t.second < 60 ∧ t.date.year ≤ 9999 then some (.moment t.wholeSecond.micros) else none

def value (l : Literal) : Value := l.value?.getD .null

end Literal

def holdsOf (r : Relation) (o : Ordering) : Bool :=
  match r with
  | .eq => o.isEq
  | .ne => o.isNe
  | .lt => o.isLT
  | .le => o.isLE
  | .gt => o.isGT
  | .ge => o.isGE

def relate (r : Relation) (a b : Value) : Truth := (a.compare? b).map (holdsOf r)

inductive Test where
  | isNull (column : String)
  | isNotNull (column : String)
  | relation (column : String) (r : Relation) (literal : Literal)
deriving DecidableEq

namespace Test

def text (row : String) : Test → String
  | .isNull column => s!"{row}.{column} IS NULL"
  | .isNotNull column => s!"{row}.{column} IS NOT NULL"
  | .relation column r literal => s!"{row}.{column} {r.symbol} {literal.placeholder}"

def literals : Test → List Literal
  | .relation _ _ literal => [literal]
  | _ => []

def eval (row : Row) : Test → Truth
  | .isNull column => some (row.get column == .null)
  | .isNotNull column => some (row.get column != .null)
  | .relation column r literal => relate r (row.get column) literal.value

end Test

abbrev Rows := Table → List Row

def Source.rows (db : Rows) (key : Value) : Source → List Row
  | .owned table owner => (db table).filter fun c => relate .eq (c.get owner) key == some true
  | .linked link owner member table column =>
    ((db link).filter fun l => relate .eq (l.get owner) key == some true).flatMap fun l =>
      (db table).filter fun c => relate .eq (c.get column) (l.get member) == some true

inductive Condition where
  | always
  | test (t : Test)
  /-- Whether `key` is among the owners in `link`, of the member asked for if there is one. -/
  | membership (inside : Bool) (key : String) (link : Table) (owner : String)
      (asked : Option (String × Literal))
  /-- All tests hold of one associated row, or, with `orNone`, there is no such row. -/
  | related (orNone : Bool) (source : Source) (key : String) (tests : List Test)
  | all (parts : List Condition)
  | either (left right : Condition)

namespace Condition

mutual

def text : Condition → String
  | .always => "1=1"
  | .test t => t.text "p"
  | .membership inside key link owner asked =>
    let chosen := match asked with
      | none => ""
      | some (member, literal) => s!" WHERE {member} = {literal.placeholder}"
    let negation := if inside then "" else "NOT "
    s!"p.{key} {negation}IN (SELECT {owner} FROM {link.name}{chosen})"
  | .related orNone source key tests =>
    let rows := s!"SELECT 1 FROM {source.tables} WHERE {source.parent} = p.{key}"
    let found := s!"EXISTS ({rows} AND " ++ String.intercalate " AND " (tests.map (Test.text "c")) ++ ")"
    if orNone then s!"(NOT EXISTS ({rows}) OR {found})" else found
  | .all parts => "(" ++ String.intercalate " AND " (texts parts) ++ ")"
  | .either left right => "(" ++ left.text ++ " OR " ++ right.text ++ ")"

def texts : List Condition → List String
  | [] => []
  | c :: cs => c.text :: texts cs

end

mutual

def literals : Condition → List Literal
  | .always => []
  | .test t => t.literals
  | .membership _ _ _ _ asked => (asked.map Prod.snd).toList
  | .related _ _ _ tests => tests.flatMap Test.literals
  | .all parts => literalsOf parts
  | .either left right => left.literals ++ right.literals

def literalsOf : List Condition → List Literal
  | [] => []
  | c :: cs => c.literals ++ literalsOf cs

end

def parameters (c : Condition) : List String := c.literals.map Literal.parameter

def readable (c : Condition) : Bool := c.literals.all fun l => l.value?.isSome

mutual

def tables : Condition → List Table
  | .always | .test _ => []
  | .membership _ _ link _ _ => [link]
  | .related _ (.owned table _) _ _ => [table]
  | .related _ (.linked link _ _ table _) _ _ => [link, table]
  | .all parts => tablesOf parts
  | .either left right => left.tables ++ right.tables

def tablesOf : List Condition → List Table
  | [] => []
  | c :: cs => c.tables ++ tablesOf cs

end

mutual

def eval (db : Rows) (row : Row) : Condition → Truth
  | .always => some true
  | .test t => t.eval row
  | .membership inside key link owner asked =>
    let chosen := match asked with
      | none => db link
      | some (member, literal) =>
        (db link).filter fun l => relate .eq (l.get member) literal.value == some true
    let found := Truth.any (chosen.map fun l => relate .eq (row.get key) (l.get owner))
    if inside then found else found.not
  | .related orNone source key tests =>
    let rows := source.rows db (row.get key)
    let found := rows.any fun c => Truth.all (tests.map (Test.eval c)) == some true
    some (found || (orNone && rows.isEmpty))
  | .all parts => evalAll db row parts
  | .either left right => (left.eval db row).or (right.eval db row)

def evalAll (db : Rows) (row : Row) : List Condition → Truth
  | [] => some true
  | c :: cs => (c.eval db row).and (evalAll db row cs)

end

end Condition

end InventorySearch.Search
