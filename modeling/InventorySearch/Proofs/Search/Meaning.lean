import InventorySearch.Proofs.Search.Grouping

set_option autoImplicit false

/-!
# What a restriction means

The rows of an entity's table that a restriction holds of, said of the tree
itself and with two truth values only. Neither conditions nor their texts come
in here; that they agree with this meaning is shown elsewhere. A comparison with
a missing value is false.
-/
namespace InventorySearch.Filter.Relation

def On {α : Type} [LT α] : Relation → α → α → Prop
  | .eq, a, b => a = b
  | .ne, a, b => a ≠ b
  | .lt, a, b => a < b
  | .le, a, b => a < b ∨ a = b
  | .gt, a, b => b < a
  | .ge, a, b => b < a ∨ a = b

/-- The relation between two values, which have to be of one type. Texts go by their bytes. -/
def OnValues (r : Relation) : Store.Value → Store.Value → Prop
  | .integer m, .integer n => r.On m n
  | .text s, .text t => r.On (Text.bytes s) (Text.bytes t)
  | .moment m, .moment n => r.On m n
  | _, _ => False

end InventorySearch.Filter.Relation

namespace InventorySearch.Search
open Calendar InventorySearch.Filter Store

/-- The value that an operand is in a column of the kind. Instants are taken to the second. -/
def operandValue? : ScalarKind → Operand → Option Value
  | .text, .text s => some (.text s)
  | .integer, .integer n => some (.integer n)
  | .integer, .ordinal n => some (.integer n)
  | .integer, .reference r => some (.integer r.id)
  | .integer, .text s => (Text.Numeral.int64? s).map .integer
  | .timestamp, .moment t => some (.moment t.wholeSecond.micros)
  | .timestamp, .text s =>
    (Timestamp.read? s.toList).map fun t => .moment t.wholeSecond.micros
  | _, _ => none

def ColumnHolds (row : Row) (column : String) (kind : ScalarKind) (op : Comparator)
    (operand : Option Operand) : Prop :=
  match op with
  | .isNull => row.get column = .null
  | .isNotNull => row.get column ≠ .null
  | .relation r =>
    ∃ o ∈ operand, ∃ v ∈ operandValue? kind o, r.OnValues (row.get column) v

def Source.IsChild (db : Rows) (key : Value) (c : Row) : Source → Prop
  | .owned table owner => c ∈ db table ∧ c.get owner = key
  | .linked link owner member table column =>
    c ∈ db table ∧ ∃ l ∈ db link, l.get owner = key ∧ l.get member = c.get column

/-- Being a row that an alias may speak of: an associated one or, under a left join and where there
is none, the one without values. -/
def Source.IsCandidate (db : Rows) (key : Value) (join : Join) (c : Row) (source : Source) : Prop :=
  source.IsChild db key c ∨
    join = .left ∧ (∀ d, ¬ source.IsChild db key d) ∧ c = ⟨[]⟩

def Association.TermHolds (association : Association) (c : Row) (t : Term) : Prop :=
  ∃ f ∈ field? association.fields t.child, ColumnHolds c f.column f.kind t.op t.operand

def alias? (aliases : List Alias) (name : String) : Option Alias :=
  aliases.find? fun a => a.name == name

namespace Schema
variable (schema : Schema) (aliases : List Alias) (db : Rows) (row : Row)

/-- Whether a comparison holds of a membership field: `null` asks for no link at all, a relation
for a link to one member or for none. -/
def MembershipHolds (link : Table) (owner member : String) (op : Comparator)
    (operand : Option Operand) : Prop :=
  match op with
  | .isNull => ¬ ∃ l ∈ db link, l.get owner = row.get schema.key
  | .isNotNull => ∃ l ∈ db link, l.get owner = row.get schema.key
  | .relation r =>
    ∃ o ∈ operand, ∃ v ∈ operandValue? .integer o,
      let linked := ∃ l ∈ db link, l.get owner = row.get schema.key ∧ l.get member = v
      r = .eq ∧ linked ∨ r = .ne ∧ ¬ linked

def FieldHolds (field : String) (op : Comparator) (operand : Option Operand) : Prop :=
  ∃ f ∈ field? schema.fields field,
    match f.kind with
    | .scalar kind => ColumnHolds row f.column kind op operand
    | .membership link owner member => schema.MembershipHolds db row link owner member op operand

def AliasHolds (name : String) (terms : List Term) : Prop :=
  ∃ link ∈ alias? aliases name, ∃ association ∈ schema.association? link.path,
    ∃ c, association.source.IsCandidate db (row.get schema.key) link.join c ∧
      ∀ t ∈ terms, association.TermHolds c t

end Schema
end InventorySearch.Search

namespace InventorySearch.Filter.Restriction
open Search Store

theorem sizeOf_le_of_mem_members {m r : Restriction} (h : m ∈ r.members) :
    sizeOf m ≤ sizeOf r := by
  induction r with
  | comparison field op operand =>
    obtain rfl := List.mem_singleton.mp h
    exact Nat.le_refl _
  | and left right ihLeft ihRight =>
    rw [and.sizeOf_spec]
    rcases List.mem_append.mp h with hin | hin
    · exact Nat.le_trans (ihLeft hin) (by omega)
    · exact Nat.le_trans (ihRight hin) (by omega)
  | or left right =>
    obtain rfl := List.mem_singleton.mp h
    exact Nat.le_refl _

theorem sizeOf_lt_of_mem_members {m left right : Restriction} (h : m ∈ (and left right).members) :
    sizeOf m < sizeOf (and left right) := by
  rw [and.sizeOf_spec]
  rcases List.mem_append.mp h with hin | hin
  · exact Nat.lt_of_le_of_lt (sizeOf_le_of_mem_members hin) (by omega)
  · exact Nat.lt_of_le_of_lt (sizeOf_le_of_mem_members hin) (by omega)

/-- Whether the restriction holds of a row. In an "and" the dotted members on one alias hold
together. -/
def Holds (schema : Schema) (aliases : List Alias) (db : Rows) (row : Row) : Restriction → Prop
  | .or left right => left.Holds schema aliases db row ∨ right.Holds schema aliases db row
  | .and left right =>
    (∀ m, (h : m ∈ (and left right).members) → m.dotted? = none → m.Holds schema aliases db row) ∧
    ∀ name ∈ aliasNames (and left right).members,
      schema.AliasHolds aliases db row name (termsOn name (and left right).members)
  | .comparison field op operand =>
    match (comparison field op operand).dotted? with
    | none => schema.FieldHolds db row field op operand
    | some (name, term) => schema.AliasHolds aliases db row name [term]
termination_by r => sizeOf r
decreasing_by
  · decreasing_tactic
  · decreasing_tactic
  · exact sizeOf_lt_of_mem_members h

end InventorySearch.Filter.Restriction

namespace InventorySearch.Search
open Store

def Spec.Selects (spec : Spec) (schema : Schema) (db : Rows) (row : Row) : Prop :=
  ∀ r ∈ spec.restriction, r.Holds schema spec.aliases db row

end InventorySearch.Search
