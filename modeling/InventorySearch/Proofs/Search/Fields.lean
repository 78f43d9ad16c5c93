import InventorySearch.Proofs.Filter.Alternatives
import InventorySearch.Proofs.Search.Decision
import InventorySearch.Proofs.Search.Resolution

set_option autoImplicit false

/-!
# Fields of entities

The names of fields can be written in filters, and behind each field of a column stands
one of its kind, so that a literal for it compares with every value there. What condition
a comparison of one field has is said here once for columns and once for memberships.
-/
namespace InventorySearch.Store
open Search

/-! ## Values of one kind -/

def Value.kind? : Value → Option ScalarKind
  | .null => none
  | .integer _ => some .integer
  | .text _ => some .text
  | .moment _ => some .timestamp

def ColumnType.kind : ColumnType → ScalarKind
  | .bigint | .integer => .integer
  | .text => .text
  | .timestamp => .timestamp

theorem ColumnType.Has.kind?_eq {type : ColumnType} {v : Value} (h : type.Has v) :
    v.kind? = some type.kind := by
  cases type <;> cases v <;> simp only [ColumnType.Has] at h <;> rfl

theorem Value.compare?_eq_none_iff {v w : Value} (hw : w ≠ .null)
    (hv : v = .null ∨ v.kind? = w.kind?) : v.compare? w = none ↔ v = .null := by
  rcases hv with rfl | hkind
  · simp [compare?]
  · cases v <;> cases w <;> simp_all [kind?, compare?]

end InventorySearch.Store

namespace InventorySearch.Search
open InventorySearch.Filter Store

def Literal.kind : Literal → ScalarKind
  | .text _ => .text
  | .integer _ => .integer
  | .moment _ => .timestamp

theorem Literal.kind?_value {l : Literal} (h : l.value?.isSome = true) :
    l.value.kind? = some l.kind := by
  cases l with
  | text s => rfl
  | integer n => rfl
  | moment t =>
    rw [value, value?_moment h]
    rfl

theorem kind_of_literal? {kind : ScalarKind} {o : Operand} {l : Literal}
    (h : literal? kind o = some l) : l.kind = kind := by
  cases kind <;> cases o <;> simp only [literal?, Option.some.injEq, reduceCtorEq] at h
  case text.text s => exact h ▸ rfl
  case integer.integer n => exact h ▸ rfl
  case integer.ordinal n => exact h ▸ rfl
  case integer.reference r => exact h ▸ rfl
  case integer.text s =>
    obtain ⟨n, -, rfl⟩ := Option.map_eq_some_iff.mp h
    rfl
  case timestamp.moment t => exact h ▸ rfl
  case timestamp.text s =>
    obtain ⟨t, -, rfl⟩ := Option.map_eq_some_iff.mp h
    rfl

/-! ## Columns behind fields -/

def FieldKind.Stored (table : Table) (column : String) : FieldKind → Prop
  | .scalar kind => ∃ c ∈ table.columns, c.name = column ∧ c.type.kind = kind
  | .membership .. => True

instance (table : Table) (column : String) :
    (kind : FieldKind) → Decidable (kind.Stored table column)
  | .scalar kind => inferInstanceAs (Decidable (∃ c ∈ table.columns, _ ∧ c.type.kind = kind))
  | .membership .. => inferInstanceAs (Decidable True)

namespace Entity
variable {entity : Entity} {name : String} {f : Field FieldKind}

theorem stored_fields (entity : Entity) :
    ∀ f ∈ entity.schema.fields, f.kind.Stored entity.schema.table f.column := by
  cases entity <;> decide +kernel

theorem free_fields (entity : Entity) : ∀ f ∈ entity.schema.fields, f.name ≠ "" ∧
    (f.name.toList.all fun c => decide (c ∉ ['=', '(', ')', ';', ','])) = true := by
  cases entity <;> decide +kernel

theorem isFree_of_field? (h : field? entity.schema.fields name = some f) : IsFree name := by
  obtain ⟨hne, hall⟩ := entity.free_fields f (mem_of_field? h)
  exact name_of_field? h ▸ isFree_of_all hne hall

theorem undotted_of_field? (h : field? entity.schema.fields name = some f) :
    Text.cut? '.' name = none := by
  have hdot := entity.undotted_fields f (mem_of_field? h)
  rw [name_of_field? h] at hdot
  rw [Text.cut?, Text.cutChars?_eq_none_iff.mpr hdot]
  rfl

end Entity

theorem compare?_value_eq_none_iff {db : Rows} (hdb : Lawful db) {entity : Entity} {name : String}
    {f : Field FieldKind} (hf : field? entity.schema.fields name = some f)
    {kind : ScalarKind} (hkind : f.kind = .scalar kind) {o : Operand} {l : Literal}
    (hl : literal? kind o = some l) (hread : l.value?.isSome = true) {row : Row}
    (hrow : row ∈ db entity.schema.table) :
    (row.get f.column).compare? l.value = none ↔ row.get f.column = .null := by
  have hvalue := Literal.kind?_value hread
  rw [kind_of_literal? hl] at hvalue
  have hstored := entity.stored_fields f (mem_of_field? hf)
  rw [hkind] at hstored
  obtain ⟨c, hc, hname, htype⟩ := hstored
  refine Value.compare?_eq_none_iff (fun hnull => ?_) ?_
  · rw [hnull] at hvalue
    cases hvalue
  · rw [← hname, hvalue, ← htype]
    refine ((hdb _ entity.schema_fits.key.1).admits row hrow c hc).imp And.left ?_
    exact ColumnType.Has.kind?_eq

/-! ## The conditions of one field -/

namespace Schema
variable {schema : Schema} {field : String} {f : Field FieldKind}
  (hf : field? schema.fields field = some f)
include hf

section
variable {kind : ScalarKind} (hkind : f.kind = .scalar kind)
include hkind

theorem plain_isNull : schema.plain field .isNull none = .ok (.test (.isNull f.column)) := by
  obtain ⟨name, column, k⟩ := f
  cases hkind
  rw [plain, hf]
  rfl

theorem plain_relation (r : Relation) {o : Operand} {l : Literal} (hl : literal? kind o = some l) :
    schema.plain field (.relation r) (some o) = .ok (.test (.relation f.column r l)) := by
  obtain ⟨name, column, k⟩ := f
  cases hkind
  rw [plain, hf]
  simp only [scalarTest, bindLiteral, hl]
  rfl

theorem exists_of_plain_relation {r : Relation} {o : Operand} {c : Condition}
    (h : schema.plain field (.relation r) (some o) = .ok c) :
    ∃ l, literal? kind o = some l ∧ c = .test (.relation f.column r l) := by
  cases hl : literal? kind o with
  | some l =>
    rw [plain_relation hf hkind r hl] at h
    exact ⟨l, rfl, (Except.ok.inj h).symm⟩
  | none =>
    obtain ⟨name, column, k⟩ := f
    cases hkind
    simp [plain, hf, scalarTest, bindLiteral, hl, Except.map] at h

end

section
variable {link : Table} {owner member : String} (hkind : f.kind = .membership link owner member)
include hkind

theorem plain_membership (op : Comparator) (operand : Option Operand) :
    schema.plain field op operand = schema.membership field link owner member op operand := by
  obtain ⟨name, column, k⟩ := f
  cases hkind
  rw [plain, hf]

theorem plain_member {r : Relation} (hr : r.isOrdering = false) {o : Operand} {l : Literal}
    (hl : literal? .integer o = some l) : schema.plain field (.relation r) (some o) =
      .ok (.membership (r == .eq) schema.key link owner (some (member, l))) := by
  rw [plain_membership hf hkind, membership, hr, bindLiteral, hl]
  rfl

theorem exists_of_plain_member {r : Relation} {o : Operand} {c : Condition}
    (h : schema.plain field (.relation r) (some o) = .ok c) :
    ∃ l, literal? .integer o = some l ∧
      c = .membership (r == .eq) schema.key link owner (some (member, l)) := by
  rw [plain_membership hf hkind, membership] at h
  cases hr : r.isOrdering with
  | true => simp [hr] at h
  | false =>
    rw [hr] at h
    obtain ⟨l, hl, rfl⟩ := Except.exists_of_map_eq_ok h
    obtain ⟨_, heq, hlit⟩ := exists_of_bindLiteral hl
    cases heq
    exact ⟨l, hlit, rfl⟩

end

end Schema
end InventorySearch.Search
