import InventorySearch.Proofs.Search.Meaning
import InventorySearch.Store.Search

set_option autoImplicit false

/-!
# Rows of a table

What rows are like, how their values compare, and the order in which they are listed.
-/
namespace InventorySearch.Store
open Search

/-!
## Constraints on tables

What every row of a table has to be like, and what no two rows may share. The
table of schema versions is left out: it is written by migrations alone, and no
search asks for it.
-/

def ColumnType.Has : ColumnType → Value → Prop
  | .bigint, .integer n => fitsBits 64 n = true
  | .integer, .integer n => fitsBits 32 n = true
  | .text, .text _ => True
  | .timestamp, .moment _ => True
  | _, _ => False

def Column.Admits (c : Column) (v : Value) : Prop :=
  (v = .null ∧ c.required = false) ∨ c.type.Has v

structure Table.Lawful (table : Table) (rows : List Row) : Prop where
  admits : ∀ row ∈ rows, ∀ c ∈ table.columns, c.Admits (row.get c.name)
  distinct : ∀ key ∈ table.keys, rows.Pairwise fun a b => Table.agree key a b = false

/-- Whether all tables of the inventory and of the faults keep the constraints. -/
def Lawful (db : Rows) : Prop := ∀ table : Table, table ≠ .schemaVersion → table.Lawful (db table)

/-- Being a column in which every row has a number, whatever the store holds. -/
def Table.HasNumber (table : Table) (column : String) : Prop :=
  table ≠ .schemaVersion ∧ Column.mandatory .bigint column ∈ table.columns

instance (table : Table) (column : String) : Decidable (table.HasNumber column) :=
  inferInstanceAs (Decidable (_ ∧ _))

theorem Lawful.exists_integer {db : Rows} (h : Lawful db) {table : Table} {column : String}
    (hcol : table.HasNumber column) {row : Row} (hrow : row ∈ db table) :
    ∃ n, row.get column = .integer n := by
  rcases (h table hcol.1).admits row hrow _ hcol.2 with ⟨_, hopt⟩ | htype
  · exact absurd hopt (by simp [Column.mandatory])
  · change ColumnType.bigint.Has (row.get column) at htype
    cases hv : row.get column with
    | integer n => exact ⟨n, rfl⟩
    | null => simp [hv, ColumnType.Has] at htype
    | text s => simp [hv, ColumnType.Has] at htype
    | moment n => simp [hv, ColumnType.Has] at htype

/-!
## Comparing values

The comparisons that the store computes are the relations between values.
-/

open InventorySearch.Filter

theorem compare_bytes_eq_lt {as bs : List UInt8} : compare as bs = .lt ↔ as < bs := by
  rw [List.compare_eq_compareLex]
  induction as generalizing bs with
  | nil => cases bs <;> simp [List.compareLex_nil_nil, List.compareLex_nil_cons]
  | cons a as ih =>
    cases bs with
    | nil => simp [List.compareLex_cons_nil]
    | cons b bs =>
      rw [List.compareLex_cons_cons, Ordering.then_eq_lt, ih, List.cons_lt_cons_iff,
        Std.compare_eq_lt, Std.compare_eq_iff_eq]

theorem compare_bytes_eq_gt {as bs : List UInt8} : compare as bs = .gt ↔ bs < as := by
  rw [← compare_bytes_eq_lt, Std.OrientedCmp.gt_iff_lt]

theorem holdsOf_compare {α : Type} [LT α] [Ord α] {a b : α} (r : Relation)
    (heq : compare a b = .eq ↔ a = b) (hlt : compare a b = .lt ↔ a < b)
    (hgt : compare a b = .gt ↔ b < a) : holdsOf r (compare a b) = true ↔ r.On a b := by
  cases ho : compare a b <;> cases r <;> simp_all [holdsOf, Relation.On]

theorem relate_eq_some_true {r : Relation} {a b : Value} :
    relate r a b = some true ↔ r.OnValues a b := by
  cases a <;> cases b <;> simp [relate, Value.compare?, Relation.OnValues]
  case integer.integer m n =>
    exact holdsOf_compare r Int.compare_eq_eq Int.compare_eq_lt Int.compare_eq_gt
  case text.text s t =>
    exact holdsOf_compare r Std.compare_eq_iff_eq compare_bytes_eq_lt compare_bytes_eq_gt
  case moment.moment m n =>
    exact holdsOf_compare r Int.compare_eq_eq Int.compare_eq_lt Int.compare_eq_gt

/-- Values are found equal when they are and there is one. -/
theorem relate_eq_eq_some_true {a b : Value} :
    relate .eq a b = some true ↔ a = b ∧ a ≠ .null := by
  rw [relate_eq_some_true]
  cases a <;> cases b <;> simp [Relation.OnValues, Relation.On]
  case text.text s t => exact ⟨Text.bytes_injective, congrArg Text.bytes⟩

theorem relate_eq_integers (m n : Int) :
    relate .eq (.integer m) (.integer n) = some (decide (m = n)) := by
  have hiff : holdsOf .eq (compare m n) = true ↔ m = n :=
    holdsOf_compare .eq Int.compare_eq_eq Int.compare_eq_lt Int.compare_eq_gt
  exact congrArg some (Bool.eq_iff_iff.mpr (hiff.trans decide_eq_true_iff.symm))

end InventorySearch.Store

namespace InventorySearch.Search
open InventorySearch.Filter Store

/-!
## The order of a listing

Rows are listed by sort columns, the first column first and missing values last.
The comparison of rows is a total one, and on rows of one table it says which of
two rows comes before the other.
-/

def Direction.Before (direction : Direction) (a b : Value) : Prop :=
  a ≠ .null ∧ (b = .null ∨
    match direction with
    | .asc => Relation.lt.OnValues a b
    | .desc => Relation.lt.OnValues b a)

def RowBefore : List (String × Direction) → Row → Row → Prop
  | [], _, _ => False
  | (column, direction) :: rest, a, b =>
    direction.Before (a.get column) (b.get column) ∨
      a.get column = b.get column ∧ RowBefore rest a b

end InventorySearch.Search

namespace InventorySearch.Store
open InventorySearch.Filter Search

/-! ### Values -/

namespace Value

def number : Value → Int
  | .integer n => n
  | .moment n => n
  | _ => 0

def spelling : Value → List UInt8
  | .text s => Text.bytes s
  | _ => []

theorem order_eq :
    order = compareLex (compareOn rank) (compareLex (compareOn number) (compareOn spelling)) := by
  funext a b
  cases a <;> cases b <;>
    simp [order, compare?, rank, number, spelling, compareLex, compareOn] <;> rfl

instance : Std.TransCmp order := order_eq ▸ inferInstance

theorem eq_of_order_eq_eq {a b : Value} (h : a.order b = .eq) : a = b := by
  rw [order_eq, compareLex_eq_eq, compareLex_eq_eq] at h
  obtain ⟨hrank, hnumber, hspelling⟩ := h
  simp only [compareOn, Std.compare_eq_iff_eq] at hrank hnumber hspelling
  cases a <;> cases b <;> simp_all [rank, number, spelling]
  exact Text.bytes_injective hspelling

theorem order_eq_lt {a b : Value} (h : (a.compare? b).isSome = true) :
    a.order b = .lt ↔ Relation.lt.OnValues a b := by
  obtain ⟨o, ho⟩ := Option.isSome_iff_exists.mp h
  rw [← relate_eq_some_true, relate, order, ho]
  rw [Option.getD_some]
  cases o <;> simp [holdsOf]

end Value

theorem ColumnType.compare?_isSome {type : ColumnType} {a b : Value} (ha : type.Has a)
    (hb : type.Has b) : (a.compare? b).isSome = true := by
  cases type <;> cases a <;> simp only [Has] at ha <;> cases b <;> simp only [Has] at hb <;> rfl

/-- Whether values of one column can be ordered: where both are there, they are of one type. -/
def Alike (a b : Value) : Prop := a ≠ .null → b ≠ .null → (a.compare? b).isSome = true

theorem Column.alike_of_admits {c : Column} {a b : Value} (ha : c.Admits a) (hb : c.Admits b) :
    Alike a b := by
  intro hna hnb
  rcases ha with ⟨hnull, _⟩ | ha
  · exact absurd hnull hna
  rcases hb with ⟨hnull, _⟩ | hb
  · exact absurd hnull hnb
  exact ColumnType.compare?_isSome ha hb

/-! ### Sort columns -/

def directed : Direction → Value → Value → Ordering
  | .asc, a, b => a.order b
  | .desc, a, b => b.order a

instance (direction : Direction) : Std.TransCmp (directed direction) := by
  cases direction with
  | asc => exact inferInstanceAs (Std.TransCmp Value.order)
  | desc => exact inferInstanceAs (Std.TransCmp fun a b => Value.order b a)

/-- Whether a value is missing comes first, and is not turned round with the direction. -/
theorem compareIn_eq (direction : Direction) :
    compareIn direction =
      compareLex (compareOn fun v => decide (v = .null)) (directed direction) := by
  funext a b
  cases direction <;> cases a <;> cases b <;>
    simp [compareIn, directed, compareLex, compareOn, Value.order, Value.compare?, Value.rank] <;>
    rfl

instance (direction : Direction) : Std.TransCmp (compareIn direction) :=
  compareIn_eq direction ▸ inferInstance

theorem compareIn_eq_eq {direction : Direction} {a b : Value} :
    compareIn direction a b = .eq ↔ a = b := by
  constructor
  · intro h
    rw [compareIn_eq, compareLex_eq_eq] at h
    cases direction with
    | asc => exact Value.eq_of_order_eq_eq h.2
    | desc => exact (Value.eq_of_order_eq_eq h.2).symm
  · rintro rfl
    exact Std.ReflCmp.compare_self

theorem compareIn_eq_lt {direction : Direction} {a b : Value} (h : Alike a b) :
    compareIn direction a b = .lt ↔ direction.Before a b := by
  by_cases ha : a = .null
  · subst ha
    have hnot : Value.order .null b ≠ .lt := by cases b <;> exact nofun
    simp [compareIn, Direction.Before, hnot]
  by_cases hb : b = .null
  · subst hb
    have hlt : a.order .null = .lt := by
      cases a with
      | null => exact absurd rfl ha
      | integer n => rfl
      | text s => rfl
      | moment n => rfl
    simp [compareIn, Direction.Before, ha, hlt]
  have hsome := h ha hb
  have hsome' : (b.compare? a).isSome = true := by
    cases a <;> cases b <;> simp_all [Value.compare?]
  cases direction with
  | asc => simp [compareIn, Direction.Before, ha, hb, Value.order_eq_lt hsome]
  | desc => simp [compareIn, Direction.Before, ha, hb, Value.order_eq_lt hsome']

theorem compareRows_cons (c : String × Direction) (rest : List (String × Direction)) :
    compareRows (c :: rest) =
      compareLex (fun a b => compareIn c.2 (a.get c.1) (b.get c.1)) (compareRows rest) := rfl

instance transCmp_compareRows (columns : List (String × Direction)) :
    Std.TransCmp (compareRows columns) := by
  induction columns with
  | nil => exact { eq_swap := rfl, isLE_trans := fun _ _ => rfl }
  | cons c rest ih =>
    have hcolumn : Std.TransCmp fun a b : Row => compareIn c.2 (a.get c.1) (b.get c.1) :=
      { eq_swap := Std.OrientedCmp.eq_swap
        isLE_trans := Std.TransCmp.isLE_trans }
    rw [compareRows_cons]
    infer_instance

theorem compareRows_eq_eq {columns : List (String × Direction)} {a b : Row} :
    compareRows columns a b = .eq ↔ ∀ c ∈ columns, a.get c.1 = b.get c.1 := by
  induction columns with
  | nil => simp [compareRows]
  | cons c rest ih =>
    rw [compareRows_cons, compareLex_eq_eq, compareIn_eq_eq, ih, List.forall_mem_cons]

theorem compareRows_eq_lt {columns : List (String × Direction)} {a b : Row}
    (h : ∀ c ∈ columns, Alike (a.get c.1) (b.get c.1)) :
    compareRows columns a b = .lt ↔ RowBefore columns a b := by
  induction columns with
  | nil => simp [compareRows, RowBefore]
  | cons c rest ih =>
    rw [List.forall_mem_cons] at h
    obtain ⟨column, direction⟩ := c
    rw [compareRows, Ordering.then_eq_lt, compareIn_eq_lt h.1, compareIn_eq_eq, ih h.2, RowBefore]

/-! ### Sorted rows -/

theorem perm_sortRows (columns : List (String × Direction)) (rows : List Row) :
    (sortRows columns rows).Perm rows :=
  List.mergeSort_perm _ _

theorem pairwise_mergeSort_rows {α : Type} (row : α → Row) (columns : List (String × Direction))
    (xs : List α) :
    (xs.mergeSort fun a b => (compareRows columns (row a) (row b)).isLE).Pairwise
      fun a b => (compareRows columns (row a) (row b)).isLE = true := by
  -- merge sort needs a comparison that is total on all rows, not on those of the table alone
  refine List.pairwise_mergeSort (fun a b c => Std.TransCmp.isLE_trans) (fun a b => ?_) xs
  have hswap : compareRows columns (row b) (row a) = (compareRows columns (row a) (row b)).swap :=
    Std.OrientedCmp.eq_swap
  rw [Bool.or_eq_true, hswap]
  cases compareRows columns (row a) (row b) <;> simp

theorem pairwise_sortRows (columns : List (String × Direction)) (rows : List Row) :
    (sortRows columns rows).Pairwise fun a b => (compareRows columns a b).isLE = true :=
  pairwise_mergeSort_rows id columns rows

end InventorySearch.Store
