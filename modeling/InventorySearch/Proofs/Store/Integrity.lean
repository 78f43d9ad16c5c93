import InventorySearch.Proofs.Store.Acceptance
import InventorySearch.Proofs.Store.Runs

set_option autoImplicit false

/-!
# Integrity and columns

What reachable stores keep to, and what can be said of a column for it.
-/
namespace InventorySearch.Store
open InventorySearch.Filter Search

/-!
## The integrity of reachable stores

What the constraints say of the rows of a table, in terms of the values in their
columns; that an insertion keeps as many rows as respect them; and that a question
for the row with a key has one row at most to choose from.
-/

/-! ### Values in columns -/

/-- Being rows that satisfy the constraints declared for the table. -/
structure Table.Constrained (table : Table) (rows : List Row) : Prop where
  keyed : ∀ row ∈ rows, ∀ column ∈ table.primaryKey, row.get column ≠ .null
  apart : rows.Pairwise fun a b => ∃ column ∈ table.primaryKey, a.get column ≠ b.get column
  named : table = .categories → rows.Pairwise fun a b => a.get "name" ≠ b.get "name"
  valued : ∀ row ∈ rows, ∀ c ∈ table.columns, c.required = true → row.get c.name ≠ .null
  bounded : ∀ row ∈ rows, ∀ c ∈ table.columns, c.type = .integer →
    row.get c.name = .null ∨
      ∃ n, row.get c.name = .integer n ∧ -2147483648 ≤ n ∧ n ≤ 2147483647

theorem ColumnType.Has.ne_null {type : ColumnType} {v : Value} (h : type.Has v) : v ≠ .null := by
  rintro rfl
  cases type <;> exact h.elim

namespace Table
variable {table : Table} {rows : List Row}

theorem primaryKey_mem_keys (table : Table) : table.primaryKey ∈ table.keys := by
  cases table <;> decide

theorem Lawful.get_ne_null (h : table.Lawful rows) {row : Row} (hrow : row ∈ rows) {c : Column}
    (hc : c ∈ table.columns) (hrequired : c.required = true) : row.get c.name ≠ .null := by
  rcases h.admits row hrow c hc with ⟨-, hoptional⟩ | hhas
  · exact absurd (hrequired.symm.trans hoptional) (by decide)
  · exact hhas.ne_null

theorem Lawful.get_key_ne_null (h : table.Lawful rows) {row : Row} (hrow : row ∈ rows)
    {key : List String} (hkey : key ∈ table.keys) {column : String} (hcolumn : column ∈ key) :
    row.get column ≠ .null := by
  obtain ⟨c, hc, rfl, hrequired⟩ := table.exists_required_of_mem_keys key hkey column hcolumn
  exact h.get_ne_null hrow hc hrequired

/-- Rows differ in each key, since none of them lacks a value there. -/
theorem Lawful.pairwise_ne (h : table.Lawful rows) {key : List String} (hkey : key ∈ table.keys) :
    rows.Pairwise fun a b => ∃ column ∈ key, a.get column ≠ b.get column := by
  refine (h.distinct key hkey).imp_of_mem fun _ hb hdiffers => ?_
  by_contra hsame
  push Not at hsame
  have hagree := (agree_eq_true_iff fun _ hin => h.get_key_ne_null hb hkey hin).mpr hsame
  exact Bool.false_ne_true (hdiffers.symm.trans hagree)

theorem Lawful.constrained (h : table.Lawful rows) : table.Constrained rows where
  keyed _ hrow _ hcolumn := h.get_key_ne_null hrow table.primaryKey_mem_keys hcolumn
  apart := h.pairwise_ne table.primaryKey_mem_keys
  named := by
    rintro rfl
    exact (h.pairwise_ne (by decide : ["name"] ∈ categories.keys)).imp (by simp)
  valued _ hrow _ hc hrequired := h.get_ne_null hrow hc hrequired
  bounded row hrow c hc htype := by
    rcases h.admits row hrow c hc with ⟨hnull, -⟩ | hhas
    · exact .inl hnull
    · rw [htype] at hhas
      obtain ⟨n, hfits, hn⟩ := ColumnType.exists_of_has_integer hhas
      exact .inr ⟨n, hn, fitsBits_32_iff.mp hfits⟩

end Table

/-! ### One row to choose from -/

def AtMostOne (rows : List Row) (column : String) (v : Value) : Prop :=
  (rows.filter fun row => row.get column == v).length ≤ 1

theorem length_le_one_of_pairwise {α : Type} {R : α → α → Prop} {xs : List α}
    (h : xs.Pairwise R) (hnot : ∀ a ∈ xs, ∀ b ∈ xs, ¬ R a b) : xs.length ≤ 1 := by
  match xs with
  | [] => exact Nat.zero_le 1
  | [_] => exact Nat.le_refl 1
  | a :: b :: rest =>
    have hb : b ∈ b :: rest := List.mem_cons_self
    exact absurd ((List.pairwise_cons.mp h).1 b hb)
      (hnot a List.mem_cons_self b (List.mem_cons_of_mem _ hb))

theorem Table.Lawful.atMostOne {table : Table} {rows : List Row} (h : table.Lawful rows)
    {column : String} (hkey : [column] ∈ table.keys) (v : Value) : AtMostOne rows column v := by
  have hholds : ∀ row ∈ rows.filter fun row => row.get column == v, row.get column = v :=
    fun row hrow => beq_iff_eq.mp (List.mem_filter.mp hrow).2
  refine length_le_one_of_pairwise ((h.pairwise_ne hkey).sublist List.filter_sublist)
    fun a ha b hb => ?_
  rintro ⟨other, hother, hne⟩
  obtain rfl := List.mem_singleton.mp hother
  exact hne ((hholds a ha).trans (hholds b hb).symm)

theorem AtMostOne.find?_eq {rows : List Row} {column : String} {v : Value}
    (h : AtMostOne rows column v) {row : Row} (hrow : row ∈ rows) (hv : row.get column = v) :
    (rows.find? fun row => row.get column == v) = some row := by
  have hin : row ∈ rows.filter fun row => row.get column == v :=
    List.mem_filter.mpr ⟨hrow, beq_iff_eq.mpr hv⟩
  obtain ⟨only, honly⟩ := List.length_eq_one_iff.mp
    (Nat.le_antisymm h (List.length_pos_of_mem hin))
  rw [honly, List.mem_singleton] at hin
  rw [← List.head?_filter, honly, List.head?_cons, hin]

theorem Entity.key_mem_keys (entity : Entity) :
    [entity.schema.key] ∈ entity.schema.table.keys ∧ entity.schema.table ≠ .schemaVersion := by
  cases entity <;> decide

/-- Having one row at most for each question that is answered with one, and that row then. -/
structure Database.Unambiguous (db : Database) : Prop where
  byId : ∀ (entity : Entity) (id : Int) (rows : List Row),
    db.rows? entity.schema.table = some rows →
    AtMostOne rows entity.schema.key (.integer id) ∧
    ∀ row ∈ rows, row.get entity.schema.key = .integer id →
      db.byId entity id = .ok (some (record entity.schema row))
  category : ∀ (name : String) (rows : List Row), db.rows? .categories = some rows →
    AtMostOne rows "name" (.text name) ∧
    ∀ row ∈ rows, row.get "name" = .text name →
      db.lookup .category name = .ok (some ⟨.category, row.integer "id", name⟩) ∧
      db.categoryId? name = .ok (some (row.integer "id"))
  node : ∀ (key : String) (id : Int) (rows : List Row), Text.Numeral.int64? key = some id →
    db.rows? .nodes = some rows →
    AtMostOne rows "id" (.integer id) ∧
    ∀ row ∈ rows, row.get "id" = .integer id →
      db.lookup .node key = .ok (some ⟨.node, id, row.text "label"⟩)

namespace Database
variable {db : Database}

theorem rowsOrNone_of_some {table : Table} {rows : List Row} (h : db.rows? table = some rows) :
    db.rowsOrNone table = rows := by
  rw [rowsOrNone, h, Option.getD_some]

theorem unambiguous_of_lawful (h : Lawful db.rowsOrNone) : db.Unambiguous where
  byId entity id rows hrows := by
    have hone : AtMostOne rows entity.schema.key (.integer id) :=
      (rowsOrNone_of_some hrows ▸ h _ (Entity.key_mem_keys entity).2).atMostOne
        (Entity.key_mem_keys entity).1 _
    refine ⟨hone, fun row hrow hid => ?_⟩
    rw [byId, rows_of_some hrows]
    change Except.ok ((rows.find? fun row => row.get entity.schema.key == .integer id).map
      (record entity.schema)) = _
    rw [hone.find?_eq hrow hid, Option.map_some]
  category name rows hrows := by
    have hone : AtMostOne rows "name" (.text name) :=
      (rowsOrNone_of_some hrows ▸ h .categories (by decide)).atMostOne (by decide) _
    refine ⟨hone, fun row hrow hname => ⟨?_, ?_⟩⟩
    · rw [lookup, rows_of_some hrows]
      change Except.ok ((rows.find? fun row => row.get "name" == .text name).map _) = _
      rw [hone.find?_eq hrow hname, Option.map_some, hname]
      rfl
    · rw [categoryId?, rows_of_some hrows]
      change Except.ok ((rows.find? fun row => row.get "name" == .text name).map _) = _
      rw [hone.find?_eq hrow hname, Option.map_some]
  node key id rows hkey hrows := by
    have hone : AtMostOne rows "id" (.integer id) :=
      (rowsOrNone_of_some hrows ▸ h .nodes (by decide)).atMostOne (by decide) _
    refine ⟨hone, fun row hrow hid => ?_⟩
    rw [lookup, rows_of_some hrows]
    change Except.ok ((Text.Numeral.int64? key).bind fun id =>
      (rows.find? fun row => row.get "id" == .integer id).map _) = _
    rw [hkey, Option.bind_some, hone.find?_eq hrow hid, Option.map_some]
    rfl

end Database

/-! ### Insertions -/

namespace Session

theorem runOpen_insert {db after : Database} {table : Table}
    {rows : List (List (String × Value))} {kept : Nat} {fault : Option Fault}
    (h : db.insertAll table rows = (after, kept, fault)) :
    runOpen db (.insert table.name rows) =
      (fault.elim (.inserted kept) (.refused kept), after) := by
  have htable : Database.table table.name = .ok table := by
    rw [Database.table, ofName?_name]
  cases fault <;> simp only [runOpen, htable, h, Option.elim]

theorem step_insert {s : Session} (hopened : s.status = .opened) (now : Int) {table : Table}
    {before : List Row} (hbefore : s.contents.rows? table = some before)
    (rows : List (List (String × Value))) :
    ∃ kept reply, table.Keeps before rows kept ∧
      (kept = rows.length ∧ reply = .inserted kept ∨
        kept < rows.length ∧ ∃ fault, reply = .refused kept fault) ∧
      s.step now (.insert table.name rows) =
        (reply, ⟨s.contents.set table (some (before ++ (rows.take kept).map table.written)),
          .opened⟩) := by
  obtain ⟨contents, status⟩ := s
  obtain rfl : status = .opened := hopened
  obtain ⟨kept, fault, hkeeps, hfault, hinsert⟩ := Database.insertAll_keeps hbefore rows
  have hstep : (⟨contents, .opened⟩ : Session).step now (.insert table.name rows) =
      ((runOpen contents (.insert table.name rows)).1,
        ⟨(runOpen contents (.insert table.name rows)).2, .opened⟩) := rfl
  rw [hstep, runOpen_insert hinsert]
  cases fault with
  | none =>
    have hall := hfault.mp rfl
    exact ⟨kept, .inserted kept, hkeeps, .inl ⟨hall, rfl⟩, rfl⟩
  | some fault =>
    have hpart : kept ≠ rows.length := fun hall => by cases hfault.mpr hall
    exact ⟨kept, .refused kept fault, hkeeps,
      .inr ⟨Nat.lt_of_le_of_ne hkeeps.le hpart, fault, rfl⟩, rfl⟩

/-- In a reachable store every table of the inventory and of the faults satisfies the
constraints declared for it. An insertion keeps of its rows the longest prefix that respects
the constraints, after the rows there were, and touches no other table. No question for one
row has more than one to choose from. -/
theorem Reachable.integrity {s : Session} (h : s.Reachable) :
    (∀ table, table ≠ .schemaVersion → ∀ rows, s.contents.rows? table = some rows →
      table.Constrained rows) ∧
    (∀ (now : Int) (table : Table) (before : List Row) (rows : List (List (String × Value))),
      s.status = .opened → s.contents.rows? table = some before →
      ∃ kept reply after, s.step now (.insert table.name rows) = (reply, after) ∧
        table.Keeps before rows kept ∧
        (kept = rows.length ∧ reply = .inserted kept ∨
          kept < rows.length ∧ ∃ fault, reply = .refused kept fault) ∧
        after.status = .opened ∧
        after.contents.rows? table = some (before ++ (rows.take kept).map table.written) ∧
        ∀ other, other ≠ table → after.contents.rows? other = s.contents.rows? other) ∧
    s.contents.Unambiguous := by
  refine ⟨fun table hne rows hrows => ?_, fun now table before rows hopened hbefore => ?_, ?_⟩
  · exact Table.Lawful.constrained (Database.rowsOrNone_of_some hrows ▸ h.lawful table hne)
  · obtain ⟨kept, reply, hkeeps, hreply, hstep⟩ := step_insert hopened now hbefore rows
    exact ⟨kept, reply, _, hstep, hkeeps, hreply, rfl, Database.rows?_set_self _ _ _,
      fun _ hne => Database.rows?_set_of_ne _ _ hne⟩
  · exact Database.unambiguous_of_lawful h.lawful

def twins : List (List (String × Value)) :=
  [[("id", .integer 1), ("name", .text "Routers")], [("id", .integer 2), ("name", .text "Routers")],
   [("id", .integer 3), ("name", .text "Switches")]]

theorem keeps_twins : Table.categories.Keeps [] twins 1 := by
  obtain ⟨kept, reply, after, hstep, hkeeps, hreply, -⟩ :=
    (Reachable.start 0).integrity.2.1 0 .categories [] twins rfl rfl
  have hrefused : reply = .refused 1 (.repeatedKey ["name"]) :=
    (congrArg Prod.fst hstep).symm.trans rfl
  rcases hreply with ⟨-, rfl⟩ | ⟨-, fault, rfl⟩
  · cases hrefused
  · cases hrefused
    exact hkeeps

end Session

/-!
## Numbers and texts in columns

A column that every row has a number or a text in is read without a fallback. Rows
of one table differ in their numbers, and sorting them by a column of texts sorts
the texts by their bytes.
-/

open Text

theorem Lawful.exists_text {db : Rows} (h : Lawful db) {table : Table}
    (htable : table ≠ .schemaVersion) {column : String}
    (hcolumn : Column.mandatory .text column ∈ table.columns) {row : Row} (hrow : row ∈ db table) :
    ∃ s, row.get column = .text s := by
  have hne := (h table htable).get_ne_null hrow hcolumn rfl
  rcases (h table htable).admits row hrow _ hcolumn with ⟨hnull, -⟩ | htype
  · exact absurd hnull hne
  · change ColumnType.text.Has (row.get column) at htype
    cases hv : row.get column with
    | text s => exact ⟨s, rfl⟩
    | null => exact absurd hv hne
    | integer n => simp [hv, ColumnType.Has] at htype
    | moment n => simp [hv, ColumnType.Has] at htype

theorem Row.text_eq {row : Row} {column s : String} (h : row.get column = .text s) :
    row.text column = s := by
  rw [Row.text, h]
  rfl

theorem Row.integer_eq {row : Row} {column : String} {n : Int} (h : row.get column = .integer n) :
    row.integer column = n := by
  rw [Row.integer, h]
  rfl

theorem Row.get_text {row : Row} {column : String} (h : ∃ s, row.get column = .text s) :
    row.get column = .text (row.text column) := by
  obtain ⟨s, hs⟩ := h
  rw [Row.text_eq hs, hs]

theorem Row.get_integer {row : Row} {column : String} (h : ∃ n, row.get column = .integer n) :
    row.get column = .integer (row.integer column) := by
  obtain ⟨n, hn⟩ := h
  rw [Row.integer_eq hn, hn]

theorem Row.get_eq_text_iff {row : Row} {column s : String}
    (h : ∃ t, row.get column = .text t) : row.get column = .text s ↔ row.text column = s := by
  rw [Row.get_text h, Value.text.injEq]

theorem isLE_compareRows_text {column : String} {a b : Row} (ha : ∃ s, a.get column = .text s)
    (hb : ∃ s, b.get column = .text s) :
    (compareRows [(column, .asc)] a b).isLE = true ↔
      bytes (a.text column) ≤ bytes (b.text column) := by
  have hcompare : compareRows [(column, .asc)] a b =
      compare (bytes (a.text column)) (bytes (b.text column)) := by
    rw [compareRows, compareRows, Row.get_text ha, Row.get_text hb, Ordering.then_eq]
    rfl
  rw [hcompare, Ordering.isLE_iff_ne_gt, ← List.not_lt, ← compare_bytes_eq_gt]

/-- Being all things with a property, each once by its number, and by the bytes of their names. -/
structure ListsAll {α : Type} (P : α → Prop) (number : α → Int) (name : α → String)
    (xs : List α) : Prop where
  mem_iff : ∀ x, x ∈ xs ↔ P x
  once : (xs.map number).Nodup
  sorted : xs.Pairwise fun a b => bytes (name a) ≤ bytes (name b)

section
variable {db : Rows} (hdb : Lawful db) {table : Table}
include hdb

theorem integer_id (hnumber : table.HasNumber "id") {row : Row} (hrow : row ∈ db table) :
    row.get "id" = .integer (row.integer "id") :=
  Row.get_integer (hdb.exists_integer hnumber hrow)

theorem pairwise_id (htable : table ≠ .schemaVersion) (hkey : ["id"] ∈ table.keys) :
    (db table).Pairwise fun a b => a.get "id" ≠ b.get "id" :=
  ((hdb table htable).pairwise_ne hkey).imp (by simp)

variable {α : Type} {row : α → Row} {xs : List α} (hmem : ∀ x ∈ xs, row x ∈ db table)
include hmem

theorem nodup_ids (hnumber : table.HasNumber "id")
    (hdistinct : xs.Pairwise fun a b => (row a).get "id" ≠ (row b).get "id") :
    (xs.map fun x => (row x).integer "id").Nodup := by
  refine List.pairwise_map.mpr (hdistinct.imp_of_mem fun {a b} ha hb hne heq => hne ?_)
  rw [integer_id hdb hnumber (hmem a ha), integer_id hdb hnumber (hmem b hb), heq]

theorem pairwise_text_mergeSort (htable : table ≠ .schemaVersion) {column : String}
    (hcolumn : Column.mandatory .text column ∈ table.columns) :
    (xs.mergeSort fun a b => (compareRows [(column, .asc)] (row a) (row b)).isLE).Pairwise
      fun a b => bytes ((row a).text column) ≤ bytes ((row b).text column) := by
  have hperm := List.mergeSort_perm xs fun a b =>
    (compareRows [(column, .asc)] (row a) (row b)).isLE
  have htext (x : α) (hx : x ∈ xs) := hdb.exists_text htable hcolumn (hmem x hx)
  refine (pairwise_mergeSort_rows row _ xs).imp_of_mem fun {a b} ha hb hle => ?_
  exact (isLE_compareRows_text (htext a (hperm.mem_iff.mp ha))
    (htext b (hperm.mem_iff.mp hb))).mp hle

theorem listsAll_mergeSort (hnumber : table.HasNumber "id")
    (hdistinct : xs.Pairwise fun a b => (row a).get "id" ≠ (row b).get "id") {column : String}
    (hcolumn : Column.mandatory .text column ∈ table.columns) {β : Type} {make : α → β}
    {number : β → Int} {name : β → String}
    (hid : ∀ x, number (make x) = (row x).integer "id")
    (hname : ∀ x, name (make x) = (row x).text column) {P : β → Prop}
    (hP : ∀ y, P y ↔ ∃ x ∈ xs, make x = y) :
    ListsAll P number name
      ((xs.mergeSort fun a b => (compareRows [(column, .asc)] (row a) (row b)).isLE).map make) := by
  have hperm := List.mergeSort_perm xs fun a b =>
    (compareRows [(column, .asc)] (row a) (row b)).isLE
  refine ⟨fun y => ?_, ?_, ?_⟩
  · rw [List.mem_map, hP]
    exact exists_congr fun x => and_congr_left fun _ => hperm.mem_iff
  · rw [List.map_map, (hperm.map _).nodup_iff]
    simpa only [Function.comp_def, hid] using nodup_ids hdb hmem hnumber hdistinct
  · refine List.pairwise_map.mpr ?_
    simpa only [hname] using pairwise_text_mergeSort hdb hmem hnumber.1 hcolumn

end

end InventorySearch.Store
