import InventorySearch.Proofs.Store.Rows
import InventorySearch.Proofs.Store.Transactions
import InventorySearch.Proofs.Text.Numeral

set_option autoImplicit false

/-!
# Inserted rows keep the constraints

Whatever is assigned, a row that is added has in each column a value that the
column admits, and repeats no key. This is all that keeps a store lawful: its
rows change in no other way but by going.
-/
namespace InventorySearch.Store

/-! ## Cells -/

theorem fitsBits_of_signed? {bits : Nat} {cs : List Char} {n : Int}
    (h : Text.Numeral.signed? bits cs = some n) : fitsBits bits n = true := by
  obtain ⟨hlow, hhigh⟩ := Text.Numeral.bounds_of_signed? h
  rw [fitsBits, Bool.and_eq_true]
  exact ⟨decide_eq_true hlow, decide_eq_true hhigh⟩

theorem Column.has_of_convert? {type : ColumnType} {v stored : Value}
    (h : convert? type v = some stored) : type.Has stored := by
  unfold convert? at h
  split at h
  · split at h
    · next hfits => exact Option.some.inj h ▸ hfits
    · cases h
  · split at h
    · next hfits => exact Option.some.inj h ▸ hfits
    · cases h
  · obtain ⟨n, hn, rfl⟩ := Option.map_eq_some_iff.mp h
    exact fitsBits_of_signed? hn
  · obtain ⟨n, hn, rfl⟩ := Option.map_eq_some_iff.mp h
    exact fitsBits_of_signed? hn
  · exact Option.some.inj h ▸ trivial
  · exact Option.some.inj h ▸ trivial
  · obtain ⟨t, -, rfl⟩ := Option.map_eq_some_iff.mp h
    trivial
  · exact Option.some.inj h ▸ trivial
  · cases h

theorem Column.admits_of_accept {c : Column} {v stored : Value} (h : c.accept v = .ok stored) :
    c.Admits stored := by
  unfold accept at h
  split at h
  · by_cases hrequired : c.required = true
    · simp [hrequired] at h
    · rw [if_neg hrequired] at h
      exact .inl ⟨(Except.ok.inj h).symm, Bool.not_eq_true _ ▸ hrequired⟩
  · split at h
    · next hconvert => exact .inr (Except.ok.inj h ▸ has_of_convert? hconvert)
    · cases h

/-! ## Rows -/

theorem exists_lookup_of_forall₂ {P : Column → Value → Prop} {columns : List Column}
    {cells : List (String × Value)} (hnames : (columns.map Column.name).Nodup)
    (h : List.Forall₂ (fun c cell => cell.1 = c.name ∧ P c cell.2) columns cells) :
    ∀ c ∈ columns, ∃ v, cells.lookup c.name = some v ∧ P c v := by
  induction h with
  | nil => simp
  | @cons c cell columns cells hcell _ ih =>
    obtain ⟨name, v⟩ := cell
    obtain ⟨rfl, hP⟩ := hcell
    rw [List.map_cons, List.nodup_cons] at hnames
    rintro d hd
    rcases List.mem_cons.mp hd with rfl | hin
    · exact ⟨v, by simp, hP⟩
    · have hne : d.name ≠ c.name := fun heq => hnames.1 (heq ▸ List.mem_map_of_mem hin)
      obtain ⟨w, hw, hPw⟩ := ih hnames.2 d hin
      refine ⟨w, ?_, hPw⟩
      rw [List.lookup_cons, beq_eq_false_iff_ne.mpr hne]
      exact hw

theorem Table.nodup_columns (table : Table) : (table.columns.map Column.name).Nodup := by
  cases table <;> decide

theorem Table.admits_of_fullRow {table : Table} {assigned : List (String × Value)} {row : Row}
    (h : table.fullRow assigned = .ok row) : ∀ c ∈ table.columns, c.Admits (row.get c.name) := by
  obtain ⟨cells, hcells, h⟩ : ∃ cells, table.columns.mapM (fun c => do
      return (c.name, ← c.accept ((assigned.lookup c.name).getD c.fallback))) = .ok cells ∧
      .ok ⟨cells⟩ = Except.ok row := by
    unfold fullRow at h
    dsimp only at h
    split at h
    · cases h
    · split at h
      · cases h
      · exact Except.exists_of_bind_eq_ok h
  obtain rfl := Except.ok.inj h
  have hforall : List.Forall₂ (fun (c : Column) (cell : String × Value) =>
      cell.1 = c.name ∧ c.Admits cell.2) table.columns cells := by
    refine (Except.mapM_eq_ok_iff.mp hcells).imp fun c cell hcell => ?_
    obtain ⟨stored, hstored, hcell⟩ := Except.exists_of_bind_eq_ok hcell
    obtain rfl := Except.ok.inj hcell
    exact ⟨rfl, Column.admits_of_accept hstored⟩
  intro c hc
  obtain ⟨v, hv, hadmits⟩ := exists_lookup_of_forall₂ table.nodup_columns hforall c hc
  rwa [Row.get, hv, Option.getD_some]

/-! ## Tables -/

namespace Table

theorem lawful_nil (table : Table) : table.Lawful [] :=
  ⟨by simp, fun _ _ => List.Pairwise.nil⟩

theorem of_addRow {table : Table} {rows after : List Row} {row : Row}
    (h : table.addRow rows row = .ok after) :
    after = rows ++ [row] ∧ (table = .schemaVersion → row.get "id" = .integer 1) ∧
      ∀ key ∈ table.keys, ∀ other ∈ rows, agree key other row = false := by
  unfold Table.addRow at h
  split at h
  · cases h
  · next hid =>
    split at h
    · cases h
    · next hfind =>
      refine ⟨(Except.ok.inj h).symm, fun htable => ?_, fun key hkey other hother => ?_⟩
      · by_contra hne
        exact hid ⟨htable, hne⟩
      · have hnone := List.find?_eq_none.mp hfind key hkey
        simpa using List.any_eq_false.mp (Bool.not_eq_true _ ▸ hnone) other hother

theorem Lawful.addRow {table : Table} {rows after : List Row} {row : Row}
    (h : table.Lawful rows) (hrow : ∀ c ∈ table.columns, c.Admits (row.get c.name))
    (hadd : table.addRow rows row = .ok after) : table.Lawful after := by
  obtain ⟨rfl, -, hapart⟩ := of_addRow hadd
  refine ⟨fun r hr => ?_, fun key hkey => ?_⟩
  · rcases List.mem_append.mp hr with hin | hin
    · exact h.admits r hin
    · exact List.mem_singleton.mp hin ▸ hrow
  · -- the row was compared with all rows before it, as `Pairwise` asks of the last one
    rw [List.pairwise_append]
    refine ⟨h.distinct key hkey, List.pairwise_singleton _ _, fun other hother r hr => ?_⟩
    exact List.mem_singleton.mp hr ▸ hapart key hkey other hother

end Table

/-! ## Databases -/

namespace Database

theorem lawful_set {db : Database} (h : Lawful db.rowsOrNone) {table : Table}
    {rows : Option (List Row)} (hrows : table ≠ .schemaVersion → table.Lawful (rows.getD [])) :
    Lawful (db.set table rows).rowsOrNone := by
  intro other hne
  by_cases heq : other = table
  · subst heq
    rw [rowsOrNone, rows?_set_self]
    exact hrows hne
  · rw [rowsOrNone, rows?_set_of_ne db rows heq]
    exact h other hne

section
variable {db : Database} {table : Table}

theorem rows_of_some {rows : List Row} (h : db.rows? table = some rows) :
    db.rows table = .ok rows := by
  rw [Database.rows, h]

theorem rows_of_none (h : db.rows? table = none) :
    db.rows table = .error (.missingTable table.name) := by
  rw [Database.rows, h]

theorem rowsOrNone_of_rows {rows : List Row} (h : db.rows table = .ok rows) :
    db.rowsOrNone table = rows := by
  unfold Database.rows at h
  split at h
  · next heq => rw [rowsOrNone, heq, Option.getD_some, Except.ok.inj h]
  · cases h

variable {after : Database} {assigned : List (String × Value)}

/-- An insertion adds one row to its table, and is all that happens. -/
theorem of_insert (h : db.insert table assigned = .ok after) :
    ∃ rows row, db.rows table = .ok rows ∧ table.fullRow assigned = .ok row ∧
      table.addRow rows row = .ok (rows ++ [row]) ∧
      after = db.set table (some (rows ++ [row])) := by
  obtain ⟨rows, hrows, h⟩ := Except.exists_of_bind_eq_ok h
  obtain ⟨row, hrow, h⟩ := Except.exists_of_bind_eq_ok h
  obtain ⟨added, hadd, h⟩ := Except.exists_of_bind_eq_ok h
  obtain ⟨rfl, -⟩ := Table.of_addRow hadd
  exact ⟨rows, row, hrows, hrow, hadd, (Except.ok.inj h).symm⟩

theorem lawful_insert (h : Lawful db.rowsOrNone) (hinsert : db.insert table assigned = .ok after) :
    Lawful after.rowsOrNone := by
  obtain ⟨rows, row, hrows, hrow, hadd, rfl⟩ := of_insert hinsert
  refine lawful_set h fun hne => ?_
  have hlawful := h table hne
  rw [rowsOrNone_of_rows hrows] at hlawful
  exact hlawful.addRow (Table.admits_of_fullRow hrow) hadd

end

section
variable {P : Database → Prop}
  (hinsert : ∀ {db after : Database} {table : Table} {assigned : List (String × Value)},
    P db → db.insert table assigned = .ok after → P after)
include hinsert

theorem keeps_insertAll {db : Database} (h : P db) (table : Table)
    (rows : List (List (String × Value))) : P (db.insertAll table rows).1 := by
  induction rows generalizing db with
  | nil => exact h
  | cons assigned rest ih =>
    rw [insertAll]
    split
    · exact h
    · next heq => exact ih (hinsert h heq)

theorem keeps_load {db after : Database} (h : P db)
    (hload : sample.foldlM insertBatch db = .ok after) : P after :=
  Except.keeps_of_foldlM (fun hdb hbatch => Except.keeps_of_foldlM hinsert hdb hbatch) h hload

end

end Database
end InventorySearch.Store
