import InventorySearch.Proofs.Search.Fitting
import InventorySearch.Proofs.Store.Reachability

set_option autoImplicit false

/-!
# Rows that are kept

Which assignments make a row that a table accepts after the rows it has, and how
many of a list of them are kept when they are inserted one after another. The
faults are not told apart here: a row that does not respect the constraints is
refused, for whatever cause is found first.
-/
namespace InventorySearch.Store

/-! ## What a column stores -/

/-- What a column of a type holds for a value, if it can hold it. Texts are read where the
column does not hold texts, and numbers are written where it does. -/
inductive ColumnType.Stores : ColumnType → Value → Value → Prop
  | bigint {n : Int} (h : -9223372036854775808 ≤ n ∧ n ≤ 9223372036854775807) :
      Stores .bigint (.integer n) (.integer n)
  | integer {n : Int} (h : -2147483648 ≤ n ∧ n ≤ 2147483647) :
      Stores .integer (.integer n) (.integer n)
  | text (s : String) : Stores .text (.text s) (.text s)
  | moment (micros : Int) : Stores .timestamp (.moment micros) (.moment micros)
  | readMoment {s : String} {t : Calendar.Timestamp}
      (h : Calendar.Timestamp.readStored? s.toList = some t) :
      Stores .timestamp (.text s) (.moment t.micros)
  | readBigint {s : String} {n : Int} (h : Text.Numeral.int64? s = some n) :
      Stores .bigint (.text s) (.integer n)
  | readInteger {s : String} {n : Int} (h : Text.Numeral.int32? s = some n) :
      Stores .integer (.text s) (.integer n)
  | written (n : Int) : Stores .text (.integer n) (.text (Text.Numeral.decimal n))

theorem fitsBits_iff {bits : Nat} {n bound : Int} (h : signedBound bits = bound) :
    fitsBits bits n = true ↔ -bound ≤ n ∧ n < bound := by
  rw [fitsBits, Bool.and_eq_true, decide_eq_true_iff, decide_eq_true_iff, h]

theorem fitsBits_64_iff {n : Int} :
    fitsBits 64 n = true ↔ -9223372036854775808 ≤ n ∧ n ≤ 9223372036854775807 := by
  have hbound : signedBound 64 = 9223372036854775808 := rfl
  rw [fitsBits_iff hbound]
  omega

theorem fitsBits_32_iff {n : Int} : fitsBits 32 n = true ↔ -2147483648 ≤ n ∧ n ≤ 2147483647 := by
  have hbound : signedBound 32 = 2147483648 := rfl
  rw [fitsBits_iff hbound]
  omega

theorem Column.convert?_eq_some_iff {type : ColumnType} {v stored : Value} :
    convert? type v = some stored ↔ type.Stores v stored := by
  constructor
  · intro h
    unfold convert? at h
    split at h
    · split at h
      · next hfits => exact Option.some.inj h ▸ .bigint (fitsBits_64_iff.mp hfits)
      · cases h
    · split at h
      · next hfits => exact Option.some.inj h ▸ .integer (fitsBits_32_iff.mp hfits)
      · cases h
    · obtain ⟨n, hn, rfl⟩ := Option.map_eq_some_iff.mp h
      exact .readBigint hn
    · obtain ⟨n, hn, rfl⟩ := Option.map_eq_some_iff.mp h
      exact .readInteger hn
    · exact Option.some.inj h ▸ .text _
    · exact Option.some.inj h ▸ .written _
    · obtain ⟨t, ht, rfl⟩ := Option.map_eq_some_iff.mp h
      exact .readMoment ht
    · exact Option.some.inj h ▸ .moment _
    · cases h
  · rintro (h | h | _ | _ | h | h | h | _)
    · exact if_pos (fitsBits_64_iff.mpr h)
    · exact if_pos (fitsBits_32_iff.mpr h)
    · rfl
    · rfl
    · exact Option.map_eq_some_iff.mpr ⟨_, h, rfl⟩
    · exact Option.map_eq_some_iff.mpr ⟨_, h, rfl⟩
    · exact Option.map_eq_some_iff.mpr ⟨_, h, rfl⟩
    · rfl

theorem Column.convert?_null (type : ColumnType) : convert? type .null = none := by
  cases type <;> rfl

theorem ColumnType.Stores.ne_null {type : ColumnType} {v stored : Value}
    (h : type.Stores v stored) : v ≠ .null ∧ stored ≠ .null := by
  cases h <;> exact ⟨nofun, nofun⟩

/-! ## Rows from assignments -/

namespace Table

def given (assigned : List (String × Value)) (c : Column) : Value :=
  (assigned.lookup c.name).getD c.fallback

def written (table : Table) (assigned : List (String × Value)) : Row :=
  ⟨table.columns.map fun c => (c.name, (Column.convert? c.type (given assigned c)).getD .null)⟩

/-- Being assignments that make a row of the table, whatever rows there are. -/
structure Fits (table : Table) (assigned : List (String × Value)) : Prop where
  nonempty : assigned ≠ []
  known : ∀ a ∈ assigned, ∃ c ∈ table.columns, c.name = a.1
  valued : ∀ c ∈ table.columns, c.required = true → given assigned c ≠ .null
  typed : ∀ c ∈ table.columns, given assigned c ≠ .null →
    ∃ stored, c.type.Stores (given assigned c) stored

/-- Whether a row respects the constraints of the table after rows that it has. -/
structure Respects (table : Table) (before : List Row) (assigned : List (String × Value)) :
    Prop where
  fits : table.Fits assigned
  fresh : ∀ key ∈ table.keys, ∀ other ∈ before,
    ∃ column ∈ key, other.get column ≠ (table.written assigned).get column
  version : table = .schemaVersion → (table.written assigned).get "id" = .integer 1

theorem get_written {table : Table} (assigned : List (String × Value)) {c : Column}
    (hc : c ∈ table.columns) :
    (table.written assigned).get c.name =
      (Column.convert? c.type (given assigned c)).getD .null := by
  let P (c : Column) (v : Value) : Prop :=
    v = (Column.convert? c.type (given assigned c)).getD .null
  have hcells : List.Forall₂ (fun (c : Column) (cell : String × Value) =>
      cell.1 = c.name ∧ P c cell.2) table.columns (table.written assigned).cells :=
    List.forall₂_map_right_iff.mpr (List.forall₂_same.mpr fun _ _ => ⟨rfl, rfl⟩)
  obtain ⟨v, hv, hstored⟩ := exists_lookup_of_forall₂ table.nodup_columns hcells c hc
  rw [Row.get, hv, Option.getD_some, hstored]

theorem Fits.stores {table : Table} {assigned : List (String × Value)} (h : table.Fits assigned)
    {c : Column} (hc : c ∈ table.columns) :
    (given assigned c = .null ∧ (table.written assigned).get c.name = .null) ∨
      c.type.Stores (given assigned c) ((table.written assigned).get c.name) := by
  rw [get_written assigned hc]
  by_cases hnull : given assigned c = .null
  · exact .inl ⟨hnull, by rw [hnull, Column.convert?_null, Option.getD_none]⟩
  · obtain ⟨stored, hstored⟩ := h.typed c hc hnull
    rw [Column.convert?_eq_some_iff.mpr hstored, Option.getD_some]
    exact .inr hstored

end Table

theorem Column.accept_eq_ok_iff {c : Column} {v stored : Value} :
    c.accept v = .ok stored ↔ ((c.required = true → v ≠ .null) ∧
      (v ≠ .null → ∃ held, c.type.Stores v held)) ∧ stored = (convert? c.type v).getD .null := by
  by_cases hnull : v = .null
  · subst hnull
    rw [convert?_null]
    by_cases hrequired : c.required = true
    · simp [accept, hrequired]
    · simp [accept, hrequired, eq_comm]
  · have haccept : c.accept v = (convert? c.type v).elim (.error (.wrongType c.name)) .ok := by
      cases v with
      | null => exact absurd rfl hnull
      | integer n => cases hconvert : convert? c.type (.integer n) <;> simp [accept, hconvert]
      | text s => cases hconvert : convert? c.type (.text s) <;> simp [accept, hconvert]
      | moment n => cases hconvert : convert? c.type (.moment n) <;> simp [accept, hconvert]
    rw [haccept]
    simp only [← convert?_eq_some_iff]
    cases convert? c.type v with
    | none => simp [hnull]
    | some held =>
      rw [Option.elim_some, Except.ok.injEq, Option.getD_some, eq_comm, iff_and_self]
      exact fun _ => ⟨fun _ => hnull, fun _ => ⟨held, rfl⟩⟩

theorem forall₂_and_eq_iff {α β : Type} {Q : α → Prop} {f : α → β} {xs : List α} {ys : List β} :
    List.Forall₂ (fun x y => Q x ∧ y = f x) xs ys ↔ (∀ x ∈ xs, Q x) ∧ ys = xs.map f := by
  induction xs generalizing ys with
  | nil => simp
  | cons x xs ih =>
    rw [List.forall₂_cons_left_iff]
    constructor
    · rintro ⟨y, rest, ⟨hx, rfl⟩, hrest, rfl⟩
      obtain ⟨hall, rfl⟩ := ih.mp hrest
      exact ⟨List.forall_mem_cons.mpr ⟨hx, hall⟩, rfl⟩
    · rintro ⟨hall, rfl⟩
      obtain ⟨hx, hall⟩ := List.forall_mem_cons.mp hall
      exact ⟨f x, xs.map f, ⟨hx, rfl⟩, ih.mpr ⟨hall, rfl⟩, rfl⟩

namespace Table
variable {table : Table} {assigned : List (String × Value)}

theorem cells_eq_ok_iff {columns : List Column} {cells : List (String × Value)} :
    columns.mapM (fun c => do return (c.name, ← c.accept (given assigned c))) =
        Except.ok (ε := Fault) cells ↔
      (∀ c ∈ columns, (c.required = true → given assigned c ≠ .null) ∧
        (given assigned c ≠ .null → ∃ held, c.type.Stores (given assigned c) held)) ∧
      cells = columns.map fun c =>
        (c.name, (Column.convert? c.type (given assigned c)).getD .null) := by
  rw [Except.mapM_eq_ok_iff, ← forall₂_and_eq_iff]
  have hcell (c : Column) (cell : String × Value) :
      (do return (c.name, ← c.accept (given assigned c))) = Except.ok (ε := Fault) cell ↔
        ((c.required = true → given assigned c ≠ .null) ∧
          (given assigned c ≠ .null → ∃ held, c.type.Stores (given assigned c) held)) ∧
        cell = (c.name, (Column.convert? c.type (given assigned c)).getD .null) := by
    constructor
    · intro h
      obtain ⟨stored, hstored, h⟩ := Except.exists_of_bind_eq_ok h
      obtain ⟨hheld, rfl⟩ := Column.accept_eq_ok_iff.mp hstored
      exact ⟨hheld, (Except.ok.inj h).symm⟩
    · rintro ⟨hheld, rfl⟩
      rw [Column.accept_eq_ok_iff.mpr ⟨hheld, rfl⟩]
      rfl
  simp only [hcell]

theorem fullRow_eq_ok_iff {row : Row} :
    table.fullRow assigned = .ok row ↔ table.Fits assigned ∧ row = table.written assigned := by
  unfold fullRow
  dsimp only
  by_cases hempty : assigned = []
  · subst hempty
    exact iff_of_false nofun fun h => h.1.nonempty rfl
  rw [if_neg (by simpa using hempty)]
  cases hfind : assigned.find? fun a => table.columns.all fun c => c.name != a.1 with
  | some a =>
    refine iff_of_false nofun fun h => ?_
    obtain ⟨c, hc, hname⟩ := h.1.known a (List.mem_of_find?_eq_some hfind)
    have hall := List.find?_some (p := fun a : String × Value =>
      table.columns.all fun c => c.name != a.1) hfind
    exact bne_iff_ne.mp (List.all_eq_true.mp hall c hc) hname
  | none =>
    have hknown : ∀ a ∈ assigned, ∃ c ∈ table.columns, c.name = a.1 := fun a ha => by
      simpa using List.find?_eq_none.mp hfind a ha
    constructor
    · intro h
      obtain ⟨cells, hcells, h⟩ := Except.exists_of_bind_eq_ok h
      obtain ⟨hcolumns, rfl⟩ := cells_eq_ok_iff.mp hcells
      exact ⟨⟨hempty, hknown, fun c hc => (hcolumns c hc).1, fun c hc => (hcolumns c hc).2⟩,
        (Except.ok.inj h).symm⟩
    · rintro ⟨hfits, rfl⟩
      have hcells := cells_eq_ok_iff.mpr
        ⟨fun c hc => ⟨hfits.valued c hc, hfits.typed c hc⟩, rfl⟩
      exact congrArg (fun made => made >>= fun cells => Except.ok (Row.mk cells)) hcells

/-! ## Rows after other rows -/

/-- Columns of keys are required, so no row of the table lacks a value there. -/
theorem exists_required_of_mem_keys (table : Table) : ∀ key ∈ table.keys, ∀ column ∈ key,
    ∃ c ∈ table.columns, c.name = column ∧ c.required = true := by
  cases table <;> decide

theorem agree_eq_true_iff {key : List String} {a b : Row}
    (hvalued : ∀ column ∈ key, b.get column ≠ .null) :
    agree key a b = true ↔ ∀ column ∈ key, a.get column = b.get column := by
  rw [agree, List.all_eq_true]
  refine forall₂_congr fun column hcolumn => ?_
  rw [Bool.and_eq_true, beq_iff_eq, bne_iff_ne, and_iff_left_iff_imp]
  exact fun heq => heq ▸ hvalued column hcolumn

theorem Fits.get_written_ne_null (h : table.Fits assigned) {key : List String}
    (hkey : key ∈ table.keys) {column : String} (hcolumn : column ∈ key) :
    (table.written assigned).get column ≠ .null := by
  obtain ⟨c, hc, rfl, hrequired⟩ := table.exists_required_of_mem_keys key hkey column hcolumn
  rcases h.stores hc with ⟨hnull, -⟩ | hstores
  · exact absurd hnull (h.valued c hc hrequired)
  · exact hstores.ne_null.2

theorem addRow_written_eq_ok_iff (h : table.Fits assigned) {before after : List Row} :
    table.addRow before (table.written assigned) = .ok after ↔
      table.Respects before assigned ∧ after = before ++ [table.written assigned] := by
  constructor
  · intro hadd
    obtain ⟨rfl, hversion, hapart⟩ := of_addRow hadd
    refine ⟨⟨h, fun key hkey other hother => ?_, hversion⟩, rfl⟩
    by_contra hsame
    push Not at hsame
    have hagree := (agree_eq_true_iff fun _ hin => h.get_written_ne_null hkey hin).mpr hsame
    exact Bool.false_ne_true ((hapart key hkey other hother).symm.trans hagree)
  · rintro ⟨hrespects, rfl⟩
    rw [addRow, if_neg fun hwrong => hwrong.2 (hrespects.version hwrong.1)]
    have hnone : (table.keys.find? fun key =>
        before.any fun other => agree key other (table.written assigned)) = none := by
      refine List.find?_eq_none.mpr fun key hkey hany => ?_
      obtain ⟨other, hother, hagree⟩ := List.any_eq_true.mp hany
      obtain ⟨column, hcolumn, hne⟩ := hrespects.fresh key hkey other hother
      exact hne ((agree_eq_true_iff fun _ hin => h.get_written_ne_null hkey hin).mp hagree
        column hcolumn)
    rw [hnone]

end Table

theorem Database.insert_eq_ok_iff {db after : Database} {table : Table} {before : List Row}
    (hbefore : db.rows? table = some before) {assigned : List (String × Value)} :
    db.insert table assigned = .ok after ↔ table.Respects before assigned ∧
      after = db.set table (some (before ++ [table.written assigned])) := by
  constructor
  · intro h
    obtain ⟨rows, row, hrows, hrow, hadd, rfl⟩ := of_insert h
    obtain rfl := Except.ok.inj ((rows_of_some hbefore).symm.trans hrows)
    obtain ⟨hfits, rfl⟩ := Table.fullRow_eq_ok_iff.mp hrow
    exact ⟨((Table.addRow_written_eq_ok_iff hfits).mp hadd).1, rfl⟩
  · rintro ⟨hrespects, rfl⟩
    have hrow := Table.fullRow_eq_ok_iff.mpr ⟨hrespects.fits, rfl⟩
    have hadd := (Table.addRow_written_eq_ok_iff hrespects.fits).mpr ⟨hrespects, rfl⟩
    rw [insert, rows_of_some hbefore, hrow]
    exact congrArg (fun added => added >>= fun rows => .ok (db.set table (some rows))) hadd

/-! ## Rows one after another -/

namespace Table
variable {table : Table}

def AllRespect (table : Table) (before : List Row) (rows : List (List (String × Value))) : Prop :=
  ∀ earlier assigned later, rows = earlier ++ assigned :: later →
    table.Respects (before ++ earlier.map table.written) assigned

/-- Being the length of the longest prefix of rows that respect the constraints. -/
structure Keeps (table : Table) (before : List Row) (rows : List (List (String × Value)))
    (kept : Nat) : Prop where
  le : kept ≤ rows.length
  respected : table.AllRespect before (rows.take kept)
  longest : ∀ n ≤ rows.length, table.AllRespect before (rows.take n) → n ≤ kept

theorem allRespect_nil (table : Table) (before : List Row) : table.AllRespect before [] :=
  fun _ _ _ h => absurd h (by simp)

theorem allRespect_cons_iff {before : List Row} {assigned : List (String × Value)}
    {rows : List (List (String × Value))} :
    table.AllRespect before (assigned :: rows) ↔ table.Respects before assigned ∧
      table.AllRespect (before ++ [table.written assigned]) rows := by
  constructor
  · intro h
    refine ⟨by simpa using h [] assigned rows rfl, ?_⟩
    rintro earlier next later rfl
    simpa using h (assigned :: earlier) next later rfl
  · rintro ⟨hfirst, hrest⟩ earlier next later heq
    cases earlier with
    | nil =>
      obtain ⟨rfl, rfl⟩ := List.cons.inj heq
      simpa using hfirst
    | cons first earlier =>
      obtain ⟨rfl, rfl⟩ := List.cons.inj heq
      simpa using hrest earlier next later rfl

theorem keeps_nil (table : Table) (before : List Row) : table.Keeps before [] 0 :=
  ⟨Nat.le_refl 0, table.allRespect_nil before, fun _ h _ => h⟩

theorem keeps_zero {before : List Row} {assigned : List (String × Value)}
    (h : ¬ table.Respects before assigned) (rows : List (List (String × Value))) :
    table.Keeps before (assigned :: rows) 0 := by
  refine ⟨Nat.zero_le _, table.allRespect_nil before, fun n _ hall => ?_⟩
  cases n with
  | zero => exact Nat.le_refl 0
  | succ n => exact absurd (allRespect_cons_iff.mp hall).1 h

theorem Keeps.succ {before : List Row} {assigned : List (String × Value)}
    (h : table.Respects before assigned) {rows : List (List (String × Value))} {kept : Nat}
    (hkept : table.Keeps (before ++ [table.written assigned]) rows kept) :
    table.Keeps before (assigned :: rows) (kept + 1) := by
  refine ⟨Nat.succ_le_succ hkept.le, allRespect_cons_iff.mpr ⟨h, hkept.respected⟩,
    fun n hn hall => ?_⟩
  cases n with
  | zero => exact Nat.zero_le _
  | succ n =>
    have hrest := (allRespect_cons_iff.mp hall).2
    exact Nat.succ_le_succ (hkept.longest n (Nat.le_of_succ_le_succ hn) hrest)

end Table

namespace Database

theorem set_set (db : Database) (table : Table) (first second : Option (List Row)) :
    (db.set table first).set table second = db.set table second := by
  ext t : 2
  by_cases h : t = table <;> simp [set, h]

theorem set_rows?_self {db : Database} {table : Table} {rows : Option (List Row)}
    (h : db.rows? table = rows) : db.set table rows = db := by
  ext t : 2
  by_cases ht : t = table
  · simp [set, ht, h]
  · simp [set, ht]

theorem insertAll_keeps {db : Database} {table : Table} {before : List Row}
    (hbefore : db.rows? table = some before) (rows : List (List (String × Value))) :
    ∃ kept fault, table.Keeps before rows kept ∧ (fault = none ↔ kept = rows.length) ∧
      db.insertAll table rows =
        (db.set table (some (before ++ (rows.take kept).map table.written)), kept, fault) := by
  induction rows generalizing db before with
  | nil =>
    refine ⟨0, none, table.keeps_nil before, iff_of_true rfl rfl, ?_⟩
    rw [insertAll, List.take_nil, List.map_nil, List.append_nil, set_rows?_self hbefore]
  | cons assigned rows ih =>
    rw [insertAll]
    cases hinsert : db.insert table assigned with
    | error fault =>
      have hnot : ¬ table.Respects before assigned := fun h => by
        rw [(insert_eq_ok_iff hbefore).mpr ⟨h, rfl⟩] at hinsert
        cases hinsert
      refine ⟨0, some fault, Table.keeps_zero hnot rows,
        iff_of_false (Option.some_ne_none fault) (Nat.succ_ne_zero rows.length).symm, ?_⟩
      rw [List.take_zero, List.map_nil, List.append_nil, set_rows?_self hbefore]
    | ok after =>
      obtain ⟨hrespects, rfl⟩ := (insert_eq_ok_iff hbefore).mp hinsert
      obtain ⟨kept, fault, hkeeps, hfault, hrest⟩ := ih (rows?_set_self db table _)
      refine ⟨kept + 1, fault, hkeeps.succ hrespects, hfault.trans Nat.succ_inj.symm, ?_⟩
      simp only [hrest, set_set, List.take_succ_cons, List.map_cons, List.append_assoc,
        List.singleton_append]

end Database
end InventorySearch.Store
