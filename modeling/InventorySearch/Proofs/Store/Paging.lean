import InventorySearch.Proofs.Search.Decision
import InventorySearch.Proofs.Store.Reachability

set_option autoImplicit false

/-!
# Pages

A search lists the rows that match, each once and in an order without ties, and
answers with one stretch of the list. The count comes from the list as well, so
that all pages together are the list.
-/
namespace InventorySearch.Search
open InventorySearch.Filter Store

theorem Entity.keys_table (entity : Entity) :
    entity.schema.table.keys = [[entity.schema.key]] := by
  cases entity <;> rfl

end InventorySearch.Search

namespace InventorySearch.Store
open InventorySearch.Filter Search

/-! ## Rows of a lawful table -/

section
variable {db : Rows} (hdb : Lawful db) (entity : Entity)
include hdb

theorem pairwise_key_ne :
    (db entity.schema.table).Pairwise fun a b =>
      a.get entity.schema.key ≠ b.get entity.schema.key := by
  have hfits := entity.schema_fits
  have hdistinct := (hdb _ hfits.key.1).distinct [entity.schema.key]
    (entity.keys_table ▸ List.mem_cons_self)
  refine hdistinct.imp_of_mem fun {a b} ha _ hagree heq => ?_
  obtain ⟨n, hn⟩ := hdb.exists_integer hfits.key ha
  have hsame : Table.agree [entity.schema.key] a b = true := by
    simp [Table.agree, ← heq, hn]
  exact absurd (hagree.symm.trans hsame) (by decide)

theorem alike_of_hasColumn {table : Table} (htable : table ≠ .schemaVersion) {column : String}
    (hcolumn : HasColumn table column) {a b : Row} (ha : a ∈ db table) (hb : b ∈ db table) :
    Alike (a.get column) (b.get column) := by
  obtain ⟨c, hc, rfl⟩ := hcolumn
  have hadmits := (hdb table htable).admits
  exact Column.alike_of_admits (hadmits a ha c hc) (hadmits b hb c hc)

variable {keys : List SortKey} {columns : List (String × Direction)}
  (hcolumns : entity.schema.SortsBy keys columns) {rows : List Row}
  (hrows : rows.Sublist (db entity.schema.table))
include hcolumns hrows

theorem pairwise_rowBefore_sortRows :
    (sortRows columns rows).Pairwise (RowBefore columns) := by
  have hperm := perm_sortRows columns rows
  have hkeys : (sortRows columns rows).Pairwise fun a b =>
      a.get entity.schema.key ≠ b.get entity.schema.key :=
    (hperm.pairwise_iff fun h => h.symm).mpr ((pairwise_key_ne hdb entity).sublist hrows)
  have hfits := entity.schema_fits
  refine ((pairwise_sortRows columns rows).and hkeys).imp_of_mem ?_
  rintro a b ha hb ⟨hle, hne⟩
  have hmem {c : Row} (hc : c ∈ sortRows columns rows) : c ∈ db entity.schema.table :=
    hrows.subset (hperm.mem_iff.mp hc)
  have halike : ∀ c ∈ columns, Alike (a.get c.1) (b.get c.1) := fun c hc =>
    alike_of_hasColumn hdb hfits.key.1 (hcolumns.hasColumn hfits c hc) (hmem ha) (hmem hb)
  rw [← compareRows_eq_lt halike]
  cases hcmp : compareRows columns a b with
  | lt => rfl
  | eq =>
    -- a tie on all columns would be one on the key column
    obtain ⟨c, hc, hkey⟩ := hcolumns.key_mem
    exact absurd (hkey ▸ compareRows_eq_eq.mp hcmp c hc) hne
  | gt => simp [hcmp] at hle

end

/-! ## Pages of a list -/

theorem flatMap_pages {α : Type} (size count : Nat) (l : List α) :
    (List.range count).flatMap (fun k => (l.drop (k * size)).take size) =
      l.take (count * size) := by
  induction count with
  | zero => simp
  | succ count ih =>
    rw [List.range_succ, List.flatMap_append, ih, List.flatMap_singleton, Nat.succ_mul,
      List.take_add]

/-! ## Searches -/

namespace Database

/-- Being a row that a query on an entity asks for. -/
def Matches (db : Database) (entity : Entity) (query : String) (row : Row) : Prop :=
  row ∈ db.rowsOrNone entity.schema.table ∧
    (query ≠ "" → ∃ r, parse (coercer entity.rules db.lookup) query = .ok r ∧
      r.Holds entity.schema entity.aliases db.rowsOrNone row)

theorem plan_with_page (db : Database) (entity : Entity) (request : Request) (limit offset : Nat) :
    db.plan entity { request with limit := limit, offset := offset } = db.plan entity request := by
  have hplan (restriction : Option Restriction) :
      Spec.plan ⟨restriction, entity.sortKeys request, limit, offset, entity.aliases⟩
        entity.schema =
      Spec.plan ⟨restriction, entity.sortKeys request, request.limit, request.offset,
        entity.aliases⟩ entity.schema := by
    refine Spec.plan_congr ?_ ?_ ?_ entity.schema <;> rfl
  unfold Database.plan
  rw [assemble_eq, assemble_eq]
  by_cases hquery : request.query = ""
  · rw [if_pos hquery, if_pos hquery]
    exact congrArg (Except.mapError PlanFault.toError) (hplan none)
  · rw [if_neg hquery, if_neg hquery]
    cases parse (coercer entity.rules db.lookup) request.query with
    | error e => rfl
    | ok r => exact congrArg (Except.mapError PlanFault.toError) (hplan (some r))

theorem exists_of_plan {db : Database} {entity : Entity} {request : Request} {plan : Plan}
    (h : db.plan entity request = .ok plan) :
    ∃ spec, assemble entity (coercer entity.rules db.lookup) request = .ok spec ∧
      spec.plan entity.schema = .ok plan := by
  obtain ⟨spec, hspec, h⟩ := Except.exists_of_bind_eq_ok h
  exact ⟨spec, hspec, Except.eq_ok_of_mapError h⟩

theorem plan_of_assemble {db : Database} {entity : Entity} {request : Request} {spec : Spec}
    (hassemble : assemble entity (coercer entity.rules db.lookup) request = .ok spec) {plan : Plan}
    (hplan : spec.plan entity.schema = .ok plan) : db.plan entity request = .ok plan := by
  rw [Database.plan, hassemble]
  exact congrArg (Except.mapError PlanFault.toError) hplan

theorem exists_of_search {db : Database} {entity : Entity} {request : Request} {page : Page}
    (h : db.search entity request = .ok page) :
    ∃ plan, db.plan entity request = .ok plan ∧
      db.obstacle? entity.schema.table plan.condition = none := by
  obtain ⟨plan, hplan, h⟩ := Except.exists_of_bind_eq_ok h
  refine ⟨plan, Except.eq_ok_of_mapError hplan, ?_⟩
  split at h
  · cases h
  · assumption

theorem search_eq {db : Database} {entity : Entity} {request : Request} {plan : Plan}
    (hplan : db.plan entity request = .ok plan)
    (hobstacle : db.obstacle? entity.schema.table plan.condition = none) :
    db.search entity request = .ok
      ⟨(((sortRows plan.order (db.matching entity.schema.table plan.condition)).drop
          request.offset).take request.limit).map (record entity.schema),
        (db.matching entity.schema.table plan.condition).length⟩ := by
  rw [search, hplan]
  simp only [Except.mapError, bind, Except.bind, hobstacle]
  rfl

theorem search_error {db : Database} {entity : Entity} {request : Request} {plan : Plan}
    (hplan : db.plan entity request = .ok plan) {fault : Fault}
    (hobstacle : db.obstacle? entity.schema.table plan.condition = some fault) :
    db.search entity request = .error (.filter (.execution fault.message)) := by
  rw [search, hplan]
  simp only [Except.mapError, bind, Except.bind, hobstacle]
  rfl

theorem readable_of_obstacle? {db : Database} {table : Table} {condition : Condition}
    (h : db.obstacle? table condition = none) : condition.readable = true := by
  unfold obstacle? at h
  split at h
  · cases h
  · by_cases hreadable : condition.readable = true
    · exact hreadable
    · simp [hreadable] at h

theorem mem_matching_iff {db : Database} (hdb : Lawful db.rowsOrNone) {entity : Entity}
    {request : Request} {plan : Plan} (hplan : db.plan entity request = .ok plan)
    (hobstacle : db.obstacle? entity.schema.table plan.condition = none) {row : Row} :
    row ∈ db.matching entity.schema.table plan.condition ↔
      db.Matches entity request.query row := by
  obtain ⟨spec, hspec, hplan⟩ := exists_of_plan hplan
  obtain ⟨-, haliases, hrestriction⟩ := exists_of_assemble hspec
  rw [matching, List.mem_filter, beq_iff_eq, Matches]
  refine and_congr_right fun hrow => ?_
  rw [Spec.eval_plan_iff hdb entity.schema_fits hplan (readable_of_obstacle? hobstacle) hrow,
    Spec.Selects, haliases]
  rcases hrestriction with ⟨hquery, hnone⟩ | ⟨hquery, r, hr, hsome⟩
  · simp [hquery, hnone]
  · simp [hquery, hr, hsome]

theorem sortsBy_of_plan {db : Database} {entity : Entity} {request : Request} {plan : Plan}
    (hplan : db.plan entity request = .ok plan) :
    entity.schema.SortsBy (entity.sortKeys request) plan.order := by
  obtain ⟨spec, hspec, hplan⟩ := exists_of_plan hplan
  obtain ⟨horder, -, -⟩ := exists_of_assemble hspec
  exact horder ▸ Schema.sortsBy_of_order (Spec.of_plan hplan).2.2

/-- Being the rows that a request asks for, each once and in its order. -/
structure IsListing (db : Database) (entity : Entity) (request : Request) (rows : List Row) :
    Prop where
  nodup : rows.Nodup
  mem_iff : ∀ row, row ∈ rows ↔ db.Matches entity request.query row
  ordered : ∃ columns, entity.schema.SortsBy (entity.sortKeys request) columns ∧
    rows.Pairwise (RowBefore columns)

theorem IsListing.length_eq {db : Database} {entity : Entity} {request other : Request}
    {rows rows' : List Row} (h : db.IsListing entity request rows)
    (h' : db.IsListing entity other rows') (hquery : other.query = request.query) :
    rows'.length = rows.length := by
  refine ((List.perm_ext_iff_of_nodup h'.nodup h.nodup).mpr fun row => ?_).length_eq
  rw [h'.mem_iff, h.mem_iff, hquery]

theorem isListing_sortRows {db : Database} (hdb : Lawful db.rowsOrNone) {entity : Entity}
    {request : Request} {plan : Plan} (hplan : db.plan entity request = .ok plan)
    (hobstacle : db.obstacle? entity.schema.table plan.condition = none) :
    db.IsListing entity request
      (sortRows plan.order (db.matching entity.schema.table plan.condition)) := by
  have hperm := perm_sortRows plan.order (db.matching entity.schema.table plan.condition)
  have hsub : (db.matching entity.schema.table plan.condition).Sublist
      (db.rowsOrNone entity.schema.table) := List.filter_sublist
  have hcolumns := sortsBy_of_plan hplan
  refine ⟨?_, fun row => ?_, _, hcolumns, pairwise_rowBefore_sortRows hdb entity hcolumns hsub⟩
  · refine hperm.nodup_iff.mpr (((pairwise_key_ne hdb entity).sublist hsub).imp ?_)
    rintro a b hne rfl
    exact hne rfl
  · rw [hperm.mem_iff, mem_matching_iff hdb hplan hobstacle]

/-- A search that succeeds has a listing of which every answer to the request is a stretch. -/
theorem exists_listing {db : Database} (hdb : Lawful db.rowsOrNone) {entity : Entity}
    {request : Request} {page : Page} (h : db.search entity request = .ok page) :
    ∃ rows, db.IsListing entity request rows ∧ ∀ limit offset,
      db.search entity { request with limit := limit, offset := offset } =
        .ok ⟨((rows.drop offset).take limit).map (record entity.schema), rows.length⟩ := by
  obtain ⟨plan, hplan, hobstacle⟩ := exists_of_search h
  refine ⟨_, isListing_sortRows hdb hplan hobstacle, fun limit offset => ?_⟩
  rw [search_eq ((plan_with_page db entity request limit offset).trans hplan) hobstacle,
    (perm_sortRows _ _).length_eq]

end Database

/-- On a store that was reached by steps, the answers to a request are stretches of one listing. All
of them tell its length, which its order does not change, and pages one after another give it
whole. -/
theorem Session.Reachable.search_pages {s : Session} (hs : s.Reachable) {entity : Entity}
    {request : Request} {page : Page} (h : s.contents.search entity request = .ok page) :
    ∃ rows, s.contents.IsListing entity request rows ∧
      (∀ limit offset,
        s.contents.search entity { request with limit := limit, offset := offset } =
          .ok ⟨((rows.drop offset).take limit).map (record entity.schema), rows.length⟩) ∧
      (∀ other page', other.query = request.query →
        s.contents.search entity other = .ok page' → page'.total = rows.length) ∧
      ∀ size count, rows.length ≤ count * size → ∃ pages,
        (List.range count).mapM (fun k =>
          s.contents.search entity { request with limit := size, offset := k * size }) =
            .ok pages ∧
        pages.flatMap Page.records = rows.map (record entity.schema) := by
  have hdb := hs.lawful
  obtain ⟨rows, hrows, hpages⟩ := Database.exists_listing hdb h
  refine ⟨rows, hrows, hpages, fun other page' hquery hother => ?_, fun size count hcount => ?_⟩
  · obtain ⟨rows', hrows', hpages'⟩ := Database.exists_listing hdb hother
    have hpage := hother.symm.trans (hpages' other.limit other.offset)
    rw [Except.ok.inj hpage]
    exact hrows.length_eq hrows' hquery
  · refine ⟨(List.range count).map fun k =>
      ⟨((rows.drop (k * size)).take size).map (record entity.schema), rows.length⟩,
      Except.mapM_eq_ok_iff.mpr ?_, ?_⟩
    · rw [List.forall₂_map_right_iff, List.forall₂_same]
      exact fun k _ => hpages size (k * size)
    have hflat := flatMap_pages size count rows
    rw [List.take_of_length_le hcount] at hflat
    have hrecords := congrArg (List.map (record entity.schema)) hflat
    rw [List.map_flatMap] at hrecords
    rw [List.flatMap_map]
    exact hrecords

/-! ## Two nodes of one name -/

def twoNodes : Session :=
  ((Session.start 0).step 0 (.insert "nodes"
    [[("id", .integer 2), ("label", .text "core")],
     [("id", .integer 1), ("label", .text "core")]])).2

def byLabel : Request := ⟨"", 1, 0, "label", .desc⟩

theorem search_twoNodes : ∃ page rows, twoNodes.contents.search .node byLabel = .ok page ∧
    twoNodes.contents.IsListing .node byLabel rows ∧ rows.length = 2 := by
  have hreachable : twoNodes.Reachable := .step 0 _ (.start 0)
  have hplan : twoNodes.contents.plan .node byLabel =
      .ok ⟨.always, [("label", .desc), ("id", .asc)]⟩ := by rfl
  have hfound : (twoNodes.contents.matching .nodes .always).length = 2 := by rfl
  have hsearch := Database.search_eq hplan (by rfl)
  obtain ⟨rows, hrows, hpages, -⟩ := hreachable.search_pages hsearch
  have htotal := congrArg Page.total (Except.ok.inj (hsearch.symm.trans (hpages 1 0)))
  exact ⟨_, rows, hsearch, hrows, htotal.symm.trans hfound⟩

end InventorySearch.Store
