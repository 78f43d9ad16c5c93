import InventorySearch.Proofs.Filter.Derivability
import InventorySearch.Proofs.Search.Conjunction
import InventorySearch.Proofs.Store.Paging

set_option autoImplicit false

/-!
# Searches with joined queries

Two queries in brackets with a pivot between them, of which each can be searched
for. The rows that "or" finds are those of either query. "And" finds rows of both
only, and all of them if the queries share no alias: where they do, it asks for
one associated row that fits both.
-/
namespace InventorySearch.Search
open InventorySearch.Filter Store

theorem Condition.tablesOf_eq_flatMap (cs : List Condition) :
    tablesOf cs = cs.flatMap tables := by
  induction cs with
  | nil => rfl
  | cons c cs ih => rw [tablesOf, ih, List.flatMap_cons]

/-- The specification of which the conditions of all queries have the aliases. -/
def Entity.bareSpec (entity : Entity) : Spec := ⟨none, [], 0, 0, entity.aliases⟩

/-! ## Being true of a row -/

namespace Schema
variable (db : Rows) (row : Row)

theorem conjunctive_eval : Conjunctive fun c => c.eval db row = some true := by
  intro cs
  simp only [Condition.eval, Condition.evalAll_eq_some_true]

/-- One associated row that passes the tests of both passes those of either, and to have no
associated row is asked by both or by neither. -/
theorem splits_eval : Splits fun c => c.eval db row = some true := by
  intro orLeft orRight source key testsLeft testsRight h
  simp only [Condition.eval, Option.some.injEq, Bool.or_eq_true, List.any_eq_true, beq_iff_eq,
    all_map_eval, List.forall_mem_append, Bool.and_eq_true] at h ⊢
  rcases h with ⟨c, hc, hleft, hright⟩ | ⟨⟨hleft, hright⟩, hempty⟩
  · exact ⟨.inl ⟨c, hc, hleft⟩, .inl ⟨c, hc, hright⟩⟩
  · exact ⟨.inr ⟨hleft, hempty⟩, .inr ⟨hright, hempty⟩⟩

end Schema
end InventorySearch.Search

namespace InventorySearch.Store
open InventorySearch.Filter Search Restriction

namespace Database
variable {db : Database}

/-- Whether no table of a condition is missing, and every literal in it can be read. -/
def CanDecide (db : Database) (c : Condition) : Prop :=
  (∀ t ∈ c.tables, (db.rows? t).isSome = true) ∧ Readable c.literals

theorem obstacle?_eq_none_iff {table : Table} {c : Condition} :
    db.obstacle? table c = none ↔ (db.rows? table).isSome = true ∧ db.CanDecide c := by
  have hfind : ((table :: c.tables).find? fun t => (db.rows? t).isNone) = none ↔
      (db.rows? table).isSome = true ∧ ∀ t ∈ c.tables, (db.rows? t).isSome = true := by
    rw [List.find?_eq_none, List.forall_mem_cons]
    simp [Option.isSome_iff_ne_none]
  rw [CanDecide, ← and_assoc, ← hfind, ← Condition.readable_iff, obstacle?]
  cases (table :: c.tables).find? fun t => (db.rows? t).isNone with
  | none => simp
  | some t => simp

theorem conjunctive_canDecide : Schema.Conjunctive db.CanDecide := by
  intro cs
  simp only [CanDecide, Readable, Condition.tables, Condition.literals,
    Condition.tablesOf_eq_flatMap, Condition.literalsOf_eq_flatMap, List.forall_mem_flatMap]
  exact ⟨fun h c hc => ⟨h.1 c hc, h.2 c hc⟩, fun h => ⟨fun c hc => (h c hc).1, fun c hc => (h c hc).2⟩⟩

theorem fuses_canDecide : Schema.Fuses db.CanDecide := by
  rintro orLeft orRight source key testsLeft testsRight ⟨htables, hleft⟩ ⟨-, hright⟩
  refine ⟨?_, ?_⟩
  · cases source <;> exact htables
  · rw [Condition.literals, List.flatMap_append]
    exact List.forall_mem_append.mpr ⟨hleft, hright⟩

theorem canDecide_either {c d : Condition} :
    db.CanDecide (.either c d) ↔ db.CanDecide c ∧ db.CanDecide d := by
  simp only [CanDecide, Readable, Condition.tables, Condition.literals, List.forall_mem_append]
  exact and_and_and_comm

/-! ## The rows of a restriction -/

variable {entity : Entity} {left right : Restriction} {foundLeft foundRight : List Row}

/-- Being the rows for which the condition of a restriction is true, which the store can decide. -/
def Selects (db : Database) (entity : Entity) (r : Restriction) (rows : List Row) : Prop :=
  ∃ c, entity.schema.condition entity.bareSpec (.ofRestriction r) = .ok c ∧ db.CanDecide c ∧
    rows = db.matching entity.schema.table c

theorem Selects.mem_iff {r : Restriction} {rows : List Row} (h : db.Selects entity r rows)
    {row : Row} :
    row ∈ rows ↔ row ∈ db.rowsOrNone entity.schema.table ∧
      entity.schema.Planned entity.bareSpec (fun c => c.eval db.rowsOrNone row = some true)
        (.ofRestriction r) := by
  obtain ⟨c, hc, -, rfl⟩ := h
  rw [Schema.planned_iff hc, matching, List.mem_filter, beq_iff_eq]

theorem Selects.planned {r : Restriction} {rows : List Row} (h : db.Selects entity r rows) :
    entity.schema.Planned entity.bareSpec db.CanDecide (.ofRestriction r) := by
  obtain ⟨c, hc, hdecides, -⟩ := h
  exact ⟨c, hc, hdecides⟩

theorem selects_or (hleft : db.Selects entity left foundLeft)
    (hright : db.Selects entity right foundRight) :
    ∃ found, db.Selects entity (.or left right) found ∧
      ∀ row, row ∈ found ↔ row ∈ foundLeft ∨ row ∈ foundRight := by
  obtain ⟨c, hc, hdecidesLeft, rfl⟩ := hleft
  obtain ⟨d, hd, hdecidesRight, rfl⟩ := hright
  refine ⟨_, ⟨.either c d, ?_, canDecide_either.mpr ⟨hdecidesLeft, hdecidesRight⟩, rfl⟩, fun row => ?_⟩
  · rw [Grouped.ofRestriction, Schema.condition, hc, hd]
    rfl
  · simp only [matching, List.mem_filter, beq_iff_eq, Condition.eval, Truth.or_eq_some_true]
    rw [and_or_left]

theorem selects_and (hleft : db.Selects entity left foundLeft)
    (hright : db.Selects entity right foundRight) :
    ∃ found, db.Selects entity (.and left right) found ∧
      (∀ row ∈ found, row ∈ foundLeft ∧ row ∈ foundRight) ∧
      ((aliasNames left.members).Disjoint (aliasNames right.members) →
        ∀ row, row ∈ foundLeft → row ∈ foundRight → row ∈ found) := by
  obtain ⟨c, hc, hdecides⟩ := Schema.planned_and conjunctive_canDecide (.inl fuses_canDecide)
    hleft.planned hright.planned
  have hselects : db.Selects entity (.and left right) (db.matching entity.schema.table c) :=
    ⟨c, hc, hdecides, rfl⟩
  refine ⟨_, hselects, fun row hrow => ?_, fun hdisjoint row hinLeft hinRight => ?_⟩
  · obtain ⟨hmem, htrue⟩ := hselects.mem_iff.mp hrow
    have hboth := Schema.planned_of_planned_and (Schema.conjunctive_eval db.rowsOrNone row)
      (Schema.splits_eval db.rowsOrNone row) htrue
    exact ⟨hleft.mem_iff.mpr ⟨hmem, hboth.1⟩, hright.mem_iff.mpr ⟨hmem, hboth.2⟩⟩
  · obtain ⟨hmem, htrueLeft⟩ := hleft.mem_iff.mp hinLeft
    obtain ⟨-, htrueRight⟩ := hright.mem_iff.mp hinRight
    have htrue := Schema.planned_and (Schema.conjunctive_eval db.rowsOrNone row)
      (.inr hdisjoint) htrueLeft htrueRight
    exact hselects.mem_iff.mpr ⟨hmem, htrue⟩

/-! ## The rows of a query -/

variable {request : Request}

/-- Answering a request with the number of these rows and one stretch of them in the order of the
plan. They are the rows of the table for which the condition is true. -/
def Finds (db : Database) (entity : Entity) (request : Request) (rows : List Row) : Prop :=
  ∃ plan page, db.plan entity request = .ok plan ∧ db.search entity request = .ok page ∧
    rows = db.matching entity.schema.table plan.condition ∧ page.total = rows.length ∧
    page.records = (((sortRows plan.order rows).drop request.offset).take request.limit).map
      (record entity.schema)

theorem plan_eq_ok_iff {query : String} (hquery : query ≠ "") {plan : Plan} :
    db.plan entity { request with query := query } = .ok plan ↔
      ∃ r, parse (coercer entity.rules db.lookup) query = .ok r ∧
        entity.schema.condition entity.bareSpec (.ofRestriction r) = .ok plan.condition ∧
        entity.schema.order (entity.sortKeys request) = .ok plan.order := by
  constructor
  · intro h
    obtain ⟨spec, hspec, hplan⟩ := exists_of_plan h
    obtain ⟨horder, haliases, ⟨hempty, -⟩ | ⟨-, r, hr, hsome⟩⟩ := exists_of_assemble hspec
    · exact absurd hempty hquery
    · obtain ⟨-, hcondition, hkeys⟩ := Spec.of_plan hplan
      have hbare : spec.aliases = entity.bareSpec.aliases := haliases
      exact ⟨r, hr, Schema.condition_congr hbare _ ▸ hcondition r hsome, horder ▸ hkeys⟩
  · rintro ⟨r, hr, hcondition, horder⟩
    have hassemble := assemble_eq entity (coercer entity.rules db.lookup)
      { request with query := query }
    rw [if_neg hquery, hr] at hassemble
    refine plan_of_assemble hassemble (Spec.plan_eq_ok rfl ?_ horder)
    rw [← hcondition]
    refine Schema.condition_congr ?_ _
    rfl

theorem finds_iff {query : String} (hquery : query ≠ "") {rows : List Row} :
    db.Finds entity { request with query := query } rows ↔
      (db.rows? entity.schema.table).isSome = true ∧
      (∃ columns, entity.schema.order (entity.sortKeys request) = .ok columns) ∧
      ∃ r, parse (coercer entity.rules db.lookup) query = .ok r ∧ db.Selects entity r rows := by
  constructor
  · rintro ⟨plan, page, hplan, hsearch, rfl, -, -⟩
    obtain ⟨plan', hplan', hobstacle⟩ := exists_of_search hsearch
    obtain rfl := Except.ok.inj (hplan.symm.trans hplan')
    obtain ⟨r, hr, hcondition, horder⟩ := (plan_eq_ok_iff hquery).mp hplan
    obtain ⟨htable, hdecides⟩ := obstacle?_eq_none_iff.mp hobstacle
    exact ⟨htable, ⟨_, horder⟩, r, hr, _, hcondition, hdecides, rfl⟩
  · rintro ⟨htable, ⟨columns, horder⟩, r, hr, c, hcondition, hdecides, rfl⟩
    have hplan := (@plan_eq_ok_iff db entity request query hquery ⟨c, columns⟩).mpr
      ⟨r, hr, hcondition, horder⟩
    have hsearch := search_eq hplan (obstacle?_eq_none_iff.mpr ⟨htable, hdecides⟩)
    exact ⟨_, _, hplan, hsearch, rfl, rfl, rfl⟩

theorem finds_joined {q₁ q₂ : String} (h₁ : q₁ ≠ "") (h₂ : q₂ ≠ "") {found₁ found₂ : List Row}
    (hfound₁ : db.Finds entity { request with query := q₁ } found₁)
    (hfound₂ : db.Finds entity { request with query := q₂ } found₂) :
    (∃ found, db.Finds entity { request with query := "(" ++ q₁ ++ "),(" ++ q₂ ++ ")" } found ∧
      ∀ row, row ∈ found ↔ row ∈ found₁ ∨ row ∈ found₂) ∧
    ∃ found, db.Finds entity { request with query := "(" ++ q₁ ++ ");(" ++ q₂ ++ ")" } found ∧
      (∀ row ∈ found, row ∈ found₁ ∧ row ∈ found₂) ∧
      ∀ r₁ r₂, parse (coercer entity.rules db.lookup) q₁ = .ok r₁ →
        parse (coercer entity.rules db.lookup) q₂ = .ok r₂ →
        (aliasNames r₁.members).Disjoint (aliasNames r₂.members) →
          ∀ row, row ∈ found₁ → row ∈ found₂ → row ∈ found := by
  obtain ⟨htable, horder, r₁, hr₁, hselects₁⟩ := (finds_iff h₁).mp hfound₁
  obtain ⟨-, -, r₂, hr₂, hselects₂⟩ := (finds_iff h₂).mp hfound₂
  constructor
  · obtain ⟨found, hselects, hmem⟩ := selects_or hselects₁ hselects₂
    have hparse := @parse_join_groups _ q₁ q₂ ("(" ++ q₁ ++ "),(" ++ q₂ ++ ")") .or _ _ hr₁ hr₂
      (by simp [Pivot.mark])
    exact ⟨found, (finds_iff (by simp)).mpr ⟨htable, horder, _, hparse, hselects⟩, hmem⟩
  · obtain ⟨found, hselects, hsub, hsup⟩ := selects_and hselects₁ hselects₂
    have hparse := @parse_join_groups _ q₁ q₂ ("(" ++ q₁ ++ ");(" ++ q₂ ++ ")") .and _ _ hr₁ hr₂
      (by simp [Pivot.mark])
    refine ⟨found, (finds_iff (by simp)).mpr ⟨htable, horder, _, hparse, hselects⟩, hsub, ?_⟩
    intro r r' hr hr' hdisjoint
    obtain rfl := Except.ok.inj (hr₁.symm.trans hr)
    obtain rfl := Except.ok.inj (hr₂.symm.trans hr')
    exact hsup hdisjoint

end Database

/-! ## A node with one interface -/

def interfaceAt : Restriction :=
  .comparison "ipInterface.ipAddress" (.relation .eq) (some (.text "10.0.0.1"))

def labelled : Restriction := .comparison "label" (.relation .eq) (some (.text "core"))

def oneInterface : Database :=
  (((Session.start 0).step 0 (.insert "nodes" [[("id", .integer 1), ("label", .text "core")]])).2.step
    0 (.insert "ip_interfaces"
      [[("id", .integer 1), ("node_id", .integer 1), ("ip_address", .text "10.0.0.1")]])).2.contents

def coreNode : Row :=
  ⟨[("id", .integer 1), ("label", .text "core")] ++
    ["node_type", "sys_name", "sys_description", "sys_location", "sys_contact", "foreign_source",
      "foreign_id", "location", "create_time", "last_capsd_poll"].map fun c => (c, .null)⟩

theorem selects_interfaceAt : oneInterface.Selects .node interfaceAt [coreNode] := by
  refine ⟨.related false (.owned .ipInterfaces "node_id") "id"
    [.relation "ip_address" .eq (.text "10.0.0.1")], by rfl, ⟨?_, ?_⟩, by rfl⟩
  · intro t ht
    obtain rfl := List.mem_singleton.mp ht
    rfl
  · intro l hl
    obtain rfl := List.mem_singleton.mp hl
    rfl

theorem selects_labelled : oneInterface.Selects .node labelled [coreNode] := by
  refine ⟨.test (.relation "label" .eq (.text "core")), by rfl, ⟨?_, ?_⟩, by rfl⟩
  · intro t ht
    cases ht
  · intro l hl
    obtain rfl := List.mem_singleton.mp hl
    rfl

theorem mem_of_finds_joined : ∃ found, oneInterface.Finds .node
    ⟨"(ipInterface.ipAddress==10.0.0.1);(label==core)", 10, 0, "", .asc⟩ found ∧
      coreNode ∈ found := by
  have htable : (oneInterface.rows? Entity.node.schema.table).isSome = true := by rfl
  have horder : Entity.node.schema.order (Entity.node.sortKeys ⟨"", 10, 0, "", .asc⟩) =
      .ok [("label", .asc), ("id", .asc)] := by rfl
  have hleft : parse (coercer Entity.node.rules oneInterface.lookup)
      "ipInterface.ipAddress==10.0.0.1" = .ok interfaceAt := by
    refine parse_of_isLeaf (by decide) (@Primitive.IsLeaf.relation _ _ _ "10.0.0.1" _ _ ?_ rfl rfl)
    exact ⟨by simp [Primitive.IsSide], by simp [Primitive.IsSide], by decide⟩
  have hright : parse (coercer Entity.node.rules oneInterface.lookup) "label==core" =
      .ok labelled := by
    refine parse_of_isLeaf (by decide) (@Primitive.IsLeaf.relation _ _ _ "core" _ _ ?_ rfl rfl)
    exact ⟨by simp [Primitive.IsSide], by simp [Primitive.IsSide], by decide⟩
  have hfindsLeft := (Database.finds_iff (by decide)).mpr
    ⟨htable, ⟨_, horder⟩, _, hleft, selects_interfaceAt⟩
  have hfindsRight := (Database.finds_iff (by decide)).mpr
    ⟨htable, ⟨_, horder⟩, _, hright, selects_labelled⟩
  obtain ⟨-, found, hfinds, -, hsup⟩ :=
    Database.finds_joined (by decide) (by decide) hfindsLeft hfindsRight
  have hnone : aliasNames labelled.members = [] := by rfl
  have hdisjoint : (aliasNames interfaceAt.members).Disjoint (aliasNames labelled.members) :=
    hnone ▸ List.disjoint_nil_right _
  exact ⟨found, hfinds, hsup _ _ hleft hright hdisjoint coreNode (by simp) (by simp)⟩

end InventorySearch.Store
