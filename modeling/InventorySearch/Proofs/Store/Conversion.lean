import InventorySearch.Proofs.Search.Declared
import InventorySearch.Proofs.Store.Paging

set_option autoImplicit false

/-!
# Searches of declared fields

A store with all its tables answers a search of declared fields as long as it can
read the timestamps in it. Over any other timestamp it fails, although the coercer
has accepted the literal.
-/
namespace InventorySearch.Store
open InventorySearch.Filter Search

namespace Database

def Complete (db : Database) : Prop := ∀ table, (db.rows? table).isSome = true

theorem obstacle?_eq {db : Database} (hdb : db.Complete) (table : Table) (condition : Condition) :
    db.obstacle? table condition = if condition.readable then none else some .conversion := by
  have hnone : ((table :: condition.tables).find? fun t => (db.rows? t).isNone) = none := by
    rw [List.find?_eq_none]
    intro t _
    simp [Option.isSome_iff_ne_none.mp (hdb t)]
  rw [obstacle?, hnone]

section
variable {db : Database} (hdb : db.Complete) {entity : Entity} {request : Request}
  (horder : request.orderBy = "") {spec : Spec}
  (hassemble : assemble entity (coercer entity.rules db.lookup) request = .ok spec)
  (hdeclared : spec.Declared entity)
include horder hassemble hdeclared

/-- Planning refuses no comparison of a declared field. -/
theorem exists_plan_of_declared : ∃ plan, db.plan entity request = .ok plan ∧
    (plan.condition.readable = true ↔ spec.Storable) := by
  obtain ⟨hkeys, -, hrestriction⟩ := exists_of_assemble hassemble
  have hleaf : ∀ r ∈ spec.restriction, ∀ leaf ∈ r.leaves,
      ∃ fragment, Primitive.IsLeaf (coercer entity.rules db.lookup) fragment leaf := by
    rcases hrestriction with ⟨-, hnone⟩ | ⟨-, r, hr, hsome⟩
    · simp [hnone]
    · rw [hsome]
      rintro _ ⟨⟩
      exact isLeaf_of_parse hr
  have hcomplete := complete_of_assemble hassemble
  have hspec : ∃ plan, spec.plan entity.schema = .ok plan := by
    refine (Spec.decides_plan hcomplete entity).ok_iff.mpr ⟨fun r hr leaf hin => ?_, ?_⟩
    · obtain ⟨fragment, hfragment⟩ := hleaf r hr leaf hin
      exact Entity.not_faulty_of_coerced hfragment (hdeclared r hr leaf hin) spec.aliases
    · rw [hkeys, Entity.sortKeys, if_pos horder]
      exact entity.sortable_defaultOrder
  obtain ⟨plan, hplan⟩ := hspec
  refine ⟨plan, plan_of_assemble hassemble hplan,
    Spec.readable_plan_iff hplan hcomplete fun r hr leaf hin => ?_⟩
  obtain ⟨fragment, hfragment⟩ := hleaf r hr leaf hin
  exact Entity.typed_of_coerced hfragment (hdeclared r hr leaf hin)

include hdb

theorem search_of_storable (h : spec.Storable) : ∃ page, db.search entity request = .ok page := by
  obtain ⟨plan, hplan, hreadable⟩ := exists_plan_of_declared horder hassemble hdeclared
  have hobstacle := obstacle?_eq hdb entity.schema.table plan.condition
  rw [if_pos (hreadable.mpr h)] at hobstacle
  exact ⟨_, search_eq hplan hobstacle⟩

theorem search_of_not_storable (h : ¬ spec.Storable) :
    db.search entity request = .error (.filter (.execution Fault.conversion.message)) := by
  obtain ⟨plan, hplan, hreadable⟩ := exists_plan_of_declared horder hassemble hdeclared
  have hobstacle := obstacle?_eq hdb entity.schema.table plan.condition
  rw [if_neg (mt hreadable.mp h)] at hobstacle
  exact search_error hplan hobstacle

end
end Database

/-- The failing half is said of a table with rows: where no row comes to be compared, a store need
not have read the literals. -/
theorem Session.search_of_declared {s : Session} (hopened : s.status = .opened)
    (htables : s.contents.Complete) {entity : Entity} {request : Request}
    (horder : request.orderBy = "") {spec : Spec}
    (hassemble : assemble entity (coercer entity.rules s.contents.lookup) request = .ok spec)
    (hdeclared : spec.Declared entity) :
    (spec.Storable → ∃ page, s.ask (fun db => db.search entity request) = .ok page) ∧
    (¬ spec.Storable → s.contents.rowsOrNone entity.schema.table ≠ [] →
      s.ask (fun db => db.search entity request) =
        .error (.filter (.execution Fault.conversion.message))) := by
  rw [ask_opened hopened]
  exact ⟨Database.search_of_storable htables horder hassemble hdeclared, fun h _ =>
    Database.search_of_not_storable htables horder hassemble hdeclared h⟩

/-! ## The last minute of a day -/

def createdAfter (second : String) : Request :=
  ⟨"createTime=gt=2013-06-14T23:59:" ++ second, 10, 0, "", .asc⟩

def lastMinute (second : Nat) (h : second ≤ 60) : Calendar.Timestamp :=
  ⟨⟨2013, 6, 14, by decide, by decide, by decide⟩, 23, 59, second, 0, by omega⟩

theorem assemble_createdAfter {db : Database} {text : String} {second : Nat} (h : second ≤ 60)
    (hplain : (createdAfter text).query.toList.all isPlain = true)
    (hshape : Primitive.IsShape (createdAfter text).query.toList "createTime" .gt
      ("2013-06-14T23:59:" ++ text))
    (hunasked : Primitive.sentinel? .gt ("2013-06-14T23:59:" ++ text) = none)
    (hcoerced : coercer Entity.node.rules db.lookup "createTime" ("2013-06-14T23:59:" ++ text) =
      .ok (.moment (lastMinute second h))) :
    ∃ spec, assemble .node (coercer Entity.node.rules db.lookup) (createdAfter text) = .ok spec ∧
      spec.Declared .node ∧ (spec.Storable ↔ second < 60) := by
  have hleaf := Primitive.IsLeaf.relation hshape hunasked hcoerced
  have hassemble := assemble_eq .node (coercer Entity.node.rules db.lookup) (createdAfter text)
  have hquery : (createdAfter text).query ≠ "" := by
    intro hempty
    rw [hempty] at hshape
    exact Primitive.not_isShape_nil hshape
  rw [if_neg hquery, parse_of_isLeaf hplain hleaf] at hassemble
  refine ⟨_, hassemble, ?_, ?_⟩
  · rintro _ ⟨⟩ leaf hleaf
    obtain rfl := List.mem_singleton.mp hleaf
    have hrule : Entity.node.rules.lookup "createTime" = some .timestamp := by rfl
    refine ⟨⟨_, hrule⟩, fun f link owner member hf hkind => ?_⟩
    obtain ⟨-, f', hf', htakes⟩ := Entity.field_of_rule hrule
    obtain rfl := Option.some.inj (hf'.symm.trans hf)
    rw [hkind] at htakes
    cases htakes
  · simp [Spec.Storable, Restriction.leaves, Restriction.Storable, lastMinute]

/-- A router that was entered six days after that minute. -/
def enteredRouter : Session :=
  ((Session.start 0).step 0 (.insert "nodes"
    [[("id", .integer 2), ("label", .text "core-rtr"),
      ("create_time", .text "2013-06-20 12:30:00")]])).2

theorem complete_enteredRouter : enteredRouter.contents.Complete := by
  intro table
  cases table <;> rfl

theorem exists_row_enteredRouter : ∃ row ∈ enteredRouter.contents.rowsOrNone .nodes,
    row.get "create_time" = .moment 1371731400000000 :=
  ⟨_, List.mem_singleton_self _, by rfl⟩

theorem assemble_lastSecond : ∃ spec,
    assemble .node (coercer Entity.node.rules enteredRouter.contents.lookup)
      (createdAfter "59") = .ok spec ∧ spec.Declared .node ∧ (spec.Storable ↔ 59 < 60) :=
  assemble_createdAfter (by decide) (by decide)
    ⟨by simp [Primitive.IsSide], by simp [Primitive.IsSide], by decide⟩ rfl rfl

theorem assemble_leapSecond : ∃ spec,
    assemble .node (coercer Entity.node.rules enteredRouter.contents.lookup)
      (createdAfter "60") = .ok spec ∧ spec.Declared .node ∧ (spec.Storable ↔ 60 < 60) :=
  assemble_createdAfter (by decide) (by decide)
    ⟨by simp [Primitive.IsSide], by simp [Primitive.IsSide], by decide⟩ rfl rfl

theorem ask_lastSecond :
    (∃ page, enteredRouter.ask (fun db => db.search .node (createdAfter "59")) = .ok page) ∧
    enteredRouter.contents.rowsOrNone .nodes ≠ [] ∧
    enteredRouter.ask (fun db => db.search .node (createdAfter "60")) =
      .error (.filter (.execution Fault.conversion.message)) := by
  obtain ⟨row, hrow, -⟩ := exists_row_enteredRouter
  have hrows := List.ne_nil_of_mem hrow
  obtain ⟨spec, hassemble, hdeclared, hstorable⟩ := assemble_lastSecond
  obtain ⟨spec', hassemble', hdeclared', hstorable'⟩ := assemble_leapSecond
  have hlast := Session.search_of_declared rfl complete_enteredRouter rfl hassemble hdeclared
  have hleap := Session.search_of_declared rfl complete_enteredRouter rfl hassemble' hdeclared'
  exact ⟨hlast.1 (hstorable.mpr (by decide)), hrows,
    hleap.2 (mt hstorable'.mp (by decide)) hrows⟩

/-- The coercer reads a sixtieth second in any minute, and the search then fails in the store. -/
theorem ask_leapSecond : enteredRouter.contents.Complete ∧
    (∃ row ∈ enteredRouter.contents.rowsOrNone .nodes,
      row.get "create_time" = .moment 1371731400000000) ∧
    ∃ spec, assemble .node (coercer Entity.node.rules enteredRouter.contents.lookup)
      (createdAfter "60") = .ok spec ∧ spec.Declared .node ∧
    enteredRouter.ask (fun db => db.search .node (createdAfter "60")) =
      .error (.filter (.execution Fault.conversion.message)) := by
  obtain ⟨spec, hassemble, hdeclared, hstorable⟩ := assemble_leapSecond
  have hnot : ¬ spec.Storable := mt hstorable.mp (by decide)
  exact ⟨complete_enteredRouter, exists_row_enteredRouter, spec, hassemble, hdeclared,
    Database.search_of_not_storable complete_enteredRouter rfl hassemble hdeclared hnot⟩

end InventorySearch.Store
