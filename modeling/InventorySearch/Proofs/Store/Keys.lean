import InventorySearch.Proofs.Search.Declared
import InventorySearch.Proofs.Search.Fields
import InventorySearch.Proofs.Store.Categories

set_option autoImplicit false

/-!
# Records by their number

Each entity calls its key `id`, some of them beside a name of their own, and not all have
a rule for it. Asking for the record with a number and searching for `id` with the same
number are nevertheless one question, since no two rows share a key and a number is read
back from its decimal text.
-/
namespace InventorySearch.Text.Numeral

theorem mem_decimal {n : Int} {c : Char} (h : c ∈ (decimal n).toList) :
    c = '-' ∨ c.isDigit = true := by
  have hdigits (k : Nat) : ∀ c ∈ digits k, c.isDigit = true :=
    List.all_eq_true.mp (all_isDigit_digits k)
  cases n with
  | ofNat k =>
    rw [decimal, String.toList_ofList] at h
    exact .inr (hdigits k c h)
  | negSucc k =>
    rw [decimal, String.toList_ofList] at h
    exact (List.mem_cons.mp h).imp_right (hdigits (k + 1) c)

theorem toLower_of_isDigit {c : Char} (h : c.isDigit = true) : c.toLower = c := by
  have hhigh : c.toNat ≤ 57 := by
    rw [Char.isDigit, Bool.and_eq_true, decide_eq_true_iff, decide_eq_true_iff] at h
    exact h.2
  refine dif_neg fun hupper => ?_
  have hlow : 65 ≤ c.toNat := hupper.1
  omega

theorem decimal_ne_empty (n : Int) : decimal n ≠ "" := by
  intro h
  have hlist := congrArg String.toList h
  cases n with
  | ofNat k => exact digits_ne_nil k (by simpa [decimal] using hlist)
  | negSucc k => simp [decimal] at hlist

end InventorySearch.Text.Numeral

namespace InventorySearch.Filter
open Text.Numeral

theorem sameLetters_decimal (n : Int) {word : String} (h : 'l' ∈ word.toList.map Char.toLower) :
    Text.sameLetters (decimal n) word = false := by
  by_contra hsame
  rw [Bool.not_eq_false, Text.sameLetters, beq_iff_eq] at hsame
  obtain ⟨c, hc, hlower⟩ := List.mem_map.mp (hsame ▸ h)
  rcases mem_decimal hc with rfl | hdigit
  · exact absurd hlower (by decide)
  · rw [toLower_of_isDigit hdigit] at hlower
    exact absurd (hlower ▸ hdigit) (by decide)

theorem writable_decimal (n : Int) : Writable (decimal n) where
  free := by
    have hmarks : (['=', '(', ')', ';', ','].all fun c => !c.isDigit) = true := by decide
    refine ⟨decimal_ne_empty n, fun c hc hmark => ?_⟩
    rcases mem_decimal hc with rfl | hdigit
    · exact absurd hmark (by decide)
    · simpa [hdigit] using List.all_eq_true.mp hmarks c hmark
  not_null := sameLetters_decimal n (by decide)
  not_notNull := sameLetters_decimal n (by decide)

end InventorySearch.Filter

namespace InventorySearch.Search
open InventorySearch.Filter

namespace Entity

theorem field?_id (entity : Entity) :
    field? entity.schema.fields "id" = some ⟨"id", entity.schema.key, .scalar .integer⟩ := by
  cases entity <;> rfl

/-- With a rule or without one, the number is the literal in the end. -/
theorem exists_operand_id (entity : Entity) (lookup : Lookup) {literal : String} {n : Int}
    (h : Text.Numeral.int64? literal = some n) :
    ∃ o, coercer entity.rules lookup "id" literal = .ok o ∧
      literal? .integer o = some (.integer n) := by
  have hrule : Rule.coerce lookup "id" literal .integer = .ok (.integer n) := by
    rw [Rule.coerce, h]
    rfl
  cases entity with
  | event => exact ⟨.text literal, rfl, by rw [literal?, h, Option.map_some]⟩
  | alarm | node | notification | outage => exact ⟨.integer n, hrule, rfl⟩

theorem exists_order (entity : Entity) {request : Request}
    (h : request.orderBy = "" ∨ ¬ entity.schema.Unsortable request.orderBy) :
    ∃ columns, entity.schema.order (entity.sortKeys request) = .ok columns := by
  refine (Schema.decides_order entity.undotted_fields _).ok_iff.mpr ?_
  rw [sortKeys]
  by_cases hempty : request.orderBy = ""
  · rw [if_pos hempty]
    exact entity.sortable_defaultOrder
  · rw [if_neg hempty]
    exact List.forall_mem_singleton.mpr (h.resolve_left hempty)

def keyTest (entity : Entity) (n : Int) : Condition :=
  .test (.relation entity.schema.key .eq (.integer n))

theorem condition_id (entity : Entity) {o : Operand} {n : Int}
    (h : literal? .integer o = some (.integer n)) :
    entity.schema.condition entity.bareSpec (.ofRestriction (equals "id" o)) =
      .ok (entity.keyTest n) := by
  have hgroup : Grouped.ofRestriction (equals "id" o) =
      .plain "id" (.relation .eq) (some o) := rfl
  rw [hgroup, Schema.condition]
  exact Schema.plain_relation entity.field?_id rfl .eq h

end Entity
end InventorySearch.Search

namespace InventorySearch.Store
open InventorySearch.Filter Search

def numberRequest (n : Int) (limit : Nat) (orderBy : String) (direction : Direction) : Request :=
  ⟨"id==" ++ Text.Numeral.decimal n, limit, 0, orderBy, direction⟩

theorem sortRows_of_length_le_one {rows : List Row} (h : rows.length ≤ 1)
    (order : List (String × Direction)) : sortRows order rows = rows := by
  have hperm := perm_sortRows order rows
  match rows with
  | [] => exact hperm.eq_nil
  | [row] => exact List.perm_singleton.mp hperm

namespace Database
variable {db : Database}

def keyed (db : Database) (entity : Entity) (n : Int) : List Row :=
  (db.rowsOrNone entity.schema.table).filter fun row => row.get entity.schema.key == .integer n

theorem length_keyed (hdb : Lawful db.rowsOrNone) (entity : Entity) (n : Int) :
    (db.keyed entity n).length ≤ 1 :=
  (hdb _ (Entity.key_mem_keys entity).2).atMostOne (Entity.key_mem_keys entity).1 _

theorem matching_keyTest (entity : Entity) (n : Int) :
    db.matching entity.schema.table (entity.keyTest n) = db.keyed entity n := by
  apply List.filter_congr
  intro row _
  rw [Bool.eq_iff_iff, beq_iff_eq, beq_iff_eq]
  exact relate_integer_eq_some_true rfl

theorem byId_eq {entity : Entity}
    (hrows : db.rows? entity.schema.table = some (db.rowsOrNone entity.schema.table)) (n : Int) :
    db.byId entity n = .ok ((db.keyed entity n).head?.map (record entity.schema)) := by
  rw [byId, rows_of_some hrows, keyed, List.head?_filter]
  rfl

theorem search_number (hdb : Lawful db.rowsOrNone) {entity : Entity}
    (htable : (db.rows? entity.schema.table).isSome = true) {n : Int}
    (hn : Text.Numeral.int64? (Text.Numeral.decimal n) = some n) {limit : Nat} (hlimit : 1 ≤ limit)
    {orderBy : String} (horder : orderBy = "" ∨ ¬ entity.schema.Unsortable orderBy)
    (direction : Direction) :
    db.search entity (numberRequest n limit orderBy direction) =
      .ok ⟨(db.keyed entity n).map (record entity.schema), (db.keyed entity n).length⟩ := by
  obtain ⟨columns, hcolumns⟩ :=
    @Entity.exists_order entity ⟨"", limit, 0, orderBy, direction⟩ horder
  obtain ⟨o, hcoerced, hliteral⟩ := entity.exists_operand_id db.lookup hn
  have hparse := parse_equality (Entity.isFree_of_field? entity.field?_id)
    (writable_decimal n) hcoerced
  have hquery : "id==" ++ Text.Numeral.decimal n ≠ "" := by simp
  have hplan : db.plan entity (numberRequest n limit orderBy direction) =
      .ok ⟨entity.keyTest n, columns⟩ :=
    (@plan_eq_ok_iff db entity ⟨"", limit, 0, orderBy, direction⟩ _ hquery
      ⟨entity.keyTest n, columns⟩).mpr ⟨_, hparse, entity.condition_id hliteral, hcolumns⟩
  have hdecides : db.CanDecide (entity.keyTest n) := by
    refine ⟨nofun, fun l hl => ?_⟩
    obtain rfl := List.mem_singleton.mp hl
    rfl
  have hone := length_keyed hdb entity n
  have hpage : (((db.keyed entity n).drop 0).take limit) = db.keyed entity n :=
    List.take_of_length_le (Nat.le_trans hone hlimit)
  have hsearch := search_eq hplan (obstacle?_eq_none_iff.mpr ⟨htable, hdecides⟩)
  rw [matching_keyTest, sortRows_of_length_le_one hone] at hsearch
  rw [hsearch]
  exact congrArg (fun rows => Except.ok (Page.mk (rows.map (record entity.schema)) _)) hpage

end Database

namespace Session

theorem ask_not_opened {s : Session} (h : s.status ≠ .opened) {α : Type}
    (question : Database → Except Failure α) : s.ask question = .error .closed := by
  rw [ask, connected]
  cases hs : s.status with
  | opened => exact absurd hs h
  | closed => rfl
  | absent => rfl

theorem Reachable.exists_keyed {s : Session} (h : s.Reachable) (hopened : s.status = .opened)
    (entity : Entity) {n : Int} (hn : -9223372036854775808 ≤ n ∧ n ≤ 9223372036854775807)
    {limit : Nat} (hlimit : 1 ≤ limit) {orderBy : String}
    (horder : orderBy = "" ∨ ¬ entity.schema.Unsortable orderBy) (direction : Direction) :
    ∃ rows : List Row, rows.length ≤ 1 ∧
      s.ask (fun db => db.byId entity n) = .ok (rows.head?.map (record entity.schema)) ∧
      s.ask (fun db => db.search entity (numberRequest n limit orderBy direction)) =
        .ok ⟨rows.map (record entity.schema), rows.length⟩ := by
  have hne : entity.schema.table ≠ .monitoredServices := by
    cases entity <;> decide
  have hread : Text.Numeral.int64? (Text.Numeral.decimal n) = some n := by
    rw [Text.Numeral.int64?_decimal]
    exact if_pos (by change -(9223372036854775808 : Int) ≤ n ∧ n < 9223372036854775808; omega)
  rw [ask_opened hopened, ask_opened hopened]
  exact ⟨s.contents.keyed entity n, Database.length_keyed h.lawful entity n,
    Database.byId_eq (h.furnished.rows?_eq _ hne) n,
    Database.search_number h.lawful (h.furnished _ hne) hread hlimit horder direction⟩

/-- Asking a reachable store for the record with a number gives what the search for `id` with that
number gives, in whatever order: the record that is found alone, nothing where none is found, and
an answer only where the search has one. -/
theorem Reachable.byId_iff_search {s : Session} (h : s.Reachable) (entity : Entity) {n : Int}
    (hn : -9223372036854775808 ≤ n ∧ n ≤ 9223372036854775807) {limit : Nat} (hlimit : 1 ≤ limit)
    {orderBy : String} (horder : orderBy = "" ∨ ¬ entity.schema.Unsortable orderBy)
    (direction : Direction) :
    (∀ r, s.ask (fun db => db.byId entity n) = .ok (some r) ↔
      s.ask (fun db => db.search entity (numberRequest n limit orderBy direction)) =
        .ok ⟨[r], 1⟩) ∧
    (s.ask (fun db => db.byId entity n) = .ok none ↔
      ∃ page, s.ask (fun db => db.search entity (numberRequest n limit orderBy direction)) =
        .ok page ∧ page.total = 0) := by
  by_cases hopened : s.status = .opened
  · obtain ⟨rows, hone, hbyId, hsearch⟩ :=
      h.exists_keyed hopened entity hn hlimit horder direction
    rw [hbyId, hsearch]
    match rows with
    | [] => simp
    | [row] => simp
  · rw [ask_not_opened hopened, ask_not_opened hopened]
    simp

/-- One of the nodes has the number 2, and none has the least number there is. -/
theorem byId_twoNodes :
    (∃ r, twoNodes.ask (fun db => db.byId .node 2) = .ok (some r) ∧
      twoNodes.ask (fun db => db.search .node (numberRequest 2 1 "label" .desc)) =
        .ok ⟨[r], 1⟩) ∧
    ∃ page, twoNodes.ask (fun db =>
      db.search .node (numberRequest (-9223372036854775808) 1 "label" .desc)) = .ok page ∧
        page.total = 0 := by
  have hreachable : twoNodes.Reachable := .step 0 _ (.start 0)
  have hlabel : ¬ Entity.node.schema.Unsortable "label" := by
    have hdecides := Schema.decides_order Entity.node.undotted_fields [⟨"label", .desc⟩]
    exact hdecides.ok_iff.mp ⟨_, rfl⟩ _ (List.mem_singleton_self _)
  constructor
  · have hiff := hreachable.byId_iff_search .node (n := 2) (by decide) (Nat.le_refl 1)
      (.inr hlabel) .desc
    exact ⟨_, rfl, (hiff.1 _).mp rfl⟩
  · have hiff := hreachable.byId_iff_search .node (n := -9223372036854775808) (by decide)
      (Nat.le_refl 1) (.inr hlabel) .desc
    exact hiff.2.mp rfl

end Session
end InventorySearch.Store
