import InventorySearch.Proofs.Calendar.Written
import InventorySearch.Proofs.Search.Decision
import InventorySearch.Proofs.Search.Rendering

set_option autoImplicit false

/-!
# The text of a plan and its truth

Read as SQL, the text that a plan puts to the store is true of exactly the rows
that the specification asks for.
-/
namespace InventorySearch.Search
open Calendar InventorySearch.Filter Sql Store

/-!
## Conditions agree with their formulas

The formula that the text of a condition is read as has, on every row, the truth
value of the condition itself, provided its casts succeed.
-/

/-! ### Literals -/

theorem convert?_integer (n : Int) :
    Column.convert? .bigint (.text (Literal.integer n).parameter) =
      if -(Nat.pow 2 63 : Int) ≤ n ∧ n < (Nat.pow 2 63 : Int) then some (.integer n)
      else none := by
  have hread := Text.Numeral.int64?_decimal n
  rw [Literal.parameter, Column.convert?, hread]
  split <;> rfl

theorem convert?_moment (t : Timestamp) :
    Column.convert? .timestamp (.text (Literal.moment t).parameter) =
      (Literal.moment t).value? := by
  rw [Literal.parameter, Column.convert?, Timestamp.storedText, String.toList_ofList,
    Timestamp.readStored?_write, Literal.value?]
  split <;> rfl

theorem Literal.value_scalar {l : Literal} (h : l.scalar.CastSucceeds) (scope : List Binding) :
    l.scalar.value scope = l.value := by
  cases l with
  | text s => rfl
  | integer n =>
    change (Column.convert? _ _).isSome = true at h
    change (Column.convert? _ _).getD .null = .integer n
    rw [convert?_integer] at h ⊢
    split at h
    · next hc => rw [if_pos hc]; rfl
    · simp at h
  | moment t =>
    change (Column.convert? _ _).getD .null = (Literal.moment t).value
    rw [convert?_moment, value]

theorem Literal.isSome_value? {l : Literal} (h : l.scalar.CastSucceeds) :
    l.value?.isSome = true := by
  cases l with
  | text s => rfl
  | integer n => rfl
  | moment t =>
    change (Column.convert? _ _).isSome = true at h
    rwa [convert?_moment] at h

/-! ### Tests -/

theorem Test.eval_formula {row : String} {scope : List Binding} {b : Binding}
    (hrow : scope.find? (fun b => b.name == row) = some b) {t : Test}
    (hcasts : (t.formula row).CastsSucceed) (db : Rows) :
    (t.formula row).eval db scope = t.eval b.row := by
  have hvalue (column : String) : (Scalar.column (some row) column).value scope =
      b.row.get column := by
    simp [Scalar.value, Scalar.lookup, hrow]
  cases t with
  | isNull column => simp [formula, Formula.eval, hvalue, eval]
  | isNotNull column =>
    rw [formula, Formula.eval, Formula.eval, hvalue, eval, bne]
    rfl
  | relation column r literal =>
    rw [formula, Formula.eval, hvalue, literal.value_scalar hcasts.2, eval]

/-! ### Associated rows -/

theorem castsSucceed_conjoin (fs : List Formula) :
    (conjoin fs).CastsSucceed ↔ ∀ f ∈ fs, f.CastsSucceed :=
  conjoin_iff trivial (fun _ _ => Iff.rfl) fs

theorem resolves_conjoin (names : Sources) (fs : List Formula) :
    (conjoin fs).Resolves names ↔ ∀ f ∈ fs, f.Resolves names :=
  conjoin_iff (P := Formula.Resolves names) trivial (fun _ _ => Iff.rfl) fs

theorem eval_conjoin_eq_some_true {db : Rows} {scope : List Binding} (fs : List Formula) :
    (conjoin fs).eval db scope = some true ↔ ∀ f ∈ fs, f.eval db scope = some true :=
  conjoin_iff (P := fun f => f.eval db scope = some true) rfl
    (fun _ _ => Truth.and_eq_some_true) fs

namespace Source

theorem mem_scopes {db : Rows} {b : Binding} {inner : List Binding} {source : Source} :
    inner ∈ scopes db source.sources [b] ↔
      match source with
      | .owned table _ => ∃ c ∈ db table, inner = [⟨"c", table, c⟩, b]
      | .linked link _ _ table _ => ∃ l ∈ db link, ∃ c ∈ db table,
          inner = [⟨"c", table, c⟩, ⟨"l", link, l⟩, b] := by
  cases source <;> simp [sources, scopes]

theorem eval_tests {db : Rows} {scope : List Binding} {b : Binding}
    (hrow : scope.find? (fun b => b.name == "c") = some b) {tests : List Test}
    (hcasts : ∀ t ∈ tests, (t.formula "c").CastsSucceed) :
    (∀ f ∈ tests.map (Test.formula "c"), f.eval db scope = some true) ↔
      Truth.all (tests.map (Test.eval b.row)) = some true := by
  rw [List.forall_mem_map, Truth.all_eq_some_true, List.forall_mem_map]
  exact forall₂_congr fun t ht => by rw [Test.eval_formula hrow (hcasts t ht)]

theorem castsSucceed_of_search {key : String} {tests : List Test} {source : Source}
    (h : (source.search key tests).CastsSucceed) :
    ∀ t ∈ tests, (t.formula "c").CastsSucceed := by
  have hall := (castsSucceed_conjoin _).mp h.2
  exact fun t ht => hall _ (List.mem_cons_of_mem _ (List.mem_map_of_mem ht))

/-- A query finds something exactly when one of the associated rows passes the tests. -/
theorem eval_search {db : Rows} {table : Table} {row : Row} {key : String} {tests : List Test}
    {source : Source} (hcasts : (source.search key tests).CastsSucceed) :
    (source.search key tests).eval db [⟨"p", table, row⟩] =
      some ((source.rows db (row.get key)).any fun c =>
        Truth.all (tests.map (Test.eval c)) == some true) := by
  have htests := castsSucceed_of_search hcasts
  refine congrArg some (Bool.eq_iff_iff.mpr ?_)
  simp only [List.any_eq_true, beq_iff_eq, mem_scopes, Formula.eval, Truth.and_eq_some_true,
    eval_conjoin_eq_some_true, List.forall_mem_cons]
  cases source with
  | owned childTable owner =>
    simp only [rows, List.mem_filter, beq_iff_eq]
    constructor
    · rintro ⟨inner, ⟨c, hc, rfl⟩, -, htie, hall⟩
      exact ⟨c, ⟨hc, htie⟩, (eval_tests rfl htests).mp hall⟩
    · rintro ⟨c, ⟨hc, htie⟩, hall⟩
      exact ⟨_, ⟨c, hc, rfl⟩, rfl, htie, (eval_tests rfl htests).mpr hall⟩
  | linked link owner member childTable column =>
    simp only [rows, List.mem_flatMap, List.mem_filter, beq_iff_eq]
    constructor
    · rintro ⟨inner, ⟨l, hl, c, hc, rfl⟩, hjoin, htie, hall⟩
      exact ⟨c, ⟨l, ⟨hl, htie⟩, hc, hjoin⟩, (eval_tests rfl htests).mp hall⟩
    · rintro ⟨c, ⟨l, ⟨hl, htie⟩, hc, hjoin⟩, hall⟩
      exact ⟨_, ⟨l, hl, c, hc, rfl⟩, hjoin, htie, (eval_tests rfl htests).mpr hall⟩

end Source

/-! ### Memberships -/

theorem hasColumn_any {table : Table} {column : String} (h : HasColumn table column) :
    (table.columns.any fun c => c.name == column) = true := by
  obtain ⟨c, hc, hname⟩ := h
  exact List.any_eq_true.mpr ⟨c, hc, by simp [hname]⟩

theorem value_unqualified {link table : Table} {l row : Row} {column : String}
    (h : HasColumn link column) :
    (Scalar.column none column).value [⟨link.name, link, l⟩, ⟨"p", table, row⟩] =
      l.get column := by
  simp only [Scalar.value, Scalar.lookup, List.find?_cons, hasColumn_any h]
  rfl

theorem filter_linkCondition {db : Rows} {table : Table} {row : Row} {link : Table}
    {asked : Option (String × Literal)} (hasked : ∀ a ∈ asked, HasColumn link a.1)
    (hcasts : (linkCondition asked).CastsSucceed) :
    ((db link).filter fun l =>
      (linkCondition asked).eval db [⟨link.name, link, l⟩, ⟨"p", table, row⟩] == some true) =
      match asked with
      | none => db link
      | some (member, literal) =>
        (db link).filter fun l => relate .eq (l.get member) literal.value == some true := by
  cases asked with
  | none => exact List.filter_eq_self.mpr fun _ _ => rfl
  | some a =>
    obtain ⟨member, literal⟩ := a
    refine List.filter_congr fun l _ => ?_
    have hmember : HasColumn link member := hasked (member, literal) rfl
    change (Truth.and (some true) (relate .eq _ _) == some true) = _
    rw [value_unqualified hmember, literal.value_scalar hcasts.2.2]
    cases relate .eq (l.get member) literal.value with
    | none => rfl
    | some b => cases b <;> rfl

theorem eval_linkFormula {db : Rows} {table : Table} {row : Row} {key : String} {link : Table}
    {owner : String} {asked : Option (String × Literal)} (howner : HasColumn link owner)
    (hasked : ∀ a ∈ asked, HasColumn link a.1)
    (hcasts : (linkFormula key link owner asked).CastsSucceed) :
    (linkFormula key link owner asked).eval db [⟨"p", table, row⟩] =
      (Condition.membership true key link owner asked).eval db row := by
  have hscopes : scopes db [(link.name, link)] [⟨"p", table, row⟩] =
      (db link).map fun l => [⟨link.name, link, l⟩, ⟨"p", table, row⟩] := by
    simp [scopes, List.map_eq_flatMap]
  have hfilter := @filter_linkCondition db table row link asked hasked hcasts.2.2
  rw [linkFormula, Formula.eval, hscopes, List.filter_map, List.map_map]
  simp only [Function.comp_def, hfilter, value_unqualified howner]
  cases asked <;> rfl

/-! ### Whole conditions -/

theorem any_all_nil (rows : List Row) :
    (rows.any fun c => Truth.all (([] : List Test).map (Test.eval c)) == some true) =
      !rows.isEmpty := by
  cases rows <;> rfl

theorem eval_related_formula {db : Rows} {table : Table} {row : Row} (orNone : Bool)
    {source : Source} {key : String} {tests : List Test}
    (hcasts : (Condition.related orNone source key tests).formula.CastsSucceed) :
    (Condition.related orNone source key tests).formula.eval db [⟨"p", table, row⟩] =
      (Condition.related orNone source key tests).eval db row := by
  cases orNone with
  | false =>
    have hsearch := @Source.eval_search db table row key tests source hcasts
    simpa [Condition.formula, Condition.eval] using hsearch
  | true =>
    have hnone := @Source.eval_search db table row key [] source hcasts.1
    have hsome := @Source.eval_search db table row key tests source hcasts.2
    rw [any_all_nil] at hnone
    rw [Condition.formula, if_pos rfl, Formula.eval, Formula.eval, hnone, hsome, Condition.eval]
    generalize (source.rows db (row.get key)).any _ = found
    generalize (source.rows db (row.get key)).isEmpty = empty
    cases found <;> cases empty <;> rfl

theorem Truth.and_some_true (a : Truth) : a.and (some true) = a := by
  rcases a with _ | (_ | _) <;> rfl

theorem eval_conjoin_map {db : Rows} {scope : List Binding} {row : Row} {parts : List Condition}
    (h : ∀ c ∈ parts, c.formula.eval db scope = c.eval db row) :
    (conjoin (parts.map Condition.formula)).eval db scope = Condition.evalAll db row parts := by
  induction parts with
  | nil => rfl
  | cons c cs ih =>
    have hc := h c List.mem_cons_self
    have hcs := ih fun d hd => h d (List.mem_cons_of_mem _ hd)
    cases cs with
    | nil =>
      rw [Condition.evalAll, Condition.evalAll, Truth.and_some_true]
      exact hc
    | cons d ds =>
      rw [Condition.evalAll, ← hc, ← hcs]
      rfl

namespace Condition

theorem eval_formula {db : Rows} {table : Table} {row : Row} {c : Condition} (h : c.Fits table)
    (hcasts : c.formula.CastsSucceed) :
    c.formula.eval db [⟨"p", table, row⟩] = c.eval db row := by
  induction h with
  | always => rfl
  | test h =>
    exact @Test.eval_formula "p" [⟨"p", table, row⟩] ⟨"p", table, row⟩ rfl _ hcasts db
  | @membership inside key link owner asked hkey howner hasked =>
    have hlink := HasColumn.of_number howner
    have hmember : ∀ a ∈ asked, HasColumn link a.1 := fun a ha => .of_number (hasked a ha)
    cases inside with
    | true => exact eval_linkFormula hlink hmember hcasts
    | false => exact congrArg Truth.not (eval_linkFormula hlink hmember hcasts)
  | related => exact eval_related_formula _ hcasts
  | @all parts hne hparts ih =>
    rw [formula, formulas_eq_map] at hcasts ⊢
    have hall := (castsSucceed_conjoin _).mp hcasts
    exact eval_conjoin_map fun c hc => ih c hc (hall _ (List.mem_map_of_mem hc))
  | either hleft hright ihLeft ihRight =>
    rw [formula, Formula.eval, ihLeft hcasts.1, ihRight hcasts.2, eval]

end Condition

/-! ### Casts and names -/

theorem Test.isSome_value? {row : String} {t : Test} (h : (t.formula row).CastsSucceed) :
    ∀ l ∈ t.literals, l.value?.isSome = true := by
  cases t with
  | isNull column => simp [literals]
  | isNotNull column => simp [literals]
  | relation column r literal => simpa [literals] using literal.isSome_value? h.2

theorem Condition.readable_of_castsSucceed {table : Table} {c : Condition} (h : c.Fits table)
    (hcasts : c.formula.CastsSucceed) : c.readable = true := by
  rw [readable, List.all_eq_true]
  induction h with
  | always => simp [literals]
  | test h => exact Test.isSome_value? hcasts
  | @membership inside key link owner asked hkey howner hasked =>
    have hlink : (linkFormula key link owner asked).CastsSucceed := by
      cases inside <;> exact hcasts
    cases asked with
    | none => simp [literals]
    | some a => simpa [literals] using a.2.isSome_value? hlink.2.2.2.2
  | @related orNone source key tests hkey hsource hne htests =>
    have hsearch : (source.search key tests).CastsSucceed := by
      cases orNone with
      | true => exact hcasts.2
      | false => exact hcasts
    intro l hl
    obtain ⟨t, ht, hin⟩ := List.mem_flatMap.mp hl
    exact Test.isSome_value? (Source.castsSucceed_of_search hsearch t ht) l hin
  | @all parts hne hparts ih =>
    rw [formula, formulas_eq_map] at hcasts
    have hall := (castsSucceed_conjoin _).mp hcasts
    intro l hl
    rw [literals, literalsOf_eq_flatMap] at hl
    obtain ⟨c, hc, hin⟩ := List.mem_flatMap.mp hl
    exact ih c hc (hall _ (List.mem_map_of_mem hc)) l hin
  | either hleft hright ihLeft ihRight =>
    intro l hl
    rcases List.mem_append.mp hl with hin | hin
    · exact ihLeft hcasts.1 l hin
    · exact ihRight hcasts.2 l hin

theorem Literal.resolves_scalar (names : Sources) (l : Literal) : l.scalar.Resolves names := by
  cases l <;> exact trivial

theorem Test.resolves_formula {names : Sources} {row : String} {source : String × Table}
    (hrow : names.find? (fun s => s.1 == row) = some source) {t : Test}
    (h : HasColumn source.2 t.column) : (t.formula row).Resolves names := by
  have hcolumn : (Scalar.column (some row) t.column).Resolves names := ⟨source, hrow, h⟩
  cases t with
  | isNull column => exact hcolumn
  | isNotNull column => exact hcolumn
  | relation column r literal => exact ⟨hcolumn, literal.resolves_scalar names⟩

theorem Source.resolves_search {table : Table} {source : Source} (h : source.Fits) {key : String}
    (hkey : HasColumn table key) {tests : List Test}
    (htests : ∀ t ∈ tests, HasColumn source.table t.column) :
    (source.search key tests).Resolves [("p", table)] := by
  cases source with
  | owned childTable owner =>
    refine ⟨trivial, (resolves_conjoin _ _).mpr (List.forall_mem_cons.mpr ⟨?_, ?_⟩)⟩
    · exact ⟨⟨("c", childTable), rfl, HasColumn.of_number h⟩, ⟨("p", table), rfl, hkey⟩⟩
    · refine List.forall_mem_map.mpr fun t ht => ?_
      exact @Test.resolves_formula _ "c" ("c", childTable) rfl t (htests t ht)
  | linked link owner member childTable column =>
    have hjoin : HasColumn childTable column := .of_number h.2.2
    have hmember : HasColumn link member := .of_number h.2.1
    refine ⟨⟨⟨("c", childTable), rfl, hjoin⟩, ⟨("l", link), rfl, hmember⟩⟩,
      (resolves_conjoin _ _).mpr (List.forall_mem_cons.mpr ⟨?_, ?_⟩)⟩
    · exact ⟨⟨("l", link), rfl, HasColumn.of_number h.1⟩, ⟨("p", table), rfl, hkey⟩⟩
    · refine List.forall_mem_map.mpr fun t ht => ?_
      exact @Test.resolves_formula _ "c" ("c", childTable) rfl t (htests t ht)

theorem resolves_linkFormula {table : Table} {key : String} (hkey : HasColumn table key)
    {link : Table} {owner : String} (howner : HasColumn link owner)
    {asked : Option (String × Literal)} (hasked : ∀ a ∈ asked, HasColumn link a.1) :
    (linkFormula key link owner asked).Resolves [("p", table)] := by
  have hlink : (link.name, link) ∈ [(link.name, link)].reverse ++ [("p", table)] :=
    List.mem_cons_self
  refine ⟨⟨("p", table), rfl, hkey⟩, ⟨_, hlink, howner⟩, ?_⟩
  cases asked with
  | none => exact trivial
  | some a => exact ⟨trivial, ⟨_, hlink, hasked a rfl⟩, a.2.resolves_scalar _⟩

theorem Condition.resolves_formula {table : Table} {c : Condition} (h : c.Fits table) :
    c.formula.Resolves [("p", table)] := by
  induction h with
  | always => exact ⟨trivial, trivial⟩
  | test h => exact @Test.resolves_formula [("p", table)] "p" ("p", table) rfl _ h
  | @membership inside key link owner asked hkey howner hasked =>
    have hlink := resolves_linkFormula (.of_number hkey) (.of_number howner)
      fun a (ha : a ∈ asked) => .of_number (hasked a ha)
    cases inside <;> exact hlink
  | @related orNone source key tests hkey hsource hne htests =>
    have hsome := Source.resolves_search hsource (.of_number hkey) htests
    cases orNone with
    | true => exact ⟨Source.resolves_search hsource (.of_number hkey) (by simp), hsome⟩
    | false => exact hsome
  | @all parts hne hparts ih =>
    rw [formula, formulas_eq_map]
    exact (resolves_conjoin _ _).mpr (List.forall_mem_map.mpr ih)
  | either hleft hright ihLeft ihRight => exact ⟨ihLeft, ihRight⟩

/-!
## The text of a plan

Read as SQL, the text that a plan puts to the store is true of exactly the rows
that the specification asks for.
-/

open Restriction

theorem Spec.read_plan_true_iff_selects (entity : Entity) (spec : Spec) (plan : Plan)
    (h : spec.plan entity.schema = .ok plan) :
    ∃ formula, Sql.read plan.condition.text plan.condition.parameters = some formula ∧
      formula.Resolves [("p", entity.schema.table)] ∧
      (formula.CastsSucceed → ∀ db, Lawful db → ∀ row ∈ db entity.schema.table,
        (formula.eval db [⟨"p", entity.schema.table, row⟩] = some true ↔
          spec.Selects entity.schema db row)) := by
  have hfits := fits_of_plan entity.schema_fits h
  refine ⟨plan.condition.formula, Condition.read_text hfits, Condition.resolves_formula hfits, ?_⟩
  intro hcasts db hdb row hrow
  rw [Condition.eval_formula hfits hcasts]
  have hreadable := Condition.readable_of_castsSucceed hfits hcasts
  exact eval_plan_iff hdb entity.schema_fits h hreadable hrow

/-! ### A node without categories -/

def lonelyNode : Row := ⟨[("id", .integer 7), ("label", .text "core")]⟩

def lonelyRows : Rows
  | .nodes => [lonelyNode]
  | _ => []

/-- Asks for nodes called "core" that have no category with a name. -/
def lonelySpec : Spec :=
  ⟨some (.and (.comparison "label" (.relation .eq) (some (.text "core")))
      (.comparison "category.name" .isNull none)), [], 10, 0, Entity.node.aliases⟩

theorem lawful_lonelyRows : Lawful lonelyRows := by
  intro table _
  cases table with
  | nodes =>
    refine ⟨?_, fun key _ => List.pairwise_singleton _ _⟩
    simp [lonelyRows, lonelyNode, Table.columns, Column.Admits, Column.mandatory, Column.optional,
      Row.get, List.lookup_cons, ColumnType.Has, fitsBits, signedBound]
  | _ => exact ⟨by simp [lonelyRows], by simp [lonelyRows]⟩

theorem lonelySpec_selects : lonelySpec.Selects Entity.node.schema lonelyRows lonelyNode := by
  have hdotted : (Restriction.comparison "category.name" .isNull none).dotted? =
      some ("category", ⟨"category.name", "name", .isNull, none⟩) := by rfl
  have hplain : (Restriction.comparison "label" (.relation .eq) (some (.text "core"))).dotted? =
      none := by rfl
  intro r hr
  obtain rfl := Option.some.inj hr
  rw [Restriction.Holds]
  refine ⟨?_, ?_⟩
  · intro m hm hdot
    have hm' : m = .comparison "label" (.relation .eq) (some (.text "core")) ∨
        m = .comparison "category.name" .isNull none := by
      simpa [Restriction.members] using hm
    rcases hm' with rfl | rfl
    · rw [Restriction.Holds, hplain]
      exact ⟨⟨"label", "label", .scalar .text⟩, rfl, .text "core", rfl, .text "core", rfl, rfl⟩
    · simp [hdotted] at hdot
  · intro name hname
    have hname' : name = "category" := by
      simpa [Restriction.members, aliasNames, hdotted, hplain] using hname
    subst hname'
    have hterms : termsOn "category" (Restriction.and
        (.comparison "label" (.relation .eq) (some (.text "core")))
        (.comparison "category.name" .isNull none)).members =
        [⟨"category.name", "name", .isNull, none⟩] := by rfl
    have halone (d : Row) : ¬ (Source.linked .categoryNode "node_id" "category_id" .categories
        "id").IsChild lonelyRows (lonelyNode.get Entity.node.schema.key) d := by
      simp [Source.IsChild, lonelyRows]
    rw [hterms]
    refine ⟨⟨"categories", "category", .left⟩, rfl, _, rfl, ⟨[]⟩, .inr ⟨rfl, halone, rfl⟩, ?_⟩
    simp only [List.forall_mem_singleton]
    exact ⟨⟨"name", "name", .text⟩, rfl, rfl⟩

def lonelyCondition : Condition :=
  .all [.test (.relation "label" .eq (.text "core")),
    .related true (.linked .categoryNode "node_id" "category_id" .categories "id") "id"
      [.isNull "name"]]

theorem read_lonelySpec_true : ∃ plan formula,
    lonelySpec.plan Entity.node.schema = .ok plan ∧
    Sql.read plan.condition.text plan.condition.parameters = some formula ∧
    formula.CastsSucceed ∧
    formula.eval lonelyRows [⟨"p", .nodes, lonelyNode⟩] = some true := by
  have h : lonelySpec.plan Entity.node.schema = .ok ⟨lonelyCondition, [("id", .asc)]⟩ := by rfl
  obtain ⟨formula, hread, -, hiff⟩ := Spec.read_plan_true_iff_selects .node lonelySpec _ h
  have hfits := Spec.fits_of_plan Entity.node.schema_fits h
  obtain rfl : formula = lonelyCondition.formula :=
    Option.some.inj (hread.symm.trans (Condition.read_text hfits))
  have hcasts : lonelyCondition.formula.CastsSucceed :=
    ⟨⟨trivial, trivial⟩, ⟨⟨trivial, trivial⟩, trivial, trivial⟩,
      ⟨trivial, trivial⟩, ⟨trivial, trivial⟩, trivial⟩
  exact ⟨_, _, h, hread, hcasts, (hiff hcasts lonelyRows lawful_lonelyRows lonelyNode
    List.mem_cons_self).mpr lonelySpec_selects⟩

end InventorySearch.Search
