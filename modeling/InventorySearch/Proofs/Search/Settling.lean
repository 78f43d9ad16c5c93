import InventorySearch.Proofs.Search.Conjunction
import InventorySearch.Proofs.Search.Declared
import InventorySearch.Proofs.Search.Fields

set_option autoImplicit false

/-!
# Operands that may be exchanged

Operands that are the same literal in their column give the same condition, in
whatever tree they stand.
-/
namespace InventorySearch.Filter

/-!
## Operands in trees

Changing the operands of a restriction leaves its shape, its fields and its
operators as they are. The tree of a derivation keeps its leaves apart, so where
leaves become the same by the change, the trees do.
-/

def Restriction.mapOperands (change : String → Operand → Operand) : Restriction → Restriction
  | .comparison field op operand => .comparison field op (operand.map (change field))
  | .and left right => .and (left.mapOperands change) (right.mapOperands change)
  | .or left right => .or (left.mapOperands change) (right.mapOperands change)

section
variable (change : String → Operand → Operand)

def mapUnits (units : List (Pivot × Restriction)) : List (Pivot × Restriction) :=
  units.map fun unit => (unit.1, unit.2.mapOperands change)

theorem mapUnits_cons (pivot : Pivot) (next : Restriction) (units : List (Pivot × Restriction)) :
    mapUnits change ((pivot, next) :: units) =
      (pivot, next.mapOperands change) :: mapUnits change units := rfl

theorem mapOperands_joinRuns (before : Option Restriction) (run : Restriction)
    (units : List (Pivot × Restriction)) :
    (joinRuns before run units).mapOperands change =
      joinRuns (before.map (Restriction.mapOperands change)) (run.mapOperands change)
        (mapUnits change units) := by
  have hclose (run : Restriction) : (closeRun before run).mapOperands change =
      closeRun (before.map (Restriction.mapOperands change)) (run.mapOperands change) := by
    cases before <;> rfl
  induction units generalizing before run with
  | nil => exact hclose run
  | cons unit units ih =>
    obtain ⟨pivot, next⟩ := unit
    cases pivot with
    | and => exact ih before (.and run next) hclose
    | or =>
      have hnext := ih (some (closeRun before run)) next fun _ => rfl
      rw [Option.map_some, hclose] at hnext
      exact hnext

theorem mapOperands_precedenceTree (first : Restriction) (units : List (Pivot × Restriction)) :
    (precedenceTree first units).mapOperands change =
      precedenceTree (first.mapOperands change) (mapUnits change units) := by
  rw [← joinRuns_none, ← joinRuns_none]
  exact mapOperands_joinRuns change none first units

end

variable {change : String → Operand → Operand} {leaf leaf' : List Char → Restriction}

mutual

theorem Factor.mapOperands_tree : ∀ f : Factor,
    (∀ g ∈ f.fragments, (leaf g.chars).mapOperands change = (leaf' g.chars).mapOperands change) →
      (f.tree leaf).mapOperands change = (f.tree leaf').mapOperands change
  | .fragment g, h => h g List.mem_cons_self
  | .group inside, h => by
    obtain ⟨hfirst, hrest⟩ := inside.mapOperands_units h
    rw [Factor.tree, Factor.tree, mapOperands_precedenceTree, mapOperands_precedenceTree, hfirst,
      hrest]

theorem Phrase.mapOperands_units : ∀ p : Phrase,
    (∀ g ∈ p.fragments, (leaf g.chars).mapOperands change = (leaf' g.chars).mapOperands change) →
      (p.units leaf).1.mapOperands change = (p.units leaf').1.mapOperands change ∧
        mapUnits change (p.units leaf).2 = mapUnits change (p.units leaf').2
  | .last f, h => ⟨f.mapOperands_tree h, rfl⟩
  | .join f pivot rest, h => by
    rw [Phrase.fragments, List.forall_mem_append] at h
    obtain ⟨hfirst, hrest⟩ := rest.mapOperands_units h.2
    refine ⟨f.mapOperands_tree h.1, ?_⟩
    rw [Phrase.units, Phrase.units, mapUnits_cons, mapUnits_cons, hfirst, hrest]

end

theorem Phrase.mapOperands_tree (p : Phrase)
    (h : ∀ g ∈ p.fragments,
      (leaf g.chars).mapOperands change = (leaf' g.chars).mapOperands change) :
    (p.tree leaf).mapOperands change = (p.tree leaf').mapOperands change :=
  (Factor.group p).mapOperands_tree h

end InventorySearch.Filter

namespace InventorySearch.Search
open InventorySearch.Filter Restriction

/-!
## Settled operands

A column takes an operand for the literal that it is there, so an operand may be
exchanged for one that is the same literal. Settling does so throughout a restriction:
what is text where a number or an instant is meant becomes one. The condition of a
settled restriction is the condition of the restriction.
-/

/-! ### Groups -/

def Term.mapOperand (change : String → Operand → Operand) (t : Term) : Term :=
  { t with operand := t.operand.map (change t.field) }

namespace Grouped
variable (change : String → Operand → Operand)

mutual

def mapOperands : Grouped → Grouped
  | .plain field op operand => .plain field op (operand.map (change field))
  | .related name terms => .related name (terms.map (Term.mapOperand change))
  | .either left right => .either left.mapOperands right.mapOperands
  | .all members => .all (mapOperandsOf members)

def mapOperandsOf : List Grouped → List Grouped
  | [] => []
  | g :: gs => g.mapOperands :: mapOperandsOf gs

end

theorem mapOperandsOf_eq_map (gs : List Grouped) :
    mapOperandsOf change gs = gs.map (mapOperands change) := by
  induction gs with
  | nil => rfl
  | cons g gs ih => rw [mapOperandsOf, ih, List.map_cons]

theorem map_mapOperands_addTerm (name : String) (term : Term) (before : List Grouped) :
    (addTerm name term before).map (mapOperands change) =
      addTerm name (term.mapOperand change) (before.map (mapOperands change)) := by
  induction before with
  | nil => rfl
  | cons g rest ih =>
    cases g with
    | related other terms =>
      by_cases hname : other = name
      · simp [addTerm, mapOperands, hname]
      · simp [addTerm, mapOperands, hname, ih]
    | plain field op operand => simp [addTerm, mapOperands, ih]
    | either left right => simp [addTerm, mapOperands, ih]
    | all gs => simp [addTerm, mapOperands, ih]

/-- Grouping goes by the fields alone. -/
theorem mapOperands_ofRestriction (r : Restriction) :
    (ofRestriction r).mapOperands change = ofRestriction (r.mapOperands change) ∧
      ∀ before, (collect r before).map (mapOperands change) =
        collect (r.mapOperands change) (before.map (mapOperands change)) := by
  induction r with
  | comparison field op operand =>
    rw [Restriction.mapOperands, ofRestriction, ofRestriction]
    simp only [collect]
    cases Text.cut? '.' field with
    | none => exact ⟨rfl, fun before => List.map_append⟩
    | some cut => exact ⟨rfl, map_mapOperands_addTerm change cut.1 _⟩
  | and left right ihLeft ihRight =>
    rw [Restriction.mapOperands, ofRestriction, ofRestriction, mapOperands, mapOperandsOf_eq_map]
    simp only [collect, ihLeft.2, ihRight.2, List.map_nil, implies_true, and_self]
  | or left right ihLeft ihRight =>
    rw [Restriction.mapOperands, ofRestriction, ofRestriction, mapOperands, ihLeft.1, ihRight.1]
    refine ⟨rfl, fun before => ?_⟩
    rw [collect, collect, List.map_append, List.map_singleton, mapOperands, ihLeft.1, ihRight.1]

end Grouped

/-! ### Operands of one column -/

/-- The operand that is this literal without having to be read. -/
def Literal.operand : Literal → Operand
  | .text s => .text s
  | .integer n => .integer n
  | .moment t => .moment t

theorem literal?_operand {kind : ScalarKind} {o : Operand} {l : Literal}
    (h : literal? kind o = some l) : literal? kind l.operand = some l := by
  rw [← kind_of_literal? h]
  cases l <;> rfl

/-- An operand as what it is in a column of the kind; where it is nothing there, it stays. -/
def settleAs (kind : ScalarKind) (o : Operand) : Operand :=
  ((literal? kind o).map Literal.operand).getD o

theorem settleAs_eq {kind : ScalarKind} {o : Operand} {l : Literal}
    (h : literal? kind o = some l) : settleAs kind o = l.operand := by
  rw [settleAs, h]
  rfl

theorem scalarTest_settleAs {field column : String} {kind : ScalarKind} {op : Comparator}
    {operand : Option Operand} {t : Test} (h : scalarTest field column kind op operand = .ok t) :
    scalarTest field column kind op (operand.map (settleAs kind)) = .ok t := by
  cases op with
  | isNull => exact h
  | isNotNull => exact h
  | relation r =>
    obtain ⟨l, hl, rfl⟩ := Except.exists_of_map_eq_ok h
    obtain ⟨o, rfl, hlit⟩ := exists_of_bindLiteral hl
    rw [scalarTest, Option.map_some, settleAs_eq hlit, bindLiteral, literal?_operand hlit]
    rfl

namespace Schema
variable {schema : Schema} {aliases : List Alias}

/-- What stands behind a field, which a dotted name reaches through its alias. -/
def fieldKind? (schema : Schema) (aliases : List Alias) (field : String) : Option FieldKind :=
  match Text.cut? '.' field with
  | none => (field? schema.fields field).map Field.kind
  | some (name, child) => do
    let link ← alias? aliases name
    let association ← schema.association? link.path
    let f ← field? association.fields child
    return .scalar f.kind

def settle (schema : Schema) (aliases : List Alias) (field : String) (o : Operand) : Operand :=
  match schema.fieldKind? aliases field with
  | some (.scalar kind) => settleAs kind o
  | _ => o

theorem settle_scalar {field : String} {kind : ScalarKind}
    (h : schema.fieldKind? aliases field = some (.scalar kind)) :
    schema.settle aliases field = settleAs kind := by
  funext o
  rw [settle, h]

theorem settle_membership {field : String} {link : Store.Table} {owner member : String}
    (h : schema.fieldKind? aliases field = some (.membership link owner member)) :
    schema.settle aliases field = id := by
  funext o
  rw [settle, h]
  rfl

theorem faulty_relation_iff {field : String} {kind : ScalarKind} {r : Relation} {o : Operand}
    (h : schema.fieldKind? aliases field = some (.scalar kind)) :
    schema.Faulty aliases (.comparison field (.relation r) (some o)) ↔ ¬ o.Fits kind := by
  have hfits (kind : ScalarKind) : OperandFits kind (.relation r) (some o) ↔ o.Fits kind := by
    simp [OperandFits]
  rw [fieldKind?] at h
  cases hcut : Text.cut? '.' field with
  | none =>
    rw [hcut] at h
    obtain ⟨f, hf, hkind⟩ := Option.map_eq_some_iff.mp h
    rw [faulty_plain_iff hcut, hf]
    simp [hkind, hfits]
  | some cut =>
    rw [hcut] at h
    obtain ⟨link, hlink, h⟩ := Option.bind_eq_some_iff.mp h
    obtain ⟨a, ha, h⟩ := Option.bind_eq_some_iff.mp h
    obtain ⟨f, hf, h⟩ := Option.bind_eq_some_iff.mp h
    obtain rfl : f.kind = kind := by simpa using h
    rw [faulty_dotted_iff hcut]
    simp [hlink, ha, hf, hfits]

/-! ### Conditions -/

theorem plain_settled {field : String} {op : Comparator} {operand : Option Operand}
    {c : Condition} (hcut : Text.cut? '.' field = none)
    (h : schema.plain field op operand = .ok c) :
    schema.plain field op (operand.map (schema.settle aliases field)) = .ok c := by
  obtain ⟨⟨name, column, kind⟩, hf, hc⟩ := exists_of_plain h
  have hkind : schema.fieldKind? aliases field = some kind := by
    rw [fieldKind?, hcut, hf]
    rfl
  cases kind with
  | scalar kind =>
    obtain ⟨t, ht, rfl⟩ := hc
    rw [settle_scalar hkind, plain, hf]
    simp only [scalarTest_settleAs ht]
    rfl
  | membership link owner member => rwa [settle_membership hkind, Option.map_id_fun, id]

theorem related_settled {spec : Spec} {name : String} {terms : List Term}
    (hterms : ∀ t ∈ terms, Text.cut? '.' t.field = some (name, t.child)) {c : Condition}
    (h : schema.related spec name terms = .ok c) :
    schema.related spec name (terms.map (Term.mapOperand (schema.settle spec.aliases))) =
      .ok c := by
  obtain ⟨link, hlink, a, ha, tests, htests, rfl⟩ := exists_of_related h
  have hsettled : List.Forall₂ (fun t test => childTest a link.path t = .ok test)
      (terms.map (Term.mapOperand (schema.settle spec.aliases))) tests := by
    rw [List.forall₂_map_left_iff]
    refine ((List.forall₂_and_left _ _).mpr ⟨hterms, htests⟩).imp ?_
    rintro t test ⟨hcut, htest⟩
    obtain ⟨f, hf, hscalar⟩ := exists_of_childTest htest
    have hkind : schema.fieldKind? spec.aliases t.field = some (.scalar f.kind) := by
      have hnamed : alias? spec.aliases name = some link := hlink
      simp [fieldKind?, hcut, hnamed, ha, hf]
    rw [Term.mapOperand, settle_scalar hkind, childTest]
    simp only [hf]
    exact scalarTest_settleAs hscalar
  have hops : (terms.map (Term.mapOperand (schema.settle spec.aliases))).all
      (fun t => t.op == .isNull) = terms.all fun t => t.op == .isNull := List.all_map
  rw [related_eq_ok hlink ha hsettled, hops]

theorem condition_settled {spec : Spec} {r : Restriction} {c : Condition}
    (h : schema.condition spec (Grouped.ofRestriction r) = .ok c) :
    schema.condition spec
      (Grouped.ofRestriction (r.mapOperands (schema.settle spec.aliases))) = .ok c := by
  rw [← (Grouped.mapOperands_ofRestriction _ r).1]
  refine @condition_induct schema spec (fun r c => schema.condition spec
    ((Grouped.ofRestriction r).mapOperands (schema.settle spec.aliases)) = .ok c) ?_ ?_ ?_ ?_ r c h
  · intro field op operand c hdot h
    have hcut : Text.cut? '.' field = none := by simpa [dotted?] using hdot
    simp only [Grouped.ofRestriction, hcut]
    exact plain_settled hcut h
  · intro field op operand name term c hdot h
    obtain ⟨heq, hcut⟩ := dotted?_eq_some_iff.mp hdot
    cases heq
    simp only [Grouped.ofRestriction, hcut]
    exact related_settled (List.forall_mem_singleton.mpr hcut) h
  · intro left right cl cr hl hr
    rw [Grouped.ofRestriction, Grouped.mapOperands, condition, hl, hr]
    rfl
  · intro left right cs hcs
    have hgroups : schema.conditions spec ((Grouped.groups (and left right).members).map
        (Grouped.mapOperands (schema.settle spec.aliases))) = .ok cs := by
      rw [conditions_eq_mapM, Except.mapM_eq_ok_iff, List.forall₂_map_left_iff]
      refine ((List.forall₂_and_left _ _).mpr ⟨fun g hg => hg, hcs⟩).imp ?_
      rintro g c ⟨hg, hplain, hrelated⟩
      rcases Grouped.mem_groups.mp hg with ⟨m, hm, hdot, rfl⟩ | ⟨name, hname, rfl⟩
      · exact hplain m hm hdot rfl
      · refine related_settled (fun t ht => ?_) (hrelated name hname rfl)
        obtain ⟨m, -, hdot⟩ := mem_termsOn.mp ht
        exact (dotted?_eq_some_iff.mp hdot).2
    rw [Grouped.ofRestriction_and, Grouped.mapOperands, Grouped.mapOperandsOf_eq_map, condition,
      hgroups]
    rfl

end Schema

end InventorySearch.Search
