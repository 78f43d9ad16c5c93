import InventorySearch.Proofs.Search.Resolution

set_option autoImplicit false

/-!
# What planning and the store refuse

Requests that are refused by planning, and those that planning lets pass but whose
literals the store cannot read.
-/
namespace InventorySearch.Search
open InventorySearch.Filter Restriction

/-!
## Refused requests

A request that was assembled is refused by planning exactly if one of its
comparisons or sort keys is at fault, and then as a failure of the execution:
planning never blames the asker, and never lacks an operand.
-/

theorem complete_of_assemble {entity : Entity} {coerce : Coercer} {request : Request} {spec : Spec}
    (h : assemble entity coerce request = .ok spec) :
    ∀ r ∈ spec.restriction, ∀ leaf ∈ r.leaves, leaf.Complete := by
  obtain ⟨-, -, ⟨-, hnone⟩ | ⟨-, r, hr, hsome⟩⟩ := exists_of_assemble h
  · simp [hnone]
  · rw [hsome]
    rintro _ ⟨⟩
    exact complete_of_parse hr

theorem plan_error_iff_of_assemble {entity : Entity} {coerce : Coercer} {request : Request}
    {spec : Spec} (h : assemble entity coerce request = .ok spec) :
    ((∃ fault, spec.plan entity.schema = .error fault) ↔
      (∃ r ∈ spec.restriction, ∃ leaf ∈ r.leaves, entity.schema.Faulty spec.aliases leaf) ∨
        ∃ key ∈ spec.order, entity.schema.Unsortable key.field) ∧
    (∀ fault, spec.plan entity.schema = .error fault →
      ∃ message, fault.toError = .execution message) ∧
    ∀ r ∈ spec.restriction, ∀ leaf ∈ r.leaves, leaf.Complete := by
  have hcomplete := complete_of_assemble h
  have hplan := Spec.decides_plan hcomplete entity
  refine ⟨?_, fun fault hfault => hplan.execution_of_error hfault, hcomplete⟩
  rw [hplan.error_iff, not_and_or]
  simp only [not_forall, not_not, exists_prop]

/-! ### Categories have no order -/

def anyCategory : Lookup := fun kind key => .ok (some ⟨kind, 7, key⟩)

def orderedCategories : Request := ⟨"categories=lt=Routers", 10, 0, "", .asc⟩

theorem plan_error_orderedCategories : ∃ spec fault,
    assemble .node (coercer Entity.node.rules anyCategory) orderedCategories = .ok spec ∧
    spec.plan Entity.node.schema = .error fault ∧
    ∃ message, fault.toError = .execution message := by
  have hleaf : Primitive.IsLeaf (coercer Entity.node.rules anyCategory)
      orderedCategories.query.toList (.comparison "categories" (.relation .lt)
        (some (.reference ⟨.category, 7, "Routers"⟩))) :=
    @Primitive.IsLeaf.relation _ _ _ "Routers" _ _
      ⟨by simp [Primitive.IsSide], by simp [Primitive.IsSide], by decide⟩ rfl rfl
  have hparse := parse_of_isLeaf (by decide) hleaf
  have hassemble := assemble_eq .node (coercer Entity.node.rules anyCategory) orderedCategories
  rw [if_neg (by decide), hparse] at hassemble
  have htheorem := plan_error_iff_of_assemble hassemble
  obtain ⟨fault, hfault⟩ := htheorem.1.mpr (.inl ⟨_, rfl, _, List.mem_singleton_self _,
    .orderedMembership (by rfl) (by rfl) rfl rfl⟩)
  exact ⟨_, fault, hassemble, hfault, htheorem.2.1 fault hfault⟩

end InventorySearch.Search

namespace InventorySearch.Filter

/-!
## Declared fields

The fields for which an entity has a rule. Behind each of them is a column of the
kind that the rule makes operands for, so what is coerced for a declared field is
never refused by planning, and only timestamps can then be refused by the store.
-/

def Rule.kind : Rule → Search.ScalarKind
  | .timestamp => .timestamp
  | .integer | .severity | .category | .node => .integer

theorem Rule.fits_of_coerce {lookup : Lookup} {field literal : String} {rule : Rule} {o : Operand}
    (h : rule.coerce lookup field literal = .ok o) : o.Fits rule.kind ∧ ∀ s, o ≠ .text s := by
  cases rule with
  | timestamp =>
    obtain ⟨t, -, rfl⟩ := Except.exists_of_map_eq_ok h
    exact ⟨trivial, fun _ => nofun⟩
  | integer =>
    obtain ⟨n, -, rfl⟩ := Except.exists_of_map_eq_ok h
    exact ⟨trivial, fun _ => nofun⟩
  | severity =>
    obtain ⟨n, -, rfl⟩ := Except.exists_of_map_eq_ok h
    exact ⟨trivial, fun _ => nofun⟩
  | category =>
    obtain ⟨found, -, h⟩ := Except.exists_of_bind_eq_ok h
    obtain ⟨reference, -, rfl⟩ := Except.exists_of_map_eq_ok h
    exact ⟨trivial, fun _ => nofun⟩
  | node =>
    obtain ⟨id, -, h⟩ := Except.exists_of_bind_eq_ok h
    obtain ⟨found, -, h⟩ := Except.exists_of_bind_eq_ok h
    obtain ⟨reference, -, rfl⟩ := Except.exists_of_map_eq_ok h
    exact ⟨trivial, fun _ => nofun⟩

namespace Restriction

/-- Whether the store can read a timestamp that the comparison is with: it knows no sixtieth second
and no year of more than four digits after the year 0. -/
def Storable : Restriction → Prop
  | .comparison _ _ (some (.moment t)) => t.second < 60 ∧ t.date.year ≤ 9999
  | _ => True

/-- Whether the operand, if there is one, has been given a type. -/
def Typed : Restriction → Prop
  | .comparison _ _ (some (.text _)) => False
  | _ => True

end Restriction

end InventorySearch.Filter

namespace InventorySearch.Search
open InventorySearch.Filter Restriction

def FieldKind.Takes (rule : Rule) : FieldKind → Prop
  | .scalar kind => kind = rule.kind
  | .membership .. => rule.kind = .integer

instance (rule : Rule) : (kind : FieldKind) → Decidable (kind.Takes rule)
  | .scalar kind => inferInstanceAs (Decidable (kind = rule.kind))
  | .membership .. => inferInstanceAs (Decidable (rule.kind = .integer))

namespace Entity

/-- Whether a comparison is one of a field with a rule, and asks no membership for an order. -/
def Declares (entity : Entity) : Restriction → Prop
  | .comparison field op _ =>
    (∃ rule, entity.rules.lookup field = some rule) ∧
      ∀ f link owner member, field? entity.schema.fields field = some f →
        f.kind = .membership link owner member → ∀ r, op = .relation r → r.isOrdering = false
  | _ => False

theorem rules_fit (entity : Entity) : ∀ p ∈ entity.rules, Text.cut? '.' p.1 = none ∧
    ∃ f ∈ field? entity.schema.fields p.1, f.kind.Takes p.2 := by
  cases entity <;> decide +kernel

theorem field_of_rule {entity : Entity} {field : String} {rule : Rule}
    (h : entity.rules.lookup field = some rule) : Text.cut? '.' field = none ∧
      ∃ f ∈ field? entity.schema.fields field, f.kind.Takes rule := by
  obtain ⟨before, after, heq, -⟩ := List.lookup_eq_some_iff.mp h
  exact entity.rules_fit (field, rule) (heq ▸ List.mem_append_right _ List.mem_cons_self)

variable {entity : Entity} {lookup : Lookup} {fragment : List Char} {leaf : Restriction}

/-- What a coercer has accepted for a declared field is a value of its column. -/
theorem not_faulty_of_coerced (hleaf : Primitive.IsLeaf (coercer entity.rules lookup) fragment leaf)
    (hdeclared : entity.Declares leaf) (aliases : List Alias) :
    ¬ entity.schema.Faulty aliases leaf := by
  have hcomplete := complete_of_isLeaf hleaf
  cases hleaf with
  | @test field literal r test shape asked =>
    obtain ⟨⟨rule, hrule⟩, -⟩ := hdeclared
    obtain ⟨hcut, ⟨name, column, kind⟩, hf, -⟩ := field_of_rule hrule
    have hfits (kind : ScalarKind) : OperandFits kind test none := fun _ _ _ => nofun
    rw [Schema.faulty_plain_iff hcut]
    intro hfaulty
    have hkind := hfaulty _ hf
    cases kind with
    | scalar kind => exact hkind (hfits kind)
    | membership link owner member =>
      rcases hkind with ⟨r', rfl, -⟩ | hmisfit
      · simp [Complete] at hcomplete
      · exact hmisfit (hfits .integer)
  | @relation field literal r operand shape plain coerced =>
    obtain ⟨⟨rule, hrule⟩, horder⟩ := hdeclared
    obtain ⟨hcut, ⟨name, column, kind⟩, hf, htakes⟩ := field_of_rule hrule
    have hoperand : operand.Fits rule.kind := by
      rw [coercer, hrule] at coerced
      exact (Rule.fits_of_coerce coerced).1
    have hfits : OperandFits rule.kind (.relation r) (some operand) := by
      rintro _ _ - ⟨⟩
      exact hoperand
    rw [Schema.faulty_plain_iff hcut]
    intro hfaulty
    have hkind := hfaulty _ hf
    cases kind with
    | scalar kind =>
      obtain rfl : kind = rule.kind := htakes
      exact hkind hfits
    | membership link owner member =>
      rcases hkind with ⟨r', heq, hr⟩ | hmisfit
      · rw [horder _ link owner member hf rfl r' heq] at hr
        cases hr
      · have hinteger : rule.kind = .integer := htakes
        exact hmisfit (hinteger ▸ hfits)

theorem typed_of_coerced (hleaf : Primitive.IsLeaf (coercer entity.rules lookup) fragment leaf)
    (hdeclared : entity.Declares leaf) : leaf.Typed := by
  cases hleaf with
  | test shape asked => exact trivial
  | @relation field literal r operand shape plain coerced =>
    obtain ⟨⟨rule, hrule⟩, -⟩ := hdeclared
    rw [coercer, hrule] at coerced
    cases operand with
    | text s => exact (Rule.fits_of_coerce coerced).2 s rfl
    | _ => exact trivial

theorem sortable_defaultOrder (entity : Entity) :
    ∀ key ∈ entity.defaultOrder, ¬ entity.schema.Unsortable key.field := by
  have hdecides := Schema.decides_order entity.undotted_fields entity.defaultOrder
  refine hdecides.ok_iff.mp ?_
  cases entity <;> exact ⟨_, rfl⟩

end Entity

/-! ### Literals that the store can read -/

theorem IsLiteralOf.isSome_value?_iff {b : Restriction} {l : Literal} (h : IsLiteralOf b l)
    (htyped : b.Typed) : l.value?.isSome = true ↔ b.Storable := by
  obtain ⟨field, r, o, kind, rfl, hl⟩ := h
  cases o with
  | text s => exact htyped.elim
  | _ =>
    cases kind <;> simp only [literal?, Option.some.injEq, reduceCtorEq] at hl
    subst hl
    simp [Literal.value?, Storable]

theorem Schema.readable_iff {schema : Schema} {spec : Spec} {r : Restriction} {c : Condition}
    (h : schema.condition spec (Grouped.ofRestriction r) = .ok c)
    (hcomplete : ∀ leaf ∈ r.leaves, leaf.Complete) (htyped : ∀ leaf ∈ r.leaves, leaf.Typed) :
    c.readable = true ↔ ∀ leaf ∈ r.leaves, leaf.Storable := by
  have hliterals := literals_condition h
  have hmem (b : Restriction) : b ∈ (Grouped.ofRestriction r).bindings ↔ b ∈ r.bindings :=
    (Grouped.perm_bindings r).1.mem_iff
  rw [Condition.readable, List.all_eq_true]
  constructor
  · intro hall leaf hleaf
    by_cases hbound : leaf ∈ r.bindings
    · obtain ⟨l, hl, hlit⟩ := forall₂_exists_right hliterals ((hmem leaf).mpr hbound)
      exact (hlit.isSome_value?_iff (htyped leaf hleaf)).mp (hall l hl)
    · -- a comparison that asks for no relation has no operand
      have hleafComplete := hcomplete leaf hleaf
      cases leaf with
      | comparison field op operand =>
        cases operand with
        | none => exact trivial
        | some o =>
          obtain ⟨relation, rfl⟩ := hleafComplete.mp rfl
          exact absurd (mem_bindings_iff.mpr ⟨hleaf, _, _, _, rfl⟩) hbound
      | and left right => exact trivial
      | or left right => exact trivial
  · intro hall l hl
    obtain ⟨b, hb, hlit⟩ := forall₂_exists_left hliterals hl
    have hleaf := (mem_bindings_iff.mp ((hmem b).mp hb)).1
    exact (hlit.isSome_value?_iff (htyped b hleaf)).mpr (hall b hleaf)

namespace Spec

def Declared (spec : Spec) (entity : Entity) : Prop :=
  ∀ r ∈ spec.restriction, ∀ leaf ∈ r.leaves, entity.Declares leaf

def Storable (spec : Spec) : Prop :=
  ∀ r ∈ spec.restriction, ∀ leaf ∈ r.leaves, leaf.Storable

theorem readable_plan_iff {spec : Spec} {schema : Schema} {plan : Plan}
    (h : spec.plan schema = .ok plan)
    (hcomplete : ∀ r ∈ spec.restriction, ∀ leaf ∈ r.leaves, leaf.Complete)
    (htyped : ∀ r ∈ spec.restriction, ∀ leaf ∈ r.leaves, leaf.Typed) :
    plan.condition.readable = true ↔ spec.Storable := by
  obtain ⟨hnone, hsome, -⟩ := of_plan h
  rw [Storable]
  cases hr : spec.restriction with
  | none => simp [hnone hr, Condition.readable, Condition.literals]
  | some r =>
    rw [Schema.readable_iff (hsome r hr) (hcomplete r hr) (htyped r hr)]
    simp

end Spec

end InventorySearch.Search
