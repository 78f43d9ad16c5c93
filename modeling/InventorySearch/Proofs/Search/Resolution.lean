import InventorySearch.Proofs.Filter.Derivability
import InventorySearch.Proofs.Search.Slots

set_option autoImplicit false

/-!
# What keeps a search from being planned

A comparison is at fault if its field is unknown or its operand is no value of the
column behind it, and a sort key if no column can be sorted by. A plan is refused
exactly where one of these faults is, and always as a failure of the execution. The
faults are told here from the names and operands alone; how conditions are put
together plays no part in them.
-/
namespace InventorySearch.Filter.Operand
open Calendar Search

/-- Whether an operand is a value of the kind. A text is one of each kind that it can be read as. -/
def Fits : ScalarKind → Operand → Prop
  | .text, .text _ => True
  | .integer, .integer _ => True
  | .integer, .ordinal _ => True
  | .integer, .reference _ => True
  | .integer, .text s => ∃ n, Text.Numeral.int64? s = some n
  | .timestamp, .moment _ => True
  | .timestamp, .text s => ∃ t, Timestamp.read? s.toList = some t
  | _, _ => False

theorem fits_iff {kind : ScalarKind} {o : Operand} :
    o.Fits kind ↔ ∃ l, literal? kind o = some l := by
  cases kind <;> cases o <;> simp [Fits, literal?]

end InventorySearch.Filter.Operand

namespace InventorySearch.Filter.Restriction

theorem leaves_eq_flatMap_members (r : Restriction) : r.leaves = r.members.flatMap leaves := by
  induction r with
  | comparison field op operand => rfl
  | and left right ihLeft ihRight => rw [leaves, members, List.flatMap_append, ihLeft, ihRight]
  | or left right => rw [members, List.flatMap_singleton]

end InventorySearch.Filter.Restriction

namespace InventorySearch.Search
open InventorySearch.Filter Restriction

namespace Schema

/-- Whether a comparison cannot be planned: a name in it is unknown, or it asks for what its field
does not support. -/
inductive Faulty (schema : Schema) (aliases : List Alias) : Restriction → Prop
  | unknownField {field : String} {op : Comparator} {operand : Option Operand}
      (plain : Text.cut? '.' field = none) (unknown : field? schema.fields field = none) :
      Faulty schema aliases (.comparison field op operand)
  | unknownAlias {field name child : String} {op : Comparator} {operand : Option Operand}
      (dotted : Text.cut? '.' field = some (name, child))
      (unknown : alias? aliases name = none) :
      Faulty schema aliases (.comparison field op operand)
  | unknownAssociation {field name child : String} {op : Comparator} {operand : Option Operand}
      {link : Alias} (dotted : Text.cut? '.' field = some (name, child))
      (named : alias? aliases name = some link)
      (unknown : schema.association? link.path = none) :
      Faulty schema aliases (.comparison field op operand)
  | unknownChild {field name child : String} {op : Comparator} {operand : Option Operand}
      {link : Alias} {association : Association}
      (dotted : Text.cut? '.' field = some (name, child))
      (named : alias? aliases name = some link)
      (linked : schema.association? link.path = some association)
      (unknown : field? association.fields child = none) :
      Faulty schema aliases (.comparison field op operand)
  | orderedMembership {field : String} {r : Relation} {operand : Option Operand}
      {f : Field FieldKind} {link : Store.Table} {owner member : String}
      (plain : Text.cut? '.' field = none) (found : field? schema.fields field = some f)
      (kind : f.kind = .membership link owner member) (ordering : r.isOrdering = true) :
      Faulty schema aliases (.comparison field (.relation r) operand)
  | misfit {field : String} {r : Relation} {o : Operand} {f : Field FieldKind} {kind : ScalarKind}
      (plain : Text.cut? '.' field = none) (found : field? schema.fields field = some f)
      (scalar : f.kind = .scalar kind) (misfit : ¬ o.Fits kind) :
      Faulty schema aliases (.comparison field (.relation r) (some o))
  | memberMisfit {field : String} {r : Relation} {o : Operand} {f : Field FieldKind}
      {link : Store.Table} {owner member : String}
      (plain : Text.cut? '.' field = none) (found : field? schema.fields field = some f)
      (kind : f.kind = .membership link owner member) (misfit : ¬ o.Fits .integer) :
      Faulty schema aliases (.comparison field (.relation r) (some o))
  | childMisfit {field name child : String} {r : Relation} {o : Operand} {link : Alias}
      {association : Association} {f : Field ScalarKind}
      (dotted : Text.cut? '.' field = some (name, child))
      (named : alias? aliases name = some link)
      (linked : schema.association? link.path = some association)
      (found : field? association.fields child = some f) (misfit : ¬ o.Fits f.kind) :
      Faulty schema aliases (.comparison field (.relation r) (some o))

inductive Unsortable (schema : Schema) : String → Prop
  | unknown {name : String} (h : field? schema.fields name = none) : Unsortable schema name
  | dotted {name : String} (h : '.' ∈ name.toList) : Unsortable schema name
  | membership {name : String} {f : Field FieldKind} {link : Store.Table} {owner member : String}
      (found : field? schema.fields name = some f) (kind : f.kind = .membership link owner member) :
      Unsortable schema name

end Schema

/-- Ending in either of two ways: with a result where all is `good`, or as a failure of the
execution where it is not. -/
inductive Decides {α : Type} (good : Prop) : Except PlanFault α → Prop
  | planned {a : α} (h : good) : Decides good (.ok a)
  | refused (fault : PlanFault) {message : String} (failure : fault.toError = .execution message)
      (h : ¬ good) : Decides good (.error fault)

namespace Decides
variable {α β : Type} {good : Prop} {x : Except PlanFault α}

theorem ok_iff (h : Decides good x) : (∃ a, x = .ok a) ↔ good := by
  cases h with
  | planned h => simp [h]
  | refused fault failure h => simp [h]

theorem error_iff (h : Decides good x) : (∃ fault, x = .error fault) ↔ ¬ good := by
  cases h with
  | planned h => simp [h]
  | refused fault failure h => simp [h]

theorem execution_of_error (h : Decides good x) {fault : PlanFault} (hx : x = .error fault) :
    ∃ message, fault.toError = .execution message := by
  cases h with
  | planned h => cases hx
  | refused other failure h => exact Except.error.inj hx ▸ ⟨_, failure⟩

theorem congr {better : Prop} (h : Decides good x) (hiff : good ↔ better) : Decides better x :=
  propext hiff ▸ h

theorem map (h : Decides good x) (f : α → β) : Decides good (x.map f) := by
  cases h with
  | planned h => exact .planned h
  | refused fault failure h => exact .refused fault failure h

theorem bind {also : Prop} {f : α → Except PlanFault β} (h : Decides good x)
    (hf : ∀ a, Decides also (f a)) : Decides (good ∧ also) (x >>= f) := by
  cases h with
  | @planned a h => exact (hf a).congr (by simp [h])
  | refused fault failure h => exact .refused fault failure (by simp [h])

theorem mapM {P : α → Prop} {f : α → Except PlanFault β} {as : List α}
    (h : ∀ a ∈ as, Decides (P a) (f a)) : Decides (∀ a ∈ as, P a) (as.mapM f) := by
  induction as with
  | nil => exact .planned (by simp)
  | cons a as ih =>
    rw [List.mapM_cons]
    have hrest := ih fun b hb => h b (List.mem_cons_of_mem _ hb)
    have hall := (h a List.mem_cons_self).bind fun b => hrest.map fun bs => b :: bs
    exact hall.congr List.forall_mem_cons.symm

end Decides

/-! ## Single comparisons -/

theorem decides_bindLiteral (field : String) (kind : ScalarKind) (o : Operand) :
    Decides (o.Fits kind) (bindLiteral field kind (some o)) := by
  rw [bindLiteral]
  cases hl : literal? kind o with
  | none => exact .refused _ rfl (by simp [Operand.fits_iff, hl])
  | some l => exact .planned (Operand.fits_iff.mpr ⟨l, hl⟩)

def OperandFits (kind : ScalarKind) (op : Comparator) (operand : Option Operand) : Prop :=
  ∀ r o, op = .relation r → operand = some o → o.Fits kind

theorem decides_scalarTest {field : String} {op : Comparator} {operand : Option Operand}
    (h : (comparison field op operand).Complete) (name column : String) (kind : ScalarKind) :
    Decides (OperandFits kind op operand) (scalarTest name column kind op operand) := by
  cases op with
  | isNull => exact .planned (by simp [OperandFits])
  | isNotNull => exact .planned (by simp [OperandFits])
  | relation r =>
    obtain ⟨o, rfl⟩ := Option.isSome_iff_exists.mp (h.mpr ⟨r, rfl⟩)
    exact ((decides_bindLiteral name kind o).map _).congr (by simp [OperandFits])

namespace Schema
variable {schema : Schema} {aliases : List Alias}

theorem faulty_plain_iff {field : String} {op : Comparator} {operand : Option Operand}
    (hcut : Text.cut? '.' field = none) :
    schema.Faulty aliases (.comparison field op operand) ↔
      ∀ f, field? schema.fields field = some f →
        match f.kind with
        | .scalar kind => ¬ OperandFits kind op operand
        | .membership .. => (∃ r, op = .relation r ∧ r.isOrdering = true) ∨
            ¬ OperandFits .integer op operand := by
  constructor
  · intro h f hf
    cases h with
    | unknownField plain unknown => simp [unknown] at hf
    | unknownAlias dotted => simp [hcut] at dotted
    | unknownAssociation dotted => simp [hcut] at dotted
    | unknownChild dotted => simp [hcut] at dotted
    | childMisfit dotted => simp [hcut] at dotted
    | orderedMembership plain found kind ordering =>
      obtain rfl := Option.some.inj (found.symm.trans hf)
      simp only [kind]
      exact .inl ⟨_, rfl, ordering⟩
    | misfit plain found scalar misfit =>
      obtain rfl := Option.some.inj (found.symm.trans hf)
      simp only [scalar]
      exact fun hfits => misfit (hfits _ _ rfl rfl)
    | memberMisfit plain found kind misfit =>
      obtain rfl := Option.some.inj (found.symm.trans hf)
      simp only [kind]
      exact .inr fun hfits => misfit (hfits _ _ rfl rfl)
  · intro h
    cases hf : field? schema.fields field with
    | none => exact .unknownField hcut hf
    | some f =>
      have hkind := h f hf
      split at hkind
      · next kind hscalar =>
        simp only [OperandFits, not_forall] at hkind
        obtain ⟨r, o, rfl, rfl, hmisfit⟩ := hkind
        exact .misfit hcut hf hscalar hmisfit
      · next link owner member hmember =>
        rcases hkind with ⟨r, rfl, hr⟩ | hkind
        · exact .orderedMembership hcut hf hmember hr
        · simp only [OperandFits, not_forall] at hkind
          obtain ⟨r, o, rfl, rfl, hmisfit⟩ := hkind
          exact .memberMisfit hcut hf hmember hmisfit

theorem faulty_dotted_iff {field name child : String} {op : Comparator} {operand : Option Operand}
    (hcut : Text.cut? '.' field = some (name, child)) :
    schema.Faulty aliases (.comparison field op operand) ↔
      ∀ link, alias? aliases name = some link → ∀ a, schema.association? link.path = some a →
        ∀ f, field? a.fields child = some f → ¬ OperandFits f.kind op operand := by
  constructor
  · intro h link hlink a ha f hf
    cases h with
    | unknownField plain => simp [hcut] at plain
    | orderedMembership plain => simp [hcut] at plain
    | misfit plain => simp [hcut] at plain
    | memberMisfit plain => simp [hcut] at plain
    | unknownAlias dotted unknown =>
      obtain ⟨rfl, rfl⟩ := Prod.mk.inj (Option.some.inj (hcut.symm.trans dotted))
      simp [unknown] at hlink
    | unknownAssociation dotted named unknown =>
      obtain ⟨rfl, rfl⟩ := Prod.mk.inj (Option.some.inj (hcut.symm.trans dotted))
      obtain rfl := Option.some.inj (named.symm.trans hlink)
      simp [unknown] at ha
    | unknownChild dotted named linked unknown =>
      obtain ⟨rfl, rfl⟩ := Prod.mk.inj (Option.some.inj (hcut.symm.trans dotted))
      obtain rfl := Option.some.inj (named.symm.trans hlink)
      obtain rfl := Option.some.inj (linked.symm.trans ha)
      simp [unknown] at hf
    | childMisfit dotted named linked found misfit =>
      obtain ⟨rfl, rfl⟩ := Prod.mk.inj (Option.some.inj (hcut.symm.trans dotted))
      obtain rfl := Option.some.inj (named.symm.trans hlink)
      obtain rfl := Option.some.inj (linked.symm.trans ha)
      obtain rfl := Option.some.inj (found.symm.trans hf)
      exact fun hfits => misfit (hfits _ _ rfl rfl)
  · intro h
    cases hlink : alias? aliases name with
    | none => exact .unknownAlias hcut hlink
    | some link =>
      cases ha : schema.association? link.path with
      | none => exact .unknownAssociation hcut hlink ha
      | some a =>
        cases hf : field? a.fields child with
        | none => exact .unknownChild hcut hlink ha hf
        | some f =>
          have hmisfit := h link hlink a ha f hf
          simp only [OperandFits, not_forall] at hmisfit
          obtain ⟨r, o, rfl, rfl, hmisfit⟩ := hmisfit
          exact .childMisfit hcut hlink ha hf hmisfit

theorem decides_membership {field : String} {op : Comparator} {operand : Option Operand}
    (h : (comparison field op operand).Complete) (link : Store.Table) (owner member : String) :
    Decides ((∀ r, op = .relation r → r.isOrdering = false) ∧ OperandFits .integer op operand)
      (schema.membership field link owner member op operand) := by
  cases op with
  | isNull => exact .planned (by simp [OperandFits])
  | isNotNull => exact .planned (by simp [OperandFits])
  | relation r =>
    obtain ⟨o, rfl⟩ := Option.isSome_iff_exists.mp (h.mpr ⟨r, rfl⟩)
    rw [membership]
    by_cases hr : r.isOrdering = true
    · rw [if_pos hr]
      exact .refused _ rfl (by simp [hr])
    · rw [if_neg hr]
      exact ((decides_bindLiteral field .integer o).map _).congr (by simp [OperandFits, hr])

theorem decides_plain {field : String} {op : Comparator} {operand : Option Operand}
    (h : (comparison field op operand).Complete) (hcut : Text.cut? '.' field = none) :
    Decides (¬ schema.Faulty aliases (.comparison field op operand))
      (schema.plain field op operand) := by
  rw [faulty_plain_iff hcut, plain]
  cases hf : field? schema.fields field with
  | none => exact .refused _ rfl (by simp)
  | some f =>
    obtain ⟨name, column, kind⟩ := f
    cases kind with
    | scalar kind => exact ((decides_scalarTest h field column kind).map _).congr (by simp)
    | membership link owner member =>
      exact (decides_membership h link owner member).congr (by simp)

theorem decides_childTest {a : Association} {t : Term}
    (h : t.comparison.Complete) (path : String) :
    Decides (∃ f, field? a.fields t.child = some f ∧ OperandFits f.kind t.op t.operand)
      (childTest a path t) := by
  rw [childTest]
  cases hf : field? a.fields t.child with
  | none => exact .refused _ rfl (by simp)
  | some f => exact (decides_scalarTest h t.field f.column f.kind).congr (by simp)

def IsTermOf (name : String) (t : Term) : Prop :=
  Text.cut? '.' t.field = some (name, t.child) ∧ t.comparison.Complete

theorem decides_related {spec : Spec} {name : String} {terms : List Term} (hne : terms ≠ [])
    (h : ∀ t ∈ terms, IsTermOf name t) :
    Decides (∀ t ∈ terms, ¬ schema.Faulty spec.aliases t.comparison)
      (schema.related spec name terms) := by
  obtain ⟨first, hfirst⟩ := List.exists_mem_of_ne_nil terms hne
  have hiff : (∀ t ∈ terms, ¬ schema.Faulty spec.aliases t.comparison) ↔
      ∀ t ∈ terms, ∃ link, alias? spec.aliases name = some link ∧
        ∃ a, schema.association? link.path = some a ∧
          ∃ f, field? a.fields t.child = some f ∧ OperandFits f.kind t.op t.operand := by
    refine forall₂_congr fun t ht => ?_
    rw [Term.comparison, faulty_dotted_iff (h t ht).1]
    simp
  rw [hiff, related]
  have halias : spec.alias? name = alias? spec.aliases name := rfl
  rw [halias]
  cases hlink : alias? spec.aliases name with
  | none =>
    refine .refused (.unknownAlias _ name) rfl fun hall => ?_
    simpa using hall first hfirst
  | some link =>
    cases ha : schema.association? link.path with
    | none =>
      simp only [ha]
      refine .refused (.unresolvedAssociation link.path schema.table) rfl fun hall => ?_
      simpa [ha] using hall first hfirst
    | some a =>
      simp only [ha]
      have htests := Decides.mapM fun t ht => decides_childTest (a := a) (h t ht).2 link.path
      exact (htests.map _).congr (by simp [ha])

/-! ## Whole plans -/

theorem conditions_eq_mapM (schema : Schema) (spec : Spec) (gs : List Grouped) :
    schema.conditions spec gs = gs.mapM (schema.condition spec) := by
  induction gs with
  | nil => rfl
  | cons g gs ih => rw [conditions, List.mapM_cons, ih]

/-- The induction is on the size of the restriction, since the groups of an "and" are those of its
members. -/
theorem decides_condition (spec : Spec) {r : Restriction} (h : ∀ leaf ∈ r.leaves, leaf.Complete) :
    Decides (∀ leaf ∈ r.leaves, ¬ schema.Faulty spec.aliases leaf)
      (schema.condition spec (Grouped.ofRestriction r)) := by
  induction hsize : sizeOf r using Nat.strongRecOn generalizing r with | ind size ih => ?_
  subst hsize
  cases r with
  | comparison field op operand =>
    rw [leaves, List.forall_mem_singleton] at h ⊢
    rw [Grouped.ofRestriction]
    cases hcut : Text.cut? '.' field with
    | none => exact decides_plain h hcut
    | some cut =>
      have hterm : IsTermOf cut.1 ⟨field, cut.2, op, operand⟩ := ⟨hcut, h⟩
      have hrelated : Decides _ (schema.related spec cut.1 _) :=
        decides_related (List.cons_ne_nil _ []) (List.forall_mem_singleton.mpr hterm)
      exact hrelated.congr List.forall_mem_singleton
  | or left right =>
    rw [leaves, List.forall_mem_append] at h ⊢
    have hsizeOf := Restriction.or.sizeOf_spec left right
    rw [Grouped.ofRestriction, condition]
    exact (ih _ (by omega) h.1 rfl).bind fun cl =>
      (ih _ (by omega) h.2 rfl).map (Condition.either cl)
  | and left right =>
    rw [leaves_eq_flatMap_members] at h ⊢
    rw [Grouped.ofRestriction_and, condition, conditions_eq_mapM]
    generalize hms : (and left right).members = ms at h ⊢
    have hplain : ∀ m ∈ ms, Decides (∀ leaf ∈ m.leaves, ¬ schema.Faulty spec.aliases leaf)
        (schema.condition spec (.ofRestriction m)) := by
      intro m hm
      refine ih _ (sizeOf_lt_of_mem_members (hms ▸ hm)) (fun leaf hleaf => ?_) rfl
      exact h leaf (List.mem_flatMap.mpr ⟨m, hm, hleaf⟩)
    have hterm {name : String} {t : Term} (ht : t ∈ termsOn name ms) :
        t.comparison ∈ ms ∧ IsTermOf name t := by
      obtain ⟨m, hm, hdot⟩ := mem_termsOn.mp ht
      obtain ⟨rfl, hcut⟩ := dotted?_eq_some_iff.mp hdot
      exact ⟨hm, hcut, h _ (List.mem_flatMap.mpr ⟨_, hm, List.mem_singleton_self _⟩)⟩
    have hrelated : ∀ name ∈ aliasNames ms, Decides
        (∀ t ∈ termsOn name ms, ¬ schema.Faulty spec.aliases t.comparison)
        (schema.condition spec (.related name (termsOn name ms))) := fun name hname =>
      decides_related (termsOn_ne_nil hname) fun t ht => (hterm ht).2
    have hgroups : ∀ g ∈ Grouped.groups ms,
        Decides (∃ c, schema.condition spec g = .ok c) (schema.condition spec g) := by
      intro g hg
      rcases Grouped.mem_groups.mp hg with ⟨m, hm, -, rfl⟩ | ⟨name, hname, rfl⟩
      · exact (hplain m hm).congr (hplain m hm).ok_iff.symm
      · exact (hrelated name hname).congr (hrelated name hname).ok_iff.symm
    refine ((Decides.mapM hgroups).map _).congr ⟨fun hall leaf hleaf => ?_, fun hall g hg => ?_⟩
    · obtain ⟨m, hm, hin⟩ := List.mem_flatMap.mp hleaf
      cases hdot : m.dotted? with
      | none =>
        have hg := Grouped.mem_groups.mpr (.inl ⟨m, hm, hdot, rfl⟩)
        exact (hplain m hm).ok_iff.mp (hall _ hg) leaf hin
      | some dotted =>
        obtain ⟨name, t⟩ := dotted
        have hname : name ∈ aliasNames ms := mem_aliasNames.mpr ⟨m, hm, t, hdot⟩
        have hg := Grouped.mem_groups.mpr (.inr ⟨name, hname, rfl⟩)
        obtain ⟨rfl, -⟩ := dotted?_eq_some_iff.mp hdot
        obtain rfl := List.mem_singleton.mp hin
        exact (hrelated name hname).ok_iff.mp (hall _ hg) t (mem_termsOn.mpr ⟨_, hm, hdot⟩)
    · rcases Grouped.mem_groups.mp hg with ⟨m, hm, -, rfl⟩ | ⟨name, hname, rfl⟩
      · refine (hplain m hm).ok_iff.mpr fun leaf hleaf => ?_
        exact hall leaf (List.mem_flatMap.mpr ⟨m, hm, hleaf⟩)
      · refine (hrelated name hname).ok_iff.mpr fun t ht => ?_
        exact hall _ (List.mem_flatMap.mpr ⟨_, (hterm ht).1, List.mem_singleton_self _⟩)

theorem decides_sortColumn (hplain : ∀ f ∈ schema.fields, '.' ∉ f.name.toList) (key : SortKey) :
    Decides (¬ schema.Unsortable key.field) (schema.sortColumn key) := by
  rw [sortColumn]
  cases hf : field? schema.fields key.field with
  | none => exact .refused _ rfl (not_not_intro (.unknown hf))
  | some f =>
    obtain ⟨name, column, kind⟩ := f
    cases kind with
    | membership link owner member => exact .refused _ rfl (not_not_intro (.membership hf rfl))
    | scalar kind =>
      refine .planned fun hbad => ?_
      cases hbad with
      | unknown hnone => simp [hnone] at hf
      | dotted hdot =>
        have hname : name = key.field := name_of_field? hf
        exact hplain _ (mem_of_field? hf) (hname ▸ hdot)
      | membership found hkind =>
        obtain rfl := Option.some.inj (found.symm.trans hf)
        cases hkind

theorem decides_order (hplain : ∀ f ∈ schema.fields, '.' ∉ f.name.toList) (keys : List SortKey) :
    Decides (∀ key ∈ keys, ¬ schema.Unsortable key.field) (schema.order keys) := by
  rw [order]
  have hkeys := Decides.mapM fun key (_ : key ∈ keys) => decides_sortColumn hplain key
  have hlast (columns : List (String × Direction)) : Decides True
      (if columns.any fun c => c.1 == schema.key then pure columns
        else pure (columns ++ [(schema.key, .asc)])) := by
    split
    · exact .planned trivial
    · exact .planned trivial
  exact (hkeys.bind hlast).congr (iff_of_eq (and_true _))

end Schema

theorem Entity.undotted_fields (entity : Entity) :
    ∀ f ∈ entity.schema.fields, '.' ∉ f.name.toList := by
  cases entity <;> decide +kernel

theorem Spec.decides_plan {spec : Spec}
    (h : ∀ r ∈ spec.restriction, ∀ leaf ∈ r.leaves, leaf.Complete) (entity : Entity) :
    Decides ((∀ r ∈ spec.restriction, ∀ leaf ∈ r.leaves,
        ¬ entity.schema.Faulty spec.aliases leaf) ∧
      ∀ key ∈ spec.order, ¬ entity.schema.Unsortable key.field) (spec.plan entity.schema) := by
  have horder := Schema.decides_order entity.undotted_fields spec.order
  rw [Spec.plan]
  cases hr : spec.restriction with
  | none => exact (horder.map (Plan.mk .always)).congr (by simp)
  | some r =>
    have hcondition : Decides _ (entity.schema.condition spec _) :=
      Schema.decides_condition spec (h r hr)
    have hboth := hcondition.bind fun c => horder.map (Plan.mk c)
    exact hboth.congr (by simp)

end InventorySearch.Search
