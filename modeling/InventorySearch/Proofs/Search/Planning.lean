import InventorySearch.Proofs.Outcome
import InventorySearch.Proofs.Search.Fitting

set_option autoImplicit false

/-!
# From requests to plans

How a plan was made, what it sorts by, and what a specification holds of the request
that it was assembled from.
-/
namespace InventorySearch.Search
open InventorySearch.Filter Restriction Store

/-!
## How a plan is made

A plan that is made says how each of its conditions was: one for each undotted
comparison, one for the terms on each alias of an "and", and none besides. What
is to be shown of all plans is shown along these lines.
-/

theorem exists_of_bindLiteral {field : String} {kind : ScalarKind} {operand : Option Operand}
    {l : Literal} (h : bindLiteral field kind operand = .ok l) :
    ∃ o, operand = some o ∧ literal? kind o = some l := by
  cases operand with
  | none => simp [bindLiteral] at h
  | some o =>
    cases hl : literal? kind o with
    | none => simp [bindLiteral, hl] at h
    | some l' =>
      simp only [bindLiteral, hl, Except.ok.injEq] at h
      exact ⟨o, rfl, h ▸ hl⟩

theorem column_of_scalarTest {field column : String} {kind : ScalarKind} {op : Comparator}
    {operand : Option Operand} {t : Test} (h : scalarTest field column kind op operand = .ok t) :
    t.column = column := by
  cases op with
  | isNull => cases h; rfl
  | isNotNull => cases h; rfl
  | relation r =>
    obtain ⟨l, -, rfl⟩ := Except.exists_of_map_eq_ok h
    rfl

theorem mem_of_field? {Kind : Type} {fields : List (Field Kind)} {name : String} {f : Field Kind}
    (h : field? fields name = some f) : f ∈ fields :=
  List.mem_of_find?_eq_some h

theorem name_of_field? {Kind : Type} {fields : List (Field Kind)} {name : String} {f : Field Kind}
    (h : field? fields name = some f) : f.name = name := by
  simpa using List.find?_some h

namespace Schema

theorem mem_of_association? {schema : Schema} {path : String} {a : Association}
    (h : schema.association? path = some a) : a ∈ schema.associations :=
  List.mem_of_find?_eq_some h

theorem exists_of_plain {schema : Schema} {field : String} {op : Comparator}
    {operand : Option Operand} {c : Condition} (h : schema.plain field op operand = .ok c) :
    ∃ f, field? schema.fields field = some f ∧
      match f.kind with
      | .scalar kind => ∃ t, scalarTest field f.column kind op operand = .ok t ∧ c = .test t
      | .membership link owner member =>
        schema.membership field link owner member op operand = .ok c := by
  unfold plain at h
  cases hf : field? schema.fields field with
  | none => simp [hf] at h
  | some f =>
    refine ⟨f, rfl, ?_⟩
    obtain ⟨name, column, kind⟩ := f
    cases kind with
    | scalar kind =>
      simp only [hf] at h
      obtain ⟨t, ht, rfl⟩ := Except.exists_of_map_eq_ok h
      exact ⟨t, ht, rfl⟩
    | membership link owner member => simpa only [hf] using h

theorem exists_of_related {schema : Schema} {spec : Spec} {name : String} {terms : List Term}
    {c : Condition} (h : schema.related spec name terms = .ok c) :
    ∃ link, spec.alias? name = some link ∧ ∃ a, schema.association? link.path = some a ∧
      ∃ tests, List.Forall₂ (fun t test => childTest a link.path t = .ok test) terms tests ∧
        c = .related (link.join == .left && terms.all fun t => t.op == .isNull) a.source
          schema.key tests := by
  unfold related at h
  cases hlink : spec.alias? name with
  | none => simp only [hlink] at h; cases h
  | some link =>
    cases ha : schema.association? link.path with
    | none => simp only [hlink, ha] at h; cases h
    | some a =>
      simp only [hlink, ha] at h
      obtain ⟨tests, htests, h⟩ := Except.exists_of_bind_eq_ok h
      exact ⟨link, rfl, a, ha, tests, Except.mapM_eq_ok_iff.mp htests, (Except.ok.inj h).symm⟩

theorem forall₂_of_conditions {schema : Schema} {spec : Spec} {gs : List Grouped}
    {cs : List Condition} (h : schema.conditions spec gs = .ok cs) :
    List.Forall₂ (fun g c => schema.condition spec g = .ok c) gs cs := by
  induction gs generalizing cs with
  | nil =>
    rw [conditions, Except.ok.injEq] at h
    exact h ▸ .nil
  | cons g gs ih =>
    rw [conditions] at h
    obtain ⟨c, hc, h⟩ := Except.exists_of_bind_eq_ok h
    obtain ⟨rest, hrest, h⟩ := Except.exists_of_bind_eq_ok h
    cases h
    exact .cons hc (ih hrest)

/-- Being the condition of a group of an "and": that of an undotted member, of which `motive` is
known, or that of all terms on an alias. -/
def IsPart (schema : Schema) (spec : Spec) (motive : Restriction → Condition → Prop)
    (ms : List Restriction) (g : Grouped) (c : Condition) : Prop :=
  (∀ m ∈ ms, m.dotted? = none → g = .ofRestriction m → motive m c) ∧
  ∀ name ∈ aliasNames ms, g = .related name (termsOn name ms) →
    schema.related spec name (termsOn name ms) = .ok c

/-- Shows of all conditions what is shown of those on single comparisons, of those on the terms of
an alias, and of what joins them. -/
theorem condition_induct {schema : Schema} {spec : Spec} {motive : Restriction → Condition → Prop}
    (plain : ∀ field op operand c, (comparison field op operand).dotted? = none →
      schema.plain field op operand = .ok c → motive (.comparison field op operand) c)
    (related : ∀ field op operand name term c,
      (comparison field op operand).dotted? = some (name, term) →
      schema.related spec name [term] = .ok c → motive (.comparison field op operand) c)
    (either : ∀ left right cl cr, motive left cl → motive right cr →
      motive (.or left right) (.either cl cr))
    (all : ∀ left right cs,
      List.Forall₂ (schema.IsPart spec motive (and left right).members)
        (Grouped.groups (and left right).members) cs →
      motive (.and left right) (.all cs))
    {r : Restriction} {c : Condition}
    (h : schema.condition spec (Grouped.ofRestriction r) = .ok c) : motive r c := by
  -- the members of an "and" are smaller, though they are not its subtrees
  induction hsize : sizeOf r using Nat.strongRecOn generalizing r c with | ind size ih => ?_
  subst hsize
  cases r with
  | comparison field op operand =>
    rw [Grouped.ofRestriction] at h
    cases hcut : Text.cut? '.' field with
    | none =>
      simp only [hcut, condition] at h
      exact plain field op operand c (by simp [dotted?, hcut]) h
    | some cut =>
      simp only [hcut, condition] at h
      exact related field op operand cut.1 _ c (by simp [dotted?, hcut]) h
  | or left right =>
    rw [Grouped.ofRestriction, condition] at h
    obtain ⟨cl, hl, h⟩ := Except.exists_of_bind_eq_ok h
    obtain ⟨cr, hr, h⟩ := Except.exists_of_bind_eq_ok h
    cases h
    have hsizeOf := Restriction.or.sizeOf_spec left right
    exact either left right cl cr (ih _ (by omega) hl rfl) (ih _ (by omega) hr rfl)
  | and left right =>
    rw [Grouped.ofRestriction_and, condition] at h
    obtain ⟨cs, hcs, rfl⟩ := Except.exists_of_map_eq_ok h
    refine all left right cs ((forall₂_of_conditions hcs).imp fun g c hc => ⟨?_, ?_⟩)
    · rintro m hm - rfl
      exact ih _ (sizeOf_lt_of_mem_members hm) hc rfl
    · rintro name - rfl
      rwa [condition] at hc

/-! ### Planned conditions fit -/

theorem fits_of_membership {schema : Schema} {field : String} {link : Table}
    {owner member : String} {op : Comparator} {operand : Option Operand} {c : Condition}
    (hkey : schema.table.HasNumber schema.key) (howner : link.HasNumber owner)
    (hmember : link.HasNumber member)
    (h : schema.membership field link owner member op operand = .ok c) : c.Fits schema.table := by
  cases op with
  | isNull => cases h; exact .membership hkey howner (by simp)
  | isNotNull => cases h; exact .membership hkey howner (by simp)
  | relation r =>
    by_cases hr : r.isOrdering = true
    · simp [membership, hr] at h
    · rw [membership, if_neg hr] at h
      obtain ⟨l, -, rfl⟩ := Except.exists_of_map_eq_ok h
      exact .membership hkey howner (by simpa using hmember)

theorem fits_of_plain {schema : Schema} (hfits : schema.Fits) {field : String} {op : Comparator}
    {operand : Option Operand} {c : Condition} (h : schema.plain field op operand = .ok c) :
    c.Fits schema.table := by
  obtain ⟨⟨name, column, kind⟩, hf, hc⟩ := exists_of_plain h
  have hfield := hfits.fields _ (mem_of_field? hf)
  cases kind with
  | scalar kind =>
    obtain ⟨t, ht, rfl⟩ := hc
    exact .test (column_of_scalarTest ht ▸ hfield)
  | membership link owner member =>
    exact fits_of_membership hfits.key hfield.1 hfield.2 hc

theorem exists_of_childTest {a : Association} {path : String} {t : Term} {test : Test}
    (h : childTest a path t = .ok test) :
    ∃ f, field? a.fields t.child = some f ∧
      scalarTest t.field f.column f.kind t.op t.operand = .ok test := by
  unfold childTest at h
  cases hf : field? a.fields t.child with
  | none => simp [hf] at h
  | some f => exact ⟨f, rfl, by simpa only [hf] using h⟩

theorem fits_of_related {schema : Schema} (hfits : schema.Fits) {spec : Spec} {name : String}
    {terms : List Term} (hne : terms ≠ []) {c : Condition}
    (h : schema.related spec name terms = .ok c) : c.Fits schema.table := by
  obtain ⟨link, -, a, ha, tests, htests, rfl⟩ := exists_of_related h
  have hmem := mem_of_association? ha
  have hne' : tests ≠ [] := by
    rintro rfl
    exact hne (List.forall₂_nil_right_iff.mp htests)
  refine .related hfits.key (hfits.sources a hmem) hne' fun test hin => ?_
  obtain ⟨t, -, ht⟩ := forall₂_exists_left htests hin
  obtain ⟨f, hf, hs⟩ := exists_of_childTest ht
  exact column_of_scalarTest hs ▸ hfits.children a hmem f (mem_of_field? hf)

theorem fits_of_condition {schema : Schema} (hfits : schema.Fits) {spec : Spec} {r : Restriction}
    {c : Condition} (h : schema.condition spec (Grouped.ofRestriction r) = .ok c) :
    c.Fits schema.table := by
  refine @condition_induct schema spec (fun _ c => c.Fits schema.table) ?_ ?_ ?_ ?_ r c h
  · exact fun _ _ _ c _ h => fits_of_plain hfits h
  · exact fun _ _ _ _ _ c _ h => fits_of_related hfits (List.cons_ne_nil _ _) h
  · exact fun _ _ _ _ hl hr => .either hl hr
  · intro left right cs hcs
    have hne : cs ≠ [] := by
      rintro rfl
      exact Grouped.groups_ne_nil (members_ne_nil _) (List.forall₂_nil_right_iff.mp hcs)
    refine .all hne fun c hc => ?_
    obtain ⟨g, hg, hplain, hrelated⟩ := forall₂_exists_left hcs hc
    rcases Grouped.mem_groups.mp hg with ⟨m, hm, hdot, heq⟩ | ⟨name, hname, heq⟩
    · exact hplain m hm hdot heq
    · exact fits_of_related hfits (termsOn_ne_nil hname) (hrelated name hname heq)

end Schema

theorem Spec.of_plan {spec : Spec} {schema : Schema} {plan : Plan}
    (h : spec.plan schema = .ok plan) :
    (spec.restriction = none → plan.condition = .always) ∧
    (∀ r, spec.restriction = some r →
      schema.condition spec (Grouped.ofRestriction r) = .ok plan.condition) ∧
    schema.order spec.order = .ok plan.order := by
  unfold Spec.plan at h
  cases hr : spec.restriction with
  | none =>
    simp only [hr, pure_bind] at h
    obtain ⟨order, horder, h⟩ := Except.exists_of_bind_eq_ok h
    cases h
    exact ⟨fun _ => rfl, by simp, horder⟩
  | some r =>
    simp only [hr] at h
    obtain ⟨c, hc, h⟩ := Except.exists_of_bind_eq_ok h
    obtain ⟨order, horder, h⟩ := Except.exists_of_bind_eq_ok h
    cases h
    exact ⟨by simp, fun _ heq => Option.some.inj heq ▸ hc, horder⟩

theorem Spec.plan_eq_ok {spec : Spec} {schema : Schema} {r : Restriction}
    (hr : spec.restriction = some r) {plan : Plan}
    (hcondition : schema.condition spec (Grouped.ofRestriction r) = .ok plan.condition)
    (horder : schema.order spec.order = .ok plan.order) : spec.plan schema = .ok plan := by
  rw [Spec.plan, hr]
  simp only [hcondition, horder]
  rfl

theorem Spec.fits_of_plan {spec : Spec} {schema : Schema} (hfits : schema.Fits) {plan : Plan}
    (h : spec.plan schema = .ok plan) : plan.condition.Fits schema.table := by
  obtain ⟨hnone, hsome, -⟩ := of_plan h
  cases hr : spec.restriction with
  | none => exact hnone hr ▸ .always
  | some r => exact Schema.fits_of_condition hfits (hsome r hr)

/-! ### What a plan depends on -/

namespace Schema
variable {schema : Schema} {spec spec' : Spec}

theorem related_congr (h : spec.aliases = spec'.aliases) (name : String) (terms : List Term) :
    schema.related spec name terms = schema.related spec' name terms := by
  have halias : spec.alias? name = spec'.alias? name := by rw [Spec.alias?, h, Spec.alias?]
  rw [related, related, halias]

mutual

theorem condition_congr (h : spec.aliases = spec'.aliases) :
    (g : Grouped) → schema.condition spec g = schema.condition spec' g
  | .plain .. => rfl
  | .related name terms => by rw [condition, condition, related_congr h]
  | .either left right => by
    rw [condition, condition, condition_congr h left, condition_congr h right]
  | .all members => by rw [condition, condition, conditions_congr h members]

theorem conditions_congr (h : spec.aliases = spec'.aliases) :
    (gs : List Grouped) → schema.conditions spec gs = schema.conditions spec' gs
  | [] => rfl
  | g :: gs => by rw [conditions, conditions, condition_congr h g, conditions_congr h gs]

end

end Schema

theorem Spec.plan_congr {spec spec' : Spec} (hrestriction : spec.restriction = spec'.restriction)
    (horder : spec.order = spec'.order) (haliases : spec.aliases = spec'.aliases)
    (schema : Schema) : spec.plan schema = spec'.plan schema := by
  unfold Spec.plan
  rw [hrestriction, horder]
  cases spec'.restriction with
  | none => rfl
  | some r => simp only [Schema.condition_congr haliases]

/-!
## Sort columns

The columns that a plan sorts by are those of the keys that are asked for, and
the key column is always among them.
-/

def Entity.sortKeys (entity : Entity) (request : Request) : List SortKey :=
  if request.orderBy = "" then entity.defaultOrder else [⟨request.orderBy, request.direction⟩]

/-- Being the columns that the keys sort by, followed by the key column unless it is among them. -/
def Schema.SortsBy (schema : Schema) (keys : List SortKey)
    (columns : List (String × Direction)) : Prop :=
  ∃ named, List.Forall₂ (fun (key : SortKey) (c : String × Direction) =>
      ∃ f ∈ field? schema.fields key.field, (∃ kind, f.kind = .scalar kind) ∧
        c = (f.column, key.direction)) keys named ∧
    columns = if schema.key ∈ named.map Prod.fst then named else named ++ [(schema.key, .asc)]

namespace Schema

theorem exists_of_sortColumn {schema : Schema} {key : SortKey} {c : String × Direction}
    (h : schema.sortColumn key = .ok c) :
    ∃ f ∈ field? schema.fields key.field, (∃ kind, f.kind = .scalar kind) ∧
      c = (f.column, key.direction) := by
  unfold sortColumn at h
  split at h
  · next name column kind hf => exact ⟨_, hf, ⟨kind, rfl⟩, (Except.ok.inj h).symm⟩
  · cases h

theorem sortsBy_of_order {schema : Schema} {keys : List SortKey}
    {columns : List (String × Direction)} (h : schema.order keys = .ok columns) :
    schema.SortsBy keys columns := by
  obtain ⟨named, hnamed, h⟩ := Except.exists_of_bind_eq_ok h
  refine ⟨named, (Except.mapM_eq_ok_iff.mp hnamed).imp fun _ _ => exists_of_sortColumn, ?_⟩
  have hany : (named.any fun c => c.1 == schema.key) = true ↔ schema.key ∈ named.map Prod.fst := by
    simp only [List.any_eq_true, beq_iff_eq, List.mem_map]
  by_cases hkey : schema.key ∈ named.map Prod.fst
  · rw [if_pos (hany.mpr hkey)] at h
    rw [if_pos hkey]
    exact (Except.ok.inj h).symm
  · rw [if_neg (mt hany.mp hkey)] at h
    rw [if_neg hkey]
    exact (Except.ok.inj h).symm

theorem SortsBy.key_mem {schema : Schema} {keys : List SortKey}
    {columns : List (String × Direction)} (h : schema.SortsBy keys columns) :
    ∃ c ∈ columns, c.1 = schema.key := by
  obtain ⟨named, -, rfl⟩ := h
  split
  · next hkey => simpa using hkey
  · exact ⟨_, List.mem_append_right _ List.mem_cons_self, rfl⟩

theorem SortsBy.hasColumn {schema : Schema} (hfits : schema.Fits) {keys : List SortKey}
    {columns : List (String × Direction)} (h : schema.SortsBy keys columns) :
    ∀ c ∈ columns, HasColumn schema.table c.1 := by
  obtain ⟨named, hnamed, rfl⟩ := h
  have hall : ∀ c ∈ named, HasColumn schema.table c.1 := by
    intro c hc
    obtain ⟨key, -, f, hf, ⟨kind, hkind⟩, rfl⟩ := forall₂_exists_left hnamed hc
    have hfield := hfits.fields f (mem_of_field? hf)
    rwa [FieldFits, hkind] at hfield
  intro c hc
  split at hc
  · exact hall c hc
  · rcases List.mem_append.mp hc with hin | hin
    · exact hall c hin
    · exact List.mem_singleton.mp hin ▸ .of_number hfits.key

end Schema

/-!
## Assembled requests

What a specification holds that a request was assembled into, and where there is
none: the query alone can be at fault.
-/

theorem assemble_eq (entity : Entity) (coerce : Coercer) (request : Request) :
    assemble entity coerce request =
      if request.query = "" then
        .ok ⟨none, entity.sortKeys request, request.limit, request.offset, entity.aliases⟩
      else (parse coerce request.query).map fun r =>
        ⟨some r, entity.sortKeys request, request.limit, request.offset, entity.aliases⟩ := by
  have horder : (if request.orderBy.isEmpty then entity.defaultOrder
      else [⟨request.orderBy, request.direction⟩]) = entity.sortKeys request := by
    simp only [Entity.sortKeys, String.isEmpty_iff]
  unfold assemble
  rw [horder]
  by_cases hquery : request.query = ""
  · rw [if_pos hquery, if_pos (String.isEmpty_iff.mpr hquery)]
    rfl
  · rw [if_neg hquery, if_neg (mt String.isEmpty_iff.mp hquery)]
    cases parse coerce request.query <;> rfl

theorem exists_of_assemble {entity : Entity} {coerce : Coercer} {request : Request} {spec : Spec}
    (h : assemble entity coerce request = .ok spec) :
    spec.order = entity.sortKeys request ∧ spec.aliases = entity.aliases ∧
      (request.query = "" ∧ spec.restriction = none ∨
        request.query ≠ "" ∧
          ∃ r, parse coerce request.query = .ok r ∧ spec.restriction = some r) := by
  rw [assemble_eq] at h
  by_cases hquery : request.query = ""
  · rw [if_pos hquery] at h
    obtain rfl := Except.ok.inj h
    exact ⟨rfl, rfl, .inl ⟨hquery, rfl⟩⟩
  · rw [if_neg hquery] at h
    obtain ⟨r, hr, rfl⟩ := Except.exists_of_map_eq_ok h
    exact ⟨rfl, rfl, .inr ⟨hquery, r, hr, rfl⟩⟩

end InventorySearch.Search
