import InventorySearch.Proofs.Search.Planning

set_option autoImplicit false

/-!
# The condition of an "and"

A restriction has a condition with some property where all of its groups have one,
if the property is one that "and" keeps. The groups of two restrictions joined by
"and" are those of the two, except that the terms on an alias of both become one.
-/
namespace InventorySearch.Filter.Restriction
open Search

theorem aliasNames_append (ms ns : List Restriction) :
    aliasNames (ms ++ ns) = aliasNames ms ++ aliasNames ns :=
  List.filterMap_append

theorem termsOn_append (name : String) (ms ns : List Restriction) :
    termsOn name (ms ++ ns) = termsOn name ms ++ termsOn name ns :=
  List.filterMap_append

theorem termsOn_eq_nil {name : String} {ms : List Restriction} (h : name ∉ aliasNames ms) :
    termsOn name ms = [] := by
  rw [List.eq_nil_iff_forall_not_mem]
  intro t ht
  obtain ⟨m, hm, hdot⟩ := mem_termsOn.mp ht
  exact h (mem_aliasNames.mpr ⟨m, hm, t, hdot⟩)

end InventorySearch.Filter.Restriction

namespace InventorySearch.Search
open InventorySearch.Filter Restriction Store

theorem Grouped.groups_of_undotted {m : Restriction} (h : m.dotted? = none) :
    groups [m] = [ofRestriction m] := by
  simp [groups, groupsAfter, h]

theorem Grouped.groups_comparison (field : String) (op : Comparator) (operand : Option Operand) :
    groups [.comparison field op operand] = [ofRestriction (.comparison field op operand)] := by
  cases hcut : Text.cut? '.' field with
  | none => exact groups_of_undotted (by simp [dotted?, hcut])
  | some cut => simp [groups, groupsAfter, dotted?, hcut, termsOn, ofRestriction]

namespace Schema
variable (schema : Schema) (spec : Spec)

def Planned (P : Condition → Prop) (g : Grouped) : Prop :=
  ∃ c, schema.condition spec g = .ok c ∧ P c

variable {schema spec} {P : Condition → Prop}

theorem planned_iff {g : Grouped} {c : Condition} (h : schema.condition spec g = .ok c) :
    schema.Planned spec P g ↔ P c := by
  simp [Planned, h]

def Conjunctive (P : Condition → Prop) : Prop := ∀ cs, P (.all cs) ↔ ∀ c ∈ cs, P c

theorem planned_all_iff (hP : Conjunctive P) {gs : List Grouped} :
    schema.Planned spec P (.all gs) ↔ ∀ g ∈ gs, schema.Planned spec P g := by
  constructor
  · rintro ⟨c, hc, hholds⟩ g hg
    rw [condition] at hc
    obtain ⟨cs, hcs, rfl⟩ := Except.exists_of_map_eq_ok hc
    obtain ⟨d, hd, hcondition⟩ := forall₂_exists_right (forall₂_of_conditions hcs) hg
    exact ⟨d, hcondition, (hP cs).mp hholds d hd⟩
  · intro h
    have hparts : ∃ cs, schema.conditions spec gs = .ok cs ∧ ∀ c ∈ cs, P c := by
      induction gs with
      | nil => exact ⟨[], rfl, by simp⟩
      | cons g gs ih =>
        obtain ⟨c, hc, hholds⟩ := h g List.mem_cons_self
        obtain ⟨cs, hcs, hall⟩ := ih fun g hg => h g (List.mem_cons_of_mem _ hg)
        refine ⟨c :: cs, ?_, List.forall_mem_cons.mpr ⟨hholds, hall⟩⟩
        rw [conditions, hc, hcs]
        rfl
    obtain ⟨cs, hcs, hall⟩ := hparts
    refine ⟨.all cs, ?_, (hP cs).mpr hall⟩
    rw [condition, hcs]
    rfl

theorem planned_members_iff (hP : Conjunctive P) (r : Restriction) :
    schema.Planned spec P (.ofRestriction r) ↔
      (∀ m ∈ r.members, m.dotted? = none → schema.Planned spec P (.ofRestriction m)) ∧
      ∀ name ∈ aliasNames r.members,
        schema.Planned spec P (.related name (termsOn name r.members)) := by
  have hgroups : schema.Planned spec P (.ofRestriction r) ↔
      ∀ g ∈ Grouped.groups r.members, schema.Planned spec P g := by
    cases r with
    | comparison field op operand =>
      rw [members, Grouped.groups_comparison, List.forall_mem_singleton]
    | or left right =>
      rw [members, Grouped.groups_of_undotted rfl, List.forall_mem_singleton]
    | and left right => rw [Grouped.ofRestriction_and, planned_all_iff hP]
  rw [hgroups]
  constructor
  · intro h
    exact ⟨fun m hm hdot => h _ (Grouped.mem_groups.mpr (.inl ⟨m, hm, hdot, rfl⟩)),
      fun name hname => h _ (Grouped.mem_groups.mpr (.inr ⟨name, hname, rfl⟩))⟩
  · rintro ⟨hplain, hrelated⟩ g hg
    rcases Grouped.mem_groups.mp hg with ⟨m, hm, hdot, rfl⟩ | ⟨name, hname, rfl⟩
    · exact hplain m hm hdot
    · exact hrelated name hname

/-! ## Terms on one alias -/

theorem related_eq_ok {name : String} {terms : List Term} {link : Alias}
    (hlink : spec.alias? name = some link) {a : Association}
    (ha : schema.association? link.path = some a) {tests : List Test}
    (htests : List.Forall₂ (fun t test => childTest a link.path t = .ok test) terms tests) :
    schema.related spec name terms =
      .ok (.related (link.join == .left && terms.all fun t => t.op == .isNull) a.source
        schema.key tests) := by
  rw [related, hlink]
  simp only [ha]
  rw [Except.mapM_eq_ok_iff.mpr htests]
  rfl

/-- Being a property that two conditions on one alias have if one for the tests of both has it. -/
def Splits (P : Condition → Prop) : Prop :=
  ∀ orLeft orRight source key testsLeft testsRight,
    P (.related (orLeft && orRight) source key (testsLeft ++ testsRight)) →
      P (.related orLeft source key testsLeft) ∧ P (.related orRight source key testsRight)

def Fuses (P : Condition → Prop) : Prop :=
  ∀ orLeft orRight source key testsLeft testsRight,
    P (.related orLeft source key testsLeft) → P (.related orRight source key testsRight) →
      P (.related (orLeft && orRight) source key (testsLeft ++ testsRight))

theorem orNone_append (join : Join) (ts us : List Term) :
    (join == .left && (ts ++ us).all fun t => t.op == .isNull) =
      ((join == .left && ts.all fun t => t.op == .isNull) &&
        (join == .left && us.all fun t => t.op == .isNull)) := by
  rw [List.all_append]
  cases join == Join.left <;> simp

theorem exists_append_of_forall₂ {a : Association} {path : String} {ts us : List Term}
    {tests : List Test}
    (h : List.Forall₂ (fun t test => childTest a path t = .ok test) (ts ++ us) tests) :
    ∃ left right, List.Forall₂ (fun t test => childTest a path t = .ok test) ts left ∧
      List.Forall₂ (fun t test => childTest a path t = .ok test) us right ∧
      tests = left ++ right := by
  have hmapM := Except.mapM_eq_ok_iff.mpr h
  rw [List.mapM_append] at hmapM
  obtain ⟨left, hleft, hmapM⟩ := Except.exists_of_bind_eq_ok hmapM
  obtain ⟨right, hright, hmapM⟩ := Except.exists_of_bind_eq_ok hmapM
  exact ⟨left, right, Except.mapM_eq_ok_iff.mp hleft, Except.mapM_eq_ok_iff.mp hright,
    (Except.ok.inj hmapM).symm⟩

theorem Splits.planned (hP : Splits P) {name : String} {ts us : List Term}
    (h : schema.Planned spec P (.related name (ts ++ us))) :
    schema.Planned spec P (.related name ts) ∧ schema.Planned spec P (.related name us) := by
  obtain ⟨c, hc, hholds⟩ := h
  rw [condition] at hc
  obtain ⟨link, hlink, a, ha, tests, htests, rfl⟩ := exists_of_related hc
  obtain ⟨left, right, hleft, hright, rfl⟩ := exists_append_of_forall₂ htests
  rw [orNone_append] at hholds
  have hboth := hP _ _ _ _ _ _ hholds
  exact ⟨⟨_, related_eq_ok hlink ha hleft, hboth.1⟩, ⟨_, related_eq_ok hlink ha hright, hboth.2⟩⟩

theorem Fuses.planned (hP : Fuses P) {name : String} {ts us : List Term}
    (hts : schema.Planned spec P (.related name ts))
    (hus : schema.Planned spec P (.related name us)) :
    schema.Planned spec P (.related name (ts ++ us)) := by
  obtain ⟨c, hc, hleft⟩ := hts
  obtain ⟨d, hd, hright⟩ := hus
  rw [condition] at hc hd
  obtain ⟨link, hlink, a, ha, testsLeft, htestsLeft, rfl⟩ := exists_of_related hc
  obtain ⟨link', hlink', a', ha', testsRight, htestsRight, rfl⟩ := exists_of_related hd
  obtain rfl := Option.some.inj (hlink.symm.trans hlink')
  obtain rfl := Option.some.inj (ha.symm.trans ha')
  refine ⟨_, related_eq_ok hlink ha (List.rel_append htestsLeft htestsRight), ?_⟩
  rw [orNone_append]
  exact hP _ _ _ _ _ _ hleft hright

/-! ## Restrictions joined by "and" -/

variable {left right : Restriction}

theorem planned_and_iff (hP : Conjunctive P) :
    schema.Planned spec P (.ofRestriction (.and left right)) ↔
      ((∀ m ∈ left.members, m.dotted? = none → schema.Planned spec P (.ofRestriction m)) ∧
        ∀ m ∈ right.members, m.dotted? = none → schema.Planned spec P (.ofRestriction m)) ∧
      ∀ name, name ∈ aliasNames left.members ∨ name ∈ aliasNames right.members →
        schema.Planned spec P
          (.related name (termsOn name left.members ++ termsOn name right.members)) := by
  rw [planned_members_iff hP, members, aliasNames_append, List.forall_mem_append]
  simp only [termsOn_append, List.mem_append]

theorem planned_of_planned_and (hP : Conjunctive P) (hsplits : Splits P)
    (h : schema.Planned spec P (.ofRestriction (.and left right))) :
    schema.Planned spec P (.ofRestriction left) ∧ schema.Planned spec P (.ofRestriction right) := by
  obtain ⟨⟨hleft, hright⟩, hrelated⟩ := (planned_and_iff hP).mp h
  constructor
  · refine (planned_members_iff hP left).mpr ⟨hleft, fun name hname => ?_⟩
    exact (hsplits.planned (hrelated name (.inl hname))).1
  · refine (planned_members_iff hP right).mpr ⟨hright, fun name hname => ?_⟩
    exact (hsplits.planned (hrelated name (.inr hname))).2

/-- Only an alias of both needs the property to pass to the terms of both together. -/
theorem planned_and (hP : Conjunctive P)
    (h : Fuses P ∨ (aliasNames left.members).Disjoint (aliasNames right.members))
    (hleft : schema.Planned spec P (.ofRestriction left))
    (hright : schema.Planned spec P (.ofRestriction right)) :
    schema.Planned spec P (.ofRestriction (.and left right)) := by
  obtain ⟨hplainLeft, hrelatedLeft⟩ := (planned_members_iff hP left).mp hleft
  obtain ⟨hplainRight, hrelatedRight⟩ := (planned_members_iff hP right).mp hright
  refine (planned_and_iff hP).mpr ⟨⟨hplainLeft, hplainRight⟩, fun name hname => ?_⟩
  by_cases hinLeft : name ∈ aliasNames left.members
  · by_cases hinRight : name ∈ aliasNames right.members
    · rcases h with hfuses | hdisjoint
      · exact hfuses.planned (hrelatedLeft name hinLeft) (hrelatedRight name hinRight)
      · exact absurd hinRight (hdisjoint hinLeft)
    · rw [termsOn_eq_nil hinRight, List.append_nil]
      exact hrelatedLeft name hinLeft
  · rw [termsOn_eq_nil hinLeft, List.nil_append]
    exact hrelatedRight name (hname.resolve_left hinLeft)

end Schema
end InventorySearch.Search
