import InventorySearch.Proofs.Filter.Faults
import InventorySearch.Proofs.Search.Planning

set_option autoImplicit false

/-!
# Nested conjunctions

How the members of an "and" are nested says nothing: restrictions that differ in
this alone, at whatever depth, have one plan or are refused with one fault. So do
the queries `a;(b;c)` and `(a;b);c`, whose trees are different.
-/
namespace InventorySearch.Filter.Restriction

/-- Being one restriction up to the way in which "and"s are nested. -/
inductive Regrouped : Restriction → Restriction → Prop
  | refl (r : Restriction) : Regrouped r r
  | symm {r s : Restriction} (h : Regrouped r s) : Regrouped s r
  | trans {r s t : Restriction} (h : Regrouped r s) (h' : Regrouped s t) : Regrouped r t
  | assoc (r s t : Restriction) : Regrouped (.and (.and r s) t) (.and r (.and s t))
  | and {left left' right right' : Restriction} (hleft : Regrouped left left')
      (hright : Regrouped right right') : Regrouped (.and left right) (.and left' right')
  | or {left left' right right' : Restriction} (hleft : Regrouped left left')
      (hright : Regrouped right right') : Regrouped (.or left right) (.or left' right')

/-! ## Members -/

def ofMembers (first : Restriction) : List Restriction → Restriction
  | [] => first
  | next :: rest => .and first (ofMembers next rest)

theorem regrouped_ofMembers_append (first next : Restriction) (ms ns : List Restriction) :
    Regrouped (.and (ofMembers first ms) (ofMembers next ns))
      (ofMembers first (ms ++ next :: ns)) := by
  induction ms generalizing first with
  | nil => exact .refl _
  | cons m ms ih =>
    -- the first member goes to the front, and the others follow it
    apply Regrouped.trans (.assoc first (ofMembers m ms) (ofMembers next ns))
    exact .and (.refl first) (ih m)

theorem exists_ofMembers (r : Restriction) :
    ∃ first rest, r.members = first :: rest ∧ Regrouped r (ofMembers first rest) := by
  induction r with
  | comparison field op operand => exact ⟨_, [], rfl, .refl _⟩
  | and left right ihLeft ihRight =>
    obtain ⟨m, ms, hleft, hm⟩ := ihLeft
    obtain ⟨n, ns, hright, hn⟩ := ihRight
    refine ⟨m, ms ++ n :: ns, by rw [members, hleft, hright, List.cons_append], ?_⟩
    exact .trans (.and hm hn) (regrouped_ofMembers_append m n ms ns)
  | or left right => exact ⟨_, [], rfl, .refl _⟩

theorem regrouped_ofMembers {first first' : Restriction} (hfirst : Regrouped first first')
    {ms ms' : List Restriction} (h : List.Forall₂ Regrouped ms ms') :
    Regrouped (ofMembers first ms) (ofMembers first' ms') := by
  induction h generalizing first first' with
  | nil => exact hfirst
  | cons hm _ ih => exact .and hfirst (ih hm)

theorem forall₂_trans {ms ns os : List Restriction} (h : List.Forall₂ Regrouped ms ns)
    (h' : List.Forall₂ Regrouped ns os) : List.Forall₂ Regrouped ms os := by
  induction h generalizing os with
  | nil => exact h'
  | cons hm _ ih =>
    cases h' with
    | cons hn hrest => exact .cons (.trans hm hn) (ih hrest)

theorem Regrouped.members {r s : Restriction} (h : Regrouped r s) :
    List.Forall₂ Regrouped r.members s.members := by
  induction h with
  | refl r => exact List.forall₂_same.mpr fun m _ => .refl m
  | symm _ ih => exact ih.flip.imp fun _ _ => .symm
  | trans _ _ ih ih' => exact forall₂_trans ih ih'
  | assoc r s t =>
    have hsame : (Restriction.and (.and r s) t).members =
        (Restriction.and r (.and s t)).members := List.append_assoc _ _ _
    rw [hsame]
    exact List.forall₂_same.mpr fun m _ => .refl m
  | and _ _ ihLeft ihRight => exact List.rel_append ihLeft ihRight
  | or hleft hright => exact .cons (.or hleft hright) .nil

/-- Regrouping keeps the sequence of the members and does no more. -/
theorem regrouped_iff_members {r s : Restriction} :
    Regrouped r s ↔ List.Forall₂ Regrouped r.members s.members := by
  refine ⟨Regrouped.members, fun h => ?_⟩
  obtain ⟨m, ms, hr, hm⟩ := exists_ofMembers r
  obtain ⟨n, ns, hs, hn⟩ := exists_ofMembers s
  rw [hr, hs, List.forall₂_cons] at h
  exact .trans hm (.trans (regrouped_ofMembers h.1 h.2) (.symm hn))

end InventorySearch.Filter.Restriction

namespace InventorySearch.Search
open InventorySearch.Filter Restriction

/-! ## Groups -/

/-- Grouping goes through the members one after the other, whatever their nesting. -/
theorem Grouped.ofRestriction_regrouped {r s : Restriction} (h : Regrouped r s) :
    ofRestriction r = ofRestriction s ∧ ∀ before, collect r before = collect s before := by
  induction h with
  | refl r => exact ⟨rfl, fun _ => rfl⟩
  | symm _ ih => exact ⟨ih.1.symm, fun before => (ih.2 before).symm⟩
  | trans _ _ ih ih' => exact ⟨ih.1.trans ih'.1, fun before => (ih.2 before).trans (ih'.2 before)⟩
  | assoc r s t => exact ⟨rfl, fun _ => rfl⟩
  | and _ _ ihLeft ihRight =>
    rw [ofRestriction, ofRestriction]
    simp only [collect, ihLeft.2, ihRight.2, implies_true, and_self]
  | or _ _ ihLeft ihRight =>
    rw [ofRestriction, ofRestriction]
    simp only [collect, ihLeft.1, ihRight.1, implies_true, and_self]

end InventorySearch.Search

namespace InventorySearch.Filter

/-! ## Queries of three units -/

namespace Factor
variable (a b c : Factor)

def rightNested : String :=
  String.ofList (a.chars ++ ';' :: '(' :: b.chars ++ ';' :: c.chars ++ [')'])

def leftNested : String :=
  String.ofList ('(' :: a.chars ++ ';' :: b.chars ++ ')' :: ';' :: c.chars)

theorem exists_nestings : ∃ p q : Phrase, p.chars = (rightNested a b c).toList ∧
    q.chars = (leftNested a b c).toList ∧ p.fragments = q.fragments ∧ ∀ leaf,
      p.tree leaf = .and (a.tree leaf) (.and (b.tree leaf) (c.tree leaf)) ∧
      q.tree leaf = .and (.and (a.tree leaf) (b.tree leaf)) (c.tree leaf) := by
  refine ⟨.join a .and (.last (.group (.join b .and (.last c)))),
    .join (.group (.join a .and (.last b))) .and (.last c), ?_, ?_, ?_, fun leaf => ⟨rfl, rfl⟩⟩
  · simp [rightNested, Phrase.chars, Factor.chars, Pivot.mark]
  · simp [leftNested, Phrase.chars, Factor.chars, Pivot.mark]
  · simp [Phrase.fragments, Factor.fragments]

theorem parse_nestings (coerce : Coercer) :
    (∀ e, parse coerce (rightNested a b c) = .error e ↔
      parse coerce (leftNested a b c) = .error e) ∧
    ∀ r, parse coerce (rightNested a b c) = .ok r → ∃ s, parse coerce (leftNested a b c) = .ok s ∧
      r ≠ s ∧ Restriction.Regrouped r s := by
  obtain ⟨p, q, hp, hq, hfragments, htrees⟩ := exists_nestings a b c
  have hruns : plainRuns (rightNested a b c).toList = plainRuns (leftNested a b c).toList := by
    rw [← hp, ← hq, p.plainRuns_chars, q.plainRuns_chars, hfragments]
  constructor
  · intro e
    rw [parse_eq_error_iff hp, parse_eq_error_iff hq, hruns]
  · intro r hr
    obtain ⟨hleaf, rfl⟩ := tree_of_parse hp hr
    have haccepted : ∀ f ∈ q.fragments, Primitive.Accepted coerce f.chars := fun f hf =>
      Primitive.accepted_iff.mpr ⟨_, hleaf f (hfragments ▸ hf)⟩
    refine ⟨_, parse_of_accepted hq haccepted, ?_, ?_⟩
    · rw [(htrees _).1, (htrees _).2]
      intro heq
      have hsize := congrArg sizeOf (Restriction.and.inj heq).1
      rw [Restriction.and.sizeOf_spec] at hsize
      omega
    · rw [(htrees _).1, (htrees _).2]
      exact .symm (.assoc _ _ _)

end Factor
end InventorySearch.Filter

namespace InventorySearch.Search
open InventorySearch.Filter Restriction

theorem Spec.plan_eq_of_regrouped {spec spec' : Spec}
    (h : Option.Rel Regrouped spec.restriction spec'.restriction)
    (horder : spec.order = spec'.order) (haliases : spec.aliases = spec'.aliases)
    (schema : Schema) : spec.plan schema = spec'.plan schema := by
  unfold Spec.plan
  rw [horder]
  generalize spec.restriction = r, spec'.restriction = s at h
  cases h with
  | none => rfl
  | some h => simp only [(Grouped.ofRestriction_regrouped h).1, Schema.condition_congr haliases]

/-- Regrouping keeps the whole outcome of planning: the condition with its text and its parameters,
and the order, or the fault. -/
theorem Spec.plan_regrouped (schema : Schema) :
    (∀ spec spec' : Spec, Option.Rel Regrouped spec.restriction spec'.restriction →
      spec.order = spec'.order → spec.aliases = spec'.aliases →
        spec.plan schema = spec'.plan schema) ∧
    ∀ (coerce : Coercer) (a b c : Factor),
      (∀ e, parse coerce (a.rightNested b c) = .error e ↔
        parse coerce (a.leftNested b c) = .error e) ∧
      ∀ r, parse coerce (a.rightNested b c) = .ok r →
        ∃ s, parse coerce (a.leftNested b c) = .ok s ∧ r ≠ s ∧ ∀ spec : Spec,
          { spec with restriction := some r }.plan schema =
            { spec with restriction := some s }.plan schema := by
  refine ⟨fun spec spec' h horder haliases => plan_eq_of_regrouped h horder haliases schema, ?_⟩
  intro coerce a b c
  obtain ⟨herror, hok⟩ := a.parse_nestings b c coerce
  refine ⟨herror, fun r hr => ?_⟩
  obtain ⟨s, hs, hne, hregrouped⟩ := hok r hr
  refine ⟨s, hs, hne, fun spec => plan_eq_of_regrouped ?_ ?_ ?_ schema⟩
  · exact .some hregrouped
  · rfl
  · rfl

/-! ## Nodes with an interface, asked for in two nestings -/

def addressed : Restriction :=
  .comparison "ipInterface.ipAddress" (.relation .eq) (some (.text "10.0.0.1"))

def primary : Restriction :=
  .comparison "ipInterface.snmpPrimary" (.relation .eq) (some (.text "P"))

def notCore : Restriction := .comparison "label" (.relation .ne) (some (.text "core"))

def orNotCore (r : Restriction) : Spec :=
  ⟨some (.or notCore r), [⟨"label", .asc⟩], 10, 0, Entity.node.aliases⟩

theorem plan_nestedInterfaces : ∃ plan,
    (orNotCore (.and addressed (.and notCore primary))).plan Entity.node.schema = .ok plan ∧
    (orNotCore (.and (.and addressed notCore) primary)).plan Entity.node.schema = .ok plan := by
  have hmembers : Regrouped (.and addressed (.and notCore primary))
      (.and (.and addressed notCore) primary) :=
    regrouped_iff_members.mpr (List.forall₂_same.mpr fun m _ => .refl m)
  have hplan := (Spec.plan_regrouped Entity.node.schema).1 (orNotCore _) (orNotCore _)
    (.some (.or (.refl notCore) hmembers)) rfl rfl
  have hfirst : ∃ plan, (orNotCore (.and addressed (.and notCore primary))).plan
      Entity.node.schema = .ok plan := ⟨_, rfl⟩
  obtain ⟨plan, hfirst⟩ := hfirst
  exact ⟨plan, hfirst, hplan.symm.trans hfirst⟩

end InventorySearch.Search
