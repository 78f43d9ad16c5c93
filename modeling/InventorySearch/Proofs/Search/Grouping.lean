import InventorySearch.Search.Plan

set_option autoImplicit false

/-!
# What grouping gathers

Grouping works on the members of an "and" one after the other. Its outcome is
given here at once: each undotted member stays where it is, and the dotted ones
on one alias all move to the first of them.
-/
namespace InventorySearch.Filter.Restriction
open Search

/-- What an "and" joins, nested ones included, in the order of the text. -/
def members : Restriction → List Restriction
  | .and left right => left.members ++ right.members
  | .or left right => [.or left right]
  | .comparison field op operand => [.comparison field op operand]

theorem members_ne_nil (r : Restriction) : r.members ≠ [] := by
  induction r with
  | comparison field op operand => exact List.cons_ne_nil _ _
  | and left right ihLeft _ => exact List.append_ne_nil_of_left_ne_nil ihLeft _
  | or left right => exact List.cons_ne_nil _ _

def dotted? : Restriction → Option (String × Term)
  | .comparison field op operand =>
    (Text.cut? '.' field).map fun (name, child) => (name, ⟨field, child, op, operand⟩)
  | _ => none

theorem dotted?_eq_some_iff {m : Restriction} {name : String} {t : Term} :
    m.dotted? = some (name, t) ↔
      m = .comparison t.field t.op t.operand ∧ Text.cut? '.' t.field = some (name, t.child) := by
  obtain ⟨field, child, op, operand⟩ := t
  cases m with
  | comparison field' op' operand' => simp [dotted?]; grind
  | and left right => simp [dotted?]
  | or left right => simp [dotted?]

def isDottedOn (name : String) (m : Restriction) : Bool := m.dotted?.any fun d => d.1 == name

def termsOn (name : String) (ms : List Restriction) : List Term :=
  ms.filterMap fun m => if m.isDottedOn name then m.dotted?.map Prod.snd else none

def aliasNames (ms : List Restriction) : List String :=
  ms.filterMap fun m => m.dotted?.map Prod.fst

theorem mem_aliasNames {ms : List Restriction} {name : String} :
    name ∈ aliasNames ms ↔ ∃ m ∈ ms, ∃ term, m.dotted? = some (name, term) := by
  simp [aliasNames]

theorem termsOn_cons_of_dotted {m : Restriction} {name : String} {term : Term}
    (h : m.dotted? = some (name, term)) (ms : List Restriction) :
    termsOn name (m :: ms) = term :: termsOn name ms := by
  simp [termsOn, isDottedOn, h]

theorem termsOn_cons_of_not {m : Restriction} {name : String} (h : m.isDottedOn name = false)
    (ms : List Restriction) : termsOn name (m :: ms) = termsOn name ms := by
  simp [termsOn, h]

theorem termsOn_cons_of_undotted {m : Restriction} (h : m.dotted? = none) (name : String)
    (ms : List Restriction) : termsOn name (m :: ms) = termsOn name ms :=
  termsOn_cons_of_not (by simp [isDottedOn, h]) ms

theorem termsOn_cons_of_ne {m : Restriction} {key name : String} {term : Term}
    (h : m.dotted? = some (key, term)) (hne : key ≠ name) (ms : List Restriction) :
    termsOn name (m :: ms) = termsOn name ms :=
  termsOn_cons_of_not (by simp [isDottedOn, h, hne]) ms

theorem mem_termsOn {name : String} {ms : List Restriction} {t : Term} :
    t ∈ termsOn name ms ↔ ∃ m ∈ ms, m.dotted? = some (name, t) := by
  simp only [termsOn, List.mem_filterMap]
  refine exists_congr fun m => and_congr_right fun _ => ?_
  cases hm : m.dotted? with
  | none => simp
  | some dotted => by_cases hname : dotted.1 = name <;> simp [isDottedOn, hm, hname, Prod.ext_iff]

theorem termsOn_ne_nil {ms : List Restriction} {name : String} (h : name ∈ aliasNames ms) :
    termsOn name ms ≠ [] := by
  obtain ⟨m, hm, term, hterm⟩ := mem_aliasNames.mp h
  exact List.ne_nil_of_mem (mem_termsOn.mpr ⟨m, hm, hterm⟩)

end InventorySearch.Filter.Restriction

namespace InventorySearch.Search.Grouped
open InventorySearch.Filter Restriction

/-- The groups of a list of members, each at the place of its first member, but for the aliases
that have been seen. -/
def groupsAfter (seen : List String) : List Restriction → List Grouped
  | [] => []
  | m :: ms =>
    match m.dotted? with
    | none => ofRestriction m :: groupsAfter seen ms
    | some (name, term) =>
      if name ∈ seen then groupsAfter seen ms
      else .related name (term :: termsOn name ms) :: groupsAfter (seen ++ [name]) ms

def groups (ms : List Restriction) : List Grouped := groupsAfter [] ms

def addMember (before : List Grouped) (m : Restriction) : List Grouped :=
  match m.dotted? with
  | none => before ++ [ofRestriction m]
  | some (name, term) => addTerm name term before

theorem collect_eq_foldl (r : Restriction) (before : List Grouped) :
    collect r before = r.members.foldl addMember before := by
  induction r generalizing before with
  | comparison field op operand =>
    cases hcut : Text.cut? '.' field with
    | none => simp [collect, members, addMember, dotted?, hcut, ofRestriction]
    | some cut => simp [collect, members, addMember, dotted?, hcut]
  | and left right ihLeft ihRight =>
    rw [collect, members, List.foldl_append, ihLeft, ihRight]
  | or left right => simp [collect, members, addMember, dotted?, ofRestriction]

def name? : Grouped → Option String
  | .related name _ => some name
  | _ => none

def append (term : Term) : Grouped → Grouped
  | .related name terms => .related name (terms ++ [term])
  | g => g

def extend (ms : List Restriction) : Grouped → Grouped
  | .related name terms => .related name (terms ++ termsOn name ms)
  | g => g

theorem addTerm_cons (name : String) (term : Term) (g : Grouped) (rest : List Grouped) :
    addTerm name term (g :: rest) =
      if g.name? = some name then g.append term :: rest else g :: addTerm name term rest := by
  cases g <;> simp [addTerm, name?, append]

theorem filterMap_name?_cons (g : Grouped) (rest : List Grouped) :
    (g :: rest).filterMap name? = g.name?.toList ++ rest.filterMap name? := by
  cases h : g.name? <;> simp [h]

theorem addTerm_of_new {name : String} {before : List Grouped} (term : Term)
    (h : name ∉ before.filterMap name?) :
    addTerm name term before = before ++ [.related name [term]] := by
  induction before with
  | nil => rfl
  | cons g rest ih =>
    rw [filterMap_name?_cons, List.mem_append, not_or] at h
    have hg : g.name? ≠ some name := fun heq => h.1 (by simp [heq])
    rw [addTerm_cons, if_neg hg, ih h.2, List.cons_append]

theorem filterMap_name?_addTerm {name : String} {before : List Grouped} (term : Term)
    (h : name ∈ before.filterMap name?) :
    (addTerm name term before).filterMap name? = before.filterMap name? := by
  induction before with
  | nil => simp at h
  | cons g rest ih =>
    rw [addTerm_cons]
    by_cases hg : g.name? = some name
    · have hname : (g.append term).name? = g.name? := by cases g <;> rfl
      rw [if_pos hg, filterMap_name?_cons, hname, filterMap_name?_cons]
    · have hrest : name ∈ rest.filterMap name? := by
        rw [filterMap_name?_cons, List.mem_append] at h
        exact h.resolve_left fun hin => hg (Option.mem_toList.mp hin)
      rw [if_neg hg, filterMap_name?_cons, ih hrest, filterMap_name?_cons]

theorem extend_of_name?_eq_none {g : Grouped} (ms : List Restriction) (h : g.name? = none) :
    extend ms g = g := by
  cases g with
  | related name terms => simp [name?] at h
  | plain field op operand => rfl
  | either left right => rfl
  | all gs => rfl

theorem extend_cons_of_not {m : Restriction} (ms : List Restriction) {g : Grouped}
    (h : ∀ name, g.name? = some name → m.isDottedOn name = false) :
    extend (m :: ms) g = extend ms g := by
  cases hg : g.name? with
  | none => rw [extend_of_name?_eq_none _ hg, extend_of_name?_eq_none _ hg]
  | some name =>
    cases g with
    | related other terms => rw [extend, extend, termsOn_cons_of_not (h other rfl)]
    | plain field op operand => rfl
    | either left right => rfl
    | all gs => rfl

theorem extend_cons_of_ne {m : Restriction} {name : String} {term : Term}
    (hm : m.dotted? = some (name, term)) (ms : List Restriction) {g : Grouped}
    (hg : g.name? ≠ some name) : extend (m :: ms) g = extend ms g := by
  refine extend_cons_of_not ms fun other hother => ?_
  have hne : name ≠ other := fun heq => hg (heq ▸ hother)
  simp [isDottedOn, hm, hne]

theorem extend_cons_of_undotted {m : Restriction} (hm : m.dotted? = none) (ms : List Restriction)
    (g : Grouped) : extend (m :: ms) g = extend ms g :=
  extend_cons_of_not ms fun other _ => by simp [isDottedOn, hm]

theorem extend_append {m : Restriction} {name : String} {term : Term}
    (hm : m.dotted? = some (name, term)) (ms : List Restriction) {g : Grouped}
    (hg : g.name? = some name) : extend ms (g.append term) = extend (m :: ms) g := by
  cases g with
  | related other terms =>
    have heq : other = name := Option.some.inj hg
    subst heq
    rw [append, extend, extend, termsOn_cons_of_dotted hm, List.append_assoc, List.singleton_append]
  | plain field op operand => simp [name?] at hg
  | either left right => simp [name?] at hg
  | all gs => simp [name?] at hg

theorem map_extend_of_new {m : Restriction} {name : String} {term : Term}
    (hm : m.dotted? = some (name, term)) (ms : List Restriction) {before : List Grouped}
    (h : name ∉ before.filterMap name?) :
    before.map (extend (m :: ms)) = before.map (extend ms) := by
  refine List.map_congr_left fun g hg => extend_cons_of_ne hm ms fun heq => ?_
  exact h (List.mem_filterMap.mpr ⟨g, hg, heq⟩)

theorem map_extend_addTerm {m : Restriction} {name : String} {term : Term}
    (hm : m.dotted? = some (name, term)) (ms : List Restriction) {before : List Grouped}
    (hnodup : (before.filterMap name?).Nodup) (h : name ∈ before.filterMap name?) :
    (addTerm name term before).map (extend ms) = before.map (extend (m :: ms)) := by
  induction before with
  | nil => simp at h
  | cons g rest ih =>
    rw [filterMap_name?_cons] at h hnodup
    rw [addTerm_cons, List.map_cons]
    by_cases hg : g.name? = some name
    · have hnew : name ∉ rest.filterMap name? := by
        rw [hg] at hnodup
        exact (List.nodup_cons.mp hnodup).1
      rw [if_pos hg, List.map_cons, extend_append hm ms hg, map_extend_of_new hm ms hnew]
    · have hrest : name ∈ rest.filterMap name? :=
        (List.mem_append.mp h).resolve_left fun hin => hg (Option.mem_toList.mp hin)
      rw [if_neg hg, List.map_cons, extend_cons_of_ne hm ms hg,
        ih (List.nodup_append.mp hnodup).2.1 hrest]

/-- No group of an undotted member has a name, as `members` leaves no "and". -/
theorem name?_ofRestriction_of_undotted {m : Restriction} (hm : m.dotted? = none) :
    (ofRestriction m).name? = none := by
  cases m with
  | comparison field op operand =>
    have hcut : Text.cut? '.' field = none := by simpa [dotted?] using hm
    simp [ofRestriction, hcut, name?]
  | and left right => rfl
  | or left right => rfl

theorem extend_nil (g : Grouped) : extend [] g = g := by
  cases g with
  | related name terms => exact congrArg (Grouped.related name) (List.append_nil terms)
  | plain field op operand => rfl
  | either left right => rfl
  | all gs => rfl

theorem foldl_addMember (ms : List Restriction) {before : List Grouped}
    (hnodup : (before.filterMap name?).Nodup) :
    ms.foldl addMember before =
      before.map (extend ms) ++ groupsAfter (before.filterMap name?) ms := by
  induction ms generalizing before with
  | nil =>
    have hid : before.map (extend []) = before := by
      rw [List.map_congr_left fun g _ => extend_nil g, List.map_id']
    rw [List.foldl_nil, hid, groupsAfter, List.append_nil]
  | cons m ms ih =>
    rw [List.foldl_cons]
    cases hm : m.dotted? with
    | none =>
      have hnames : (before ++ [ofRestriction m]).filterMap name? = before.filterMap name? := by
        simp [name?_ofRestriction_of_undotted hm]
      have hsame : before.map (extend (m :: ms)) = before.map (extend ms) :=
        List.map_congr_left fun g _ => extend_cons_of_undotted hm ms g
      have hlast : extend ms (ofRestriction m) = ofRestriction m :=
        extend_of_name?_eq_none ms (name?_ofRestriction_of_undotted hm)
      have hadd : addMember before m = before ++ [ofRestriction m] := by simp [addMember, hm]
      rw [hadd, ih (hnames ▸ hnodup), hnames, hsame, List.map_append, List.map_singleton, hlast]
      simp [groupsAfter, hm]
    | some dotted =>
      obtain ⟨name, term⟩ := dotted
      have hadd : addMember before m = addTerm name term before := by simp [addMember, hm]
      rw [hadd]
      by_cases hin : name ∈ before.filterMap name?
      · have hnames := filterMap_name?_addTerm term hin
        rw [ih (hnames ▸ hnodup), hnames, map_extend_addTerm hm ms hnodup hin]
        simp only [groupsAfter, hm, if_pos hin]
      · have hnames : (before ++ [Grouped.related name [term]]).filterMap name? =
            before.filterMap name? ++ [name] := by
          simp [name?]
        have hnodup' : (before.filterMap name? ++ [name]).Nodup :=
          List.nodup_append.mpr ⟨hnodup, by simp, fun a ha b hb heq =>
            hin (List.mem_singleton.mp hb ▸ heq ▸ ha)⟩
        rw [addTerm_of_new term hin, ih (hnames ▸ hnodup'), hnames, map_extend_of_new hm ms hin]
        simp [groupsAfter, hm, hin, extend]

theorem ofRestriction_and (left right : Restriction) :
    ofRestriction (.and left right) = .all (groups (Restriction.and left right).members) := by
  have hfold := @foldl_addMember (Restriction.and left right).members [] List.nodup_nil
  rw [ofRestriction, collect_eq_foldl, collect_eq_foldl, ← List.foldl_append, ← members, hfold]
  rfl

theorem mem_groupsAfter {seen : List String} {ms : List Restriction} {g : Grouped} :
    g ∈ groupsAfter seen ms ↔
      (∃ m ∈ ms, m.dotted? = none ∧ g = ofRestriction m) ∨
      ∃ name ∈ aliasNames ms, name ∉ seen ∧ g = .related name (termsOn name ms) := by
  induction ms generalizing seen with
  | nil => simp [groupsAfter, aliasNames]
  | cons m ms ih =>
    cases hm : m.dotted? with
    | none =>
      have hnames : aliasNames (m :: ms) = aliasNames ms := by simp [aliasNames, hm]
      have hterms (name : String) : termsOn name (m :: ms) = termsOn name ms :=
        termsOn_cons_of_undotted hm name ms
      simp [groupsAfter, hm, ih, hnames, hterms, or_assoc]
    | some dotted =>
      obtain ⟨name, term⟩ := dotted
      have hnames : aliasNames (m :: ms) = name :: aliasNames ms := by simp [aliasNames, hm]
      have hother {other : String} (hne : other ≠ name) :
          termsOn other (m :: ms) = termsOn other ms :=
        termsOn_cons_of_ne hm (Ne.symm hne) ms
      have hself := termsOn_cons_of_dotted hm ms
      -- only the terms on other aliases stay the same without `m`
      have hrest : (∃ n ∈ m :: ms, n.dotted? = none ∧ g = ofRestriction n) ↔
          ∃ n ∈ ms, n.dotted? = none ∧ g = ofRestriction n := by simp [hm]
      by_cases hin : name ∈ seen
      · simp only [groupsAfter, hm, if_pos hin, ih, hnames, hrest]
        refine or_congr_right ⟨?_, ?_⟩
        · rintro ⟨other, hmem, hnew, rfl⟩
          have hne : other ≠ name := fun heq => hnew (heq ▸ hin)
          exact ⟨other, List.mem_cons_of_mem _ hmem, hnew, by rw [hother hne]⟩
        · rintro ⟨other, hmem, hnew, rfl⟩
          have hne : other ≠ name := fun heq => hnew (heq ▸ hin)
          exact ⟨other, (List.mem_cons.mp hmem).resolve_left hne, hnew, by rw [hother hne]⟩
      · simp only [groupsAfter, hm, if_neg hin, List.mem_cons, ih, hnames, ← hself]
        rw [or_left_comm]
        refine or_congr (by simpa using hrest.symm) ⟨?_, ?_⟩
        · rintro (rfl | ⟨other, hmem, hnew, rfl⟩)
          · exact ⟨name, .inl rfl, hin, rfl⟩
          · have hne : other ≠ name := fun heq => hnew (by simp [heq])
            exact ⟨other, .inr hmem, fun h => hnew (List.mem_append_left _ h), by rw [hother hne]⟩
        · rintro ⟨other, hmem, hnew, rfl⟩
          by_cases hne : other = name
          · exact .inl (by rw [hne])
          · refine .inr ⟨other, hmem.resolve_left hne, ?_, by rw [hother hne]⟩
            simpa using ⟨hnew, hne⟩

theorem mem_groups {ms : List Restriction} {g : Grouped} :
    g ∈ groups ms ↔
      (∃ m ∈ ms, m.dotted? = none ∧ g = ofRestriction m) ∨
      ∃ name ∈ aliasNames ms, g = .related name (termsOn name ms) := by
  simp [groups, mem_groupsAfter]

theorem groups_ne_nil {ms : List Restriction} (h : ms ≠ []) : groups ms ≠ [] := by
  obtain ⟨m, hm⟩ := List.exists_mem_of_ne_nil ms h
  cases hdot : m.dotted? with
  | none => exact List.ne_nil_of_mem (mem_groups.mpr (.inl ⟨m, hm, hdot, rfl⟩))
  | some dotted =>
    have hname : dotted.1 ∈ aliasNames ms := mem_aliasNames.mpr ⟨m, hm, dotted.2, hdot⟩
    exact List.ne_nil_of_mem (mem_groups.mpr (.inr ⟨dotted.1, hname, rfl⟩))

end InventorySearch.Search.Grouped
