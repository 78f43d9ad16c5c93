import Mathlib.Data.List.Forall2
import InventorySearch.Proofs.Search.Grouping

set_option autoImplicit false

/-!
# What is gathered from the members

Gathering the members of an "and" loses none of them, doubles none and invents none.
Members without a dot stay as they are, and those with one are in the group of their
alias, of which there is one; conjuncts and terms stand in the order of the text.
-/
namespace InventorySearch.Text

theorem cut?_dot_eq_some_iff {field name child : String} :
    cut? '.' field = some (name, child) ↔ field = name ++ "." ++ child ∧ '.' ∉ name.toList := by
  simp only [cut?, Option.map_eq_some_iff, Prod.exists, cutChars?_eq_some_iff, Prod.mk.injEq]
  constructor
  · rintro ⟨before, after, ⟨hfield, hdot⟩, rfl, rfl⟩
    refine ⟨String.toList_inj.mp ?_, by simpa using hdot⟩
    simp [hfield]
  · rintro ⟨rfl, hdot⟩
    exact ⟨name.toList, child.toList, ⟨by simp, hdot⟩, by simp, by simp⟩

end InventorySearch.Text

namespace InventorySearch.Search
open InventorySearch.Filter

def Term.restriction (t : Term) : Restriction := .comparison t.field t.op t.operand

end InventorySearch.Search

namespace InventorySearch.Filter.Restriction
open Search

variable {m : Restriction} {name : String}

/-- Whether the text before the first dot of a comparison's field is the name of an alias. -/
def KeyedBy (name : String) (m : Restriction) : Prop :=
  ∃ child op operand, m = .comparison (name ++ "." ++ child) op operand ∧ '.' ∉ name.toList

/-- Whether a member is no comparison behind an alias. An "or" is none, whatever it joins. -/
def Undotted (m : Restriction) : Prop := ∀ name, ¬ m.KeyedBy name

theorem keyedBy_iff : m.KeyedBy name ↔ ∃ term, m.dotted? = some (name, term) := by
  simp only [dotted?_eq_some_iff, Text.cut?_dot_eq_some_iff]
  constructor
  · rintro ⟨child, op, operand, rfl, hdot⟩
    exact ⟨⟨name ++ "." ++ child, child, op, operand⟩, rfl, rfl, hdot⟩
  · rintro ⟨term, rfl, hfield, hdot⟩
    exact ⟨term.child, term.op, term.operand, by rw [hfield], hdot⟩

theorem keyedBy_iff_isDottedOn : m.KeyedBy name ↔ m.isDottedOn name = true := by
  rw [keyedBy_iff, isDottedOn]
  cases m.dotted? <;> simp [Prod.ext_iff]

theorem undotted_iff : m.Undotted ↔ m.dotted? = none := by
  simp only [Undotted, keyedBy_iff, Option.eq_none_iff_forall_ne_some, Prod.forall]
  simp

instance : Decidable (m.KeyedBy name) := decidable_of_iff _ keyedBy_iff_isDottedOn.symm

instance : Decidable m.Undotted := decidable_of_iff _ undotted_iff.symm

theorem keyedBy_iff_of_dotted {key : String} {term : Term} (hm : m.dotted? = some (key, term)) :
    m.KeyedBy name ↔ name = key := by
  rw [keyedBy_iff, hm]
  simp [Prod.ext_iff, eq_comm]

theorem restriction_of_dotted {term : Term} (hm : m.dotted? = some (name, term)) :
    term.restriction = m :=
  (dotted?_eq_some_iff.mp hm).1.symm

theorem map_restriction_termsOn (name : String) (ms : List Restriction) :
    (termsOn name ms).map Term.restriction = ms.filter (KeyedBy name) := by
  induction ms with
  | nil => rfl
  | cons m ms ih =>
    by_cases hkey : m.KeyedBy name
    · obtain ⟨term, hm⟩ := keyedBy_iff.mp hkey
      rw [termsOn_cons_of_dotted hm, List.map_cons, ih, restriction_of_dotted hm,
        List.filter_cons_of_pos (by simpa using hkey)]
    · have hnot : m.isDottedOn name = false := by simpa [keyedBy_iff_isDottedOn] using hkey
      rw [termsOn_cons_of_not hnot, ih, List.filter_cons_of_neg (by simpa using hkey)]

/-- A member is on one alias at most, so that those on no alias seen are on one that is new or on
none that has been seen with it. -/
theorem filter_keyedBy_append_perm {seen : List String} (hnew : name ∉ seen)
    (ms : List Restriction) :
    (ms.filter (KeyedBy name) ++
        ms.filter fun m => ∀ other ∈ seen ++ [name], ¬ m.KeyedBy other).Perm
      (ms.filter fun m => ∀ other ∈ seen, ¬ m.KeyedBy other) := by
  have hsplit := List.filter_append_perm (fun m => decide (m.KeyedBy name))
    (ms.filter fun m => ∀ other ∈ seen, ¬ m.KeyedBy other)
  rw [List.filter_filter, List.filter_filter] at hsplit
  refine .trans (.of_eq (congrArg₂ _ ?_ ?_)) hsplit
  · refine List.filter_congr fun m _ => ?_
    by_cases hkey : m.KeyedBy name
    · obtain ⟨term, hm⟩ := keyedBy_iff.mp hkey
      have hkeep : ∀ other ∈ seen, ¬ m.KeyedBy other := fun other hseen hother =>
        hnew ((keyedBy_iff_of_dotted hm).mp hother ▸ hseen)
      simpa [hkey] using hkeep
    · simp [hkey]
  · refine List.filter_congr fun m _ => ?_
    simp [or_imp, forall_and, and_comm]

end InventorySearch.Filter.Restriction

namespace InventorySearch.Search
open InventorySearch.Filter Restriction

/-- One of the conditions that the members of an "and" are gathered to. -/
inductive Conjunct where
  | plain (member : Restriction)
  | aliased (name : String) (terms : List Term)

namespace Conjunct

def grouped : Conjunct → Grouped
  | plain member => Grouped.ofRestriction member
  | aliased name terms => .related name terms

def members : Conjunct → List Restriction
  | plain member => [member]
  | aliased _ terms => terms.map Term.restriction

def plain? : Conjunct → Option Restriction
  | plain member => some member
  | aliased _ _ => none

def alias? : Conjunct → Option String
  | plain _ => none
  | aliased name _ => some name

@[simp] theorem plain?_plain (m : Restriction) : (plain m).plain? = some m := rfl

@[simp] theorem plain?_aliased (name : String) (terms : List Term) :
    (aliased name terms).plain? = none := rfl

@[simp] theorem alias?_plain (m : Restriction) : (plain m).alias? = none := rfl

@[simp] theorem alias?_aliased (name : String) (terms : List Term) :
    (aliased name terms).alias? = some name := rfl

def StartsAt (ms : List Restriction) : Conjunct → Nat → Prop
  | plain member, i => ms[i]? = some member
  | aliased name _, i => (∃ m ∈ ms[i]?, m.KeyedBy name) ∧ ∀ j < i, ∀ m ∈ ms[j]?, ¬ m.KeyedBy name

/-- Whether conjuncts stand in the order of the first members that they have. -/
def InOrder (ms : List Restriction) (cs : List Conjunct) : Prop :=
  ∃ places : List Nat, places.Pairwise (· < ·) ∧ List.Forall₂ (StartsAt ms) cs places

/-- The conjuncts of a list of members, each at the place of its first member, but for the aliases
that have been seen. -/
def gatherAfter (seen : List String) : List Restriction → List Conjunct
  | [] => []
  | m :: ms =>
    match m.dotted? with
    | none => .plain m :: gatherAfter seen ms
    | some (name, term) =>
      if name ∈ seen then gatherAfter seen ms
      else .aliased name (term :: termsOn name ms) :: gatherAfter (seen ++ [name]) ms

variable {seen : List String} {ms : List Restriction}

theorem map_grouped_gatherAfter (seen : List String) (ms : List Restriction) :
    (gatherAfter seen ms).map grouped = Grouped.groupsAfter seen ms := by
  fun_induction gatherAfter seen ms with
  | case1 seen => rfl
  | case2 seen m ms hm ih => simp [Grouped.groupsAfter, hm, grouped, ih]
  | case3 seen m ms name term hm hin ih => simp [Grouped.groupsAfter, hm, hin, ih]
  | case4 seen m ms name term hm hin ih => simp [Grouped.groupsAfter, hm, hin, grouped, ih]

theorem plain?_gatherAfter (seen : List String) (ms : List Restriction) :
    (gatherAfter seen ms).filterMap plain? = ms.filter Undotted := by
  fun_induction gatherAfter seen ms with
  | case1 seen => rfl
  | case2 seen m ms hm ih =>
    rw [List.filterMap_cons_some (plain?_plain m), ih, List.filter_cons_of_pos]
    simpa [undotted_iff] using hm
  | case3 seen m ms name term hm hin ih =>
    rw [ih, List.filter_cons_of_neg]
    simp [undotted_iff, hm]
  | case4 seen m ms name term hm hin ih =>
    rw [List.filterMap_cons_none (plain?_aliased name _), ih, List.filter_cons_of_neg]
    simp [undotted_iff, hm]

theorem mem_alias?_gatherAfter {name : String} :
    name ∈ (gatherAfter seen ms).filterMap alias? ↔ name ∉ seen ∧ ∃ m ∈ ms, m.KeyedBy name := by
  fun_induction gatherAfter seen ms with
  | case1 seen => simp
  | case2 seen m ms hm ih =>
    have hnot : ¬ m.KeyedBy name := undotted_iff.mpr hm name
    rw [List.filterMap_cons_none (alias?_plain m), ih]
    simp [hnot]
  | case3 seen m ms key term hm hin ih =>
    rw [ih]
    refine and_congr_right fun hnew => ?_
    have hne : name ≠ key := fun heq => hnew (heq ▸ hin)
    simp [keyedBy_iff_of_dotted hm, hne]
  | case4 seen m ms key term hm hin ih =>
    rw [List.filterMap_cons_some (alias?_aliased key _), List.mem_cons, ih]
    by_cases heq : name = key
    · simp [keyedBy_iff_of_dotted hm, heq, hin]
    · simp [keyedBy_iff_of_dotted hm, heq]

theorem nodup_alias?_gatherAfter (seen : List String) (ms : List Restriction) :
    ((gatherAfter seen ms).filterMap alias?).Nodup := by
  fun_induction gatherAfter seen ms with
  | case1 seen => exact List.nodup_nil
  | case2 seen m ms hm ih => exact ih
  | case3 seen m ms name term hm hin ih => exact ih
  | case4 seen m ms name term hm hin ih =>
    -- what is gathered further on is on no alias that has been seen, and this one has
    refine List.nodup_cons.mpr ⟨fun hmem => ?_, ih⟩
    exact (mem_alias?_gatherAfter.mp hmem).1 (List.mem_append_right _ (List.mem_singleton_self _))

theorem terms_of_mem_gatherAfter {name : String} {terms : List Term}
    (h : .aliased name terms ∈ gatherAfter seen ms) : name ∉ seen ∧ terms = termsOn name ms := by
  fun_induction gatherAfter seen ms with
  | case1 seen => simp at h
  | case2 seen m ms hm ih =>
    obtain ⟨hnew, rfl⟩ := ih (by simpa using h)
    exact ⟨hnew, (termsOn_cons_of_undotted hm name ms).symm⟩
  | case3 seen m ms key term hm hin ih =>
    obtain ⟨hnew, rfl⟩ := ih h
    have hne : key ≠ name := fun heq => hnew (heq ▸ hin)
    exact ⟨hnew, (termsOn_cons_of_ne hm hne ms).symm⟩
  | case4 seen m ms key term hm hin ih =>
    rcases List.mem_cons.mp h with heq | hmem
    · obtain ⟨rfl, rfl⟩ := Conjunct.aliased.inj heq
      exact ⟨hin, (termsOn_cons_of_dotted hm ms).symm⟩
    · obtain ⟨hnew, rfl⟩ := ih hmem
      have hne : key ≠ name := fun heq => hnew (by simp [heq])
      exact ⟨fun h => hnew (List.mem_append_left _ h), (termsOn_cons_of_ne hm hne ms).symm⟩

theorem perm_members_gatherAfter (seen : List String) (ms : List Restriction) :
    ((gatherAfter seen ms).flatMap members).Perm
      (ms.filter fun m => ∀ name ∈ seen, ¬ m.KeyedBy name) := by
  fun_induction gatherAfter seen ms with
  | case1 seen => rfl
  | case2 seen m ms hm ih =>
    have hkeep : ∀ name ∈ seen, ¬ m.KeyedBy name := fun name _ => undotted_iff.mpr hm name
    rw [List.filter_cons_of_pos (by simpa using hkeep)]
    exact ih.cons m
  | case3 seen m ms name term hm hin ih =>
    have hdrop : ¬ ∀ name ∈ seen, ¬ m.KeyedBy name := fun h =>
      h name hin ((keyedBy_iff_of_dotted hm).mpr rfl)
    rw [List.filter_cons_of_neg (by simpa using hdrop)]
    exact ih
  | case4 seen m ms name term hm hin ih =>
    have hself : m.KeyedBy name := (keyedBy_iff_of_dotted hm).mpr rfl
    have hkeep : ∀ other ∈ seen, ¬ m.KeyedBy other := fun other hseen hother =>
      hin ((keyedBy_iff_of_dotted hm).mp hother ▸ hseen)
    rw [List.filter_cons_of_pos (by simpa using hkeep), List.flatMap_cons, members, List.map_cons,
      restriction_of_dotted hm, map_restriction_termsOn, List.cons_append]
    refine .cons m ?_
    exact (ih.append_left _).trans (filter_keyedBy_append_perm hin ms)

theorem StartsAt.succ {c : Conjunct} {i : Nat} (h : c.StartsAt ms i) {m : Restriction}
    (hm : ∀ name, c.alias? = some name → ¬ m.KeyedBy name) : c.StartsAt (m :: ms) (i + 1) := by
  cases c with
  | plain member => exact h
  | aliased name terms =>
    refine ⟨h.1, fun j hj n hn => ?_⟩
    cases j with
    | zero =>
      obtain rfl : m = n := by simpa using hn
      exact hm name rfl
    | succ j => exact h.2 j (Nat.lt_of_succ_lt_succ hj) n hn

theorem forall₂_startsAt_succ {cs : List Conjunct} {places : List Nat}
    (h : List.Forall₂ (StartsAt ms) cs places) {m : Restriction}
    (hm : ∀ name ∈ cs.filterMap alias?, ¬ m.KeyedBy name) :
    List.Forall₂ (StartsAt (m :: ms)) cs (places.map (· + 1)) := by
  rw [List.forall₂_map_right_iff]
  induction h with
  | nil => exact .nil
  | @cons c i cs places hc _ ih =>
    refine .cons (hc.succ fun name halias => hm name ?_) (ih fun name hname => hm name ?_)
    · exact List.mem_filterMap.mpr ⟨c, List.mem_cons_self, halias⟩
    · obtain ⟨c', hmem, halias⟩ := List.mem_filterMap.mp hname
      exact List.mem_filterMap.mpr ⟨c', List.mem_cons_of_mem _ hmem, halias⟩

theorem InOrder.succ {cs : List Conjunct} (h : InOrder ms cs) {m : Restriction}
    (hm : ∀ name ∈ cs.filterMap alias?, ¬ m.KeyedBy name) : InOrder (m :: ms) cs := by
  obtain ⟨places, hsorted, hplaces⟩ := h
  refine ⟨places.map (· + 1), ?_, forall₂_startsAt_succ hplaces hm⟩
  exact hsorted.map _ fun i j hlt => Nat.succ_lt_succ hlt

theorem InOrder.cons {c : Conjunct} {cs : List Conjunct} (h : InOrder ms cs) {m : Restriction}
    (hc : c.StartsAt (m :: ms) 0) (hm : ∀ name ∈ cs.filterMap alias?, ¬ m.KeyedBy name) :
    InOrder (m :: ms) (c :: cs) := by
  obtain ⟨places, hsorted, hplaces⟩ := h
  refine ⟨0 :: places.map (· + 1), ?_, .cons hc (forall₂_startsAt_succ hplaces hm)⟩
  refine List.pairwise_cons.mpr ⟨fun i hi => ?_, hsorted.map _ fun i j hlt => Nat.succ_lt_succ hlt⟩
  obtain ⟨j, -, rfl⟩ := List.mem_map.mp hi
  exact Nat.succ_pos j

theorem inOrder_gatherAfter (seen : List String) (ms : List Restriction) :
    InOrder ms (gatherAfter seen ms) := by
  fun_induction gatherAfter seen ms with
  | case1 seen => exact ⟨[], .nil, .nil⟩
  | case2 seen m ms hm ih => exact ih.cons rfl fun name _ => undotted_iff.mpr hm name
  | case3 seen m ms key term hm hin ih =>
    refine ih.succ fun name hname hkey => (mem_alias?_gatherAfter.mp hname).1 ?_
    exact (keyedBy_iff_of_dotted hm).mp hkey ▸ hin
  | case4 seen m ms key term hm hin ih =>
    have hself : m.KeyedBy key := (keyedBy_iff_of_dotted hm).mpr rfl
    refine ih.cons ⟨⟨m, rfl, hself⟩, by simp⟩ fun name hname hkey => ?_
    refine (mem_alias?_gatherAfter.mp hname).1 (List.mem_append_right _ ?_)
    exact List.mem_singleton.mpr ((keyedBy_iff_of_dotted hm).mp hkey)

end Conjunct

/-- How conjuncts are made of members: of all of them and nothing else, the undotted ones as they
are and each other one in the one conjunct of its alias. -/
structure Gathers (ms : List Restriction) (cs : List Conjunct) : Prop where
  perm_members : (cs.flatMap Conjunct.members).Perm ms
  plain_eq : cs.filterMap Conjunct.plain? = ms.filter Undotted
  mem_alias_iff : ∀ name, name ∈ cs.filterMap Conjunct.alias? ↔ ∃ m ∈ ms, m.KeyedBy name
  alias_nodup : (cs.filterMap Conjunct.alias?).Nodup
  terms_eq : ∀ name terms, .aliased name terms ∈ cs →
    terms.map Term.restriction = ms.filter (KeyedBy name) ∧
      ∀ t ∈ terms, t.field = name ++ "." ++ t.child
  in_order : Conjunct.InOrder ms cs

theorem gathers_gatherAfter (ms : List Restriction) : Gathers ms (Conjunct.gatherAfter [] ms) where
  perm_members := by simpa using Conjunct.perm_members_gatherAfter [] ms
  plain_eq := Conjunct.plain?_gatherAfter [] ms
  mem_alias_iff name := by
    rw [Conjunct.mem_alias?_gatherAfter]
    exact and_iff_right List.not_mem_nil
  alias_nodup := Conjunct.nodup_alias?_gatherAfter [] ms
  terms_eq name terms hmem := by
    obtain ⟨-, rfl⟩ := Conjunct.terms_of_mem_gatherAfter hmem
    refine ⟨map_restriction_termsOn name ms, fun t ht => ?_⟩
    obtain ⟨m, -, hm⟩ := mem_termsOn.mp ht
    exact (Text.cut?_dot_eq_some_iff.mp (dotted?_eq_some_iff.mp hm).2).1
  in_order := Conjunct.inOrder_gatherAfter [] ms

/-- The members of an "and" are gathered to conjuncts that are made of exactly them. -/
theorem Grouped.collect_gathers (r : Restriction) :
    ∃ cs, collect r [] = cs.map Conjunct.grouped ∧ Gathers r.members cs := by
  refine ⟨Conjunct.gatherAfter [] r.members, ?_, gathers_gatherAfter r.members⟩
  have hfold := @foldl_addMember r.members [] List.nodup_nil
  rw [collect_eq_foldl, hfold, Conjunct.map_grouped_gatherAfter]
  rfl

/-- Terms on one alias meet across the tree, but not those that an "or" joins. -/
example :
    let on (field : String) : Restriction := .comparison field .isNull none
    Grouped.collect
        (.and (.and (on "if.a") (on "b")) (.and (.or (on "if.c") (on "b")) (on "if.d.e"))) [] =
      [.related "if" [⟨"if.a", "a", .isNull, none⟩, ⟨"if.d.e", "d.e", .isNull, none⟩],
        .plain "b" .isNull none,
        .either (.related "if" [⟨"if.c", "c", .isNull, none⟩]) (.plain "b" .isNull none)] := by
  rfl

end InventorySearch.Search
