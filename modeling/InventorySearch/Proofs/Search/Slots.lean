import InventorySearch.Proofs.Filter.Grammar
import InventorySearch.Proofs.Search.Planning

set_option autoImplicit false

/-!
# Comparisons and their literals

One question mark for each comparison with an operand, and one literal for each
question mark.
-/
namespace InventorySearch.Filter.Restriction

/-!
## Texts with question marks

A text with one question mark in the part of each comparison that has an operand,
and none between these parts. The comparisons are those of the tree; as the
terms on an alias are gathered, they stand in another order.
-/

def bindings : Restriction → List Restriction
  | .comparison field (.relation r) operand => [.comparison field (.relation r) operand]
  | .comparison _ _ _ => []
  | .and left right => left.bindings ++ right.bindings
  | .or left right => left.bindings ++ right.bindings

end InventorySearch.Filter.Restriction

namespace InventorySearch.Search
open InventorySearch.Filter

/-! ### Comparisons in the order of the text -/

namespace Term

def comparison (t : Term) : Restriction := .comparison t.field t.op t.operand

end Term

namespace Grouped

mutual

def bindings : Grouped → List Restriction
  | .plain field op operand => (Restriction.comparison field op operand).bindings
  | .related _ terms => terms.flatMap fun t => t.comparison.bindings
  | .either left right => left.bindings ++ right.bindings
  | .all members => bindingsOf members

def bindingsOf : List Grouped → List Restriction
  | [] => []
  | g :: gs => g.bindings ++ bindingsOf gs

end

theorem bindingsOf_eq_flatMap (gs : List Grouped) : bindingsOf gs = gs.flatMap bindings := by
  induction gs with
  | nil => rfl
  | cons g gs ih => rw [bindingsOf, ih, List.flatMap_cons]

theorem bindingsOf_append (gs hs : List Grouped) :
    bindingsOf (gs ++ hs) = bindingsOf gs ++ bindingsOf hs := by
  simp [bindingsOf_eq_flatMap]

theorem bindingsOf_singleton (g : Grouped) : bindingsOf [g] = g.bindings := by
  simp [bindingsOf]

theorem perm_bindingsOf_addTerm (name : String) (term : Term) (gs : List Grouped) :
    (bindingsOf (addTerm name term gs)).Perm (bindingsOf gs ++ term.comparison.bindings) := by
  induction gs with
  | nil => simp [addTerm, bindingsOf, bindings]
  | cons g rest ih =>
    rw [addTerm_cons]
    by_cases hg : g.name? = some name
    · -- the term overtakes all groups behind the one that it joins
      rw [if_pos hg, bindingsOf, bindingsOf, List.append_assoc]
      have happend : (g.append term).bindings = g.bindings ++ term.comparison.bindings := by
        cases g with
        | related other terms => simp [append, bindings]
        | plain field op operand => simp [name?] at hg
        | either left right => simp [name?] at hg
        | all members => simp [name?] at hg
      rw [happend, List.append_assoc]
      exact List.perm_append_comm.append_left _
    · rw [if_neg hg, bindingsOf, bindingsOf, List.append_assoc]
      exact ih.append_left _

/-- Grouping moves comparisons, and does nothing else to them. -/
theorem perm_bindings (r : Restriction) :
    (ofRestriction r).bindings.Perm r.bindings ∧
      ∀ gs, (bindingsOf (collect r gs)).Perm (bindingsOf gs ++ r.bindings) := by
  -- both at once, as what is collected from an "or" is grouped anew on either side
  induction r with
  | comparison field op operand =>
    cases hcut : Text.cut? '.' field with
    | none =>
      simp only [ofRestriction, collect, hcut]
      exact ⟨.refl _, fun gs => by rw [bindingsOf_append, bindingsOf_singleton, bindings]⟩
    | some cut =>
      simp only [ofRestriction, collect, hcut]
      exact ⟨by simp [bindings, Term.comparison], fun gs => perm_bindingsOf_addTerm _ _ gs⟩
  | and left right ihLeft ihRight =>
    rw [ofRestriction, bindings, Restriction.bindings]
    simp only [collect]
    have hcollect (gs : List Grouped) : (bindingsOf (collect right (collect left gs))).Perm
        (bindingsOf gs ++ (left.bindings ++ right.bindings)) := by
      rw [← List.append_assoc]
      exact (ihRight.2 _).trans ((ihLeft.2 gs).append_right _)
    exact ⟨hcollect [], hcollect⟩
  | or left right ihLeft ihRight =>
    rw [ofRestriction, bindings, Restriction.bindings]
    simp only [collect]
    have hboth := ihLeft.1.append ihRight.1
    refine ⟨hboth, fun gs => ?_⟩
    rw [bindingsOf_append, bindingsOf_singleton, bindings]
    exact hboth.append_left _

end Grouped

/-! ### Texts with question marks -/

/-- A comparison with its part of the text and what the question mark there stands for. -/
structure Slot where
  comparison : Restriction
  text : String
  parameter : String

/-- Being a text in which the slots stand one after another, with no question mark between them. -/
inductive Spread : List Slot → List Char → Prop
  | done {cs : List Char} (h : '?' ∉ cs) : Spread [] cs
  | slot {s : Slot} {rest : List Slot} {before cs : List Char} (h : '?' ∉ before)
      (hs : Spread rest cs) : Spread (s :: rest) (before ++ (s.text.toList ++ cs))

namespace Spread

theorem prepend {slots : List Slot} {cs : List Char} (h : Spread slots cs) {before : List Char}
    (hbefore : '?' ∉ before) : Spread slots (before ++ cs) := by
  cases h with
  | done h => exact .done (by simp [hbefore, h])
  | slot h hs =>
    rw [← List.append_assoc]
    exact .slot (by simp [hbefore, h]) hs

theorem append {slots slots' : List Slot} {cs ds : List Char} (h : Spread slots cs)
    (h' : Spread slots' ds) : Spread (slots ++ slots') (cs ++ ds) := by
  induction h with
  | done h => exact h'.prepend h
  | slot h _ ih =>
    rw [List.append_assoc, List.append_assoc, List.cons_append]
    exact .slot h ih

theorem single (s : Slot) : Spread [s] s.text.toList := by
  have hspread : Spread [s] ([] ++ (s.text.toList ++ [])) := .slot (by simp) (.done (by simp))
  simpa using hspread

theorem count_eq {slots : List Slot} {cs : List Char} (h : Spread slots cs)
    (hone : ∀ s ∈ slots, s.text.toList.count '?' = 1) : cs.count '?' = slots.length := by
  induction h with
  | done h => exact List.count_eq_zero.mpr h
  | slot h _ ih =>
    rw [List.forall_mem_cons] at hone
    rw [List.count_append, List.count_append, List.count_eq_zero.mpr h, hone.1, ih hone.2,
      List.length_cons]
    omega

end Spread

def Placed (P : Slot → Prop) (bound : List Restriction) (cs : List Char)
    (parameters : List String) : Prop :=
  ∃ slots, Spread slots cs ∧ parameters = slots.map Slot.parameter ∧ (∀ s ∈ slots, P s) ∧
    slots.map Slot.comparison = bound

namespace Placed
variable {P : Slot → Prop}

theorem unmarked {cs : List Char} (h : '?' ∉ cs) : Placed P [] cs [] :=
  ⟨[], .done h, rfl, by simp, rfl⟩

theorem single {s : Slot} (h : P s) : Placed P [s.comparison] s.text.toList [s.parameter] :=
  ⟨[s], .single s, rfl, by simpa using h, rfl⟩

theorem append {bound bound' : List Restriction} {cs ds : List Char}
    {parameters parameters' : List String} (h : Placed P bound cs parameters)
    (h' : Placed P bound' ds parameters') :
    Placed P (bound ++ bound') (cs ++ ds) (parameters ++ parameters') := by
  obtain ⟨slots, hspread, rfl, hP, rfl⟩ := h
  obtain ⟨slots', hspread', rfl, hP', rfl⟩ := h'
  refine ⟨slots ++ slots', hspread.append hspread', by simp, fun s hs => ?_, by simp⟩
  exact (List.mem_append.mp hs).elim (hP s) (hP' s)

theorem prepend {bound : List Restriction} {cs before : List Char} {parameters : List String}
    (h : Placed P bound cs parameters) (hbefore : '?' ∉ before) :
    Placed P bound (before ++ cs) parameters :=
  append (unmarked hbefore) h

theorem followed {bound : List Restriction} {cs after : List Char} {parameters : List String}
    (h : Placed P bound cs parameters) (hafter : '?' ∉ after) :
    Placed P bound (cs ++ after) parameters := by
  simpa using append h (unmarked hafter)

theorem intercalate {α β : Type} {bound : α → List Restriction} {text : β → String}
    {parameters : β → List String} {xs : List α} {ys : List β}
    (h : List.Forall₂ (fun x y => Placed P (bound x) (text y).toList (parameters y)) xs ys) :
    Placed P (xs.flatMap bound) (String.intercalate " AND " (ys.map text)).toList
      (ys.flatMap parameters) := by
  induction h with
  | nil => exact unmarked (by simp)
  | @cons x y xs ys hxy hrest ih =>
    cases hrest with
    | nil => simpa using hxy
    | @cons x' y' xs ys _ _ =>
      have htext : (String.intercalate " AND " ((y :: y' :: ys).map text)).toList =
          (text y).toList ++ (" AND ".toList ++
            (String.intercalate " AND " ((y' :: ys).map text)).toList) := by
        simp [String.intercalate_cons_cons]
      rw [htext, List.flatMap_cons, List.flatMap_cons]
      exact append hxy (ih.prepend (by decide))

end Placed

/-!
## The literals of a condition

A condition has one literal for each comparison with an operand: what the operand
is in the column behind the field. Whether the store can read all literals is
therefore a question about the operands of the restriction.
-/

open Restriction

def IsLiteralOf (b : Restriction) (l : Literal) : Prop :=
  ∃ field r o kind, b = .comparison field (.relation r) (some o) ∧ literal? kind o = some l

theorem literals_scalarTest {name column : String} {kind : ScalarKind} {op : Comparator}
    {operand : Option Operand} {t : Test} (h : scalarTest name column kind op operand = .ok t)
    (field : String) :
    List.Forall₂ IsLiteralOf (comparison field op operand).bindings t.literals := by
  cases op with
  | isNull => cases h; exact .nil
  | isNotNull => cases h; exact .nil
  | relation r =>
    obtain ⟨l, hl, rfl⟩ := Except.exists_of_map_eq_ok h
    obtain ⟨o, rfl, hlit⟩ := exists_of_bindLiteral hl
    exact .cons ⟨field, r, o, kind, rfl, hlit⟩ .nil

namespace Schema
variable {schema : Schema} {spec : Spec}

theorem literals_plain {field : String} {op : Comparator} {operand : Option Operand}
    {c : Condition} (h : schema.plain field op operand = .ok c) :
    List.Forall₂ IsLiteralOf (comparison field op operand).bindings c.literals := by
  obtain ⟨⟨name, column, kind⟩, -, hc⟩ := exists_of_plain h
  cases kind with
  | scalar kind =>
    obtain ⟨t, ht, rfl⟩ := hc
    exact literals_scalarTest ht field
  | membership link owner member =>
    cases op with
    | isNull => cases hc; exact .nil
    | isNotNull => cases hc; exact .nil
    | relation r =>
      by_cases hr : r.isOrdering = true
      · simp [membership, hr] at hc
      simp only [membership, if_neg hr] at hc
      obtain ⟨l, hl, rfl⟩ := Except.exists_of_map_eq_ok hc
      obtain ⟨o, rfl, hlit⟩ := exists_of_bindLiteral hl
      exact .cons ⟨field, r, o, .integer, rfl, hlit⟩ .nil

theorem literals_related {name : String} {terms : List Term} {c : Condition}
    (h : schema.related spec name terms = .ok c) :
    List.Forall₂ IsLiteralOf (terms.flatMap fun t => t.comparison.bindings) c.literals := by
  obtain ⟨link, -, a, -, tests, htests, rfl⟩ := exists_of_related h
  refine List.rel_flatMap htests fun t test htest => ?_
  obtain ⟨f, -, hscalar⟩ := exists_of_childTest htest
  exact literals_scalarTest hscalar t.field

/-- The literals of a condition belong to the comparisons with an operand, one to each. -/
theorem literals_condition {r : Restriction} {c : Condition}
    (h : schema.condition spec (Grouped.ofRestriction r) = .ok c) :
    List.Forall₂ IsLiteralOf (Grouped.ofRestriction r).bindings c.literals := by
  refine @condition_induct schema spec
    (fun r c => List.Forall₂ IsLiteralOf (Grouped.ofRestriction r).bindings c.literals)
    ?_ ?_ ?_ ?_ r c h
  · intro field op operand c hdot h
    have hcut : Text.cut? '.' field = none := by simpa [dotted?] using hdot
    simp only [Grouped.ofRestriction, hcut]
    exact literals_plain h
  · intro field op operand name term c hdot h
    obtain ⟨heq, hcut⟩ := dotted?_eq_some_iff.mp hdot
    cases heq
    simp only [Grouped.ofRestriction, hcut]
    exact literals_related h
  · intro left right cl cr hl hr
    exact List.rel_append hl hr
  · intro left right cs hcs
    rw [Grouped.ofRestriction_and, Grouped.bindings, Grouped.bindingsOf_eq_flatMap,
      Condition.literals, Condition.literalsOf_eq_flatMap]
    refine List.rel_flatMap ((List.forall₂_and_left _ _).mpr ⟨fun g hg => hg, hcs⟩) ?_
    rintro g c ⟨hg, hplain, hrelated⟩
    rcases Grouped.mem_groups.mp hg with ⟨m, hm, hdot, rfl⟩ | ⟨name, hname, rfl⟩
    · exact hplain m hm hdot rfl
    · exact literals_related (hrelated name hname rfl)

end Schema

theorem mem_bindings_iff {r b : Restriction} :
    b ∈ r.bindings ↔ b ∈ r.leaves ∧ ∃ field relation operand,
      b = .comparison field (.relation relation) operand := by
  induction r with
  | comparison field op operand => cases op <;> simp [bindings, leaves] <;> grind
  | and left right ihLeft ihRight =>
    rw [bindings, leaves, List.mem_append, List.mem_append, ihLeft, ihRight, or_and_right]
  | or left right ihLeft ihRight =>
    rw [bindings, leaves, List.mem_append, List.mem_append, ihLeft, ihRight, or_and_right]

end InventorySearch.Search
