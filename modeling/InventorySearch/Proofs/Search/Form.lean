import InventorySearch.Proofs.Search.Planning

set_option autoImplicit false

/-!
# Texts do not tell operands

Restrictions of one form have the same fields, operators and connectives, and
operands of the same variants. Their plans have one text: what the operands hold
is in the parameters alone.
-/
namespace InventorySearch.Filter

inductive Operand.SameVariant : Operand → Operand → Prop
  | integer (m n : Int) : SameVariant (.integer m) (.integer n)
  | moment (t u : Calendar.Timestamp) : SameVariant (.moment t) (.moment u)
  | ordinal (m n : Int) : SameVariant (.ordinal m) (.ordinal n)
  | reference (r s : Reference) : SameVariant (.reference r) (.reference s)
  | text (s t : String) : SameVariant (.text s) (.text t)

/-- Having one shape, the same fields and operators, and operands of the same variants. -/
inductive Restriction.SameForm : Restriction → Restriction → Prop
  | comparison {field : String} {op : Comparator} {o o' : Option Operand}
      (h : Option.Rel Operand.SameVariant o o') :
      SameForm (.comparison field op o) (.comparison field op o')
  | and {left left' right right' : Restriction} (hleft : SameForm left left')
      (hright : SameForm right right') : SameForm (.and left right) (.and left' right')
  | or {left left' right right' : Restriction} (hleft : SameForm left left')
      (hright : SameForm right right') : SameForm (.or left right) (.or left' right')

end InventorySearch.Filter

namespace InventorySearch.Search
open InventorySearch.Filter Store

/-! ## Groups -/

structure Term.SameForm (t t' : Term) : Prop where
  field : t.field = t'.field
  child : t.child = t'.child
  op : t.op = t'.op
  operand : Option.Rel Operand.SameVariant t.operand t'.operand

inductive Grouped.SameForm : Grouped → Grouped → Prop
  | plain {field : String} {op : Comparator} {o o' : Option Operand}
      (h : Option.Rel Operand.SameVariant o o') : SameForm (.plain field op o) (.plain field op o')
  | related {name : String} {terms terms' : List Term}
      (h : List.Forall₂ Term.SameForm terms terms') :
      SameForm (.related name terms) (.related name terms')
  | either {left left' right right' : Grouped} (hleft : SameForm left left')
      (hright : SameForm right right') : SameForm (.either left right) (.either left' right')
  | all {members members' : List Grouped} (h : List.Forall₂ SameForm members members') :
      SameForm (.all members) (.all members')

namespace Grouped

theorem sameForm_addTerm {name : String} {t t' : Term} (ht : t.SameForm t')
    {gs gs' : List Grouped} (h : List.Forall₂ SameForm gs gs') :
    List.Forall₂ SameForm (addTerm name t gs) (addTerm name t' gs') := by
  induction h with
  | nil => exact .cons (.related (.cons ht .nil)) .nil
  | cons hg hrest ih =>
    cases hg with
    | plain h => exact .cons (.plain h) ih
    | either hleft hright => exact .cons (.either hleft hright) ih
    | all h => exact .cons (.all h) ih
    | @related other _ _ h =>
      rw [addTerm, addTerm]
      by_cases heq : other = name
      · rw [if_pos heq, if_pos heq]
        exact .cons (.related (List.rel_append h (.cons ht .nil))) hrest
      · rw [if_neg heq, if_neg heq]
        exact .cons (.related h) ih

theorem sameForm_of_restriction {r r' : Restriction} (h : r.SameForm r') :
    SameForm (ofRestriction r) (ofRestriction r') ∧
      ∀ gs gs', List.Forall₂ SameForm gs gs' →
        List.Forall₂ SameForm (collect r gs) (collect r' gs') := by
  -- both at once, as what is collected from an "or" is grouped anew on either side
  induction h with
  | @comparison field op o o' h =>
    cases hcut : Text.cut? '.' field with
    | none =>
      simp only [ofRestriction, collect, hcut]
      exact ⟨.plain h, fun gs gs' hgs => List.rel_append hgs (.cons (.plain h) .nil)⟩
    | some cut =>
      have hterm : Term.SameForm ⟨field, cut.2, op, o⟩ ⟨field, cut.2, op, o'⟩ :=
        ⟨rfl, rfl, rfl, h⟩
      simp only [ofRestriction, collect, hcut]
      exact ⟨.related (.cons hterm .nil), fun gs gs' hgs => sameForm_addTerm hterm hgs⟩
  | and hleft hright ihLeft ihRight =>
    rw [ofRestriction, ofRestriction]
    simp only [collect]
    exact ⟨.all (ihRight.2 _ _ (ihLeft.2 [] [] .nil)),
      fun gs gs' hgs => ihRight.2 _ _ (ihLeft.2 gs gs' hgs)⟩
  | or hleft hright ihLeft ihRight =>
    rw [ofRestriction, ofRestriction]
    simp only [collect]
    have heither := SameForm.either ihLeft.1 ihRight.1
    exact ⟨heither, fun gs gs' hgs => List.rel_append hgs (.cons heither .nil)⟩

end Grouped

/-! ## Texts -/

theorem placeholder_eq {kind : ScalarKind} {o o' : Operand} (h : o.SameVariant o') {l l' : Literal}
    (hl : literal? kind o = some l) (hl' : literal? kind o' = some l') :
    l.placeholder = l'.placeholder := by
  cases h <;> cases kind <;> simp only [literal?, Option.some.injEq, reduceCtorEq] at hl hl'
  case integer.integer | ordinal.integer | reference.integer => subst hl hl'; rfl
  case moment.timestamp | text.text => subst hl hl'; rfl
  case text.integer | text.timestamp =>
    obtain ⟨_, -, rfl⟩ := Option.map_eq_some_iff.mp hl
    obtain ⟨_, -, rfl⟩ := Option.map_eq_some_iff.mp hl'
    rfl

theorem placeholder_eq_of_bindLiteral {field : String} {kind : ScalarKind} {o o' : Option Operand}
    (h : Option.Rel Operand.SameVariant o o') {l l' : Literal}
    (hl : bindLiteral field kind o = .ok l) (hl' : bindLiteral field kind o' = .ok l') :
    l.placeholder = l'.placeholder := by
  obtain ⟨x, rfl, hx⟩ := exists_of_bindLiteral hl
  obtain ⟨x', rfl, hx'⟩ := exists_of_bindLiteral hl'
  cases h with
  | some hvariant => exact placeholder_eq hvariant hx hx'

theorem Test.text_eq {field column : String} {kind : ScalarKind} {op : Comparator}
    {o o' : Option Operand} (h : Option.Rel Operand.SameVariant o o') {t t' : Test}
    (ht : scalarTest field column kind op o = .ok t)
    (ht' : scalarTest field column kind op o' = .ok t') (row : String) :
    t.text row = t'.text row := by
  cases op with
  | isNull => cases ht; cases ht'; rfl
  | isNotNull => cases ht; cases ht'; rfl
  | relation r =>
    obtain ⟨l, hl, rfl⟩ := Except.exists_of_map_eq_ok ht
    obtain ⟨l', hl', rfl⟩ := Except.exists_of_map_eq_ok ht'
    rw [text, text, placeholder_eq_of_bindLiteral h hl hl']

namespace Schema
variable {schema : Schema}

theorem text_membership_eq {field : String} {link : Table} {owner member : String}
    {op : Comparator} {o o' : Option Operand} (h : Option.Rel Operand.SameVariant o o')
    {c c' : Condition} (hc : schema.membership field link owner member op o = .ok c)
    (hc' : schema.membership field link owner member op o' = .ok c') : c.text = c'.text := by
  cases op with
  | isNull => cases hc; cases hc'; rfl
  | isNotNull => cases hc; cases hc'; rfl
  | relation r =>
    by_cases hr : r.isOrdering = true
    · simp [membership, hr] at hc
    · rw [membership, if_neg hr] at hc hc'
      obtain ⟨l, hl, rfl⟩ := Except.exists_of_map_eq_ok hc
      obtain ⟨l', hl', rfl⟩ := Except.exists_of_map_eq_ok hc'
      have hplaceholder := placeholder_eq_of_bindLiteral h hl hl'
      unfold Condition.text
      dsimp only
      rw [hplaceholder]

theorem text_plain_eq {field : String} {op : Comparator} {o o' : Option Operand}
    (h : Option.Rel Operand.SameVariant o o') {c c' : Condition}
    (hc : schema.plain field op o = .ok c) (hc' : schema.plain field op o' = .ok c') :
    c.text = c'.text := by
  obtain ⟨⟨name, column, kind⟩, hf, hc⟩ := exists_of_plain hc
  obtain ⟨f, hf', hc'⟩ := exists_of_plain hc'
  obtain rfl := Option.some.inj (hf.symm.trans hf')
  cases kind with
  | scalar kind =>
    obtain ⟨t, ht, rfl⟩ := hc
    obtain ⟨t', ht', rfl⟩ := hc'
    exact Test.text_eq h ht ht' "p"
  | membership link owner member => exact text_membership_eq h hc hc'

theorem map_text_eq {a : Association} {path : String} {terms terms' : List Term}
    (h : List.Forall₂ Term.SameForm terms terms') {tests tests' : List Test}
    (htests : List.Forall₂ (fun t test => childTest a path t = .ok test) terms tests)
    (htests' : List.Forall₂ (fun t test => childTest a path t = .ok test) terms' tests') :
    tests.map (Test.text "c") = tests'.map (Test.text "c") := by
  induction h generalizing tests tests' with
  | nil =>
    rw [List.forall₂_nil_left_iff.mp htests, List.forall₂_nil_left_iff.mp htests']
  | @cons t t' _ _ hterm _ ih =>
    cases htests with
    | cons ht hrest =>
    cases htests' with
    | cons ht' hrest' =>
    obtain ⟨f, hf, ht⟩ := exists_of_childTest ht
    obtain ⟨f', hf', ht'⟩ := exists_of_childTest ht'
    obtain rfl : f = f' := Option.some.inj (hf.symm.trans (hterm.child ▸ hf'))
    rw [← hterm.field, ← hterm.op] at ht'
    rw [List.map_cons, List.map_cons, ih hrest hrest', Test.text_eq hterm.operand ht ht' "c"]

theorem all_isNull_eq {terms terms' : List Term} (h : List.Forall₂ Term.SameForm terms terms') :
    (terms.all fun t => t.op == .isNull) = terms'.all fun t => t.op == .isNull := by
  induction h with
  | nil => rfl
  | cons hterm _ ih => rw [List.all_cons, List.all_cons, hterm.op, ih]

theorem text_related_eq {spec : Spec} {name : String} {terms terms' : List Term}
    (h : List.Forall₂ Term.SameForm terms terms') {c c' : Condition}
    (hc : schema.related spec name terms = .ok c) (hc' : schema.related spec name terms' = .ok c') :
    c.text = c'.text := by
  obtain ⟨link, hlink, a, ha, tests, htests, rfl⟩ := exists_of_related hc
  obtain ⟨link', hlink', a', ha', tests', htests', rfl⟩ := exists_of_related hc'
  obtain rfl : link = link' := Option.some.inj (hlink.symm.trans hlink')
  obtain rfl : a = a' := Option.some.inj (ha.symm.trans ha')
  simp only [Condition.text, map_text_eq h htests htests', all_isNull_eq h]

mutual

theorem text_condition_eq {spec : Spec} : (g : Grouped) → {g' : Grouped} → g.SameForm g' →
    {c c' : Condition} → schema.condition spec g = .ok c → schema.condition spec g' = .ok c' →
    c.text = c'.text
  | .plain .., _, .plain h, _, _, hc, hc' => text_plain_eq h hc hc'
  | .related .., _, .related h, _, _, hc, hc' => text_related_eq h hc hc'
  | .either left right, _, .either hleft hright, _, _, hc, hc' => by
    rw [condition] at hc hc'
    obtain ⟨cl, hl, hc⟩ := Except.exists_of_bind_eq_ok hc
    obtain ⟨cr, hr, hc⟩ := Except.exists_of_bind_eq_ok hc
    obtain ⟨cl', hl', hc'⟩ := Except.exists_of_bind_eq_ok hc'
    obtain ⟨cr', hr', hc'⟩ := Except.exists_of_bind_eq_ok hc'
    obtain rfl := Except.ok.inj hc
    obtain rfl := Except.ok.inj hc'
    rw [Condition.text, Condition.text, text_condition_eq left hleft hl hl',
      text_condition_eq right hright hr hr']
  | .all members, _, .all h, _, _, hc, hc' => by
    rw [condition] at hc hc'
    obtain ⟨cs, hcs, rfl⟩ := Except.exists_of_map_eq_ok hc
    obtain ⟨cs', hcs', rfl⟩ := Except.exists_of_map_eq_ok hc'
    rw [Condition.text, Condition.text, texts_conditions_eq members h hcs hcs']

theorem texts_conditions_eq {spec : Spec} : (gs : List Grouped) → {gs' : List Grouped} →
    List.Forall₂ Grouped.SameForm gs gs' → {cs cs' : List Condition} →
    schema.conditions spec gs = .ok cs → schema.conditions spec gs' = .ok cs' →
    Condition.texts cs = Condition.texts cs'
  | [], _, .nil, _, _, hcs, hcs' => by rw [Except.ok.inj (hcs.symm.trans hcs')]
  | g :: gs, _, .cons hg hgs, _, _, hcs, hcs' => by
    rw [conditions] at hcs hcs'
    obtain ⟨c, hc, hcs⟩ := Except.exists_of_bind_eq_ok hcs
    obtain ⟨rest, hrest, hcs⟩ := Except.exists_of_bind_eq_ok hcs
    obtain ⟨c', hc', hcs'⟩ := Except.exists_of_bind_eq_ok hcs'
    obtain ⟨rest', hrest', hcs'⟩ := Except.exists_of_bind_eq_ok hcs'
    obtain rfl := Except.ok.inj hcs
    obtain rfl := Except.ok.inj hcs'
    rw [Condition.texts, Condition.texts, text_condition_eq g hg hc hc',
      texts_conditions_eq gs hgs hrest hrest']

end

end Schema

/-- Asking for one order under one set of aliases, with restrictions of one form. -/
structure Spec.SameForm (spec spec' : Spec) : Prop where
  restriction : Option.Rel Restriction.SameForm spec.restriction spec'.restriction
  order : spec.order = spec'.order
  aliases : spec.aliases = spec'.aliases

theorem Spec.SameForm.text_eq {spec spec' : Spec} (h : spec.SameForm spec') {schema : Schema}
    {plan plan' : Plan} (hplan : spec.plan schema = .ok plan)
    (hplan' : spec'.plan schema = .ok plan') :
    plan.condition.text = plan'.condition.text ∧ plan.orderText = plan'.orderText := by
  obtain ⟨hnone, hsome, horder⟩ := of_plan hplan
  obtain ⟨hnone', hsome', horder'⟩ := of_plan hplan'
  refine ⟨?_, ?_⟩
  · have hrel := h.restriction
    cases hr : spec.restriction with
    | none =>
      cases hr' : spec'.restriction with
      | none => rw [hnone hr, hnone' hr']
      | some r' => rw [hr, hr'] at hrel; cases hrel
    | some r =>
      cases hr' : spec'.restriction with
      | none => rw [hr, hr'] at hrel; cases hrel
      | some r' =>
        rw [hr, hr'] at hrel
        obtain ⟨hform⟩ := hrel
        have hc' := hsome' r' hr'
        rw [← Schema.condition_congr h.aliases] at hc'
        exact Schema.text_condition_eq _ (Grouped.sameForm_of_restriction hform).1 (hsome r hr) hc'
  · rw [h.order] at horder
    rw [Plan.orderText, Plan.orderText, Except.ok.inj (horder.symm.trans horder')]

end InventorySearch.Search
