import InventorySearch.Proofs.Search.Form
import InventorySearch.Proofs.Search.Slots

set_option autoImplicit false

/-!
# What the question marks stand for

The text of a plan has one question mark for each comparison with an operand,
in the text of that comparison, and the parameters are what the operands are
written as, in the order of the text.
-/
namespace InventorySearch.Search
open InventorySearch.Filter Store

def comparisonText (row column : String) (r : Relation) (l : Literal) : String :=
  s!"{row}.{column} {r.symbol} {l.placeholder}"

def membershipText (key : String) (link : Table) (owner member : String) (r : Relation)
    (l : Literal) : String :=
  let negation := if r = .eq then "" else "NOT "
  s!"p.{key} {negation}IN (SELECT {owner} FROM {link.name} WHERE {member} = {l.placeholder})"

def Schema.FieldSlot (schema : Schema) (s : Slot) (field : String) (r : Relation) (o : Operand) :
    Prop :=
  ∃ f ∈ field? schema.fields field,
    match f.kind with
    | .scalar kind =>
      ∃ l ∈ literal? kind o, s.text = comparisonText "p" f.column r l ∧ s.parameter = l.parameter
    | .membership link owner member =>
      ∃ l ∈ literal? .integer o, s.text = membershipText schema.key link owner member r l ∧
        s.parameter = l.parameter

def Schema.AliasSlot (schema : Schema) (aliases : List Alias) (s : Slot) (name child : String)
    (r : Relation) (o : Operand) : Prop :=
  ∃ link ∈ alias? aliases name, ∃ a ∈ schema.association? link.path, ∃ f ∈ field? a.fields child,
    ∃ l ∈ literal? f.kind o, s.text = comparisonText "c" f.column r l ∧ s.parameter = l.parameter

/-- Having the text of the comparison, with one question mark, and what its operand is written as
in the type of its column. -/
def Schema.IsSlot (schema : Schema) (aliases : List Alias) (s : Slot) : Prop :=
  s.text.toList.count '?' = 1 ∧
    ∃ field r o, s.comparison = .comparison field (.relation r) (some o) ∧
      match Text.cut? '.' field with
      | none => schema.FieldSlot s field r o
      | some (name, child) => schema.AliasSlot aliases s name child r o

theorem count_placeholder (l : Literal) : l.placeholder.toList.count '?' = 1 := by
  cases l with
  | text s => exact (by decide : "?".toList.count '?' = 1)
  | integer n => exact (by decide : "CAST(? AS BIGINT)".toList.count '?' = 1)
  | moment t => exact (by decide : "CAST(? AS TIMESTAMP)".toList.count '?' = 1)

theorem count_comparisonText {row column : String} (hrow : '?' ∉ row.toList)
    (hcolumn : '?' ∉ column.toList) (r : Relation) (l : Literal) :
    (comparisonText row column r l).toList.count '?' = 1 := by
  have hsymbol : '?' ∉ r.symbol.toList := by cases r <;> decide
  unfold comparisonText
  simp [toString_eq, List.count_eq_zero.mpr hrow, List.count_eq_zero.mpr hcolumn,
    List.count_eq_zero.mpr hsymbol, count_placeholder]

theorem count_membershipText {key : String} {link : Table} {owner member : String}
    (hkey : '?' ∉ key.toList) (howner : '?' ∉ owner.toList) (hmember : '?' ∉ member.toList)
    (r : Relation) (l : Literal) :
    (membershipText key link owner member r l).toList.count '?' = 1 := by
  have hlink : '?' ∉ link.name.toList := not_mem_of_isName (isName_name link)
  have hnegation : '?' ∉ (if r = .eq then "" else "NOT ").toList := by split <;> decide
  unfold membershipText
  simp [toString_eq, List.count_eq_zero.mpr hkey, List.count_eq_zero.mpr howner,
    List.count_eq_zero.mpr hmember, List.count_eq_zero.mpr hlink,
    List.count_eq_zero.mpr hnegation, count_placeholder]

theorem placed_test {P : Slot → Prop} {row column : String} (hrow : '?' ∉ row.toList)
    (hcolumn : '?' ∉ column.toList) {field : String} {kind : ScalarKind} {op : Comparator}
    {operand : Option Operand} {t : Test} (h : scalarTest field column kind op operand = .ok t)
    (hP : ∀ r o l, op = .relation r → operand = some o → literal? kind o = some l →
      P ⟨.comparison field op operand, comparisonText row column r l, l.parameter⟩) :
    Placed P (Restriction.comparison field op operand).bindings (t.text row).toList
      (t.literals.map Literal.parameter) := by
  cases op with
  | isNull =>
    cases h
    exact .unmarked (by simp [Test.text, toString_eq, hrow, hcolumn])
  | isNotNull =>
    cases h
    exact .unmarked (by simp [Test.text, toString_eq, hrow, hcolumn])
  | relation r =>
    obtain ⟨l, hl, rfl⟩ := Except.exists_of_map_eq_ok h
    obtain ⟨o, rfl, hlit⟩ := exists_of_bindLiteral hl
    have htext : (Test.relation column r l).text row = comparisonText row column r l := by
      unfold comparisonText
      rw [Test.text]
    rw [htext]
    exact Placed.single (s := ⟨.comparison field (.relation r) (some o),
      comparisonText row column r l, l.parameter⟩) (hP r o l rfl rfl hlit)

namespace Schema
variable {schema : Schema} {aliases : List Alias}

theorem placed_membership {field : String} {link : Table} {owner member : String}
    (hcut : Text.cut? '.' field = none) {f : Field FieldKind}
    (hf : field? schema.fields field = some f) (hkind : f.kind = .membership link owner member)
    (hkey : '?' ∉ schema.key.toList) (howner : '?' ∉ owner.toList) (hmember : '?' ∉ member.toList)
    {op : Comparator} {operand : Option Operand} {c : Condition}
    (h : schema.membership field link owner member op operand = .ok c) :
    Placed (schema.IsSlot aliases) (Restriction.comparison field op operand).bindings
      c.text.toList c.parameters := by
  have hlink : '?' ∉ link.name.toList := not_mem_of_isName (isName_name link)
  cases op with
  | isNull =>
    cases h
    exact .unmarked (by simp [Condition.text, toString_eq, hkey, howner, hlink])
  | isNotNull =>
    cases h
    exact .unmarked (by simp [Condition.text, toString_eq, hkey, howner, hlink])
  | relation r =>
    by_cases hr : r.isOrdering = true
    · simp [membership, hr] at h
    rw [membership, if_neg hr] at h
    obtain ⟨l, hl, rfl⟩ := Except.exists_of_map_eq_ok h
    obtain ⟨o, rfl, hlit⟩ := exists_of_bindLiteral hl
    have htext : (Condition.membership (r == .eq) schema.key link owner (some (member, l))).text =
        membershipText schema.key link owner member r l := by
      unfold membershipText
      simp [Condition.text, toString_eq, String.append_assoc]
    rw [htext]
    refine Placed.single (s := ⟨.comparison field (.relation r) (some o),
      membershipText schema.key link owner member r l, l.parameter⟩)
      ⟨count_membershipText hkey howner hmember r l, field, r, o, rfl, ?_⟩
    rw [hcut]
    refine ⟨f, hf, ?_⟩
    rw [hkind]
    exact ⟨l, hlit, rfl, rfl⟩

theorem placed_plain (hfits : schema.Fits) {field : String} (hcut : Text.cut? '.' field = none)
    {op : Comparator} {operand : Option Operand} {c : Condition}
    (h : schema.plain field op operand = .ok c) :
    Placed (schema.IsSlot aliases) (Restriction.comparison field op operand).bindings
      c.text.toList c.parameters := by
  obtain ⟨⟨fieldName, column, kind⟩, hf, hc⟩ := exists_of_plain h
  have hfield := hfits.fields _ (mem_of_field? hf)
  cases kind with
  | scalar kind =>
    obtain ⟨t, ht, rfl⟩ := hc
    have hcolumn : '?' ∉ column.toList := not_mem_of_hasColumn hfield
    refine placed_test (by decide) hcolumn ht ?_
    rintro r o l rfl rfl hlit
    refine ⟨count_comparisonText (by decide) hcolumn r l, field, r, o, rfl, ?_⟩
    rw [hcut]
    exact ⟨_, hf, l, hlit, rfl, rfl⟩
  | membership link owner member =>
    exact placed_membership hcut hf rfl (not_mem_of_hasNumber hfits.key)
      (not_mem_of_hasNumber hfield.1) (not_mem_of_hasNumber hfield.2) hc

theorem forall₂_placed_tests {spec : Spec} {name : String} {link : Alias}
    (hlink : spec.alias? name = some link) {a : Association}
    (ha : schema.association? link.path = some a)
    (hcolumns : ∀ f ∈ a.fields, HasColumn a.source.table f.column) {terms : List Term}
    (hterms : ∀ t ∈ terms, Text.cut? '.' t.field = some (name, t.child)) {tests : List Test}
    (h : List.Forall₂ (fun t test => childTest a link.path t = .ok test) terms tests) :
    List.Forall₂ (fun (t : Term) (test : Test) => Placed (schema.IsSlot spec.aliases)
      t.comparison.bindings (test.text "c").toList (test.literals.map Literal.parameter))
      terms tests := by
  induction h with
  | nil => exact .nil
  | @cons t test _ _ htest _ ih =>
    rw [List.forall_mem_cons] at hterms
    obtain ⟨f, hf, htest⟩ := exists_of_childTest htest
    have hcolumn := not_mem_of_hasColumn (hcolumns f (mem_of_field? hf))
    refine .cons (placed_test (by decide) hcolumn htest ?_) (ih hterms.2)
    intro r o l hop hoperand hlit
    refine ⟨count_comparisonText (by decide) hcolumn r l, t.field, r, o, ?_, ?_⟩
    · rw [hop, hoperand]
    · rw [hterms.1]
      exact ⟨link, hlink, a, ha, f, hf, l, hlit, rfl, rfl⟩

def rowsText (source : Source) (key : String) : String :=
  "SELECT 1 FROM " ++ source.tables ++ " WHERE " ++ source.parent ++ " = p." ++ key

theorem not_mem_rowsText {source : Source} (h : source.Fits) {key : String}
    (hkey : '?' ∉ key.toList) : '?' ∉ (rowsText source key).toList := by
  unfold rowsText
  cases source with
  | owned table owner =>
    have htable := not_mem_of_isName (isName_name table)
    have howner := not_mem_of_hasNumber h
    simp [Source.tables, Source.parent, toString_eq, htable, howner, hkey]
  | linked link owner member table column =>
    have hlink := not_mem_of_isName (isName_name link)
    have htable := not_mem_of_isName (isName_name table)
    have howner := not_mem_of_hasNumber h.1
    have hmember := not_mem_of_hasNumber h.2.1
    have hcolumn := not_mem_of_hasNumber h.2.2
    simp [Source.tables, Source.parent, toString_eq, hlink, htable, howner, hmember, hcolumn, hkey]

theorem placed_related (hfits : schema.Fits) {spec : Spec} {name : String} {terms : List Term}
    (hterms : ∀ t ∈ terms, Text.cut? '.' t.field = some (name, t.child)) {c : Condition}
    (h : schema.related spec name terms = .ok c) :
    Placed (schema.IsSlot spec.aliases) (terms.flatMap fun t => t.comparison.bindings)
      c.text.toList c.parameters := by
  obtain ⟨link, hlink, a, ha, tests, htests, rfl⟩ := exists_of_related h
  have hmem := mem_of_association? ha
  have hrows := not_mem_rowsText (hfits.sources a hmem) (not_mem_of_hasNumber hfits.key)
  have hjoined := Placed.intercalate
    (forall₂_placed_tests hlink ha (hfits.children a hmem) hterms htests)
  generalize (link.join == .left && terms.all fun t => t.op == .isNull) = orNone
  rw [Condition.parameters_related]
  have hfound : Placed (schema.IsSlot spec.aliases) (terms.flatMap fun t => t.comparison.bindings)
      (Condition.related false a.source schema.key tests).text.toList
      (tests.flatMap fun t => t.literals.map Literal.parameter) := by
    have htext : (Condition.related false a.source schema.key tests).text.toList =
        ("EXISTS (" ++ rowsText a.source schema.key ++ " AND ").toList ++
          ((String.intercalate " AND " (tests.map (Test.text "c"))).toList ++ ")".toList) := by
      unfold rowsText
      simp [Condition.text, toString_eq]
    rw [htext]
    exact (hjoined.followed (by decide)).prepend (by simp [hrows])
  cases orNone with
  | false => exact hfound
  | true =>
    have htext : (Condition.related true a.source schema.key tests).text.toList =
        ("(NOT EXISTS (" ++ rowsText a.source schema.key ++ ") OR ").toList ++
          ((Condition.related false a.source schema.key tests).text.toList ++ ")".toList) := by
      unfold rowsText
      simp [Condition.text, toString_eq]
    rw [htext]
    exact (hfound.followed (by decide)).prepend (by simp [hrows])

theorem placed_condition (hfits : schema.Fits) {spec : Spec} {r : Restriction} {c : Condition}
    (h : schema.condition spec (Grouped.ofRestriction r) = .ok c) :
    Placed (schema.IsSlot spec.aliases) (Grouped.ofRestriction r).bindings c.text.toList
      c.parameters := by
  refine @condition_induct schema spec (fun r c => Placed (schema.IsSlot spec.aliases)
    (Grouped.ofRestriction r).bindings c.text.toList c.parameters) ?_ ?_ ?_ ?_ r c h
  · intro field op operand c hdot h
    have hcut : Text.cut? '.' field = none := by simpa [Restriction.dotted?] using hdot
    simp only [Grouped.ofRestriction, hcut]
    exact placed_plain hfits hcut h
  · intro field op operand name term c hdot h
    obtain ⟨⟨found, child⟩, hcut, heq⟩ := Option.map_eq_some_iff.mp hdot
    cases heq
    simp only [Grouped.ofRestriction, hcut]
    exact placed_related hfits (by simpa using hcut) h
  · intro left right cl cr hl hr
    have htext : (Condition.either cl cr).text.toList =
        "(".toList ++ (cl.text.toList ++ (" OR ".toList ++ (cr.text.toList ++ ")".toList))) := by
      simp [Condition.text]
    rw [htext, Condition.parameters_either, Grouped.ofRestriction, Grouped.bindings]
    exact (hl.append ((hr.followed (by decide)).prepend (by decide))).prepend (by decide)
  · intro left right cs hcs
    have hparts : List.Forall₂ (fun (g : Grouped) (c : Condition) =>
        Placed (schema.IsSlot spec.aliases) g.bindings c.text.toList c.parameters)
        (Grouped.groups (Restriction.and left right).members) cs := by
      refine ((List.forall₂_and_left _ _).mpr ⟨fun g hg => hg, hcs⟩).imp ?_
      rintro g c ⟨hg, hplain, hrelated⟩
      rcases Grouped.mem_groups.mp hg with ⟨m, hm, hdot, rfl⟩ | ⟨name, hname, rfl⟩
      · exact hplain m hm hdot rfl
      · refine placed_related hfits (fun t ht => ?_) (hrelated name hname rfl)
        obtain ⟨m, -, hdotted⟩ := Restriction.mem_termsOn.mp ht
        exact (Restriction.dotted?_eq_some_iff.mp hdotted).2
    have htext : (Condition.all cs).text.toList = "(".toList ++
        ((String.intercalate " AND " (cs.map Condition.text)).toList ++ ")".toList) := by
      simp [Condition.text, Condition.texts_eq_map]
    rw [htext, Condition.parameters_all, Grouped.ofRestriction_and, Grouped.bindings,
      Grouped.bindingsOf_eq_flatMap]
    exact ((Placed.intercalate hparts).followed (by decide)).prepend (by decide)

end Schema

theorem not_mem_intercalate {sep : String} (hsep : '?' ∉ sep.toList) {parts : List String}
    (h : ∀ part ∈ parts, '?' ∉ part.toList) : '?' ∉ (String.intercalate sep parts).toList := by
  induction parts with
  | nil => simp
  | cons part parts ih =>
    rw [List.forall_mem_cons] at h
    cases parts with
    | nil => simpa using h.1
    | cons next parts =>
      have hrest := ih h.2
      rw [String.intercalate_cons_cons, String.toList_append, String.toList_append,
        List.mem_append, List.mem_append]
      rintro ((hin | hin) | hin)
      · exact h.1 hin
      · exact hsep hin
      · exact hrest hin

theorem not_mem_orderText {schema : Schema} (hfits : schema.Fits) {keys : List SortKey}
    {plan : Plan} (h : schema.order keys = .ok plan.order) : '?' ∉ plan.orderText.toList := by
  have hcolumns := (Schema.sortsBy_of_order h).hasColumn hfits
  refine not_mem_intercalate (by decide) (List.forall_mem_map.mpr fun c hc => ?_)
  have hcolumn := not_mem_of_hasColumn (hcolumns c hc)
  have hkeyword : '?' ∉ c.2.keyword.toList := by cases c.2 <;> decide
  simp [hcolumn, hkeyword]

theorem Spec.exists_slots {schema : Schema} (hfits : schema.Fits) {spec : Spec} {plan : Plan}
    (h : spec.plan schema = .ok plan) :
    ∃ slots, Spread slots plan.condition.text.toList ∧
      plan.condition.parameters = slots.map Slot.parameter ∧
      (∀ s ∈ slots, schema.IsSlot spec.aliases s) ∧
      (slots.map Slot.comparison).Perm
        (spec.restriction.toList.flatMap Restriction.bindings) := by
  obtain ⟨hnone, hsome, -⟩ := of_plan h
  cases hr : spec.restriction with
  | none =>
    rw [hnone hr]
    exact ⟨[], .done (by decide), rfl, by simp, by simp⟩
  | some r =>
    obtain ⟨slots, hspread, hparameters, hslots, hbound⟩ :=
      Schema.placed_condition hfits (hsome r hr)
    refine ⟨slots, hspread, hparameters, hslots, ?_⟩
    rw [hbound]
    simpa using (Grouped.perm_bindings r).1

/-- What operands hold reaches the parameters alone: specifications of one form have the same texts.
The question marks of a condition and its parameters are those of its comparisons with an operand,
one for one and in the same order. -/
theorem Spec.plan_text_and_parameters :
    (∀ (schema : Schema) (spec spec' : Spec) (plan plan' : Plan), spec.SameForm spec' →
      spec.plan schema = .ok plan → spec'.plan schema = .ok plan' →
      plan.condition.text = plan'.condition.text ∧ plan.orderText = plan'.orderText) ∧
    ∀ (entity : Entity) (spec : Spec) (plan : Plan), spec.plan entity.schema = .ok plan →
      plan.condition.text.toList.count '?' = plan.condition.parameters.length ∧
      '?' ∉ plan.orderText.toList ∧
      ∃ slots, Spread slots plan.condition.text.toList ∧
        plan.condition.parameters = slots.map Slot.parameter ∧
        (∀ s ∈ slots, entity.schema.IsSlot spec.aliases s) ∧
        (slots.map Slot.comparison).Perm
          (spec.restriction.toList.flatMap Restriction.bindings) := by
  refine ⟨fun _ _ _ _ _ hform hplan hplan' => hform.text_eq hplan hplan', ?_⟩
  intro entity spec plan hplan
  have horder := not_mem_orderText entity.schema_fits (of_plan hplan).2.2
  obtain ⟨slots, hspread, hparameters, hslots, hperm⟩ := exists_slots entity.schema_fits hplan
  refine ⟨?_, horder, slots, hspread, hparameters, hslots, hperm⟩
  rw [hspread.count_eq fun s hs => (hslots s hs).1, hparameters, List.length_map]

/-! ## A hostile label -/

/-- Asks for a label between two fields of one interface, which are gathered in front of it. -/
def interfaceSpec (ifName label ifDescr : String) : Spec :=
  ⟨some (.and (.and (.comparison "snmpInterface.ifName" (.relation .eq) (some (.text ifName)))
      (.comparison "label" (.relation .eq) (some (.text label))))
      (.comparison "snmpInterface.ifDescr" (.relation .ne) (some (.text ifDescr)))),
    [], 10, 0, Entity.node.aliases⟩

theorem sameForm_interfaceSpec (a b c a' b' c' : String) :
    (interfaceSpec a b c).SameForm (interfaceSpec a' b' c') :=
  ⟨.some (.and (.and (.comparison (.some (.text a a'))) (.comparison (.some (.text b b'))))
    (.comparison (.some (.text c c')))), rfl, rfl⟩

theorem interfaceSpec_text_and_parameters : ∃ plan plan',
    (interfaceSpec "eth0" "core" "").plan Entity.node.schema = .ok plan ∧
    (interfaceSpec "?" "' OR '1'='1" "--").plan Entity.node.schema = .ok plan' ∧
    plan.condition.text = plan'.condition.text ∧
    plan'.condition.text.toList.count '?' = 3 ∧
    plan'.condition.parameters = ["?", "--", "' OR '1'='1"] := by
  have h (a b c : String) : (interfaceSpec a b c).plan Entity.node.schema = .ok
      ⟨.all [.related false (.owned .snmpInterfaces "node_id") "id"
          [.relation "if_name" .eq (.text a), .relation "if_descr" .ne (.text c)],
        .test (.relation "label" .eq (.text b))], [("id", .asc)]⟩ := by
    rfl
  obtain ⟨htexts, hplaces⟩ := Spec.plan_text_and_parameters
  have htext := htexts _ _ _ _ _ (sameForm_interfaceSpec "eth0" "core" "" "?" "' OR '1'='1" "--")
    (h _ _ _) (h _ _ _)
  have hcount := (hplaces .node _ _ (h "?" "' OR '1'='1" "--")).1
  exact ⟨_, _, h _ _ _, h _ _ _, htext.1, hcount.trans rfl, rfl⟩

end InventorySearch.Search
