import InventorySearch.Proofs.Search.Planning

set_option autoImplicit false

/-!
# Conditions decide restrictions

On a store that keeps its constraints the condition of a plan is true of a row
exactly when the restriction that was planned holds of it, provided the store
can read every literal.
-/
namespace InventorySearch.Search
open Calendar InventorySearch.Filter Restriction Store

/-! ## Comparisons of one column -/

theorem Literal.value?_moment {t : Timestamp} (h : (Literal.moment t).value?.isSome = true) :
    (Literal.moment t).value? = some (.moment t.wholeSecond.micros) := by
  rw [value?] at h ⊢
  split at h
  · next hc => exact if_pos hc
  · simp at h

theorem operandValue?_of_literal? {kind : ScalarKind} {o : Operand} {l : Literal}
    (h : literal? kind o = some l) (hread : l.value?.isSome = true) :
    operandValue? kind o = some l.value := by
  have hvalue : some l.value = l.value? := by
    obtain ⟨v, hv⟩ := Option.isSome_iff_exists.mp hread
    simp [Literal.value, hv]
  rw [hvalue]
  cases kind <;> cases o <;> simp only [literal?, Option.some.injEq, reduceCtorEq] at h
  case text.text s => subst h; rfl
  case integer.integer n => subst h; rfl
  case integer.ordinal n => subst h; rfl
  case integer.reference r => subst h; rfl
  case integer.text s =>
    obtain ⟨n, hn, rfl⟩ := Option.map_eq_some_iff.mp h
    simp [operandValue?, hn, Literal.value?]
  case timestamp.moment t =>
    subst h
    rw [Literal.value?_moment hread, operandValue?]
  case timestamp.text s =>
    obtain ⟨t, ht, rfl⟩ := Option.map_eq_some_iff.mp h
    simp [Literal.value?_moment hread, operandValue?, ht]

def Readable (ls : List Literal) : Prop := ∀ l ∈ ls, l.value?.isSome = true

theorem Condition.readable_iff {c : Condition} : c.readable = true ↔ Readable c.literals := by
  simp [readable, Readable]

theorem Test.eval_eq_some_true {field column : String} {kind : ScalarKind} {op : Comparator}
    {operand : Option Operand} {t : Test} (h : scalarTest field column kind op operand = .ok t)
    (hread : Readable t.literals) (row : Row) :
    t.eval row = some true ↔ ColumnHolds row column kind op operand := by
  cases op with
  | isNull => cases h; simp [eval, ColumnHolds]
  | isNotNull => cases h; simp [eval, ColumnHolds]
  | relation r =>
    obtain ⟨l, hl, rfl⟩ := Except.exists_of_map_eq_ok h
    obtain ⟨o, rfl, hlit⟩ := exists_of_bindLiteral hl
    have hv := operandValue?_of_literal? hlit (hread l (by simp [literals]))
    rw [eval, relate_eq_some_true]
    simp [ColumnHolds, hv]

theorem columnHolds_empty {column : String} {kind : ScalarKind} {op : Comparator}
    {operand : Option Operand} : ColumnHolds ⟨[]⟩ column kind op operand ↔ op = .isNull := by
  have hget : (⟨[]⟩ : Row).get column = .null := rfl
  cases op with
  | isNull => simp [ColumnHolds, hget]
  | isNotNull => simp [ColumnHolds, hget]
  | relation r => simp [ColumnHolds, hget, Relation.OnValues]

/-! ## Associated rows -/

theorem relate_integer_eq_some_true {n : Int} {a b : Value} (h : b = .integer n) :
    relate .eq a b = some true ↔ a = b := by
  rw [relate_eq_eq_some_true]
  refine and_iff_left_of_imp fun hab => ?_
  simp [hab, h]

theorem Source.mem_rows_iff {db : Rows} (hdb : Lawful db) {source : Source} (hfits : source.Fits)
    {key : Value} {k : Int} (hkey : key = .integer k) {c : Row} :
    c ∈ source.rows db key ↔ source.IsChild db key c := by
  cases source with
  | owned table owner => simp [rows, IsChild, relate_integer_eq_some_true hkey]
  | linked link owner member table column =>
    simp only [rows, IsChild, List.mem_flatMap, List.mem_filter, beq_iff_eq,
      relate_integer_eq_some_true hkey]
    constructor
    · rintro ⟨l, ⟨hl, howner⟩, hc, hmember⟩
      exact ⟨hc, l, hl, howner, (relate_eq_eq_some_true.mp hmember).1.symm⟩
    · rintro ⟨hc, l, hl, howner, hmember⟩
      obtain ⟨n, hn⟩ := hdb.exists_integer hfits.2.1 hl
      exact ⟨l, ⟨hl, howner⟩, hc, (relate_integer_eq_some_true hn).mpr hmember.symm⟩

theorem all_map_eval {tests : List Test} {c : Row} :
    Truth.all (tests.map (Test.eval c)) = some true ↔ ∀ t ∈ tests, t.eval c = some true := by
  rw [Truth.all_eq_some_true, List.forall_mem_map]

namespace Schema

theorem eval_tests_iff {a : Association} {path : String} {terms : List Term} {tests : List Test}
    (h : List.Forall₂ (fun t test => childTest a path t = .ok test) terms tests)
    (hread : ∀ test ∈ tests, Readable test.literals) (c : Row) :
    (∀ test ∈ tests, test.eval c = some true) ↔ ∀ t ∈ terms, a.TermHolds c t := by
  induction h with
  | nil => simp
  | cons hab _ ih =>
    obtain ⟨f, hf, htest⟩ := exists_of_childTest hab
    have hhead := Test.eval_eq_some_true htest (hread _ List.mem_cons_self) c
    rw [List.forall_mem_cons, List.forall_mem_cons, hhead,
      ih fun test hin => hread test (List.mem_cons_of_mem _ hin)]
    simp [Association.TermHolds, hf]

theorem termHolds_empty {a : Association} {path : String} {terms : List Term} {tests : List Test}
    (h : List.Forall₂ (fun t test => childTest a path t = .ok test) terms tests) :
    (∀ t ∈ terms, a.TermHolds ⟨[]⟩ t) ↔ ∀ t ∈ terms, t.op = .isNull := by
  refine forall₂_congr fun t ht => ?_
  obtain ⟨test, -, htest⟩ := forall₂_exists_right h ht
  obtain ⟨f, hf, -⟩ := exists_of_childTest htest
  simp [Association.TermHolds, hf, columnHolds_empty]

theorem eval_related_iff {db : Rows} (hdb : Lawful db) {schema : Schema} (hfits : schema.Fits)
    {spec : Spec} {name : String} {terms : List Term} {c : Condition}
    (h : schema.related spec name terms = .ok c) (hread : Readable c.literals) {row : Row}
    (hrow : row ∈ db schema.table) :
    c.eval db row = some true ↔ schema.AliasHolds spec.aliases db row name terms := by
  obtain ⟨link, hlink, a, ha, tests, htests, rfl⟩ := exists_of_related h
  obtain ⟨k, hk⟩ := hdb.exists_integer hfits.key hrow
  have hmem {c : Row} : c ∈ a.source.rows db (row.get schema.key) ↔
      a.source.IsChild db (row.get schema.key) c :=
    Source.mem_rows_iff hdb (hfits.sources a (mem_of_association? ha)) hk
  have hread' : ∀ test ∈ tests, Readable test.literals := fun test hin l hl =>
    hread l (List.mem_flatMap.mpr ⟨test, hin, hl⟩)
  have hnone : (a.source.rows db (row.get schema.key)).isEmpty = true ↔
      ∀ d, ¬ a.source.IsChild db (row.get schema.key) d := by
    rw [List.isEmpty_iff, List.eq_nil_iff_forall_not_mem]
    exact forall_congr' fun d => not_congr hmem
  have hleft : (link.join == .left && terms.all fun t => t.op == .isNull) = true ↔
      link.join = .left ∧ ∀ t ∈ terms, a.TermHolds ⟨[]⟩ t := by
    rw [termHolds_empty htests]
    simp
  rw [Condition.eval, Option.some.injEq, Bool.or_eq_true, Bool.and_eq_true, hnone, hleft,
    List.any_eq_true]
  simp only [beq_iff_eq, all_map_eval, eval_tests_iff htests hread', hmem]
  constructor
  · rintro (⟨c, hchild, hterms⟩ | ⟨⟨hjoin, hterms⟩, hempty⟩)
    · exact ⟨link, hlink, a, ha, c, .inl hchild, hterms⟩
    · exact ⟨link, hlink, a, ha, ⟨[]⟩, .inr ⟨hjoin, hempty, rfl⟩, hterms⟩
  · rintro ⟨link', hlink', a', ha', c, hc, hterms⟩
    obtain rfl : link = link' := Option.some.inj (hlink.symm.trans hlink')
    obtain rfl : a = a' := Option.some.inj (ha.symm.trans ha')
    rcases hc with hchild | ⟨hjoin, hempty, rfl⟩
    · exact .inl ⟨c, hchild, hterms⟩
    · exact .inr ⟨⟨hjoin, hterms⟩, hempty⟩

/-! ## Memberships -/

/-- Among numbers "in" is never unknown. -/
theorem any_map_relate {k : Int} {links : List Row} {owner : String}
    (h : ∀ l ∈ links, ∃ n, l.get owner = .integer n) :
    Truth.any (links.map fun l => relate .eq (.integer k) (l.get owner)) =
      some (links.any fun l => l.get owner == .integer k) := by
  cases hany : links.any fun l => l.get owner == .integer k with
  | true =>
    obtain ⟨l, hl, hk⟩ := List.any_eq_true.mp hany
    refine Truth.any_eq_some_true.mpr (List.mem_map.mpr ⟨l, hl, ?_⟩)
    rw [beq_iff_eq.mp hk, relate_eq_integers, decide_eq_true rfl]
  | false =>
    refine Truth.any_eq_some_false.mpr (List.forall_mem_map.mpr fun l hl => ?_)
    obtain ⟨n, hn⟩ := h l hl
    have hne : k ≠ n := fun heq => List.any_eq_false.mp hany l hl (by simp [hn, heq])
    rw [hn, relate_eq_integers, decide_eq_false hne]

theorem eval_membership_iff {db : Rows} (hdb : Lawful db) {schema : Schema}
    (hkey : schema.table.HasNumber schema.key) {link : Table} {owner member : String}
    (howner : link.HasNumber owner) (hmember : link.HasNumber member) {field : String}
    {op : Comparator} {operand : Option Operand} {c : Condition}
    (h : schema.membership field link owner member op operand = .ok c)
    (hread : Readable c.literals) {row : Row} (hrow : row ∈ db schema.table) :
    c.eval db row = some true ↔ schema.MembershipHolds db row link owner member op operand := by
  obtain ⟨k, hk⟩ := hdb.exists_integer hkey hrow
  have hlinks {links : List Row} (hsub : ∀ l ∈ links, l ∈ db link) :
      ∀ l ∈ links, ∃ n, l.get owner = .integer n :=
    fun l hl => hdb.exists_integer howner (hsub l hl)
  cases op with
  | isNull =>
    cases h
    simp [Condition.eval, MembershipHolds, hk, any_map_relate (hlinks fun l hl => hl)]
  | isNotNull =>
    cases h
    simp [Condition.eval, MembershipHolds, hk, any_map_relate (hlinks fun l hl => hl)]
  | relation r =>
    by_cases hr : r.isOrdering = true
    · simp [membership, hr] at h
    rw [membership, if_neg hr] at h
    obtain ⟨l, hl, rfl⟩ := Except.exists_of_map_eq_ok h
    obtain ⟨o, rfl, hlit⟩ := exists_of_bindLiteral hl
    have hv := operandValue?_of_literal? hlit (hread l (by simp [Condition.literals]))
    have hchosen : ((db link).filter fun x => relate .eq (x.get member) l.value == some true) =
        (db link).filter fun x => x.get member == l.value := by
      refine List.filter_congr fun x hx => ?_
      obtain ⟨n, hn⟩ := hdb.exists_integer hmember hx
      have hne : x.get member ≠ .null := by simp [hn]
      rw [Bool.eq_iff_iff, beq_iff_eq, beq_iff_eq, relate_eq_eq_some_true, and_iff_left hne]
    have hfound := any_map_relate (k := k)
      (hlinks fun x (hx : x ∈ (db link).filter fun x => x.get member == l.value) =>
        (List.mem_filter.mp hx).1)
    have hlinked : (((db link).filter fun x => x.get member == l.value).any fun x =>
        x.get owner == .integer k) = true ↔
        ∃ x ∈ db link, x.get owner = row.get schema.key ∧ x.get member = l.value := by
      simp [hk, and_comm]
    rw [Condition.eval]
    simp only [hchosen, hk, hfound]
    simp only [MembershipHolds, Option.mem_def, Option.some.injEq, exists_eq_left', hv, ← hlinked]
    generalize ((db link).filter fun x => x.get member == l.value).any _ = found
    cases r with
    | eq => simp
    | ne => simp [Truth.not]
    | lt => exact absurd rfl hr
    | le => exact absurd rfl hr
    | gt => exact absurd rfl hr
    | ge => exact absurd rfl hr

/-! ## Whole restrictions -/

theorem eval_plain_iff {db : Rows} (hdb : Lawful db) {schema : Schema} (hfits : schema.Fits)
    {field : String} {op : Comparator} {operand : Option Operand} {c : Condition}
    (h : schema.plain field op operand = .ok c) (hread : Readable c.literals) {row : Row}
    (hrow : row ∈ db schema.table) :
    c.eval db row = some true ↔ schema.FieldHolds db row field op operand := by
  obtain ⟨⟨fieldName, column, kind⟩, hf, hc⟩ := exists_of_plain h
  have hfield := hfits.fields _ (mem_of_field? hf)
  simp only [FieldHolds, hf, Option.mem_def, Option.some.injEq, exists_eq_left']
  cases kind with
  | scalar kind =>
    obtain ⟨t, ht, rfl⟩ := hc
    exact Test.eval_eq_some_true ht hread row
  | membership link owner member =>
    exact eval_membership_iff hdb hfits.key hfield.1 hfield.2 hc hread hrow

end Schema

theorem Condition.evalAll_eq_some_true {db : Rows} {row : Row} {cs : List Condition} :
    evalAll db row cs = some true ↔ ∀ c ∈ cs, c.eval db row = some true := by
  induction cs with
  | nil => simp [evalAll]
  | cons c cs ih => rw [evalAll, Truth.and_eq_some_true, ih, List.forall_mem_cons]

theorem Schema.eval_condition_iff {db : Rows} (hdb : Lawful db) {schema : Schema}
    (hfits : schema.Fits) {spec : Spec} {r : Restriction} {c : Condition}
    (h : schema.condition spec (Grouped.ofRestriction r) = .ok c) (hread : Readable c.literals)
    {row : Row} (hrow : row ∈ db schema.table) :
    c.eval db row = some true ↔ r.Holds schema spec.aliases db row := by
  refine @condition_induct schema spec (fun r c => Readable c.literals →
    (c.eval db row = some true ↔ r.Holds schema spec.aliases db row)) ?_ ?_ ?_ ?_ r c h hread
  · intro field op operand c hdot h hread
    rw [Restriction.Holds, hdot]
    exact eval_plain_iff hdb hfits h hread hrow
  · intro field op operand name term c hdot h hread
    rw [Restriction.Holds, hdot]
    exact eval_related_iff hdb hfits h hread hrow
  · intro left right cl cr hl hr hread
    have hleft := hl fun l hin => hread l (List.mem_append_left _ hin)
    have hright := hr fun l hin => hread l (List.mem_append_right _ hin)
    rw [Condition.eval, Truth.or_eq_some_true, hleft, hright, Restriction.Holds]
  · intro left right cs hcs hread
    have hread' : ∀ c ∈ cs, Readable c.literals := by
      rw [Condition.literals, Condition.literalsOf_eq_flatMap] at hread
      exact fun c hc l hin => hread l (List.mem_flatMap.mpr ⟨c, hc, hin⟩)
    rw [Condition.eval, Condition.evalAll_eq_some_true, Restriction.Holds]
    constructor
    · intro hall
      refine ⟨fun m hm hdot => ?_, fun name hname => ?_⟩
      · obtain ⟨c, hc, hplain, -⟩ :=
          forall₂_exists_right hcs (Grouped.mem_groups.mpr (.inl ⟨m, hm, hdot, rfl⟩))
        exact (hplain m hm hdot rfl (hread' c hc)).mp (hall c hc)
      · obtain ⟨c, hc, -, hrelated⟩ :=
          forall₂_exists_right hcs (Grouped.mem_groups.mpr (.inr ⟨name, hname, rfl⟩))
        have hrel := hrelated name hname rfl
        exact (eval_related_iff hdb hfits hrel (hread' c hc) hrow).mp (hall c hc)
    · rintro ⟨hplains, haliases⟩ c hc
      obtain ⟨g, hg, hplain, hrelated⟩ := forall₂_exists_left hcs hc
      rcases Grouped.mem_groups.mp hg with ⟨m, hm, hdot, heq⟩ | ⟨name, hname, heq⟩
      · exact (hplain m hm hdot heq (hread' c hc)).mpr (hplains m hm hdot)
      · have hrel := hrelated name hname heq
        exact (eval_related_iff hdb hfits hrel (hread' c hc) hrow).mpr (haliases name hname)

/-- A row is found by a plan exactly when the specification asks for it. -/
theorem Spec.eval_plan_iff {db : Rows} (hdb : Lawful db) {schema : Schema} (hfits : schema.Fits)
    {spec : Spec} {plan : Plan} (h : spec.plan schema = .ok plan)
    (hread : plan.condition.readable = true) {row : Row} (hrow : row ∈ db schema.table) :
    plan.condition.eval db row = some true ↔ spec.Selects schema db row := by
  obtain ⟨hnone, hsome, -⟩ := of_plan h
  cases hr : spec.restriction with
  | none => simp [hnone hr, Condition.eval, Selects, hr]
  | some r =>
    rw [Schema.eval_condition_iff hdb hfits (hsome r hr) (Condition.readable_iff.mp hread) hrow]
    simp [Selects, hr]

end InventorySearch.Search
