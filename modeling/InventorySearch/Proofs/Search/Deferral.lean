import InventorySearch.Proofs.Search.Settling

set_option autoImplicit false

/-!
# Early and late coercion

A field without a rule keeps its literals as texts, and planning reads them where the
column behind the field asks for a number or an instant. For a rule that reads literals
as the column does it makes no difference whether a table has it: the same requests
have a plan, and it is the same plan. Only how a request is refused tells them apart.
-/
namespace InventorySearch.Filter
open Search

/-- Reading literals as a column of the kind reads texts. -/
inductive Rule.Reads : Rule → ScalarKind → Prop
  | integer : Rule.Reads .integer .integer
  | timestamp : Rule.Reads .timestamp .timestamp

namespace Rule.Reads
variable {rule : Rule} {kind : ScalarKind} {lookup : Lookup} {field literal : String}

theorem coerce_eq_ok_iff (h : rule.Reads kind) {o : Operand} :
    rule.coerce lookup field literal = .ok o ↔
      ∃ l, literal? kind (.text literal) = some l ∧ l.operand = o := by
  cases h with
  | integer =>
    rw [coerce, literal?]
    cases Text.Numeral.int64? literal <;> simp [orFault, Except.map, Literal.operand]
  | timestamp =>
    rw [coerce, literal?]
    cases Calendar.Timestamp.read? literal.toList <;>
      simp [orFault, Except.map, Literal.operand]

theorem exists_coerce_eq_error (h : rule.Reads kind)
    (hliteral : literal? kind (.text literal) = none) :
    ∃ message, rule.coerce lookup field literal = .error (.coercion field message) := by
  cases h with
  | integer =>
    refine ⟨CoercionFault.integer.message field literal, ?_⟩
    rw [coerce, Option.map_eq_none_iff.mp hliteral]
    rfl
  | timestamp =>
    refine ⟨CoercionFault.timestamp.message field literal, ?_⟩
    rw [coerce, Option.map_eq_none_iff.mp hliteral]
    rfl

end Rule.Reads
end InventorySearch.Filter

namespace InventorySearch.Search
open InventorySearch.Filter Restriction

/-- Ending in one literal when the text is coerced first and when it is read late, or else in an
error of the coercion and in one of the execution. -/
def Agrees (lookup : Lookup) (rule : Rule) (kind : ScalarKind) (field literal : String) : Prop :=
  (∃ o l, rule.coerce lookup field literal = .ok o ∧ bindLiteral field kind (some o) = .ok l ∧
    bindLiteral field kind (some (.text literal)) = .ok l) ∨
  ∃ early late message, rule.coerce lookup field literal = .error (.coercion field early) ∧
    bindLiteral field kind (some (.text literal)) = .error late ∧
    late.toError = .execution message

theorem agrees_of_reads {rule : Rule} {kind : ScalarKind} (h : rule.Reads kind) (lookup : Lookup)
    (field literal : String) : Agrees lookup rule kind field literal := by
  cases hliteral : literal? kind (.text literal) with
  | none =>
    obtain ⟨early, hearly⟩ := h.exists_coerce_eq_error hliteral
    exact .inr ⟨early, _, _, hearly, by rw [bindLiteral, hliteral], rfl⟩
  | some l =>
    refine .inl ⟨l.operand, l, h.coerce_eq_ok_iff.mpr ⟨l, hliteral, rfl⟩, ?_, ?_⟩
    · rw [bindLiteral, literal?_operand hliteral]
    · rw [bindLiteral, hliteral]

/-! ## Rule tables -/

namespace Schema

/-- Whether two tables have one rule for each field, except that a rule of either may be missing in
the other where it reads literals as the column behind its field does. -/
def Interchangeable (schema : Schema) (aliases : List Alias) (rules rules' : RuleTable) : Prop :=
  ∀ field, rules.lookup field = rules'.lookup field ∨
    ∃ rule kind, rule.Reads kind ∧ schema.fieldKind? aliases field = some (.scalar kind) ∧
      (rules.lookup field = some rule ∧ rules'.lookup field = none ∨
        rules.lookup field = none ∧ rules'.lookup field = some rule)

variable {schema : Schema} {aliases : List Alias} {rules rules' : RuleTable} {lookup : Lookup}

theorem Interchangeable.symm (h : schema.Interchangeable aliases rules rules') :
    schema.Interchangeable aliases rules' rules := by
  intro field
  rcases h field with heq | ⟨rule, kind, hreads, hkind, hrules⟩
  · exact .inl heq.symm
  · exact .inr ⟨rule, kind, hreads, hkind, hrules.symm.imp And.symm And.symm⟩

/-- A literal that one table lets through to its column is let through by the other, as an operand
that is the same there. -/
theorem Interchangeable.exists_operand (h : schema.Interchangeable aliases rules rules')
    {field literal : String} {r : Relation} {o : Operand}
    (hcoerced : coercer rules lookup field literal = .ok o)
    (hfit : ¬ schema.Faulty aliases (.comparison field (.relation r) (some o))) :
    ∃ o', coercer rules' lookup field literal = .ok o' ∧
      ¬ schema.Faulty aliases (.comparison field (.relation r) (some o')) ∧
      schema.settle aliases field o' = schema.settle aliases field o := by
  unfold coercer at hcoerced ⊢
  rcases h field with heq | ⟨rule, kind, hreads, hkind, ⟨hrule, hnone⟩ | ⟨hnone, hrule⟩⟩
  · exact ⟨o, heq ▸ hcoerced, hfit, rfl⟩
  · rw [hrule] at hcoerced
    obtain ⟨l, hl, rfl⟩ := hreads.coerce_eq_ok_iff.mp hcoerced
    refine ⟨.text literal, by rw [hnone], ?_, ?_⟩
    · rw [faulty_relation_iff hkind, not_not, Operand.fits_iff]
      exact ⟨l, hl⟩
    · rw [settle_scalar hkind, settleAs_eq hl, settleAs_eq (literal?_operand hl)]
  · rw [hnone] at hcoerced
    obtain rfl := Except.ok.inj hcoerced
    rw [faulty_relation_iff hkind, not_not, Operand.fits_iff] at hfit
    obtain ⟨l, hl⟩ := hfit
    refine ⟨l.operand, by rw [hrule]; exact hreads.coerce_eq_ok_iff.mpr ⟨l, hl, rfl⟩, ?_, ?_⟩
    · rw [faulty_relation_iff hkind, not_not, Operand.fits_iff]
      exact ⟨l, literal?_operand hl⟩
    · rw [settle_scalar hkind, settleAs_eq hl, settleAs_eq (literal?_operand hl)]

theorem Interchangeable.exists_leaf (h : schema.Interchangeable aliases rules rules')
    {fragment : List Char} {leaf : Restriction}
    (hleaf : Primitive.IsLeaf (coercer rules lookup) fragment leaf)
    (hfit : ¬ schema.Faulty aliases leaf) :
    ∃ leaf', Primitive.IsLeaf (coercer rules' lookup) fragment leaf' ∧
      ¬ schema.Faulty aliases leaf' ∧
      leaf'.mapOperands (schema.settle aliases) = leaf.mapOperands (schema.settle aliases) := by
  cases hleaf with
  | test shape asked => exact ⟨_, .test shape asked, hfit, rfl⟩
  | relation shape plain coerced =>
    obtain ⟨o', hcoerced, hfit', hsettled⟩ := h.exists_operand coerced hfit
    refine ⟨_, .relation shape plain hcoerced, hfit', ?_⟩
    rw [mapOperands, mapOperands, Option.map_some, Option.map_some, hsettled]

theorem Interchangeable.exists_parse (h : schema.Interchangeable aliases rules rules')
    {query : String} {r : Restriction} (hparse : parse (coercer rules lookup) query = .ok r)
    (hfit : ∀ leaf ∈ r.leaves, ¬ schema.Faulty aliases leaf) :
    ∃ r', parse (coercer rules' lookup) query = .ok r' ∧
      (∀ leaf ∈ r'.leaves, ¬ schema.Faulty aliases leaf) ∧
      r'.mapOperands (schema.settle aliases) = r.mapOperands (schema.settle aliases) := by
  obtain ⟨p, hp⟩ := exists_phrase_of_readExpression 0 query.toList r hparse
  obtain ⟨hleaf, rfl⟩ := tree_of_parse hp hparse
  rw [p.leaves_tree fun f hf => leaves_of_isLeaf (hleaf f hf), List.forall_mem_map] at hfit
  have hleaf' : ∀ f ∈ p.fragments,
      Primitive.IsLeaf (coercer rules' lookup) f.chars (leafOf (coercer rules' lookup) f.chars) ∧
      ¬ schema.Faulty aliases (leafOf (coercer rules' lookup) f.chars) ∧
      (leafOf (coercer rules' lookup) f.chars).mapOperands (schema.settle aliases) =
        (leafOf (coercer rules lookup) f.chars).mapOperands (schema.settle aliases) := by
    intro f hf
    obtain ⟨leaf', hleaf', hrest⟩ := h.exists_leaf (hleaf f hf) (hfit f hf)
    rw [leafOf_eq hleaf']
    exact ⟨hleaf', hrest⟩
  refine ⟨p.tree (leafOf (coercer rules' lookup)), ?_, ?_, ?_⟩
  · exact parse_of_accepted hp fun f hf => Primitive.accepted_iff.mpr ⟨_, (hleaf' f hf).1⟩
  · rw [p.leaves_tree fun f hf => leaves_of_isLeaf (hleaf' f hf).1, List.forall_mem_map]
    exact fun f hf => (hleaf' f hf).2.1
  · exact p.mapOperands_tree fun f hf => (hleaf' f hf).2.2

theorem condition_of_settled_eq {spec : Spec} {r r' : Restriction} {c : Condition}
    (hc : schema.condition spec (Grouped.ofRestriction r) = .ok c)
    (heq : r'.mapOperands (schema.settle spec.aliases) =
      r.mapOperands (schema.settle spec.aliases))
    (hcomplete : ∀ leaf ∈ r'.leaves, leaf.Complete)
    (hfit : ∀ leaf ∈ r'.leaves, ¬ schema.Faulty spec.aliases leaf) :
    schema.condition spec (Grouped.ofRestriction r') = .ok c := by
  obtain ⟨c', hc'⟩ := (decides_condition spec hcomplete).ok_iff.mpr hfit
  have hsettled := condition_settled hc'
  rw [heq, condition_settled hc] at hsettled
  rw [hc', Except.ok.inj hsettled]

end Schema

/-! ## Requests -/

namespace Entity

/-- The plan of a request, if it is neither refused by the parser nor by planning. -/
def plan? (entity : Entity) (schema : Schema) (coerce : Coercer) (request : Request) :
    Option Plan :=
  (assemble entity coerce request).toOption.bind fun spec => (spec.plan schema).toOption

theorem plan?_eq_some_iff {entity : Entity} {schema : Schema} {coerce : Coercer}
    {request : Request} {plan : Plan} : entity.plan? schema coerce request = some plan ↔
      ∃ spec, assemble entity coerce request = .ok spec ∧ spec.plan schema = .ok plan := by
  simp only [plan?, Option.bind_eq_some_iff, Except.toOption_eq_some_iff]

variable {entity : Entity} {schema : Schema} {rules rules' : RuleTable} {lookup : Lookup}

theorem plan?_of_interchangeable (h : schema.Interchangeable entity.aliases rules rules')
    {request : Request} {plan : Plan}
    (hplan : entity.plan? schema (coercer rules lookup) request = some plan) :
    entity.plan? schema (coercer rules' lookup) request = some plan := by
  rw [plan?_eq_some_iff] at hplan ⊢
  obtain ⟨spec, hassemble, hplan⟩ := hplan
  rw [assemble_eq] at hassemble ⊢
  by_cases hquery : request.query = ""
  · rw [if_pos hquery] at hassemble ⊢
    exact ⟨spec, hassemble, hplan⟩
  · rw [if_neg hquery] at hassemble ⊢
    obtain ⟨r, hr, rfl⟩ := Except.exists_of_map_eq_ok hassemble
    obtain ⟨-, hcondition, horder⟩ := Spec.of_plan hplan
    have hfit := (Schema.decides_condition _ (complete_of_parse hr)).ok_iff.mp
      ⟨_, hcondition r rfl⟩
    obtain ⟨r', hr', hfit', hsettled⟩ := h.exists_parse hr hfit
    have hcondition' := Schema.condition_of_settled_eq (hcondition r rfl) hsettled
      (complete_of_parse hr') hfit'
    rw [hr']
    refine ⟨_, rfl, Spec.plan_eq_ok rfl ?_ horder⟩
    rw [← hcondition']
    apply Schema.condition_congr
    rfl

/-- Whether a rule is in the table or its literals are left to the column behind the field, a
request has the same plan, with its text and its parameters, or none. -/
theorem plan?_interchangeable (entity : Entity) (schema : Schema) (lookup : Lookup)
    (request : Request) (rules rules' : RuleTable) :
    (schema.Interchangeable entity.aliases rules rules' →
      entity.plan? schema (coercer rules lookup) request =
        entity.plan? schema (coercer rules' lookup) request) ∧
    ∀ rule kind, rule.Reads kind → ∀ field literal, Agrees lookup rule kind field literal := by
  refine ⟨fun h => ?_, fun rule kind hreads => agrees_of_reads hreads lookup⟩
  apply Option.ext
  intro plan
  exact ⟨plan?_of_interchangeable h, plan?_of_interchangeable h.symm⟩

/-! ### Events by a signed number -/

def numberedRules : RuleTable := ("id", .integer) :: Entity.event.rules

def signedSeven : Request := ⟨"id==+007", 10, 0, "", .asc⟩

theorem interchangeable_numberedRules : Entity.event.schema.Interchangeable Entity.event.aliases
    Entity.event.rules numberedRules := by
  intro field
  by_cases hid : field = "id"
  · subst hid
    exact .inr ⟨.integer, .integer, .integer, rfl, .inr ⟨rfl, rfl⟩⟩
  · refine .inl (Eq.symm ?_)
    rw [numberedRules, List.lookup_cons, beq_eq_false_iff_ne.mpr hid]

def planOfSeven : Plan :=
  ⟨.test (.relation "event_id" .eq (.integer 7)), [("event_time", .asc), ("event_id", .asc)]⟩

theorem plan?_signedSeven :
    Entity.event.schema.Interchangeable Entity.event.aliases Entity.event.rules numberedRules ∧
    Entity.event.plan? Entity.event.schema (coercer Entity.event.rules anyCategory) signedSeven =
      some planOfSeven ∧
    Entity.event.plan? Entity.event.schema (coercer numberedRules anyCategory) signedSeven =
      some planOfSeven := by
  have hleaf : Primitive.IsLeaf (coercer Entity.event.rules anyCategory)
      signedSeven.query.toList (.comparison "id" (.relation .eq) (some (.text "+007"))) :=
    @Primitive.IsLeaf.relation _ _ _ "+007" _ _
      ⟨by simp [Primitive.IsSide], by simp [Primitive.IsSide], by decide⟩ rfl rfl
  have hassemble := assemble_eq .event (coercer Entity.event.rules anyCategory) signedSeven
  rw [if_neg (by decide), parse_of_isLeaf (by decide) hleaf] at hassemble
  have hlate : Entity.event.plan? Entity.event.schema (coercer Entity.event.rules anyCategory)
      signedSeven = some planOfSeven := plan?_eq_some_iff.mpr ⟨_, hassemble, rfl⟩
  have hsame := (plan?_interchangeable .event Entity.event.schema anyCategory signedSeven
    Entity.event.rules numberedRules).1 interchangeable_numberedRules
  exact ⟨interchangeable_numberedRules, hlate, hsame ▸ hlate⟩

end Entity
end InventorySearch.Search
