import InventorySearch.Proofs.Filter.Alternatives
import InventorySearch.Proofs.Filter.Decomposition

set_option autoImplicit false

/-!
# Writing trees

A tree is written as an expression with brackets only where precedence asks for them,
and what is written is read back as the same tree. The brackets on the right of an "and"
also keep trees apart that differ only in how their units are nested.
-/
namespace InventorySearch.Filter

variable {coerce : Coercer}

/-! ## Leaves -/

/-- Whether a filter can ask for a leaf: for a value of a field, or how its value is related to one
that the coercer gives for a literal. -/
inductive Expressible (coerce : Coercer) : Restriction → Prop
  | isNull {field : String} (field_free : IsFree field) :
      Expressible coerce (.comparison field .isNull none)
  | isNotNull {field : String} (field_free : IsFree field) :
      Expressible coerce (.comparison field .isNotNull none)
  | relation {field literal : String} {r : Relation} {operand : Operand}
      (field_free : IsFree field) (literal_free : IsFree literal)
      (no_sentinel : r.isOrdering = false →
        Text.sameLetters literal "null" = false ∧ Text.sameLetters literal "notNull" = false)
      (coerced : coerce field literal = .ok operand) :
      Expressible coerce (.comparison field (.relation r) (some operand))

inductive Spelled (coerce : Coercer) : Restriction → List Char → Prop
  | test {field literal : String} {r : Relation} {test : Comparator} (field_free : IsFree field)
      (asked : Primitive.sentinel? r literal = some test) :
      Spelled coerce (.comparison field test none)
        (field.toList ++ Primitive.operator r ++ literal.toList)
  | relation {field literal : String} {r : Relation} {operand : Operand}
      (field_free : IsFree field) (literal_free : IsFree literal)
      (no_sentinel : Primitive.sentinel? r literal = none)
      (coerced : coerce field literal = .ok operand) :
      Spelled coerce (.comparison field (.relation r) (some operand))
        (field.toList ++ Primitive.operator r ++ literal.toList)

theorem isFree_of_sameLetters {literal word : String} (h : Text.sameLetters literal word = true)
    (hne : word ≠ "")
    (hword : (['=', '(', ')', ';', ','].all fun c =>
      decide (c.toLower ∉ word.toList.map Char.toLower)) = true) : IsFree literal := by
  have hsame : literal.toList.map Char.toLower = word.toList.map Char.toLower := by
    simpa [Text.sameLetters] using h
  refine ⟨?_, fun c hc hmem => ?_⟩
  · rintro rfl
    exact hne (by simpa using hsame.symm)
  · exact of_decide_eq_true (List.all_eq_true.mp hword c hmem) (hsame ▸ List.mem_map_of_mem hc)

theorem isFree_of_sentinel {r : Relation} {literal : String} {test : Comparator}
    (h : Primitive.sentinel? r literal = some test) : IsFree literal := by
  obtain ⟨s, hs, -⟩ := Option.map_eq_some_iff.mp h
  have hletters : Text.sameLetters literal s.2.1 = true := by
    have hfound := List.find?_some hs
    simp only [Bool.and_eq_true] at hfound
    exact hfound.2
  have hword : s.2.1 = "null" ∨ s.2.1 = "notNull" := by
    have hmem := List.mem_of_find?_eq_some hs
    simp only [Primitive.sentinels, List.mem_cons, List.not_mem_nil, or_false] at hmem
    rcases hmem with rfl | rfl | rfl | rfl
    · exact .inl rfl
    · exact .inr rfl
    · exact .inl rfl
    · exact .inr rfl
  rcases hword with hword | hword
  · exact isFree_of_sameLetters (hword ▸ hletters) (by decide) (by decide)
  · exact isFree_of_sameLetters (hword ▸ hletters) (by decide) (by decide)

theorem sentinel?_eq_none {r : Relation} {literal : String} (h : r.isOrdering = false →
    Text.sameLetters literal "null" = false ∧ Text.sameLetters literal "notNull" = false) :
    Primitive.sentinel? r literal = none := by
  rw [← Primitive.nullTest?_eq_sentinel?]
  cases r with
  | eq | ne =>
    obtain ⟨hnull, hnot⟩ := h rfl
    simp [Primitive.nullTest?, hnull, hnot]
  | lt | le | gt | ge => rfl

theorem Expressible.exists_spelled {leaf : Restriction} (h : Expressible coerce leaf) :
    ∃ text, Spelled coerce leaf text := by
  cases h with
  | isNull field_free => exact ⟨_, @Spelled.test coerce _ "null" .eq _ field_free (by decide)⟩
  | isNotNull field_free => exact ⟨_, @Spelled.test coerce _ "null" .ne _ field_free (by decide)⟩
  | relation field_free literal_free no_sentinel coerced =>
    exact ⟨_, .relation field_free literal_free (sentinel?_eq_none no_sentinel) coerced⟩

theorem isPlain_operator (r : Relation) : ∀ c ∈ Primitive.operator r, isPlain c = true := by
  cases r <;> exact List.all_eq_true.mp rfl

section
variable {field literal : String}

def comparisonFragment (hfield : IsFree field) (r : Relation) (hliteral : IsFree literal) :
    Fragment where
  chars := field.toList ++ Primitive.operator r ++ literal.toList
  nonempty := by simp [hfield.1]
  plain := by
    intro c hc
    rw [List.mem_append, List.mem_append] at hc
    rcases hc with (hin | hin) | hin
    · exact hfield.isPlain c hin
    · exact isPlain_operator r c hin
    · exact hliteral.isPlain c hin

theorem isShape_comparisonFragment (hfield : IsFree field) (r : Relation)
    (hliteral : IsFree literal) :
    Primitive.IsShape (comparisonFragment hfield r hliteral).chars field r literal :=
  ⟨hfield.isSide, hliteral.isSide, rfl⟩

end

theorem Spelled.exists_fragment {leaf : Restriction} {text : List Char}
    (h : Spelled coerce leaf text) :
    ∃ f : Fragment, f.chars = text ∧ Primitive.IsLeaf coerce f.chars leaf := by
  cases h with
  | @test field literal r test field_free asked =>
    have shape := isShape_comparisonFragment field_free r (isFree_of_sentinel asked)
    exact ⟨_, rfl, .test shape asked⟩
  | @relation field literal r operand field_free literal_free no_sentinel coerced =>
    have shape := isShape_comparisonFragment field_free r literal_free
    exact ⟨_, rfl, .relation shape no_sentinel coerced⟩

/-! ## Trees -/

def Restriction.isLeaf : Restriction → Bool
  | .comparison .. => true
  | _ => false

def Restriction.isOr : Restriction → Bool
  | .or .. => true
  | _ => false

def bracketIf (needed : Bool) (text : List Char) : List Char :=
  if needed then '(' :: text ++ [')'] else text

/-- How a tree is written with the brackets that precedence asks for and no others. -/
inductive Written (coerce : Coercer) : Restriction → List Char → Prop
  | leaf {field : String} {op : Comparator} {operand : Option Operand} {text : List Char}
      (spelled : Spelled coerce (.comparison field op operand) text) :
      Written coerce (.comparison field op operand) text
  | and {left right : Restriction} {l r : List Char} (hleft : Written coerce left l)
      (hright : Written coerce right r) :
      Written coerce (.and left right) (bracketIf left.isOr l ++ ';' :: bracketIf (!right.isLeaf) r)
  | or {left right : Restriction} {l r : List Char} (hleft : Written coerce left l)
      (hright : Written coerce right r) :
      Written coerce (.or left right) (l ++ ',' :: bracketIf right.isOr r)

theorem exists_written {tree : Restriction} (h : ∀ leaf ∈ tree.leaves, Expressible coerce leaf) :
    ∃ text, Written coerce tree text := by
  induction tree with
  | comparison field op operand =>
    obtain ⟨text, hspelled⟩ := (h _ (List.mem_singleton_self _)).exists_spelled
    exact ⟨text, .leaf hspelled⟩
  | and left right ihl ihr =>
    obtain ⟨l, hl⟩ := ihl fun leaf hleaf => h leaf (List.mem_append_left _ hleaf)
    obtain ⟨r, hr⟩ := ihr fun leaf hleaf => h leaf (List.mem_append_right _ hleaf)
    exact ⟨_, .and hl hr⟩
  | or left right ihl ihr =>
    obtain ⟨l, hl⟩ := ihl fun leaf hleaf => h leaf (List.mem_append_left _ hleaf)
    obtain ⟨r, hr⟩ := ihr fun leaf hleaf => h leaf (List.mem_append_right _ hleaf)
    exact ⟨_, .or hl hr⟩

structure Derives (coerce : Coercer) (p : Phrase) (text : List Char) (tree : Restriction) :
    Prop where
  chars : p.chars = text
  accepted : ∀ f ∈ p.fragments, Primitive.Accepted coerce f.chars
  tree_eq : p.tree (leafOf coerce) = tree

section
variable {p q : Phrase} {f : Factor} {text l r : List Char} {tree left right : Restriction}

theorem Derives.bracket (h : Derives coerce p text tree) :
    Derives coerce (.last (.group p)) ('(' :: text ++ [')']) tree :=
  ⟨by rw [Phrase.chars, Factor.chars, h.chars], h.accepted, h.tree_eq⟩

theorem Derives.and (hp : p.IsRun) (hl : Derives coerce p l left)
    (hr : Derives coerce (.last f) r right) :
    Derives coerce (p.append .and (.last f)) (l ++ ';' :: r) (.and left right) := by
  refine ⟨?_, ?_, ?_⟩
  · rw [Phrase.chars_append, hl.chars, hr.chars]
    rfl
  · rw [Phrase.fragments_append]
    exact List.forall_mem_append.mpr ⟨hl.accepted, hr.accepted⟩
  · have htree := hr.tree_eq
    rw [Phrase.tree_last] at htree
    rw [Phrase.tree_append_and hp, hl.tree_eq, htree]

theorem Derives.or (hq : q.IsRun) (hl : Derives coerce p l left) (hr : Derives coerce q r right) :
    Derives coerce (p.append .or q) (l ++ ',' :: r) (.or left right) := by
  refine ⟨?_, ?_, ?_⟩
  · rw [Phrase.chars_append, hl.chars, hr.chars]
    rfl
  · rw [Phrase.fragments_append]
    exact List.forall_mem_append.mpr ⟨hl.accepted, hr.accepted⟩
  · rw [Phrase.tree_append_or hq, hl.tree_eq, hr.tree_eq]

theorem Derives.exists_run {needed : Bool} (h : Derives coerce p text tree)
    (hrun : needed = false → p.IsRun) :
    ∃ q, Derives coerce q (bracketIf needed text) tree ∧ q.IsRun := by
  cases needed with
  | false => exact ⟨p, h, hrun rfl⟩
  | true => exact ⟨_, h.bracket, trivial⟩

theorem Derives.exists_unit {needed : Bool} (h : Derives coerce p text tree)
    (hunit : needed = false → ∃ f, p = .last f) :
    ∃ f, Derives coerce (.last f) (bracketIf needed text) tree := by
  cases needed with
  | false =>
    obtain ⟨f, rfl⟩ := hunit rfl
    exact ⟨f, h⟩
  | true => exact ⟨_, h.bracket⟩

end

/-- The induction is on the way the tree is written. It carries which trees can stand in a run and
which are a unit without brackets. -/
theorem exists_derives {tree : Restriction} {text : List Char} (h : Written coerce tree text) :
    ∃ p, Derives coerce p text tree ∧ (tree.isOr = false → p.IsRun) ∧
      (tree.isLeaf = true → ∃ f, p = .last f) := by
  induction h with
  | leaf spelled =>
    obtain ⟨f, hchars, hleaf⟩ := spelled.exists_fragment
    refine ⟨.last (.fragment f), ⟨hchars, ?_, leafOf_eq hleaf⟩, fun _ => trivial, fun _ => ⟨_, rfl⟩⟩
    intro g hg
    obtain rfl := List.mem_singleton.mp hg
    exact Primitive.accepted_iff.mpr ⟨_, hleaf⟩
  | @and left right l r hleft hright ihl ihr =>
    obtain ⟨p, hp, hrun, -⟩ := ihl
    obtain ⟨q, hq, -, hunit⟩ := ihr
    obtain ⟨p', hp', hrun'⟩ := hp.exists_run hrun
    obtain ⟨f, hf⟩ := @Derives.exists_unit _ _ _ _ (!right.isLeaf) hq (by simpa using hunit)
    exact ⟨_, hp'.and hrun' hf, fun _ => hrun'.append trivial, nofun⟩
  | or hleft hright ihl ihr =>
    obtain ⟨p, hp, -, -⟩ := ihl
    obtain ⟨q, hq, hrun, -⟩ := ihr
    obtain ⟨q', hq', hrun'⟩ := hq.exists_run hrun
    exact ⟨_, hp.or hrun' hq', nofun, nofun⟩

/-- Every tree over leaves that filters can ask for is written by some expression, and each
expression that it is written by is read back as the same tree. -/
theorem parse_written {tree : Restriction} (h : ∀ leaf ∈ tree.leaves, Expressible coerce leaf) :
    (∃ query : String, Written coerce tree query.toList) ∧
      ∀ query : String, Written coerce tree query.toList → parse coerce query = .ok tree := by
  refine ⟨?_, fun query hquery => ?_⟩
  · obtain ⟨text, htext⟩ := exists_written h
    exact ⟨String.ofList text, by rwa [String.toList_ofList]⟩
  · obtain ⟨p, hp, -, -⟩ := exists_derives hquery
    rw [parse_of_accepted hp.chars hp.accepted, hp.tree_eq]

/-- A tree whose "or" on the left of an "and" needs brackets, and whose "and" on the right of one
needs them too. -/
def mixedTree : Restriction :=
  .or
    (.and
      (.or (equals "a!" (.text "1")) (.comparison "b" .isNull none))
      (.and
        (.comparison "c" (.relation .lt) (some (.text "2")))
        (.comparison "d" (.relation .ne) (some (.text "x")))))
    (.comparison "e" (.relation .ge) (some (.text "3")))

theorem parse_mixedTree :
    (∀ leaf ∈ mixedTree.leaves, Expressible (coercer [] fun _ _ => .ok none) leaf) ∧
      Written (coercer [] fun _ _ => .ok none) mixedTree
        "(a!==1,b==NULL);(c=lt=2;d!=x),e=ge=3".toList ∧
      parse (coercer [] fun _ _ => .ok none) "(a!==1,b==NULL);(c=lt=2;d!=x),e=ge=3" =
        .ok mixedTree := by
  have free (s : String) (hne : s ≠ "" := by decide)
      (hall : (s.toList.all fun c => decide (c ∉ ['=', '(', ')', ';', ','])) = true := by decide) :
      IsFree s := isFree_of_all hne hall
  have hleaves : ∀ leaf ∈ mixedTree.leaves,
      Expressible (coercer [] fun _ _ => .ok none) leaf := by
    intro leaf hleaf
    simp only [mixedTree, equals, Restriction.leaves, List.mem_append, List.mem_singleton] at hleaf
    rcases hleaf with ((rfl | rfl) | (rfl | rfl)) | rfl
    · exact .relation (free "a!") (free "1") (fun _ => by decide) rfl
    · exact .isNull (free "b")
    · exact .relation (free "c") (free "2") (fun _ => by decide) rfl
    · exact .relation (free "d") (free "x") (fun _ => by decide) rfl
    · exact .relation (free "e") (free "3") (fun _ => by decide) rfl
  have hwritten : Written (coercer [] fun _ _ => .ok none) mixedTree
      "(a!==1,b==NULL);(c=lt=2;d!=x),e=ge=3".toList :=
    .or
      (.and
        (.or (.leaf (.relation (free "a!") (free "1") (by decide) rfl))
          (.leaf (@Spelled.test _ "b" "NULL" .eq _ (free "b") (by decide))))
        (.and (.leaf (.relation (free "c") (free "2") (by decide) rfl))
          (.leaf (.relation (free "d") (free "x") (by decide) rfl))))
      (.leaf (.relation (free "e") (free "3") (by decide) rfl))
  exact ⟨hleaves, hwritten, (parse_written hleaves).2 _ hwritten⟩

/-!
## Narrowed expressions

An expression in brackets, followed by "and" and one comparison. It is read exactly if
both parts are, and its tree joins the tree of the expression and the leaf.
-/

variable {query field literal : String} {tree : Restriction}

def narrowed (query field : String) (r : Relation) (literal : String) : String :=
  "(" ++ query ++ ");" ++ field ++ String.ofList (Primitive.operator r) ++ literal

theorem narrowed_ne_empty (query field : String) (r : Relation) (literal : String) :
    narrowed query field r literal ≠ "" := by
  simp [narrowed]

theorem parse_narrowed_iff (hquery : parse coerce query = .ok tree) (hfield : IsFree field)
    (r : Relation) (hliteral : IsFree literal) {joined : Restriction} :
    parse coerce (narrowed query field r literal) = .ok joined ↔
      ∃ leaf, Primitive.IsLeaf coerce (comparisonFragment hfield r hliteral).chars leaf ∧
        joined = .and tree leaf := by
  obtain ⟨p, hp⟩ := exists_phrase_of_readExpression 0 query.toList tree hquery
  obtain ⟨hleaves, rfl⟩ := tree_of_parse hp hquery
  have hchars : (Phrase.join (.group p) .and
      (.last (.fragment (comparisonFragment hfield r hliteral)))).chars =
        (narrowed query field r literal).toList := by
    simp [Phrase.chars, Factor.chars, hp, narrowed, comparisonFragment, Pivot.mark]
  have hfragments : (Phrase.join (.group p) .and
      (.last (.fragment (comparisonFragment hfield r hliteral)))).fragments =
        p.fragments ++ [comparisonFragment hfield r hliteral] := rfl
  constructor
  · intro h
    obtain ⟨hleaf, rfl⟩ := tree_of_parse hchars h
    rw [hfragments] at hleaf
    exact ⟨_, hleaf _ (List.mem_append_right _ List.mem_cons_self), rfl⟩
  · rintro ⟨leaf, hleaf, rfl⟩
    have haccepted : ∀ f ∈ p.fragments ++ [comparisonFragment hfield r hliteral],
        Primitive.Accepted coerce f.chars := by
      refine List.forall_mem_append.mpr ⟨fun f hf => ?_, List.forall_mem_singleton.mpr ?_⟩
      · exact Primitive.accepted_iff.mpr ⟨_, hleaves f hf⟩
      · exact Primitive.accepted_iff.mpr ⟨leaf, hleaf⟩
    rw [parse_of_accepted hchars (hfragments ▸ haccepted), ← leafOf_eq hleaf]
    rfl

theorem parse_narrowed_relation_iff (hquery : parse coerce query = .ok tree)
    (hfield : IsFree field) (r : Relation) (hliteral : Writable literal) {joined : Restriction} :
    parse coerce (narrowed query field r literal) = .ok joined ↔
      ∃ o, coerce field literal = .ok o ∧
        joined = .and tree (.comparison field (.relation r) (some o)) := by
  have hshape := isShape_comparisonFragment hfield r hliteral.free
  have hplain : Primitive.sentinel? r literal = none :=
    sentinel?_eq_none fun _ => ⟨hliteral.not_null, hliteral.not_notNull⟩
  rw [parse_narrowed_iff hquery hfield r hliteral.free]
  constructor
  · rintro ⟨leaf, ⟨shape, asked⟩ | ⟨shape, -, coerced⟩, rfl⟩
    · obtain ⟨rfl, rfl, rfl⟩ := hshape.unique shape
      rw [hplain] at asked
      cases asked
    · obtain ⟨rfl, rfl, rfl⟩ := hshape.unique shape
      exact ⟨_, coerced, rfl⟩
  · rintro ⟨o, hcoerced, rfl⟩
    exact ⟨_, .relation hshape hplain hcoerced, rfl⟩

theorem parse_narrowed_null (hquery : parse coerce query = .ok tree) (hfield : IsFree field) :
    parse coerce (narrowed query field .eq "null") =
        .ok (.and tree (.comparison field .isNull none)) ∧
      parse coerce (narrowed query field .ne "null") =
        .ok (.and tree (.comparison field .isNotNull none)) := by
  have hnull : IsFree "null" := isFree_of_all (by decide) (by decide)
  have hshape (r : Relation) := isShape_comparisonFragment hfield r hnull
  exact ⟨(parse_narrowed_iff hquery hfield .eq hnull).mpr ⟨_, .test (hshape .eq) (by decide), rfl⟩,
    (parse_narrowed_iff hquery hfield .ne hnull).mpr ⟨_, .test (hshape .ne) (by decide), rfl⟩⟩

end InventorySearch.Filter
