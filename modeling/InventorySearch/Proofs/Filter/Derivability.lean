import InventorySearch.Proofs.Filter.Reading

set_option autoImplicit false

/-!
# Accepted expressions and their leaves

Acceptance by the parser is derivability. From this follow the leaves of a parsed tree
and how two expressions are read that are joined by a pivot.
-/
namespace InventorySearch.Filter

/-!
## Accepted expressions

The parser accepts exactly the texts that the grammar derives over primitives whose
operands the coercer accepts, and gives the tree of the derivation. The leaves of the
tree are those of the primitives in the order of the text.
-/

/-- The leaf that a coercer makes of a fragment; of one without a leaf nothing is said. -/
def leafOf (coerce : Coercer) (fragment : List Char) : Restriction :=
  match Primitive.read coerce 0 fragment with
  | .ok leaf => leaf
  | .error _ => .comparison "" .isNull none

theorem read_eq_leafOf {coerce : Coercer} {fragment : List Char}
    (h : ∃ leaf, Primitive.read coerce 0 fragment = .ok leaf) :
    Primitive.read coerce 0 fragment = .ok (leafOf coerce fragment) := by
  obtain ⟨leaf, hleaf⟩ := h
  rw [leafOf, hleaf]

theorem leafOf_eq {coerce : Coercer} {fragment : List Char} {leaf : Restriction}
    (h : Primitive.IsLeaf coerce fragment leaf) : leafOf coerce fragment = leaf := by
  rw [leafOf, Primitive.read_eq_ok_iff.mpr h]

theorem leaves_of_isLeaf {coerce : Coercer} {fragment : List Char} {leaf : Restriction}
    (h : Primitive.IsLeaf coerce fragment leaf) : leaf.leaves = [leaf] := by
  cases h with
  | test | relation => rfl

theorem parse_chars {coerce : Coercer} {expression : String} {p : Phrase}
    (h : p.chars = expression.toList) :
    parse coerce expression = p.read (Primitive.read coerce 0) := by
  rw [parse, ← h]
  exact (read_chars p).2 0

/-- Where an expression is accepted, every derivation of it has the tree that is returned. -/
theorem tree_of_parse {coerce : Coercer} {expression : String} {tree : Restriction} {p : Phrase}
    (hp : p.chars = expression.toList) (h : parse coerce expression = .ok tree) :
    (∀ f ∈ p.fragments, Primitive.IsLeaf coerce f.chars (leafOf coerce f.chars)) ∧
      tree = p.tree (leafOf coerce) := by
  rw [parse_chars hp] at h
  obtain ⟨units, hu, -⟩ := Except.exists_of_bind_eq_ok h
  have hread : ∀ f ∈ p.fragments,
      Primitive.read coerce 0 f.chars = .ok (leafOf coerce f.chars) :=
    fun f hf => read_eq_leafOf (p.readable hu f hf)
  refine ⟨fun f hf => Primitive.read_eq_ok_iff.1 (hread f hf), ?_⟩
  simpa using h.symm.trans (p.read_eq_tree hread)

theorem parse_of_accepted {coerce : Coercer} {expression : String} {p : Phrase}
    (hp : p.chars = expression.toList)
    (h : ∀ f ∈ p.fragments, Primitive.Accepted coerce f.chars) :
    parse coerce expression = .ok (p.tree (leafOf coerce)) := by
  rw [parse_chars hp]
  refine p.read_eq_tree fun f hf => read_eq_leafOf ?_
  obtain ⟨leaf, hleaf⟩ := Primitive.accepted_iff.1 (h f hf)
  exact ⟨leaf, Primitive.read_eq_ok_iff.2 hleaf⟩

theorem parse_ok_iff_derivable (coerce : Coercer) (expression : String) :
    ((∃ tree, parse coerce expression = .ok tree) ↔
      ∃ p : Phrase, p.chars = expression.toList ∧
        ∀ f ∈ p.fragments, Primitive.Accepted coerce f.chars) ∧
    ∀ tree, parse coerce expression = .ok tree →
      ∀ p : Phrase, p.chars = expression.toList →
        ∃ leaf : List Char → Restriction,
          (∀ f ∈ p.fragments, Primitive.IsLeaf coerce f.chars (leaf f.chars)) ∧
          tree = p.tree leaf ∧ tree.leaves = (plainRuns expression.toList).map leaf := by
  refine ⟨⟨?_, ?_⟩, ?_⟩
  · rintro ⟨tree, h⟩
    obtain ⟨p, hp⟩ := exists_phrase_of_readExpression 0 expression.toList tree h
    have hleaf := (tree_of_parse hp h).1
    exact ⟨p, hp, fun f hf => Primitive.accepted_iff.2 ⟨_, hleaf f hf⟩⟩
  · rintro ⟨p, hp, h⟩
    exact ⟨_, parse_of_accepted hp h⟩
  · intro tree h p hp
    obtain ⟨hleaf, rfl⟩ := tree_of_parse hp h
    refine ⟨leafOf coerce, hleaf, rfl, ?_⟩
    have hleaves := p.leaves_units fun f hf => leaves_of_isLeaf (hleaf f hf)
    rw [Phrase.tree, leaves_precedenceTree, hleaves, ← hp, p.plainRuns_chars, List.map_map]
    rfl

/-!
## Leaves of parsed expressions

Each leaf of a tree that was parsed is the leaf of some fragment. It has an operand
exactly if it asks for a relation, and the operand is what the coercer made of the
literal.
-/

variable {coerce : Coercer}

theorem isLeaf_of_parse {expression : String} {tree : Restriction}
    (h : parse coerce expression = .ok tree) :
    ∀ leaf ∈ tree.leaves, ∃ fragment, Primitive.IsLeaf coerce fragment leaf := by
  obtain ⟨p, hp⟩ := exists_phrase_of_readExpression 0 expression.toList tree h
  obtain ⟨hleaf, rfl⟩ := tree_of_parse hp h
  rw [p.leaves_tree fun f hf => leaves_of_isLeaf (hleaf f hf)]
  exact List.forall_mem_map.mpr fun f hf => ⟨f.chars, hleaf f hf⟩

/-- Whether a comparison has an operand exactly if it asks for a relation to one. -/
def Restriction.Complete : Restriction → Prop
  | .comparison _ op operand => operand.isSome = true ↔ ∃ r, op = .relation r
  | _ => False

theorem complete_of_isLeaf {fragment : List Char} {leaf : Restriction}
    (h : Primitive.IsLeaf coerce fragment leaf) : leaf.Complete := by
  cases h with
  | @test field literal r test shape asked =>
    have hnone : ∀ r', test ≠ .relation r' := by
      rintro r' rfl
      obtain ⟨s, hs, hrelation⟩ := Option.map_eq_some_iff.mp asked
      have hmem := List.mem_of_find?_eq_some hs
      simp only [Primitive.sentinels, List.mem_cons, List.not_mem_nil, or_false] at hmem
      rcases hmem with rfl | rfl | rfl | rfl <;> cases hrelation
    simp [Restriction.Complete, hnone]
  | relation shape plain coerced => simp [Restriction.Complete]

theorem complete_of_parse {expression : String} {tree : Restriction}
    (h : parse coerce expression = .ok tree) : ∀ leaf ∈ tree.leaves, leaf.Complete := by
  intro leaf hleaf
  obtain ⟨fragment, hfragment⟩ := isLeaf_of_parse h leaf hleaf
  exact complete_of_isLeaf hfragment

/-! ### Expressions of one primitive -/

theorem parse_of_isLeaf {expression : String} {leaf : Restriction}
    (hall : expression.toList.all isPlain = true)
    (h : Primitive.IsLeaf coerce expression.toList leaf) : parse coerce expression = .ok leaf := by
  have hplain : ∀ c ∈ expression.toList, isPlain c = true := List.all_eq_true.mp hall
  have hread := (@Primitive.read_eq_ok_iff coerce 0 _ _).mpr h
  rw [parse, readExpression_not_enclosed, readUnits_fragment hplain, hread]
  · rfl
  · rintro ⟨rest, inside, htext, -⟩
    exact absurd (hplain '(' (htext ▸ List.mem_cons_self)) (by decide)

/-!
## Joined expressions

Two expressions in brackets with a pivot between them. Whatever the expressions
are, the tree is that of the pivot over their trees: brackets keep the precedence
of one from reaching into the other.
-/

def Pivot.join : Pivot → Restriction → Restriction → Restriction
  | .and => .and
  | .or => .or

theorem Phrase.readUnits_join_groups (primitive : List Char → Except Error Restriction)
    (p q : Phrase) (pivot : Pivot) :
    (Phrase.join (.group p) pivot (.last (.group q))).readUnits primitive = do
      let left ← p.read primitive
      let right ← q.read primitive
      return ([left, right], [pivot]) := by
  have hgroup (inside : Phrase) :
      Factor.read primitive (.group inside) = inside.read primitive := rfl
  rw [readUnits, readUnits, hgroup, hgroup]
  cases p.read primitive with
  | error e => rfl
  | ok left => cases q.read primitive <;> rfl

theorem parse_join_groups {left right joined : String} {pivot : Pivot} {r₁ r₂ : Restriction}
    (hleft : parse coerce left = .ok r₁) (hright : parse coerce right = .ok r₂)
    (htext : joined.toList =
      '(' :: left.toList ++ [')', pivot.mark, '('] ++ right.toList ++ [')']) :
    parse coerce joined = .ok (pivot.join r₁ r₂) := by
  obtain ⟨p, hp⟩ := exists_phrase_of_readExpression 0 left.toList r₁ hleft
  obtain ⟨q, hq⟩ := exists_phrase_of_readExpression 0 right.toList r₂ hright
  rw [parse_chars hp] at hleft
  rw [parse_chars hq] at hright
  have hchars : (Phrase.join (.group p) pivot (.last (.group q))).chars = joined.toList := by
    simp [Phrase.chars, Factor.chars, hp, hq, htext]
  rw [parse_chars hchars, Phrase.read, Phrase.readUnits_join_groups, hleft, hright]
  cases pivot <;> rfl

end InventorySearch.Filter
