import InventorySearch.Proofs.Filter.Derivability

set_option autoImplicit false

/-!
# Alternatives

Several values asked for in one field, as `field==one,field==two`. The fragments of
such an expression are its primitives, so what is read does not depend on where they
stand: the tree is the "or" of the leaves, or the first literal that the coercer does
not take is at fault.
-/
namespace InventorySearch.Filter

variable {coerce : Coercer}

/-! ## Fragments joined by "or" -/

def Phrase.alternatives (first : Fragment) : List Fragment → Phrase
  | [] => .last (.fragment first)
  | next :: rest => .join (.fragment first) .or (alternatives next rest)

theorem Phrase.chars_alternatives (first : Fragment) (rest : List Fragment) :
    (alternatives first rest).chars = [','].intercalate ((first :: rest).map Fragment.chars) := by
  induction rest generalizing first with
  | nil => simp [alternatives, Phrase.chars, Factor.chars]
  | cons next rest ih =>
    rw [alternatives, Phrase.chars, Factor.chars, ih, List.map_cons, List.map_cons, List.map_cons,
      List.intercalate_cons_cons, List.append_assoc]
    rfl

theorem Phrase.readUnits_alternatives (primitive : List Char → Except Error Restriction)
    (first : Fragment) (rest : List Fragment) :
    (alternatives first rest).readUnits primitive =
      ((first :: rest).mapM fun f => primitive f.chars).map fun leaves =>
        (leaves, List.replicate rest.length .or) := by
  induction rest generalizing first with
  | nil =>
    rw [alternatives, readUnits, Factor.read, List.mapM_cons, List.mapM_nil]
    cases primitive first.chars <;> rfl
  | cons next rest ih =>
    rw [alternatives, readUnits, Factor.read, ih, List.mapM_cons (l := next :: rest)]
    cases primitive first.chars with
    | error e => rfl
    | ok leaf => cases (next :: rest).mapM fun f => primitive f.chars <;> rfl

theorem splitRuns_or (rest : List Restriction) :
    splitRuns (rest.map fun r => (.or, r)) = ([], rest.map fun r => ⟨r, []⟩) := by
  induction rest with
  | nil => rfl
  | cons next rest ih => rw [List.map_cons, splitRuns, ih, List.map_cons]

theorem merge_or (first : Restriction) (rest : List Restriction) :
    merge (first :: rest) (List.replicate rest.length .or) = .ok (rest.foldl .or first) := by
  have hmerge := merge_units first (rest.map fun r => (Pivot.or, r))
  have htree : precedenceTree first (rest.map fun r => (.or, r)) = rest.foldl .or first := by
    rw [precedenceTree, splitRuns_or, disjunction, List.foldl_map]
    rfl
  simpa [htree, Function.comp_def, List.map_const'] using hmerge

/-! ## Equalities -/

def IsFree (s : String) : Prop := s ≠ "" ∧ ∀ c ∈ s.toList, c ∉ ['=', '(', ')', ';', ',']

/-- Being a literal that can be asked for by equality. -/
structure Writable (literal : String) : Prop where
  free : IsFree literal
  not_null : Text.sameLetters literal "null" = false
  not_notNull : Text.sameLetters literal "notNull" = false

def equality (field literal : String) : String := field ++ "==" ++ literal

def equals (field : String) (operand : Operand) : Restriction :=
  .comparison field (.relation .eq) (some operand)

section
variable {field literal : String}

theorem isFree_of_all (hne : field ≠ "")
    (hall : (field.toList.all fun c => decide (c ∉ ['=', '(', ')', ';', ','])) = true) :
    IsFree field :=
  ⟨hne, fun c hc => of_decide_eq_true (List.all_eq_true.mp hall c hc)⟩

theorem IsFree.isSide (h : IsFree field) : Primitive.IsSide field.toList :=
  ⟨by simpa using h.1, fun hmem => h.2 _ hmem (by decide)⟩

theorem IsFree.isPlain (h : IsFree field) : ∀ c ∈ field.toList, isPlain c = true := by
  intro c hc
  have hfree := h.2 c hc
  simp only [List.mem_cons, List.not_mem_nil, or_false, not_or] at hfree
  simp [Filter.isPlain, hfree]

variable (hfield : IsFree field) (hliteral : Writable literal)
include hfield hliteral

def equalityFragment : Fragment where
  chars := (equality field literal).toList
  nonempty := by simp [equality]
  plain := by
    intro c hc
    simp only [equality, String.toList_append, List.mem_append] at hc
    rcases hc with (hin | hin) | hin
    · exact hfield.isPlain c hin
    · have hmark : c = '=' := by simpa using hin
      exact hmark ▸ rfl
    · exact hliteral.free.isPlain c hin

theorem read_equality (position : Nat) :
    Primitive.read coerce position (equality field literal).toList =
      (coerce field literal).map (equals field) := by
  have hshape : Primitive.IsShape (equality field literal).toList field .eq literal :=
    ⟨hfield.isSide, hliteral.free.isSide, by simp [equality, Primitive.operator]⟩
  have hnonempty : (equality field literal).toList.isEmpty = false := by simp [equality]
  have hplain : Primitive.nullTest? .eq literal = none := by
    simp [Primitive.nullTest?, hliteral.not_null, hliteral.not_notNull]
  rw [Primitive.read, hnonempty, Primitive.shape?_eq_some_iff.mpr hshape]
  simp only [hplain]
  rfl

end

section
variable {field : String} (hfield : IsFree field)
include hfield

theorem exists_equalityFragments {literals : List String}
    (h : ∀ literal ∈ literals, Writable literal) : ∃ fragments : List Fragment,
      fragments.map Fragment.chars = literals.map fun l => (equality field l).toList := by
  induction literals with
  | nil => exact ⟨[], rfl⟩
  | cons literal literals ih =>
    obtain ⟨hfirst, hrest⟩ := List.forall_mem_cons.mp h
    obtain ⟨fragments, hfragments⟩ := ih hrest
    exact ⟨equalityFragment hfield hfirst :: fragments, congrArg (List.cons _) hfragments⟩

theorem mapM_read_equality {literals : List String} (h : ∀ literal ∈ literals, Writable literal)
    {fragments : List Fragment} (hfragments : fragments.map Fragment.chars =
      literals.map fun l => (equality field l).toList) :
    (fragments.mapM fun f => Primitive.read coerce 0 f.chars) =
      (literals.mapM (coerce field)).map fun operands => operands.map (equals field) := by
  induction literals generalizing fragments with
  | nil =>
    obtain rfl := List.map_eq_nil_iff.mp hfragments
    rfl
  | cons literal literals ih =>
    obtain ⟨fragment, fragments, rfl, hchars, hrest⟩ := List.map_eq_cons_iff.mp hfragments
    obtain ⟨hfirst, hwritable⟩ := List.forall_mem_cons.mp h
    rw [List.mapM_cons, List.mapM_cons, hchars, read_equality hfield hfirst, ih hwritable hrest]
    cases coerce field literal with
    | error e => rfl
    | ok operand => cases literals.mapM (coerce field) <;> rfl

/-- An expression of equalities is read as its literals are coerced, from left to right. -/
theorem parse_equalities {first : String} {rest : List String}
    (h : ∀ literal ∈ first :: rest, Writable literal) :
    parse coerce (String.intercalate "," ((first :: rest).map (equality field))) =
      ((first :: rest).mapM (coerce field) >>= fun operands =>
        merge (operands.map (equals field)) (List.replicate rest.length .or)) := by
  obtain ⟨fragments, hfragments⟩ := exists_equalityFragments hfield h
  obtain ⟨fragment, fragments, rfl, -, hrest⟩ := List.map_eq_cons_iff.mp hfragments
  have hlength : fragments.length = rest.length := by simpa using congrArg List.length hrest
  have hchars : (Phrase.alternatives fragment fragments).chars =
      (String.intercalate "," ((first :: rest).map (equality field))).toList := by
    rw [Phrase.chars_alternatives, hfragments, String.toList_intercalate, List.map_map]
    rfl
  rw [parse_chars hchars, Phrase.read, Phrase.readUnits_alternatives,
    mapM_read_equality hfield h hfragments, hlength]
  cases (first :: rest).mapM (coerce field) <;> rfl

theorem parse_equalities_of_coerced {first : String} {rest : List String}
    (h : ∀ literal ∈ first :: rest, Writable literal) {operand : Operand} {operands : List Operand}
    (hcoerced : List.Forall₂ (fun literal operand => coerce field literal = .ok operand)
      (first :: rest) (operand :: operands)) :
    parse coerce (String.intercalate "," ((first :: rest).map (equality field))) =
      .ok ((operands.map (equals field)).foldl .or (equals field operand)) := by
  have hlength : rest.length = (operands.map (equals field)).length := by
    simpa using hcoerced.length_eq
  rw [parse_equalities hfield h, Except.mapM_eq_ok_iff.mpr hcoerced, hlength]
  exact merge_or _ _

theorem parse_equality {literal : String} (h : Writable literal) {operand : Operand}
    (hcoerced : coerce field literal = .ok operand) :
    parse coerce (equality field literal) = .ok (equals field operand) := by
  have hparse := parse_equalities_of_coerced hfield (List.forall_mem_singleton.mpr h)
    (.cons hcoerced .nil)
  rwa [List.map_singleton, String.intercalate_singleton] at hparse

theorem parse_equalities_of_refused {first : String} {rest : List String}
    (h : ∀ literal ∈ first :: rest, Writable literal)
    (hrefused : ∃ literal ∈ first :: rest, ∃ e, coerce field literal = .error e) :
    ∃ literal ∈ first :: rest, ∃ e, coerce field literal = .error e ∧
      parse coerce (String.intercalate "," ((first :: rest).map (equality field))) = .error e := by
  rw [parse_equalities hfield h]
  cases hmapM : (first :: rest).mapM (coerce field) with
  | ok operands =>
    obtain ⟨literal, hliteral, e, he⟩ := hrefused
    obtain ⟨operand, -, hoperand⟩ :=
      forall₂_exists_right (Except.mapM_eq_ok_iff.mp hmapM) hliteral
    rw [he] at hoperand
    cases hoperand
  | error e =>
    obtain ⟨literal, hliteral, he⟩ := Except.exists_of_mapM_eq_error hmapM
    exact ⟨literal, hliteral, e, he, rfl⟩

end
end InventorySearch.Filter
