import InventorySearch.Proofs.Filter.Faults
import InventorySearch.Proofs.Filter.Writing

set_option autoImplicit false

/-!
# Reading fragments

What a fragment is read as. Its shape decides alone whether it is refused for itself,
asks for a missing value, or has a literal that the coercer is asked about.
-/
namespace InventorySearch.Filter.Primitive

section
variable {coerce : Coercer} {position : Nat} {fragment : List Char}

theorem read_empty (coerce : Coercer) (position : Nat) :
    read coerce position [] = .error (.emptyExpression position) := rfl

theorem read_shapeless (hne : fragment ≠ [])
    (hshape : ¬ ∃ field r literal, IsShape fragment field r literal) (coerce : Coercer)
    (position : Nat) : read coerce position fragment =
      .error (.unsupportedOperator (String.ofList fragment)) := by
  have hempty : ¬ fragment.isEmpty = true := by simpa using hne
  have hnone : shape? fragment = none := by
    cases h : shape? fragment with
    | none => rfl
    | some shape => exact absurd ⟨_, _, _, shape?_eq_some_iff.mp h⟩ hshape
  rw [read, if_neg hempty, hnone]

theorem read_shaped {field literal : String} {r : Relation}
    (shape : IsShape fragment field r literal) (coerce : Coercer) (position : Nat) :
    read coerce position fragment =
      match sentinel? r literal with
      | some test => .ok (.comparison field test none)
      | none => (coerce field literal).map fun operand =>
          .comparison field (.relation r) (some operand) := by
  have hempty : ¬ fragment.isEmpty = true := by
    intro h
    rw [List.isEmpty_iff.mp h] at shape
    exact not_isShape_nil shape
  rw [read, if_neg hempty, shape?_eq_some_iff.mpr shape]
  cases hasked : sentinel? r literal with
  | none => simp only [nullTest?_eq_sentinel?, hasked]
  | some test => simp only [nullTest?_eq_sentinel?, hasked]

/-- Where the shape says it all, every coercer gets the same reading. -/
theorem read_eq_read (h : ∀ field r literal, IsShape fragment field r literal →
    sentinel? r literal ≠ none) (coerce coerce' : Coercer) (position : Nat) :
    read coerce position fragment = read coerce' position fragment := by
  by_cases hne : fragment = []
  · rw [hne, read_empty, read_empty]
  · by_cases hshape : ∃ field r literal, IsShape fragment field r literal
    · obtain ⟨field, r, literal, shape⟩ := hshape
      obtain ⟨test, htest⟩ := Option.ne_none_iff_exists'.mp (h field r literal shape)
      rw [read_shaped shape, read_shaped shape, htest]
    · rw [read_shapeless hne hshape, read_shapeless hne hshape]

theorem read_eq_error_iff {e : Error} : read coerce position fragment = .error e ↔
    (fragment = [] ∧ e = .emptyExpression position) ∨
    (fragment ≠ [] ∧ (¬ ∃ field r literal, IsShape fragment field r literal) ∧
      e = .unsupportedOperator (String.ofList fragment)) ∨
    Refused coerce fragment e := by
  constructor
  · intro h
    by_cases hne : fragment = []
    · rw [hne, read_empty] at h
      exact .inl ⟨hne, (Except.error.inj h).symm⟩
    · by_cases hshape : ∃ field r literal, IsShape fragment field r literal
      · obtain ⟨field, r, literal, shape⟩ := hshape
        rw [read_shaped shape] at h
        split at h
        · cases h
        · next hplain =>
          exact .inr (.inr ⟨field, r, literal, shape, hplain, Except.error_of_map h⟩)
      · rw [read_shapeless hne hshape] at h
        exact .inr (.inl ⟨hne, hshape, (Except.error.inj h).symm⟩)
  · rintro (⟨rfl, rfl⟩ | ⟨hne, hshape, rfl⟩ | ⟨field, r, literal, shape, hplain, hrefused⟩)
    · exact read_empty coerce position
    · exact read_shapeless hne hshape coerce position
    · rw [read_shaped shape, hplain, hrefused]
      rfl

end

/-! ## Sentinels -/

theorem sameLetters_null_of_notNull {literal : String}
    (h : Text.sameLetters literal "notNull" = true) : Text.sameLetters literal "null" = false := by
  have hsame : literal.toList.map Char.toLower = "notNull".toList.map Char.toLower :=
    beq_iff_eq.mp h
  rw [Text.sameLetters, hsame]
  rfl

theorem sentinel?_of_sameLetters {s : Relation × String × Comparator} (hs : s ∈ sentinels)
    {literal : String} (h : Text.sameLetters literal s.2.1 = true) :
    sentinel? s.1 literal = some s.2.2 := by
  rw [← nullTest?_eq_sentinel?]
  simp only [sentinels, List.mem_cons, List.not_mem_nil, or_false] at hs
  rcases hs with rfl | rfl | rfl | rfl
  · exact if_pos h
  · simp only [nullTest?, sameLetters_null_of_notNull h, h, if_true]
    rfl
  · exact if_pos h
  · simp only [nullTest?, sameLetters_null_of_notNull h, h, if_true]
    rfl

theorem read_sentinel {s : Relation × String × Comparator} (hs : s ∈ sentinels)
    {field literal : String} (hfield : IsSide field.toList)
    (h : Text.sameLetters literal s.2.1 = true) (coerce : Coercer) (position : Nat) :
    read coerce position (field.toList ++ operator s.1 ++ literal.toList) =
      .ok (.comparison field s.2.2 none) := by
  have hasked := sentinel?_of_sameLetters hs h
  have shape : IsShape (field.toList ++ operator s.1 ++ literal.toList) field s.1 literal :=
    ⟨hfield, (isFree_of_sentinel hasked).isSide, rfl⟩
  rw [read_shaped shape, hasked]

/-- A fragment is refused for itself or has one shape and no other, and then the coercer is asked
only about a literal that is no sentinel. -/
theorem read_by_shape (position : Nat) :
    (∀ coerce fragment e, read coerce position fragment = .error e ↔
      (fragment = [] ∧ e = .emptyExpression position) ∨
      (fragment ≠ [] ∧ (¬ ∃ field r literal, IsShape fragment field r literal) ∧
        e = .unsupportedOperator (String.ofList fragment)) ∨
      Refused coerce fragment e) ∧
    (∀ fragment field r literal, IsShape fragment field r literal →
      (∀ field' r' literal', IsShape fragment field' r' literal' →
        field' = field ∧ r' = r ∧ literal' = literal) ∧
      ∀ coerce, read coerce position fragment =
        match sentinel? r literal with
        | some test => .ok (.comparison field test none)
        | none => (coerce field literal).map fun operand =>
            .comparison field (.relation r) (some operand)) ∧
    (∀ fragment, (∀ field r literal, IsShape fragment field r literal →
        sentinel? r literal ≠ none) →
      ∀ coerce coerce', read coerce position fragment = read coerce' position fragment) ∧
    ∀ field literal, IsSide field.toList → ∀ coerce,
      (Text.sameLetters literal "null" = true →
        read coerce position (field ++ "==" ++ literal).toList =
            .ok (.comparison field .isNull none) ∧
          read coerce position (field ++ "!=" ++ literal).toList =
            .ok (.comparison field .isNotNull none)) ∧
      (Text.sameLetters literal "notNull" = true →
        read coerce position (field ++ "==" ++ literal).toList =
            .ok (.comparison field .isNotNull none) ∧
          read coerce position (field ++ "!=" ++ literal).toList =
            .ok (.comparison field .isNull none)) := by
  have hwritten (field literal : String) :
      (field ++ "==" ++ literal).toList = field.toList ++ operator .eq ++ literal.toList ∧
        (field ++ "!=" ++ literal).toList = field.toList ++ operator .ne ++ literal.toList := by
    constructor <;> simp [operator]
  refine ⟨fun coerce fragment e => read_eq_error_iff, ?shaped, ?unasked, ?sentinels⟩
  case shaped =>
    intro fragment field r literal shape
    exact ⟨fun _ _ _ shape' => shape'.unique shape, fun coerce => read_shaped shape coerce position⟩
  case unasked => exact fun fragment h coerce coerce' => read_eq_read h coerce coerce' position
  case sentinels =>
    intro field literal hfield coerce
    rw [(hwritten field literal).1, (hwritten field literal).2]
    have hread {s} (hs : s ∈ sentinels) (h : Text.sameLetters literal s.2.1 = true) :=
      read_sentinel hs hfield h coerce position
    refine ⟨fun hnull => ⟨?_, ?_⟩, fun hnot => ⟨?_, ?_⟩⟩
    · exact @hread (.eq, "null", .isNull) (by decide) hnull
    · exact @hread (.ne, "null", .isNotNull) (by decide) hnull
    · exact @hread (.eq, "notNull", .isNotNull) (by decide) hnot
    · exact @hread (.ne, "notNull", .isNull) (by decide) hnot

theorem shape?_marked : shape? "a!=lt=null".toList = some ("a!", .lt, "null") := by decide

/-- The field may end in `!`. What asks for a missing value does so whatever the coercer says, and
an ordering never does. -/
theorem read_marked_field :
    let refuse : Coercer := fun _ _ => .error (.unexpected "asked")
    IsShape "a!=lt=null".toList "a!" .lt "null" ∧
      (∀ field r literal, IsShape "a!=lt=null".toList field r literal →
        field = "a!" ∧ r = .lt ∧ literal = "null") ∧
      read refuse 0 "a!=lt=null".toList = .error (.unexpected "asked") ∧
      IsSide "a!".toList ∧ Text.sameLetters "NULL" "null" = true ∧
      read refuse 0 "a!==NULL".toList = .ok (.comparison "a!" .isNull none) := by
  intro refuse
  have shape := shape?_eq_some_iff.mp shape?_marked
  have hside : IsSide "a!".toList := ⟨by decide, by decide⟩
  have hsame : Text.sameLetters "NULL" "null" = true := by decide
  obtain ⟨-, hshaped, -, hsentinels⟩ := read_by_shape 0
  obtain ⟨hunique, hread⟩ := hshaped _ _ _ _ shape
  exact ⟨shape, hunique, hread refuse, hside, hsame,
    ((hsentinels "a!" "NULL" hside refuse).1 hsame).1⟩

end InventorySearch.Filter.Primitive
