import Mathlib.Data.List.Basic
import InventorySearch.Filter.Primitive

set_option autoImplicit false

/-!
# The shape of primitives

A fragment is a primitive exactly when it is a field, one of the six operators and
a literal, and it is so in one way only, although the operator is found by counting
the `=` of the fragment and not by looking for it.
-/
namespace InventorySearch.Filter.Primitive

def operator : Relation → List Char
  | .eq => ['=', '=']
  | .ne => ['!', '=']
  | .lt => ['=', 'l', 't', '=']
  | .le => ['=', 'l', 'e', '=']
  | .gt => ['=', 'g', 't', '=']
  | .ge => ['=', 'g', 'e', '=']

/-- What can stand on either side of an operator: some characters, none of which is `=`. -/
def IsSide (cs : List Char) : Prop := cs ≠ [] ∧ '=' ∉ cs

structure IsShape (fragment : List Char) (field : String) (r : Relation) (literal : String) :
    Prop where
  field_side : IsSide field.toList
  literal_side : IsSide literal.toList
  written : fragment = field.toList ++ operator r ++ literal.toList

theorem not_mem_of_mem_splitOn {mark : Char} {cs piece : List Char}
    (h : piece ∈ cs.splitOn mark) : mark ∉ piece := by
  induction cs generalizing piece with
  | nil =>
    rw [List.splitOn_nil, List.mem_singleton] at h
    simp [h]
  | cons c cs ih =>
    rw [List.splitOn_cons_eq_if_modifyHead] at h
    split at h
    · rcases List.mem_cons.1 h with rfl | h
      · simp
      · exact ih h
    · next hc =>
      obtain ⟨first, rest, hs⟩ := List.exists_cons_of_ne_nil (List.splitOn_ne_nil mark cs)
      rw [hs, List.modifyHead_cons, List.mem_cons] at h
      rcases h with rfl | h
      · have hfirst : mark ∉ first := ih (by simp [hs])
        have hne : mark ≠ c := fun he => hc (by simp [he])
        simp [hne, hfirst]
      · exact ih (by simp [hs, h])

theorem eq_intercalate_of_splitOn {mark : Char} {cs : List Char} {pieces : List (List Char)}
    (h : cs.splitOn mark = pieces) : cs = [mark].intercalate pieces := by
  rw [← h, List.intercalate_splitOn]

theorem relation?_eq_some_iff {middle : List Char} {r : Relation} :
    relation? middle = some r ↔ r ≠ .ne ∧ operator r = '=' :: middle ++ ['='] := by
  constructor
  · intro h
    unfold relation? at h
    split at h <;> simp at h <;> subst h <;> simp [operator]
  · rintro ⟨hne, h⟩
    have hm : middle = ((operator r).drop 1).dropLast := by simp [h]
    subst hm
    cases r with
    | ne => exact absurd rfl hne
    | eq | lt | le | gt | ge => rfl

theorem exists_middle {r : Relation} (h : r ≠ .ne) :
    ∃ middle : List Char, '=' ∉ middle ∧ operator r = '=' :: middle ++ ['='] := by
  refine ⟨((operator r).drop 1).dropLast, ?_⟩
  cases r with
  | ne => exact absurd rfl h
  | eq | lt | le | gt | ge => decide

theorem split?_eq_some_iff {fragment field literal : List Char} {r : Relation} :
    split? fragment = some (field, r, literal) ↔
      '=' ∉ field ∧ '=' ∉ literal ∧ fragment = field ++ operator r ++ literal := by
  constructor
  · intro h
    unfold split? at h
    split at h
    · next left right hs =>
      have hfree : ∀ piece ∈ [left, right], '=' ∉ piece := by
        rw [← hs]
        exact fun _ => not_mem_of_mem_splitOn
      have hwhole := eq_intercalate_of_splitOn hs
      split at h
      · next hlast =>
        simp only [Option.some.injEq, Prod.mk.injEq] at h
        obtain ⟨rfl, rfl, rfl⟩ := h
        have hleft : left.dropLast ++ ['!'] = left := List.dropLast_append_getLast? '!' hlast
        refine ⟨fun hm => hfree left (by simp) ((List.dropLast_sublist left).subset hm),
          hfree right (by simp), ?_⟩
        calc
          fragment = left ++ '=' :: right := by simpa [List.intercalate] using hwhole
          _ = (left.dropLast ++ ['!']) ++ '=' :: right := by rw [hleft]
          _ = left.dropLast ++ operator .ne ++ right := by simp [operator]
      · simp at h
    · next first middle last hs =>
      have hfree : ∀ piece ∈ [first, middle, last], '=' ∉ piece := by
        rw [← hs]
        exact fun _ => not_mem_of_mem_splitOn
      obtain ⟨r', hr, heq⟩ := Option.map_eq_some_iff.1 h
      simp only [Prod.mk.injEq] at heq
      obtain ⟨rfl, rfl, rfl⟩ := heq
      refine ⟨hfree first (by simp), hfree last (by simp), ?_⟩
      rw [eq_intercalate_of_splitOn hs, (relation?_eq_some_iff.1 hr).2]
      simp [List.intercalate]
    · simp at h
  · rintro ⟨hfield, hliteral, rfl⟩
    by_cases hr : r = .ne
    · subst hr
      have hs : (field ++ operator .ne ++ literal).splitOn '=' = [field ++ ['!'], literal] := by
        have hassoc : field ++ operator .ne ++ literal = (field ++ ['!']) ++ '=' :: literal := by
          simp [operator]
        rw [hassoc, List.splitOn_append_cons_self_of_not_mem (by simpa using hfield),
          List.splitOn_eq_singleton hliteral]
      simp only [split?, hs, List.getLast?_concat, List.dropLast_concat, if_true]
    · obtain ⟨middle, hmiddle, hop⟩ := exists_middle hr
      have hread : relation? middle = some r := relation?_eq_some_iff.2 ⟨hr, hop⟩
      have hs : (field ++ operator r ++ literal).splitOn '=' = [field, middle, literal] := by
        have hassoc : field ++ operator r ++ literal =
            field ++ '=' :: (middle ++ '=' :: literal) := by
          simp [hop]
        rw [hassoc, List.splitOn_append_cons_self_of_not_mem hfield,
          List.splitOn_append_cons_self_of_not_mem hmiddle, List.splitOn_eq_singleton hliteral]
      simp only [split?, hs, hread, Option.map_some]

theorem shape?_eq_some_iff {fragment : List Char} {field literal : String} {r : Relation} :
    shape? fragment = some (field, r, literal) ↔ IsShape fragment field r literal := by
  constructor
  · intro h
    unfold shape? at h
    split at h
    · next left r' right hs =>
      split at h
      · simp at h
      · next hne =>
        simp only [Option.some.injEq, Prod.mk.injEq] at h
        obtain ⟨rfl, rfl, rfl⟩ := h
        obtain ⟨hleft, hright, hwhole⟩ := split?_eq_some_iff.1 hs
        simp only [Bool.or_eq_true, List.isEmpty_iff, not_or] at hne
        exact ⟨by simpa [IsSide] using ⟨hne.1, hleft⟩, by simpa [IsSide] using ⟨hne.2, hright⟩,
          by simpa using hwhole⟩
    · simp at h
  · intro h
    have hs : split? fragment = some (field.toList, r, literal.toList) :=
      split?_eq_some_iff.2 ⟨h.field_side.2, h.literal_side.2, h.written⟩
    have hne : ¬ (field.toList.isEmpty || literal.toList.isEmpty) = true := by
      simp only [Bool.or_eq_true, List.isEmpty_iff, not_or]
      exact ⟨h.field_side.1, h.literal_side.1⟩
    simp [shape?, hs, hne]

theorem IsShape.unique {fragment : List Char} {f₁ f₂ l₁ l₂ : String} {r₁ r₂ : Relation}
    (h₁ : IsShape fragment f₁ r₁ l₁) (h₂ : IsShape fragment f₂ r₂ l₂) :
    f₁ = f₂ ∧ r₁ = r₂ ∧ l₁ = l₂ := by
  have h := (shape?_eq_some_iff.2 h₁).symm.trans (shape?_eq_some_iff.2 h₂)
  simpa using h

/-- The literals that ask whether there is a value, each with the relation it is written under. -/
def sentinels : List (Relation × String × Comparator) :=
  [(.eq, "null", .isNull), (.eq, "notNull", .isNotNull),
   (.ne, "null", .isNotNull), (.ne, "notNull", .isNull)]

def sentinel? (r : Relation) (literal : String) : Option Comparator :=
  (sentinels.find? fun s => s.1 == r && Text.sameLetters literal s.2.1).map fun s => s.2.2

theorem nullTest?_eq_sentinel? (r : Relation) (literal : String) :
    nullTest? r literal = sentinel? r literal := by
  cases hnull : Text.sameLetters literal "null" <;>
    cases hnot : Text.sameLetters literal "notNull" <;>
    cases r <;> simp [nullTest?, sentinel?, sentinels, hnull, hnot]

/-- The leaf that a fragment stands for under a coercer. -/
inductive IsLeaf (coerce : Coercer) (fragment : List Char) : Restriction → Prop
  | test {field literal : String} {r : Relation} {test : Comparator}
      (shape : IsShape fragment field r literal) (asked : sentinel? r literal = some test) :
      IsLeaf coerce fragment (.comparison field test none)
  | relation {field literal : String} {r : Relation} {operand : Operand}
      (shape : IsShape fragment field r literal) (plain : sentinel? r literal = none)
      (coerced : coerce field literal = .ok operand) :
      IsLeaf coerce fragment (.comparison field (.relation r) (some operand))

/-- A primitive whose operand, unless it is a sentinel, the coercer accepts. -/
def Accepted (coerce : Coercer) (fragment : List Char) : Prop :=
  ∃ field r literal, IsShape fragment field r literal ∧
    (sentinel? r literal = none → ∃ operand, coerce field literal = .ok operand)

theorem accepted_iff {coerce : Coercer} {fragment : List Char} :
    Accepted coerce fragment ↔ ∃ leaf, IsLeaf coerce fragment leaf := by
  constructor
  · rintro ⟨field, r, literal, shape, h⟩
    cases hs : sentinel? r literal with
    | some test => exact ⟨_, .test shape hs⟩
    | none =>
      obtain ⟨operand, hc⟩ := h hs
      exact ⟨_, .relation shape hs hc⟩
  · rintro ⟨_, ⟨shape, hs⟩ | ⟨shape, _, hc⟩⟩
    · exact ⟨_, _, _, shape, fun h => absurd (hs.symm.trans h) (by simp)⟩
    · exact ⟨_, _, _, shape, fun _ => ⟨_, hc⟩⟩

theorem not_isShape_nil {field literal : String} {r : Relation} :
    ¬ IsShape [] field r literal := by
  intro h
  have hw := h.written
  simp only [List.nil_eq, List.append_eq_nil_iff] at hw
  exact h.field_side.1 hw.1.1

/-- Reading gives exactly the leaves that fragments stand for, wherever they start. -/
theorem read_eq_ok_iff {coerce : Coercer} {position : Nat} {fragment : List Char}
    {leaf : Restriction} :
    read coerce position fragment = .ok leaf ↔ IsLeaf coerce fragment leaf := by
  constructor
  · intro h
    unfold read at h
    split at h
    · simp at h
    · split at h
      · simp at h
      · next field r literal hshape =>
        have shape := shape?_eq_some_iff.1 hshape
        rw [nullTest?_eq_sentinel?] at h
        split at h
        · next test hs =>
          simp only [Except.ok.injEq] at h
          subst h
          exact .test shape hs
        · next hs =>
          cases hc : coerce field literal with
          | error e => simp [hc, Except.map] at h
          | ok operand =>
            simp only [hc, Except.map, Except.ok.injEq] at h
            subst h
            exact .relation shape hs hc
  · intro h
    have hne : fragment ≠ [] := by
      rintro rfl
      cases h with
      | test shape | relation shape => exact not_isShape_nil shape
    have hempty : ¬ fragment.isEmpty = true := by simpa using hne
    cases h with
    | test shape hs =>
      simp [read, hempty, shape?_eq_some_iff.2 shape, nullTest?_eq_sentinel?, hs]
    | relation shape hs hc =>
      simp [read, hempty, shape?_eq_some_iff.2 shape, nullTest?_eq_sentinel?, hs, hc, Except.map]

/-- Only the fault of an empty fragment has a place. -/
theorem read_position {coerce : Coercer} {fragment : List Char} (h : fragment ≠ [])
    (position : Nat) : read coerce position fragment = read coerce 0 fragment := by
  have hempty : ¬ fragment.isEmpty = true := by simpa using h
  rw [read, read, if_neg hempty, if_neg hempty]

end InventorySearch.Filter.Primitive
