import Mathlib.Data.List.FinRange
import InventorySearch.Proofs.Filter.Grammar

set_option autoImplicit false

/-!
# Joining components that are not looked into

Merging joins its components by nodes of its own and leaves the components as they are.
Here the nodes are kept apart from the components, which may be trees themselves: what
is joined is a tree over the places of the components. It has them in their order, its
truth is that of the runs between the pivots, and it is nested to the left.
-/
namespace InventorySearch.Filter

/-- The nodes that join units, over the units. -/
inductive Joint (α : Type) where
  | unit (a : α)
  | and (left right : Joint α)
  | or (left right : Joint α)

namespace Joint
variable {α : Type}

def tree (component : α → Restriction) : Joint α → Restriction
  | unit a => component a
  | and left right => .and (left.tree component) (right.tree component)
  | or left right => .or (left.tree component) (right.tree component)

def units : Joint α → List α
  | unit a => [a]
  | and left right => left.units ++ right.units
  | or left right => left.units ++ right.units

def Holds (v : α → Prop) : Joint α → Prop
  | unit a => v a
  | and left right => left.Holds v ∧ right.Holds v
  | or left right => left.Holds v ∨ right.Holds v

def parts : Joint α → List (Joint α)
  | unit a => [unit a]
  | and left right => and left right :: (left.parts ++ right.parts)
  | or left right => or left right :: (left.parts ++ right.parts)

/-- Being nested to the left, "and"s below "or"s. -/
structure LeftNested (j : Joint α) : Prop where
  no_or_below_and : ∀ left right, and left right ∈ j.parts →
    ∀ l r, or l r ∉ left.parts ∧ or l r ∉ right.parts
  right_of_and : ∀ left right, and left right ∈ j.parts →
    ∀ l r, right ≠ or l r ∧ right ≠ and l r
  right_of_or : ∀ left right, or left right ∈ j.parts → ∀ l r, right ≠ or l r

/-! ## The nodes of the fold -/

def close (before : Option (Joint α)) (run : Joint α) : Joint α :=
  before.elim run fun earlier => or earlier run

/-- The fold over the units, which are joined and not looked into. -/
def join (before : Option (Joint α)) (run : Joint α) : List (Pivot × α) → Joint α
  | [] => close before run
  | (.and, next) :: rest => join before (and run (unit next)) rest
  | (.or, next) :: rest => join (some (close before run)) (unit next) rest

theorem tree_close (component : α → Restriction) (before : Option (Joint α)) (run : Joint α) :
    (close before run).tree component =
      closeRun (before.map (tree component)) (run.tree component) := by
  cases before <;> rfl

theorem tree_join (component : α → Restriction) (before : Option (Joint α)) (run : Joint α)
    (rest : List (Pivot × α)) :
    (join before run rest).tree component =
      joinRuns (before.map (tree component)) (run.tree component)
        (rest.map fun next => (next.1, component next.2)) := by
  induction rest generalizing before run with
  | nil => exact tree_close component before run
  | cons next rest ih =>
    obtain ⟨pivot, next⟩ := next
    cases pivot with
    | and => exact ih before (and run (unit next))
    | or =>
      rw [join, ih, Option.map_some, tree_close]
      rfl

theorem units_join (before : Option (Joint α)) (run : Joint α) (rest : List (Pivot × α)) :
    (join before run rest).units = (close before run).units ++ rest.map Prod.snd := by
  induction rest generalizing before run with
  | nil => simp [join]
  | cons next rest ih =>
    obtain ⟨pivot, next⟩ := next
    cases pivot with
    | and => cases before <;> simp [join, ih, close, units]
    | or => simp [join, ih, close, units]

/-! ## Nesting -/

inductive IsRun : Joint α → Prop
  | unit (a : α) : IsRun (unit a)
  | and {left : Joint α} (h : IsRun left) (a : α) : IsRun (and left (.unit a))

inductive IsSum : Joint α → Prop
  | run {j : Joint α} (h : IsRun j) : IsSum j
  | or {left right : Joint α} (hleft : IsSum left) (hright : IsRun right) : IsSum (or left right)

theorem isSum_close {before : Option (Joint α)} {run : Joint α} (hbefore : ∀ b ∈ before, IsSum b)
    (hrun : IsRun run) : IsSum (close before run) := by
  cases before with
  | none => exact .run hrun
  | some earlier => exact .or (hbefore earlier rfl) hrun

theorem isSum_join {before : Option (Joint α)} {run : Joint α} (hbefore : ∀ b ∈ before, IsSum b)
    (hrun : IsRun run) (rest : List (Pivot × α)) : IsSum (join before run rest) := by
  induction rest generalizing before run with
  | nil => exact isSum_close hbefore hrun
  | cons next rest ih =>
    obtain ⟨pivot, next⟩ := next
    cases pivot with
    | and => exact ih hbefore (.and hrun next)
    | or =>
      refine ih (fun b hb => ?_) (.unit next)
      exact Option.mem_some_iff.mp hb ▸ isSum_close hbefore hrun

theorem IsRun.of_mem_parts {j p : Joint α} (h : IsRun j) (hp : p ∈ j.parts) : IsRun p := by
  induction h with
  | unit a => exact List.mem_singleton.mp hp ▸ .unit a
  | @and left h a ih =>
    rw [parts, List.mem_cons, List.mem_append] at hp
    rcases hp with rfl | hp | hp
    · exact .and h a
    · exact ih hp
    · exact List.mem_singleton.mp hp ▸ .unit a

theorem IsSum.of_mem_parts {j p : Joint α} (h : IsSum j) (hp : p ∈ j.parts) : IsSum p := by
  induction h with
  | run h => exact .run (h.of_mem_parts hp)
  | @or left right hleft hright ih =>
    rw [parts, List.mem_cons, List.mem_append] at hp
    rcases hp with rfl | hp | hp
    · exact .or hleft hright
    · exact ih hp
    · exact .run (hright.of_mem_parts hp)

theorem IsSum.leftNested {j : Joint α} (h : IsSum j) : j.LeftNested := by
  have hrun {left right : Joint α} (hin : and left right ∈ j.parts) : IsRun (and left right) := by
    cases h.of_mem_parts hin with
    | run h => exact h
  constructor
  case no_or_below_and =>
    intro left right hin l r
    constructor
    · intro hl
      cases (hrun hin).of_mem_parts (List.mem_cons_of_mem _ (List.mem_append_left _ hl))
    · intro hr
      cases (hrun hin).of_mem_parts (List.mem_cons_of_mem _ (List.mem_append_right _ hr))
  case right_of_and =>
    intro left right hin l r
    cases hrun hin with
    | and h a => exact ⟨nofun, nofun⟩
  case right_of_or =>
    rintro left right hin l r rfl
    cases h.of_mem_parts hin with
    | run h => cases h
    | or hleft hright => cases hright

end Joint

/-! ## Truth -/

/-- Whether only "and"s stand between the units at two places. -/
def SameRun (pivots : List Pivot) (i k : Nat) : Prop :=
  ∀ m, min i k ≤ m → m < max i k → pivots[m]? = some .and

def SomeRun (pivots : List Pivot) (truths : List Prop) : Prop :=
  ∃ i < truths.length, ∀ k t, truths[k]? = some t → SameRun pivots i k → t

section
variable {pivots : List Pivot} {i k : Nat} {t u : Prop} {ts : List Prop}

theorem sameRun_self (pivots : List Pivot) (i : Nat) : SameRun pivots i i := by
  intro m hle hlt
  omega

theorem sameRun_succ_iff {pivot : Pivot} :
    SameRun (pivot :: pivots) (i + 1) (k + 1) ↔ SameRun pivots i k := by
  constructor
  · intro h m hle hlt
    exact h (m + 1) (by omega) (by omega)
  · intro h m hle hlt
    obtain ⟨m, rfl⟩ : ∃ n, m = n + 1 := ⟨m - 1, by omega⟩
    exact h m (by omega) (by omega)

theorem sameRun_and_iff : SameRun (.and :: pivots) i k ↔ SameRun pivots (i - 1) (k - 1) := by
  constructor
  · intro h m hle hlt
    exact h (m + 1) (by omega) (by omega)
  · intro h m hle hlt
    cases m with
    | zero => rfl
    | succ m => exact h m (by omega) (by omega)

theorem not_sameRun_or :
    ¬ SameRun (.or :: pivots) 0 (k + 1) ∧ ¬ SameRun (.or :: pivots) (k + 1) 0 := by
  constructor
  · intro h
    cases h 0 (by omega) (by omega)
  · intro h
    cases h 0 (by omega) (by omega)

theorem someRun_singleton_iff : SomeRun pivots [t] ↔ t := by
  constructor
  · rintro ⟨i, hi, h⟩
    obtain rfl : i = 0 := Nat.lt_one_iff.mp hi
    exact h 0 t rfl (sameRun_self pivots 0)
  · intro ht
    refine ⟨0, Nat.one_pos, fun k t' hk _ => ?_⟩
    cases k with
    | zero => exact Option.some.inj hk ▸ ht
    | succ k => cases hk

theorem someRun_and_iff :
    SomeRun (.and :: pivots) (t :: u :: ts) ↔ SomeRun pivots ((t ∧ u) :: ts) := by
  constructor
  · rintro ⟨i, hi, h⟩
    refine ⟨i - 1, ?_, fun k t' hk hrun => ?_⟩
    · simp only [List.length_cons] at hi ⊢
      omega
    · cases k with
      | zero =>
        obtain rfl := Option.some.inj hk
        exact ⟨h 0 t rfl (sameRun_and_iff.mpr hrun), h 1 u rfl (sameRun_and_iff.mpr hrun)⟩
      | succ k => exact h (k + 2) t' hk (sameRun_and_iff.mpr hrun)
  · rintro ⟨i, hi, h⟩
    refine ⟨i + 1, Nat.succ_lt_succ hi, fun k t' hk hrun => ?_⟩
    have hrun' := sameRun_and_iff.mp hrun
    match k with
    | 0 => exact Option.some.inj hk ▸ (h 0 _ rfl hrun').1
    | 1 => exact Option.some.inj hk ▸ (h 0 _ rfl hrun').2
    | k + 2 => exact h (k + 1) t' hk hrun'

theorem someRun_or_iff : SomeRun (.or :: pivots) (t :: ts) ↔ t ∨ SomeRun pivots ts := by
  constructor
  · rintro ⟨i, hi, h⟩
    cases i with
    | zero => exact .inl (h 0 t rfl (sameRun_self _ 0))
    | succ i =>
      exact .inr ⟨i, Nat.lt_of_succ_lt_succ hi, fun k t' hk hrun =>
        h (k + 1) t' hk (sameRun_succ_iff.mpr hrun)⟩
  · rintro (ht | ⟨i, hi, h⟩)
    · refine ⟨0, Nat.succ_pos _, fun k t' hk hrun => ?_⟩
      cases k with
      | zero => exact Option.some.inj hk ▸ ht
      | succ k => exact absurd hrun not_sameRun_or.1
    · refine ⟨i + 1, Nat.succ_lt_succ hi, fun k t' hk hrun => ?_⟩
      cases k with
      | zero => exact absurd hrun not_sameRun_or.2
      | succ k => exact h k t' hk (sameRun_succ_iff.mp hrun)

end

namespace Joint
variable {α : Type}

theorem holds_close (v : α → Prop) (before : Option (Joint α)) (run : Joint α) :
    (close before run).Holds v ↔ (∃ b ∈ before, b.Holds v) ∨ run.Holds v := by
  cases before <;> simp [close, Holds]

/-- The fold has closed all runs but the one that it extends, which counts as one unit. -/
theorem holds_join (v : α → Prop) (before : Option (Joint α)) (run : Joint α)
    (rest : List (Pivot × α)) :
    (join before run rest).Holds v ↔ (∃ b ∈ before, b.Holds v) ∨
      SomeRun (rest.map Prod.fst) (run.Holds v :: rest.map fun next => v next.2) := by
  induction rest generalizing before run with
  | nil => rw [join, holds_close, List.map_nil, List.map_nil, someRun_singleton_iff]
  | cons next rest ih =>
    obtain ⟨pivot, next⟩ := next
    simp only [List.map_cons]
    cases pivot with
    | and => rw [join, ih, someRun_and_iff, Holds, Holds]
    | or =>
      have hclosed : (∃ b ∈ some (close before run), b.Holds v) ↔
          (∃ b ∈ before, b.Holds v) ∨ run.Holds v := by
        simp [holds_close]
      rw [join, ih, someRun_or_iff, hclosed, or_assoc, Holds]

/-! ## Which nodes the merge made -/

theorem units_ne_nil (j : Joint α) : j.units ≠ [] := by
  induction j with
  | unit a => exact List.cons_ne_nil a []
  | and left right ih _ => exact List.append_ne_nil_of_left_ne_nil ih _
  | or left right ih _ => exact List.append_ne_nil_of_left_ne_nil ih _

theorem leaves_tree (component : α → Restriction) (j : Joint α) :
    (j.tree component).leaves = j.units.flatMap fun a => (component a).leaves := by
  induction j with
  | unit a => simp [tree, units]
  | and left right ihLeft ihRight =>
    rw [units, List.flatMap_append, ← ihLeft, ← ihRight, tree, Restriction.leaves]
  | or left right ihLeft ihRight =>
    rw [units, List.flatMap_append, ← ihLeft, ← ihRight, tree, Restriction.leaves]

theorem eq_nil_of_tree_eq {component : α → Restriction} {j j' : Joint α} {more : List α}
    (htree : j.tree component = j'.tree component) (hunits : j'.units = j.units ++ more) :
    more = [] := by
  have hleaves := leaves_tree component j'
  rw [hunits, List.flatMap_append, ← leaves_tree component j, ← htree,
    List.self_eq_append_right, List.flatMap_eq_nil_iff] at hleaves
  exact List.eq_nil_iff_forall_not_mem.mpr fun a ha =>
    (component a).leaves_ne_nil (hleaves a ha)

theorem units_eq_of_append_eq {component : α → Restriction} {left left' right right' : Joint α}
    (htree : left.tree component = left'.tree component)
    (hunits : left.units ++ right.units = left'.units ++ right'.units) :
    left.units = left'.units ∧ right.units = right'.units := by
  rcases List.append_eq_append_iff.mp hunits with ⟨more, hleft, hright⟩ | ⟨more, hleft, hright⟩
  · obtain rfl := eq_nil_of_tree_eq htree hleft
    exact ⟨by simpa using hleft.symm, by simpa using hright⟩
  · obtain rfl := eq_nil_of_tree_eq htree.symm hleft
    exact ⟨by simpa using hleft, by simpa using hright.symm⟩

/-- The tree and the units leave no choice of the nodes between them. -/
theorem eq_of_tree_eq {component : α → Restriction} {j j' : Joint α} (hunits : j.units = j'.units)
    (htree : j.tree component = j'.tree component) : j = j' := by
  have hone {left right : Joint α} {a : α} : left.units ++ right.units ≠ [a] := by
    intro h
    have hlength := congrArg List.length h
    have hleft := List.length_pos_of_ne_nil left.units_ne_nil
    have hright := List.length_pos_of_ne_nil right.units_ne_nil
    rw [List.length_append, List.length_singleton] at hlength
    omega
  induction j generalizing j' with
  | unit a =>
    cases j' with
    | unit b => rw [List.singleton_inj.mp hunits]
    | and left right => exact absurd hunits.symm hone
    | or left right => exact absurd hunits.symm hone
  | and left right ihLeft ihRight =>
    cases j' with
    | unit b => exact absurd hunits hone
    | and left' right' =>
      obtain ⟨hleft, hright⟩ := Restriction.and.inj htree
      obtain ⟨hunitsLeft, hunitsRight⟩ := units_eq_of_append_eq hleft hunits
      rw [ihLeft hunitsLeft hleft, ihRight hunitsRight hright]
    | or left' right' => cases htree
  | or left right ihLeft ihRight =>
    cases j' with
    | unit b => exact absurd hunits hone
    | and left' right' => cases htree
    | or left' right' =>
      obtain ⟨hleft, hright⟩ := Restriction.or.inj htree
      obtain ⟨hunitsLeft, hunitsRight⟩ := units_eq_of_append_eq hleft hunits
      rw [ihLeft hunitsLeft hleft, ihRight hunitsRight hright]

end Joint

/-! ## Merging -/

theorem merge_of_length_ne {components : List Restriction} {pivots : List Pivot}
    (h : components.length ≠ pivots.length + 1) :
    merge components pivots = .error (.pivotCount components.length pivots.length) := by
  cases components with
  | nil => rfl
  | cons first rest =>
    have hrest : rest.length ≠ pivots.length := fun heq => h (congrArg Nat.succ heq)
    rw [merge, if_neg hrest, List.length_cons]

/-- Merging is the fold over the places of the components. -/
theorem merge_map {α : Type} (component : α → Restriction) (first : α) {rest : List α}
    {pivots : List Pivot} (h : rest.length = pivots.length) :
    merge ((first :: rest).map component) pivots =
      .ok ((Joint.join none (.unit first) (pivots.zip rest)).tree component) := by
  have hzip : (pivots.zip rest).map (fun next => (next.1, component next.2)) =
      pivots.zip (rest.map component) := by
    rw [List.zip_map_right]
    rfl
  rw [List.map_cons, merge, if_pos (by rw [List.length_map, h]), Joint.tree_join, hzip]
  rfl

theorem someRun_map_iff {n : Nat} {pivots : List Pivot} {v : Fin n → Prop} :
    SomeRun pivots ((List.finRange n).map v) ↔
      ∃ i : Fin n, ∀ k : Fin n, SameRun pivots i k → v k := by
  have hplace {k : Nat} {t : Prop} :
      ((List.finRange n).map v)[k]? = some t ↔ ∃ hk : k < n, v ⟨k, hk⟩ = t := by
    rw [List.getElem?_map, Option.map_eq_some_iff]
    simp [List.getElem?_eq_some_iff]
  constructor
  · rintro ⟨i, hi, h⟩
    rw [List.length_map, List.length_finRange] at hi
    exact ⟨⟨i, hi⟩, fun k hrun => h k (v k) (hplace.mpr ⟨k.isLt, rfl⟩) hrun⟩
  · rintro ⟨i, h⟩
    refine ⟨i, ?_, fun k t hk hrun => ?_⟩
    · rw [List.length_map, List.length_finRange]
      exact i.isLt
    · obtain ⟨hlt, rfl⟩ := hplace.mp hk
      exact h ⟨k, hlt⟩ hrun

/-- Merging fails for its numbers alone, and else joins the places of the components: in order, by
nodes that the tree determines, with the truth of the runs, and nested to the left. -/
theorem merge_joins (components : List Restriction) (pivots : List Pivot) :
    (components.length ≠ pivots.length + 1 ∧
      merge components pivots = .error (.pivotCount components.length pivots.length)) ∨
    (components.length = pivots.length + 1 ∧ ∃ j : Joint (Fin components.length),
      merge components pivots = .ok (j.tree components.get) ∧
      j.units = List.finRange components.length ∧
      (∀ j' : Joint (Fin components.length), j'.units = List.finRange components.length →
        j'.tree components.get = j.tree components.get → j' = j) ∧
      (∀ v : Fin components.length → Prop,
        j.Holds v ↔ ∃ i : Fin components.length, ∀ k : Fin components.length,
          SameRun pivots i k → v k) ∧
      j.LeftNested) := by
  by_cases hlength : components.length = pivots.length + 1
  · have hne : List.finRange components.length ≠ [] := by simp [hlength]
    obtain ⟨first, rest, hplaces⟩ := List.exists_cons_of_ne_nil hne
    have hrest : rest.length = pivots.length := by
      have hcount := congrArg List.length hplaces
      rw [List.length_finRange, List.length_cons] at hcount
      omega
    have hpivots : (pivots.zip rest).map Prod.fst = pivots :=
      List.map_fst_zip (Nat.le_of_eq hrest.symm)
    have hunits : (pivots.zip rest).map Prod.snd = rest := List.map_snd_zip (Nat.le_of_eq hrest)
    have hmerge := merge_map components.get first hrest
    rw [← hplaces, List.map_get_finRange] at hmerge
    have hjoin : (Joint.join none (.unit first) (pivots.zip rest)).units =
        List.finRange components.length := by
      rw [Joint.units_join, hunits, hplaces]
      rfl
    refine .inr ⟨hlength, _, hmerge, hjoin, ?determined, ?truth, ?nested⟩
    case determined => exact fun j' hj' htree => Joint.eq_of_tree_eq (hj'.trans hjoin.symm) htree
    case truth =>
      intro v
      have htruths : (pivots.zip rest).map (fun next => v next.2) = rest.map v := by
        conv_rhs => rw [← hunits, List.map_map]
        rfl
      rw [Joint.holds_join, hpivots, htruths, ← someRun_map_iff, hplaces, List.map_cons]
      exact or_iff_right (by simp)
    case nested => exact (Joint.isSum_join (by simp) (.unit first) _).leftNested
  · exact .inl ⟨hlength, merge_of_length_ne hlength⟩

end InventorySearch.Filter
