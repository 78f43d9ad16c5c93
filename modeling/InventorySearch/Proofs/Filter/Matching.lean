import Mathlib.Data.List.Induction
import InventorySearch.Filter.Parser

set_option autoImplicit false

/-!
# Brackets that match

Brackets are told apart by counting: which of them match, which have no match, and
what the search for a closing bracket finds.
-/
namespace InventorySearch.Filter

/-!
## Balanced texts

A text is balanced when the search for a closing bracket passes over it: it closes
every bracket that it opens and none that was open before. The bracket that opens
in front of a balanced text is therefore closed right behind it.
-/

def Balanced (cs : List Char) : Prop :=
  ∀ depth rest, splitClose depth (cs ++ rest) =
    (splitClose depth rest).map fun (inside, after) => (cs ++ inside, after)

theorem balanced_nil : Balanced [] := by
  intro depth rest
  simp

theorem Balanced.append {cs ds : List Char} (hc : Balanced cs) (hd : Balanced ds) :
    Balanced (cs ++ ds) := by
  intro depth rest
  rw [List.append_assoc, hc, hd, Option.map_map]
  congr 1
  funext p
  simp

theorem balanced_singleton {c : Char} (hopen : c ≠ '(') (hclose : c ≠ ')') : Balanced [c] := by
  intro depth rest
  rw [List.singleton_append, splitClose]
  · rfl
  · exact hclose
  · exact hopen

theorem balanced_of_forall {cs : List Char} (h : ∀ c ∈ cs, c ≠ '(' ∧ c ≠ ')') : Balanced cs := by
  induction cs with
  | nil => exact balanced_nil
  | cons c cs ih =>
    have hc := h c (by simp)
    exact (balanced_singleton hc.1 hc.2).append (ih fun d hd => h d (by simp [hd]))

theorem splitClose_zero_balanced {cs : List Char} (h : Balanced cs) (rest : List Char) :
    splitClose 0 (cs ++ ')' :: rest) = some (cs, rest) := by
  rw [h]
  simp [splitClose]

theorem Balanced.bracket {cs : List Char} (h : Balanced cs) : Balanced ('(' :: cs ++ [')']) := by
  intro depth rest
  have hassoc : '(' :: cs ++ [')'] ++ rest = '(' :: (cs ++ ')' :: rest) := by simp
  have hclose : splitClose (depth + 1) (')' :: rest) =
      (splitClose depth rest).map fun (inside, after) => (')' :: inside, after) := by
    rw [splitClose]
  rw [hassoc, splitClose, h, hclose]
  simp only [Option.map_map]
  congr 1
  funext p
  simp

/-!
## Matching brackets

Two brackets match when the text between them opens as many brackets as it closes, and
no start of it closes more than it opens. The search for a closing bracket finds the
match of the bracket that it starts behind, and fails exactly if the text has none.
-/

/-! ### Counting -/

/-- Whether no start of a text closes more brackets than it opens and `depth` more. -/
def Within (depth : Nat) (cs : List Char) : Prop :=
  ∀ start, start <+: cs → start.count ')' ≤ start.count '(' + depth

structure WellBracketed (cs : List Char) : Prop where
  within : Within 0 cs
  even : cs.count '(' = cs.count ')'

section
variable {depth depth' : Nat} {c : Char} {cs ds : List Char}

theorem within_nil (depth : Nat) : Within depth [] := by
  intro start h
  rw [List.prefix_nil.mp h]
  exact Nat.zero_le _

theorem Within.mono (h : Within depth cs) (hle : depth ≤ depth') : Within depth' cs := by
  intro start hstart
  have hcount := h start hstart
  omega

theorem Within.append (hcs : Within depth cs) (hds : Within depth' ds)
    (hcount : cs.count ')' + depth' ≤ cs.count '(' + depth) : Within depth (cs ++ ds) := by
  intro start hstart
  rcases List.prefix_or_prefix_of_prefix hstart (List.prefix_append cs ds) with h | ⟨rest, rfl⟩
  · exact hcs start h
  · have hrest := hds rest ((List.prefix_append_right_inj cs).mp hstart)
    simp only [List.count_append]
    omega

theorem WellBracketed.append (hcs : WellBracketed cs) (hds : WellBracketed ds) :
    WellBracketed (cs ++ ds) := by
  refine ⟨hcs.within.append hds.within ?_, ?_⟩
  · have heven := hcs.even
    omega
  · rw [List.count_append, List.count_append, hcs.even, hds.even]

theorem within_cons_iff (hcount : ∀ start : List Char,
    (c :: start).count ')' ≤ (c :: start).count '(' + depth ↔
      start.count ')' ≤ start.count '(' + depth') :
    Within depth (c :: cs) ↔ Within depth' cs := by
  constructor
  · intro h start hstart
    exact (hcount start).mp (h (c :: start) (List.cons_prefix_cons.mpr ⟨rfl, hstart⟩))
  · intro h start hstart
    rcases List.prefix_cons_iff.mp hstart with rfl | ⟨rest, rfl, hrest⟩
    · exact Nat.zero_le _
    · exact (hcount rest).mpr (h rest hrest)

theorem within_open_iff : Within depth ('(' :: cs) ↔ Within (depth + 1) cs := by
  refine within_cons_iff fun start => ?_
  simp only [List.count_cons]
  simp
  omega

theorem within_close_iff : Within (depth + 1) (')' :: cs) ↔ Within depth cs := by
  refine within_cons_iff fun start => ?_
  simp only [List.count_cons]
  simp
  omega

theorem within_other_iff (hopen : c ≠ '(') (hclose : c ≠ ')') :
    Within depth (c :: cs) ↔ Within depth cs := by
  refine within_cons_iff fun start => ?_
  rw [List.count_cons_of_ne hopen, List.count_cons_of_ne hclose]

theorem not_within_close : ¬ Within 0 (')' :: cs) := by
  intro h
  have hcount := h [')'] (List.cons_prefix_cons.mpr ⟨rfl, List.nil_prefix⟩)
  simp at hcount

theorem WellBracketed.bracket (h : WellBracketed cs) : WellBracketed ('(' :: cs ++ [')']) := by
  have heven := h.even
  have hclose : Within 1 [')'] := within_close_iff.mpr (within_nil 0)
  refine ⟨within_open_iff.mpr ?_, ?_⟩
  · exact (h.within.mono (Nat.zero_le 1)).append hclose (by omega)
  · simp
    omega

end

/-! ### The search for a closing bracket -/

theorem splitClose_eq_none_iff {depth : Nat} {cs : List Char} :
    splitClose depth cs = none ↔ Within depth cs := by
  fun_induction splitClose depth cs with
  | case1 depth => simp [within_nil]
  | case2 cs => simp [not_within_close]
  | case3 cs outer ih => rw [Option.map_eq_none_iff, ih, within_close_iff]
  | case4 depth cs ih => rw [Option.map_eq_none_iff, ih, within_open_iff]
  | case5 depth c cs hclose hopen ih =>
    rw [Option.map_eq_none_iff, ih, within_other_iff hopen hclose]

theorem within_of_splitClose {depth : Nat} {cs inside after : List Char}
    (h : splitClose depth cs = some (inside, after)) :
    Within depth inside ∧ inside.count ')' = inside.count '(' + depth := by
  fun_induction splitClose depth cs generalizing inside after with
  | case1 => simp at h
  | case2 cs =>
    obtain ⟨rfl, -⟩ := Prod.mk.inj (Option.some.inj h)
    exact ⟨within_nil 0, rfl⟩
  | case3 cs outer ih =>
    obtain ⟨⟨i, a⟩, hi, heq⟩ := Option.map_eq_some_iff.mp h
    obtain ⟨rfl, -⟩ := Prod.mk.inj heq
    obtain ⟨hwithin, hcount⟩ := ih hi
    refine ⟨within_close_iff.mpr hwithin, ?_⟩
    simp
    omega
  | case4 depth cs ih =>
    obtain ⟨⟨i, a⟩, hi, heq⟩ := Option.map_eq_some_iff.mp h
    obtain ⟨rfl, -⟩ := Prod.mk.inj heq
    obtain ⟨hwithin, hcount⟩ := ih hi
    refine ⟨within_open_iff.mpr hwithin, ?_⟩
    simp
    omega
  | case5 depth c cs hclose hopen ih =>
    obtain ⟨⟨i, a⟩, hi, heq⟩ := Option.map_eq_some_iff.mp h
    obtain ⟨rfl, -⟩ := Prod.mk.inj heq
    obtain ⟨hwithin, hcount⟩ := ih hi
    refine ⟨(within_other_iff hopen hclose).mpr hwithin, ?_⟩
    rw [List.count_cons_of_ne hopen, List.count_cons_of_ne hclose, hcount]

theorem wellBracketed_of_splitClose {cs inside after : List Char}
    (h : splitClose 0 cs = some (inside, after)) : WellBracketed inside := by
  obtain ⟨hwithin, hcount⟩ := within_of_splitClose h
  exact ⟨hwithin, hcount.symm⟩

theorem Balanced.wellBracketed {cs : List Char} (h : Balanced cs) : WellBracketed cs :=
  wellBracketed_of_splitClose (splitClose_zero_balanced h [])

/-! ### Brackets without a match -/

def Unclosed (after : List Char) : Prop :=
  ¬ ∃ inside rest, after = inside ++ ')' :: rest ∧ WellBracketed inside

theorem WellBracketed.not_within_close {before cs : List Char} (h : WellBracketed (before ++ cs))
    (rest : List Char) : ¬ Within 0 (cs ++ ')' :: rest) := by
  intro hwithin
  have hcount := hwithin (cs ++ [')']) ⟨rest, by simp⟩
  have hbefore := h.within before (List.prefix_append _ _)
  have heven := h.even
  simp at hcount heven
  omega

end InventorySearch.Filter
