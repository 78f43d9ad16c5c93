import InventorySearch.Proofs.Outcome
import InventorySearch.Proofs.Sql.Reader

set_option autoImplicit false

/-!
# Connectives

What is read from predicates with "and" or "or" between them, and from the
clauses of a query.
-/
namespace InventorySearch.Sql

theorem splitAt_of_not_mem {w : String} {items : List Item} (h : word w ∉ items) :
    splitAt w items = [items] := by
  induction items with
  | nil => rfl
  | cons i items ih =>
    rw [List.mem_cons, not_or] at h
    rw [splitAt, if_neg (Ne.symm h.1), ih h.2]
    rfl

theorem splitAt_append {w : String} {items : List Item} (h : word w ∉ items) (rest : List Item) :
    splitAt w (items ++ word w :: rest) = items :: splitAt w rest := by
  induction items with
  | nil => rw [List.nil_append, splitAt, if_pos rfl]
  | cons i items ih =>
    rw [List.mem_cons, not_or] at h
    rw [List.cons_append, splitAt, if_neg (Ne.symm h.1), ih h.2]
    rfl

def between (w : String) : List (List Item) → List Item
  | [] => []
  | [items] => items
  | items :: rest => items ++ word w :: between w rest

theorem splitAt_between {w : String} {parts : List (List Item)} (hne : parts ≠ [])
    (h : ∀ items ∈ parts, word w ∉ items) : splitAt w (between w parts) = parts := by
  induction parts with
  | nil => exact absurd rfl hne
  | cons items rest ih =>
    have hitems := h items List.mem_cons_self
    cases rest with
    | nil => exact splitAt_of_not_mem hitems
    | cons next rest =>
      rw [between, splitAt_append hitems,
        ih (List.cons_ne_nil _ _) fun x hx => h x (List.mem_cons_of_mem _ hx)]
      simp

theorem mem_between {w : String} {parts : List (List Item)} {i : Item} (h : i ∈ between w parts) :
    i = word w ∨ ∃ items ∈ parts, i ∈ items := by
  induction parts with
  | nil => simp [between] at h
  | cons items rest ih =>
    cases rest with
    | nil => exact .inr ⟨items, List.mem_cons_self, h⟩
    | cons next rest =>
      rw [between, List.mem_append, List.mem_cons] at h
      · rcases h with hin | rfl | hin
        · exact .inr ⟨items, List.mem_cons_self, hin⟩
        · exact .inl rfl
        · refine (ih hin).imp_right ?_
          rintro ⟨x, hx, hi⟩
          exact ⟨x, List.mem_cons_of_mem _ hx, hi⟩
      · simp

def conjoin : List Formula → Formula
  | [] => .always
  | [f] => f
  | f :: rest => .and f (conjoin rest)

theorem join_and {fs : List Formula} (h : fs ≠ []) : join .and fs = some (conjoin fs) := by
  induction fs with
  | nil => exact absurd rfl h
  | cons f fs ih =>
    cases fs with
    | nil => rfl
    | cons g gs =>
      have hrest := ih (List.cons_ne_nil _ _)
      simp [join, hrest, conjoin]

theorem conjoin_iff {P : Formula → Prop} (halways : P .always)
    (hand : ∀ f g, P (.and f g) ↔ P f ∧ P g) (fs : List Formula) :
    P (conjoin fs) ↔ ∀ f ∈ fs, P f := by
  induction fs with
  | nil => simp [conjoin, halways]
  | cons f fs ih =>
    cases fs with
    | nil => simp [conjoin]
    | cons g gs =>
      have hstep : P (conjoin (f :: g :: gs)) ↔ P f ∧ P (conjoin (g :: gs)) := hand _ _
      rw [hstep, ih, List.forall_mem_cons (a := f)]

/-- Words that end a predicate or that only groups other than formulas begin with or hold. -/
def separators : List String := ["AND", "OR", "SELECT", "AS"]

structure IsPredicate (items : List Item) (f : Formula) : Prop where
  read : readPredicate items = some f
  apart : ∀ w ∈ separators, word w ∉ items

theorem mapM_readPredicate {parts : List (List Item)} {fs : List Formula}
    (h : List.Forall₂ IsPredicate parts fs) : parts.mapM readPredicate = some fs := by
  induction h with
  | nil => rfl
  | cons hitem _ ih => simp [hitem.read, ih]

theorem readConjunction_between {parts : List (List Item)} {fs : List Formula}
    (h : List.Forall₂ IsPredicate parts fs) (hne : parts ≠ []) :
    readConjunction (between "AND" parts) = some (conjoin fs) := by
  have hparts : ∀ items ∈ parts, word "AND" ∉ items := fun items hin => by
    obtain ⟨f, -, hf⟩ := forall₂_exists_right h hin
    exact hf.apart "AND" (by simp [separators])
  have hfs : fs ≠ [] := by
    rintro rfl
    exact hne (List.forall₂_nil_right_iff.mp h)
  rw [readConjunction, splitAt_between hne hparts, mapM_readPredicate h, Option.bind_some,
    join_and hfs]

theorem not_mem_between {parts : List (List Item)} {fs : List Formula}
    (h : List.Forall₂ IsPredicate parts fs) {w : String} (hw : w ∈ separators) (hand : w ≠ "AND") :
    word w ∉ between "AND" parts := by
  intro hin
  rcases mem_between hin with heq | ⟨items, hitems, hi⟩
  · exact hand (by simpa using heq)
  · obtain ⟨f, -, hf⟩ := forall₂_exists_right h hitems
    exact hf.apart w hw hi

theorem readFormula_between {parts : List (List Item)} {fs : List Formula}
    (h : List.Forall₂ IsPredicate parts fs) (hne : parts ≠ []) :
    readFormula (between "AND" parts) = some (conjoin fs) := by
  have hor := not_mem_between h (w := "OR") (by simp [separators]) (by decide)
  simp [readFormula, splitAt_of_not_mem hor, readConjunction_between h hne, join]

theorem IsPredicate.readFormula {items : List Item} {f : Formula} (h : IsPredicate items f) :
    Sql.readFormula items = some f :=
  readFormula_between (.cons h .nil) (List.cons_ne_nil _ _)

theorem readFormula_or {xs ys : List Item} {f g : Formula} (hx : IsPredicate xs f)
    (hy : IsPredicate ys g) : readFormula (xs ++ word "OR" :: ys) = some (.or f g) := by
  have hxs : word "OR" ∉ xs := hx.apart "OR" (by simp [separators])
  have hys : word "OR" ∉ ys := hy.apart "OR" (by simp [separators])
  have hf : readConjunction xs = some f :=
    readConjunction_between (.cons hx .nil) (List.cons_ne_nil _ _)
  have hg : readConjunction ys = some g :=
    readConjunction_between (.cons hy .nil) (List.cons_ne_nil _ _)
  simp [readFormula, splitAt_append hxs, splitAt_of_not_mem hys, hf, hg, join]

/-- What is neither a query nor the inside of a cast is a formula. -/
theorem readGroup_formula {items : List Item} (hselect : word "SELECT" ∉ items)
    (has : word "AS" ∉ items) : readGroup items = (readFormula items).map .formula := by
  unfold readGroup
  split
  · exact absurd List.mem_cons_self hselect
  · simp at has
  · rfl

theorem readGroup_between {parts : List (List Item)} {fs : List Formula}
    (h : List.Forall₂ IsPredicate parts fs) (hne : parts ≠ []) :
    readGroup (between "AND" parts) = some (.formula (conjoin fs)) := by
  have hselect := not_mem_between h (w := "SELECT") (by simp [separators]) (by decide)
  have has := not_mem_between h (w := "AS") (by simp [separators]) (by decide)
  rw [readGroup_formula hselect has, readFormula_between h hne, Option.map_some]

theorem readGroup_or {xs ys : List Item} {f g : Formula} (hx : IsPredicate xs f)
    (hy : IsPredicate ys g) :
    readGroup (xs ++ word "OR" :: ys) = some (.formula (.or f g)) := by
  have happart {w : String} (hw : w ∈ separators) (hor : w ≠ "OR") :
      word w ∉ xs ++ word "OR" :: ys := by
    simp [hx.apart w hw, hy.apart w hw, hor]
  rw [readGroup_formula (happart (by simp [separators]) (by decide))
    (happart (by simp [separators]) (by decide)), readFormula_or hx hy, Option.map_some]

theorem isPredicate_group (f : Formula) : IsPredicate [.group (.formula f)] f := ⟨rfl, by simp⟩

/-! ## Queries -/

theorem cutAt_of_not_mem {w : String} {items : List Item} (h : word w ∉ items) :
    cutAt w items = none := by
  induction items with
  | nil => rfl
  | cons i items ih =>
    rw [List.mem_cons, not_or] at h
    rw [cutAt, if_neg (Ne.symm h.1), ih h.2, Option.map_none]

theorem cutAt_append {w : String} {items : List Item} (h : word w ∉ items) (rest : List Item) :
    cutAt w (items ++ word w :: rest) = some (items, rest) := by
  induction items with
  | nil => rw [List.nil_append, cutAt, if_pos rfl]
  | cons i items ih =>
    rw [List.mem_cons, not_or] at h
    rw [List.cons_append, cutAt, if_neg (Ne.symm h.1), ih h.2, Option.map_some]

variable {head first condition : List Item} {item : Scalar} {sources : Sources}
  {joined f : Formula}

theorem readGroup_query (hhead : word "FROM" ∉ head) (hitem : readScalar head = some (item, []))
    (hfirst : word "WHERE" ∉ first) (hsources : readSources first = some (sources, joined)) :
    readGroup (word "SELECT" :: (head ++ word "FROM" :: first)) =
      some (.query ⟨item, sources, joined⟩) := by
  simp [readGroup, readQuery, cutAt_append hhead, hitem, cutAt_of_not_mem hfirst, hsources]

theorem readGroup_query_where (hhead : word "FROM" ∉ head)
    (hitem : readScalar head = some (item, [])) (hfirst : word "WHERE" ∉ first)
    (hsources : readSources first = some (sources, joined))
    (hcondition : readFormula condition = some f) :
    readGroup (word "SELECT" :: (head ++ word "FROM" :: (first ++ word "WHERE" :: condition))) =
      some (.query ⟨item, sources, .and joined f⟩) := by
  simp [readGroup, readQuery, cutAt_append hhead, hitem, cutAt_append hfirst, hsources, hcondition]

end InventorySearch.Sql
