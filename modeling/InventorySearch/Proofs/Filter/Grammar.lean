import InventorySearch.Filter.Parser

set_option autoImplicit false

/-!
# Precedence and grammar

The textbook grammar of filter expressions and the trees of its derivations. Nothing
here reads a text.
-/
namespace InventorySearch.Filter

/-!
## Precedence

"And" binds tighter than "or". The tree of a sequence of units is defined here run by
run: the sequence is cut at every "or", each run is joined from the left, and the runs
are joined from the left. Merging gives this tree, and the tree keeps all leaves in
their order.
-/

structure Run where
  first : Restriction
  more : List Restriction

def Run.conjunction (run : Run) : Restriction := run.more.foldl .and run.first

def disjunction (first : Run) (more : List Run) : Restriction :=
  more.foldl (fun tree run => .or tree run.conjunction) first.conjunction

/-- The rest of the run that is open where the units start, and the runs after it. -/
def splitRuns : List (Pivot × Restriction) → List Restriction × List Run
  | [] => ([], [])
  | (.and, next) :: rest => (next :: (splitRuns rest).1, (splitRuns rest).2)
  | (.or, next) :: rest => ([], ⟨next, (splitRuns rest).1⟩ :: (splitRuns rest).2)

/-- The left-nested "or" of the maximal runs, each of them the left-nested "and" of its units. -/
def precedenceTree (first : Restriction) (units : List (Pivot × Restriction)) : Restriction :=
  disjunction ⟨first, (splitRuns units).1⟩ (splitRuns units).2

/-- The fold over the units has closed all runs but the one that it extends. -/
theorem joinRuns_eq (before : Option Restriction) (run : Restriction)
    (units : List (Pivot × Restriction)) :
    joinRuns before run units = (splitRuns units).2.foldl
      (fun tree run => .or tree run.conjunction)
      (closeRun before (Run.conjunction ⟨run, (splitRuns units).1⟩)) := by
  induction units generalizing before run with
  | nil => rfl
  | cons unit units ih =>
    obtain ⟨pivot, next⟩ := unit
    cases pivot with
    | and =>
      rw [joinRuns, ih]
      rfl
    | or =>
      rw [joinRuns, ih]
      rfl

theorem joinRuns_none (first : Restriction) (units : List (Pivot × Restriction)) :
    joinRuns none first units = precedenceTree first units :=
  joinRuns_eq none first units

theorem merge_units (first : Restriction) (units : List (Pivot × Restriction)) :
    merge (first :: units.map (·.2)) (units.map (·.1)) = .ok (precedenceTree first units) := by
  have hzip : (units.map (·.1)).zip (units.map (·.2)) = units := by
    induction units with
    | nil => rfl
    | cons unit units ih => rw [List.map_cons, List.map_cons, List.zip_cons_cons, ih]
  rw [merge, if_pos (by simp), hzip, joinRuns_none]

def Restriction.leaves : Restriction → List Restriction
  | .comparison field op operand => [.comparison field op operand]
  | .and left right => left.leaves ++ right.leaves
  | .or left right => left.leaves ++ right.leaves

theorem Restriction.leaves_ne_nil (tree : Restriction) : tree.leaves ≠ [] := by
  induction tree with
  | comparison field op operand => exact List.cons_ne_nil _ _
  | and left right ihLeft _ => exact List.append_ne_nil_of_left_ne_nil ihLeft _
  | or left right ihLeft _ => exact List.append_ne_nil_of_left_ne_nil ihLeft _

theorem leaves_foldl_and (first : Restriction) (more : List Restriction) :
    (more.foldl .and first).leaves = first.leaves ++ more.flatMap Restriction.leaves := by
  induction more generalizing first with
  | nil => simp
  | cons next more ih =>
    rw [List.foldl_cons, ih, Restriction.leaves, List.flatMap_cons, List.append_assoc]

theorem leaves_foldl_or (tree : Restriction) (runs : List Run) :
    (runs.foldl (fun tree run => .or tree run.conjunction) tree).leaves =
      tree.leaves ++ runs.flatMap fun run => run.first.leaves ++ run.more.flatMap (·.leaves) := by
  induction runs generalizing tree with
  | nil => simp
  | cons run runs ih =>
    rw [List.foldl_cons, ih, Restriction.leaves, Run.conjunction, leaves_foldl_and,
      List.flatMap_cons, List.append_assoc]

theorem leaves_splitRuns (units : List (Pivot × Restriction)) :
    (splitRuns units).1.flatMap (·.leaves) ++ ((splitRuns units).2.flatMap fun run =>
      run.first.leaves ++ run.more.flatMap (·.leaves)) = units.flatMap (·.2.leaves) := by
  induction units with
  | nil => rfl
  | cons unit units ih =>
    obtain ⟨pivot, next⟩ := unit
    cases pivot with
    | and => simp only [splitRuns, List.flatMap_cons, List.append_assoc, ih]
    | or => simp only [splitRuns, List.flatMap_cons, List.flatMap_nil, List.nil_append,
        List.append_assoc, ih]

theorem leaves_precedenceTree (first : Restriction) (units : List (Pivot × Restriction)) :
    (precedenceTree first units).leaves = first.leaves ++ units.flatMap (·.2.leaves) := by
  rw [precedenceTree, disjunction, leaves_foldl_or, Run.conjunction, leaves_foldl_and,
    List.append_assoc, leaves_splitRuns]

/-!
## The grammar of filter expressions

Derivations of the textbook grammar: a phrase is a sequence of factors with a pivot
between neighbours, and a factor is a fragment or a phrase in brackets. A derivation
has a text, the fragments of that text in order, and a tree in which "and" binds
tighter than "or". Nothing here reads a text.
-/

def Pivot.mark : Pivot → Char
  | .and => ';'
  | .or => ','

theorem Pivot.ofChar?_eq_some_iff {c : Char} {pivot : Pivot} :
    Pivot.ofChar? c = some pivot ↔ c = pivot.mark := by
  constructor
  · intro h
    unfold Pivot.ofChar? at h
    split at h <;> simp at h <;> subst h <;> rfl
  · rintro rfl
    cases pivot <;> rfl

/-- A run of characters that are neither brackets nor pivots. -/
structure Fragment where
  chars : List Char
  nonempty : chars ≠ []
  plain : ∀ c ∈ chars, isPlain c = true

mutual

inductive Factor where
  | fragment (f : Fragment)
  | group (inside : Phrase)

inductive Phrase where
  | last (f : Factor)
  | join (f : Factor) (pivot : Pivot) (rest : Phrase)

end

mutual

def Factor.chars : Factor → List Char
  | .fragment f => f.chars
  | .group inside => '(' :: inside.chars ++ [')']

def Phrase.chars : Phrase → List Char
  | .last f => f.chars
  | .join f pivot rest => f.chars ++ pivot.mark :: rest.chars

end

mutual

def Factor.fragments : Factor → List Fragment
  | .fragment f => [f]
  | .group inside => inside.fragments

def Phrase.fragments : Phrase → List Fragment
  | .last f => f.fragments
  | .join f _ rest => f.fragments ++ rest.fragments

end

mutual

def Factor.tree (leaf : List Char → Restriction) : Factor → Restriction
  | .fragment f => leaf f.chars
  | .group inside => precedenceTree (inside.units leaf).1 (inside.units leaf).2

def Phrase.units (leaf : List Char → Restriction) :
    Phrase → Restriction × List (Pivot × Restriction)
  | .last f => (f.tree leaf, [])
  | .join f pivot rest => (f.tree leaf, (pivot, (rest.units leaf).1) :: (rest.units leaf).2)

end

def Phrase.tree (leaf : List Char → Restriction) (p : Phrase) : Restriction :=
  precedenceTree (p.units leaf).1 (p.units leaf).2

mutual

theorem Factor.leaves_tree {leaf : List Char → Restriction} :
    ∀ f : Factor, (∀ g ∈ f.fragments, (leaf g.chars).leaves = [leaf g.chars]) →
      (f.tree leaf).leaves = f.fragments.map fun g => leaf g.chars
  | .fragment g, h => by simpa [Factor.tree, Factor.fragments] using h
  | .group inside, h => by
    rw [Factor.tree, Factor.fragments, leaves_precedenceTree]
    exact inside.leaves_units h

theorem Phrase.leaves_units {leaf : List Char → Restriction} :
    ∀ p : Phrase, (∀ g ∈ p.fragments, (leaf g.chars).leaves = [leaf g.chars]) →
      (p.units leaf).1.leaves ++ (p.units leaf).2.flatMap (·.2.leaves) =
        p.fragments.map fun g => leaf g.chars
  | .last f, h => by
    simpa [Phrase.units, Phrase.fragments] using f.leaves_tree h
  | .join f pivot rest, h => by
    rw [Phrase.fragments] at h
    have hf := f.leaves_tree fun g hg => h g (List.mem_append_left _ hg)
    have hrest := rest.leaves_units fun g hg => h g (List.mem_append_right _ hg)
    rw [Phrase.units, Phrase.fragments, List.flatMap_cons, List.map_append, hf, hrest]

end

theorem Phrase.leaves_tree {leaf : List Char → Restriction} (p : Phrase)
    (h : ∀ g ∈ p.fragments, (leaf g.chars).leaves = [leaf g.chars]) :
    (p.tree leaf).leaves = p.fragments.map fun g => leaf g.chars :=
  (Factor.group p).leaves_tree h

def plainRuns (cs : List Char) : List (List Char) :=
  (cs.splitOnP fun c => !isPlain c).filter fun piece => !piece.isEmpty

theorem plainRuns_append_mark {mark : Char} (h : isPlain mark = false) (cs ds : List Char) :
    plainRuns (cs ++ mark :: ds) = plainRuns cs ++ plainRuns ds := by
  rw [plainRuns, List.splitOnP_append_cons cs ds (by simp [h]), List.filter_append]
  rfl

theorem plainRuns_chars (f : Fragment) : plainRuns f.chars = [f.chars] := by
  rw [plainRuns, List.splitOnP_eq_singleton fun c hc => by simp [f.plain c hc]]
  simp [f.nonempty]

theorem isPlain_mark (pivot : Pivot) : isPlain pivot.mark = false := by
  cases pivot <;> rfl

mutual

theorem Factor.plainRuns_chars : ∀ f : Factor, plainRuns f.chars = f.fragments.map (·.chars)
  | .fragment g => by simpa [Factor.chars, Factor.fragments] using Filter.plainRuns_chars g
  | .group inside => by
    have hopen : plainRuns ('(' :: (inside.chars ++ [')'])) =
        plainRuns (inside.chars ++ [')']) := plainRuns_append_mark rfl [] _
    have hclose : plainRuns (inside.chars ++ [')']) = plainRuns inside.chars ++ [] :=
      plainRuns_append_mark rfl inside.chars []
    rw [Factor.chars, Factor.fragments, List.cons_append, hopen, hclose, List.append_nil,
      inside.plainRuns_chars]

theorem Phrase.plainRuns_chars : ∀ p : Phrase, plainRuns p.chars = p.fragments.map (·.chars)
  | .last f => by rw [Phrase.chars, Phrase.fragments, f.plainRuns_chars]
  | .join f pivot rest => by
    rw [Phrase.chars, Phrase.fragments, plainRuns_append_mark (isPlain_mark pivot),
      f.plainRuns_chars, rest.plainRuns_chars, List.map_append]

end

end InventorySearch.Filter
