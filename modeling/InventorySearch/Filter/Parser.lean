import InventorySearch.Filter.Primitive

set_option autoImplicit false

/-!
# Parsing filter expressions

An expression is a sequence of units with a pivot between neighbours, and a unit
is a primitive or an expression in brackets. All units of one bracket level are
joined at once, so "and" binds tighter than "or" across groups too.
-/
namespace InventorySearch.Filter

/-!
## Joining units

The units of one bracket level are joined into one tree. "And" binds tighter
than "or": the tree is the left-nested "or" of the maximal runs of units joined
by "and", and each run is left-nested too.
-/

def closeRun (before : Option Restriction) (run : Restriction) : Restriction :=
  match before with
  | none => run
  | some earlier => .or earlier run

def joinRuns (before : Option Restriction) (run : Restriction) :
    List (Pivot × Restriction) → Restriction
  | [] => closeRun before run
  | (.and, next) :: rest => joinRuns before (.and run next) rest
  | (.or, next) :: rest => joinRuns (some (closeRun before run)) next rest

def merge (components : List Restriction) (pivots : List Pivot) : Except Error Restriction :=
  match components with
  | [] => .error (.pivotCount 0 pivots.length)
  | first :: rest =>
    if rest.length = pivots.length then .ok (joinRuns none first (pivots.zip rest))
    else .error (.pivotCount (rest.length + 1) pivots.length)

/-!
## Matching brackets

Where a bracket that is already open is closed: at the first point where the
brackets after it have closed once more than they have opened.
-/

/-- The text up to the bracket that closes the innermost of `depth + 1` open ones, counted
outwards, and the text after it. -/
def splitClose (depth : Nat) : List Char → Option (List Char × List Char)
  | [] => none
  | ')' :: cs =>
    match depth with
    | 0 => some ([], cs)
    | outer + 1 => (splitClose outer cs).map fun (inside, after) => (')' :: inside, after)
  | '(' :: cs => (splitClose (depth + 1) cs).map fun (inside, after) => ('(' :: inside, after)
  | c :: cs => (splitClose depth cs).map fun (inside, after) => (c :: inside, after)

theorem eq_append_of_splitClose {depth : Nat} {cs inside after : List Char}
    (h : splitClose depth cs = some (inside, after)) : cs = inside ++ ')' :: after := by
  fun_induction splitClose depth cs generalizing inside after with
  | case1 => simp at h
  | case2 cs => simp_all
  | case3 outer cs ih =>
    obtain ⟨⟨i, a⟩, hi, heq⟩ := Option.map_eq_some_iff.1 h
    simp only [Prod.mk.injEq] at heq
    obtain ⟨rfl, rfl⟩ := heq
    simp [ih hi]
  | case4 depth cs ih =>
    obtain ⟨⟨i, a⟩, hi, heq⟩ := Option.map_eq_some_iff.1 h
    simp only [Prod.mk.injEq] at heq
    obtain ⟨rfl, rfl⟩ := heq
    simp [ih hi]
  | case5 depth c cs _ _ ih =>
    obtain ⟨⟨i, a⟩, hi, heq⟩ := Option.map_eq_some_iff.1 h
    simp only [Prod.mk.injEq] at heq
    obtain ⟨rfl, rfl⟩ := heq
    simp [ih hi]

theorem length_of_splitClose {depth : Nat} {cs inside after : List Char}
    (h : splitClose depth cs = some (inside, after)) :
    cs.length = inside.length + after.length + 1 := by
  simp [eq_append_of_splitClose h]
  omega

/-!
## Reading units

Faults are reported for the leftmost place where reading cannot go on. Every
function takes the byte offset of its text in the whole expression, for positions
in errors; the text around it plays no part.
-/

def isPlain (c : Char) : Bool := c != '(' && c != ')' && c != ';' && c != ','

def unwrap (offset : Nat) (text : List Char) : Nat × List Char :=
  match text with
  | '(' :: rest =>
    match h : splitClose 0 rest with
    | some (inside, []) => unwrap (offset + 1) inside
    | _ => (offset, '(' :: rest)
  | _ => (offset, text)
termination_by text.length
decreasing_by
  have := length_of_splitClose h
  simp only [List.length_cons, List.length_nil] at *
  omega

theorem length_unwrap_le (offset : Nat) (text : List Char) :
    (unwrap offset text).2.length ≤ text.length := by
  fun_induction unwrap offset text with
  | case1 offset rest inside h ih =>
    have := length_of_splitClose h
    simp only [List.length_cons, List.length_nil] at *
    omega
  | case2 => exact Nat.le_refl _
  | case3 => exact Nat.le_refl _

mutual

def readExpression (coerce : Coercer) (offset : Nat) (text : List Char) :
    Except Error Restriction := do
  let (components, pivots) ←
    readUnits coerce (unwrap offset text).2 (unwrap offset text).1 (unwrap offset text).2
  merge components pivots
termination_by (text.length, 1)
decreasing_by
  have := length_unwrap_le offset text
  simp only [Prod.lex_def]
  omega

/-- Reads the units from one unit's start to the end of the bracket level `level`. -/
def readUnits (coerce : Coercer) (level : List Char) (offset : Nat) (text : List Char) :
    Except Error (List Restriction × List Pivot) :=
  match text with
  | '(' :: rest =>
    match h : splitClose 0 rest with
    | none => .error (.unmatchedOpen offset)
    | some (inside, []) => do return ([← readExpression coerce (offset + 1) inside], [])
    | some (inside, found :: following) => do
      let group ← readExpression coerce (offset + 1) inside
      let position := offset + 1 + Text.byteLength inside + 1
      match Pivot.ofChar? found with
      | none => .error (.illegalPivot found position)
      | some pivot =>
        let (components, pivots) ← readUnits coerce level (position + 1) following
        return (group :: components, pivot :: pivots)
  | text =>
    let fragment := text.takeWhile isPlain
    let stop := offset + Text.byteLength fragment
    match _h : text.dropWhile isPlain with
    | [] => do return ([← Primitive.read coerce offset fragment], [])
    | found :: following =>
      match Pivot.ofChar? found with
      | some pivot => do
        let primitive ← Primitive.read coerce offset fragment
        let (components, pivots) ← readUnits coerce level (stop + 1) following
        return (primitive :: components, pivot :: pivots)
      | none =>
        if found = ')' then .error (.strayClose (String.ofList level) stop)
        else
          match fragment.getLast? with
          | some last => .error (.illegalPivot last (stop - last.utf8Size))
          | none => .error (.unexpected s!"no character before bracket at index {stop}")
termination_by (text.length, 0)
decreasing_by
  all_goals simp only [Prod.lex_def, List.length_cons]
  · have := length_of_splitClose h
    omega
  · have := length_of_splitClose h
    omega
  · have := length_of_splitClose h
    simp only [List.length_cons] at this
    omega
  · have := (List.dropWhile_sublist isPlain (l := text)).length_le
    simp only [_h, List.length_cons] at this
    omega

end

def parse (coerce : Coercer) (expression : String) : Except Error Restriction :=
  readExpression coerce 0 expression.toList

end InventorySearch.Filter
