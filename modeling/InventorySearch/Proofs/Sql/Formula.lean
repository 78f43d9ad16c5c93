import InventorySearch.Search.Condition

set_option autoImplicit false

/-!
# Tokens and formulas of SQL

The words that texts of SQL are made of, and the formulas that they stand for.
-/
namespace InventorySearch.Sql

/-!
## Tokens of SQL

A text of SQL as words and single marks, with blanks between them or not, and
the parameters put in for its question marks from left to right. Quoted names
and quoted texts are left out, as conditions have none.
-/

inductive Token where
  | word (s : String)
  | mark (c : Char)
  | given (s : String)
deriving DecidableEq

def isWordChar (c : Char) : Bool := c.isAlphanum || c == '_'

def flush (word : List Char) : List Token :=
  if word.isEmpty then [] else [.word (String.ofList word)]

def tokensFrom (word : List Char) : List Char → List Token
  | [] => flush word
  | c :: cs =>
    if isWordChar c then tokensFrom (word ++ [c]) cs
    else if c = ' ' then flush word ++ tokensFrom [] cs
    else flush word ++ .mark c :: tokensFrom [] cs

def tokens (cs : List Char) : List Token := tokensFrom [] cs

theorem tokensFrom_cons_of_not {c : Char} (h : isWordChar c = false) (word cs : List Char) :
    tokensFrom word (c :: cs) = flush word ++ tokens (c :: cs) := by
  have hnot : ¬ isWordChar c = true := by simp [h]
  have hempty : flush [] = [] := rfl
  by_cases hc : c = ' '
  · simp only [tokens, tokensFrom, if_neg hnot, if_pos hc, hempty, List.nil_append]
  · simp only [tokens, tokensFrom, if_neg hnot, if_neg hc, hempty, List.nil_append]

theorem tokensFrom_append {c : Char} (h : isWordChar c = false) (word cs ds : List Char) :
    tokensFrom word (cs ++ c :: ds) = tokensFrom word cs ++ tokens (c :: ds) := by
  induction cs generalizing word with
  | nil => exact tokensFrom_cons_of_not h word ds
  | cons d cs ih =>
    by_cases hd : isWordChar d = true
    · simp only [List.cons_append, tokensFrom, if_pos hd, ih]
    · by_cases hblank : d = ' '
      · simp only [List.cons_append, tokensFrom, if_neg hd, if_pos hblank, ih, List.append_assoc]
      · simp only [List.cons_append, tokensFrom, if_neg hd, if_neg hblank, ih, List.append_assoc]

/-- A text falls apart in front of a mark or a blank. -/
theorem tokens_append {c : Char} (h : isWordChar c = false) (cs ds : List Char) :
    tokens (cs ++ c :: ds) = tokens cs ++ tokens (c :: ds) :=
  tokensFrom_append h [] cs ds

theorem tokens_blank (cs : List Char) : tokens (' ' :: cs) = tokens cs := rfl

theorem tokens_mark {c : Char} (h : isWordChar c = false) (hblank : c ≠ ' ') (cs : List Char) :
    tokens (c :: cs) = .mark c :: tokens cs := by
  simp [tokens, tokensFrom, h, hblank, flush]

def isWord (s : String) : Bool := !s.toList.isEmpty && s.toList.all isWordChar

theorem tokensFrom_word {cs : List Char} (h : cs.all isWordChar = true) (word : List Char) :
    tokensFrom word cs = flush (word ++ cs) := by
  induction cs generalizing word with
  | nil => rw [tokensFrom, List.append_nil]
  | cons c cs ih =>
    rw [List.all_cons, Bool.and_eq_true] at h
    rw [tokensFrom, if_pos h.1, ih h.2, List.append_assoc, List.singleton_append]

theorem tokens_word {s : String} (h : isWord s = true) : tokens s.toList = [.word s] := by
  rw [isWord, Bool.and_eq_true] at h
  have hne : s.toList.isEmpty = false := by simpa using h.1
  rw [tokens, tokensFrom_word h.2, List.nil_append, flush, hne, String.ofList_toList]
  rfl

/-- Puts parameters in for the question marks. There have to be as many of both. -/
def fill : List Token → List String → Option (List Token)
  | [], [] => some []
  | [], _ :: _ => none
  | t :: ts, ss =>
    if t = .mark '?' then
      match ss with
      | [] => none
      | s :: ss => (fill ts ss).map (.given s :: ·)
    else (fill ts ss).map (t :: ·)

theorem fill_cons_of_ne {t : Token} (h : t ≠ .mark '?') (ts : List Token) (ss : List String) :
    fill (t :: ts) ss = (fill ts ss).map (t :: ·) := by
  cases ss <;> rw [fill, if_neg h]

theorem fill_append {ts us ts' : List Token} {ss : List String} (h : fill ts ss = some ts')
    (rr : List String) : fill (ts ++ us) (ss ++ rr) = (fill us rr).map (ts' ++ ·) := by
  induction ts generalizing ss ts' with
  | nil =>
    cases ss with
    | nil => cases h; simp
    | cons s ss => simp [fill] at h
  | cons t ts ih =>
    by_cases ht : t = .mark '?'
    · cases ss with
      | nil => simp [fill, ht] at h
      | cons s ss =>
        rw [fill, if_pos ht] at h
        obtain ⟨rest, hrest, rfl⟩ := Option.map_eq_some_iff.mp h
        rw [List.cons_append, List.cons_append, fill, if_pos ht, ih hrest, Option.map_map]
        rfl
    · rw [fill_cons_of_ne ht] at h
      obtain ⟨rest, hrest, rfl⟩ := Option.map_eq_some_iff.mp h
      rw [List.cons_append, fill_cons_of_ne ht, ih hrest, Option.map_map]
      rfl

/-!
## Formulas of SQL

The formulas that conditions are written in, and their truth in three values.
Subqueries see the rows around them; a name is looked for from the inside out.
Comparisons, "and", "or" and "not" are those of conditions themselves, whose
texts play no part in this.
-/

open InventorySearch.Filter Search Store

inductive Scalar where
  | column (row : Option String) (name : String)
  | number (n : Nat)
  | given (s : String)
  | cast (s : String) (type : ColumnType)
deriving DecidableEq

abbrev Sources := List (String × Table)

inductive Formula where
  | always
  | compare (r : Relation) (a b : Scalar)
  | isNull (a : Scalar)
  /-- Whether `a` is among the values of `item` in the rows where `condition` is true. -/
  | isIn (a item : Scalar) (sources : Sources) (condition : Formula)
  | exists (sources : Sources) (condition : Formula)
  | not (f : Formula)
  | and (f g : Formula)
  | or (f g : Formula)
deriving DecidableEq

structure Binding where
  name : String
  table : Table
  row : Row

namespace Scalar

def lookup (scope : List Binding) (row : Option String) (column : String) : Option Binding :=
  scope.find? fun b => match row with
    | some name => b.name == name
    | none => b.table.columns.any fun c => c.name == column

def value (scope : List Binding) : Scalar → Value
  | .column row name => ((lookup scope row name).map fun b => b.row.get name).getD .null
  | .number n => .integer n
  | .given s => .text s
  | .cast s type => (Column.convert? type (.text s)).getD .null

def Resolves (names : Sources) : Scalar → Prop
  | .column (some row) name =>
    ∃ source ∈ names.find? (fun s => s.1 == row), ∃ c ∈ source.2.columns, c.name = name
  | .column none name => ∃ source ∈ names, ∃ c ∈ source.2.columns, c.name = name
  | _ => True

/-- Whether the store can read the parameter as what it is cast to. -/
def CastSucceeds : Scalar → Prop
  | .cast s type => (Column.convert? type (.text s)).isSome = true
  | _ => True

end Scalar

def scopes (db : Rows) : Sources → List Binding → List (List Binding)
  | [], scope => [scope]
  | (name, table) :: rest, scope =>
    (db table).flatMap fun row => scopes db rest (⟨name, table, row⟩ :: scope)

namespace Formula

def eval (db : Rows) : List Binding → Formula → Truth
  | _, .always => some true
  | scope, .compare r a b => relate r (a.value scope) (b.value scope)
  | scope, .isNull a => some (a.value scope == .null)
  | scope, .isIn a item sources condition =>
    let found := (scopes db sources scope).filter fun inner => condition.eval db inner == some true
    Truth.any (found.map fun inner => relate .eq (a.value scope) (item.value inner))
  | scope, .exists sources condition =>
    some ((scopes db sources scope).any fun inner => condition.eval db inner == some true)
  | scope, .not f => (f.eval db scope).not
  | scope, .and f g => (f.eval db scope).and (g.eval db scope)
  | scope, .or f g => (f.eval db scope).or (g.eval db scope)

def CastsSucceed : Formula → Prop
  | .always => True
  | .compare _ a b => a.CastSucceeds ∧ b.CastSucceeds
  | .isNull a => a.CastSucceeds
  | .isIn a item _ condition => a.CastSucceeds ∧ item.CastSucceeds ∧ condition.CastsSucceed
  | .exists _ condition => condition.CastsSucceed
  | .not f => f.CastsSucceed
  | .and f g => f.CastsSucceed ∧ g.CastsSucceed
  | .or f g => f.CastsSucceed ∧ g.CastsSucceed

def Resolves : Sources → Formula → Prop
  | _, .always => True
  | names, .compare _ a b => a.Resolves names ∧ b.Resolves names
  | names, .isNull a => a.Resolves names
  | names, .isIn a item sources condition =>
    a.Resolves names ∧ item.Resolves (sources.reverse ++ names) ∧
      condition.Resolves (sources.reverse ++ names)
  | names, .exists sources condition => condition.Resolves (sources.reverse ++ names)
  | names, .not f => f.Resolves names
  | names, .and f g => f.Resolves names ∧ g.Resolves names
  | names, .or f g => f.Resolves names ∧ g.Resolves names

end Formula

end InventorySearch.Sql
