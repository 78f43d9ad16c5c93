import InventorySearch.Proofs.Sql.Formula

set_option autoImplicit false

/-!
# Reading SQL

Reads a text as a formula. Brackets are read from the inside: what a closing
bracket ends becomes one item of the level around it. On one level "or" is split
before "and", and what is left between them is a single predicate.
-/
namespace InventorySearch.Sql
open InventorySearch.Filter Store

structure Query where
  item : Scalar
  sources : Sources
  condition : Formula
deriving DecidableEq

inductive Group where
  | formula (f : Formula)
  | query (q : Query)
  | typed (s : String) (type : ColumnType)
deriving DecidableEq

inductive Item where
  | token (t : Token)
  | group (g : Group)
deriving DecidableEq

abbrev word (s : String) : Item := .token (.word s)

abbrev mark (c : Char) : Item := .token (.mark c)

/-! ## One level of brackets -/

def readScalar : List Item → Option (Scalar × List Item)
  | .token (.given s) :: rest => some (.given s, rest)
  | .token (.word "CAST") :: .group (.typed s type) :: rest => some (.cast s type, rest)
  | .token (.word row) :: .token (.mark '.') :: .token (.word name) :: rest =>
    some (.column (some row) name, rest)
  | .token (.word w) :: rest =>
    if w.toList.all Char.isDigit then some (.number (Calendar.digitsValue w.toList), rest)
    else some (.column none w, rest)
  | _ => none

def readRelation : List Item → Option (Relation × List Item)
  | .token (.mark '=') :: rest => some (.eq, rest)
  | .token (.mark '<') :: .token (.mark '>') :: rest => some (.ne, rest)
  | .token (.mark '<') :: .token (.mark '=') :: rest => some (.le, rest)
  | .token (.mark '<') :: rest => some (.lt, rest)
  | .token (.mark '>') :: .token (.mark '=') :: rest => some (.ge, rest)
  | .token (.mark '>') :: rest => some (.gt, rest)
  | _ => none

def readTest (a : Scalar) : List Item → Option Formula
  | [.token (.word "IS"), .token (.word "NULL")] => some (.isNull a)
  | [.token (.word "IS"), .token (.word "NOT"), .token (.word "NULL")] => some (.not (.isNull a))
  | [.token (.word "IN"), .group (.query q)] => some (.isIn a q.item q.sources q.condition)
  | [.token (.word "NOT"), .token (.word "IN"), .group (.query q)] =>
    some (.not (.isIn a q.item q.sources q.condition))
  | items => do
    let (r, rest) ← readRelation items
    match ← readScalar rest with
    | (b, []) => some (.compare r a b)
    | _ => none

def readPredicate : List Item → Option Formula
  | [.group (.formula f)] => some f
  | [.token (.word "EXISTS"), .group (.query q)] => some (.exists q.sources q.condition)
  | .token (.word "NOT") :: rest => (readPredicate rest).map .not
  | items => do
    let (a, rest) ← readScalar items
    readTest a rest

def splitAt (w : String) : List Item → List (List Item)
  | [] => [[]]
  | i :: rest =>
    if i = word w then [] :: splitAt w rest else (splitAt w rest).modifyHead (i :: ·)

def join (op : Formula → Formula → Formula) : List Formula → Option Formula
  | [] => none
  | [f] => some f
  | f :: rest => (join op rest).map (op f)

def readConjunction (items : List Item) : Option Formula :=
  ((splitAt "AND" items).mapM readPredicate).bind (join .and)

def readFormula (items : List Item) : Option Formula :=
  ((splitAt "OR" items).mapM readConjunction).bind (join .or)

def cutAt (w : String) : List Item → Option (List Item × List Item)
  | [] => none
  | i :: rest =>
    if i = word w then some ([], rest)
    else (cutAt w rest).map fun (before, after) => (i :: before, after)

def readSource : List Item → Option (String × Table)
  | [.token (.word table)] => (Table.ofName? table).map fun t => (table, t)
  | [.token (.word table), .token (.word row)] => (Table.ofName? table).map fun t => (row, t)
  | _ => none

def readSources (items : List Item) : Option (Sources × Formula) :=
  match cutAt "JOIN" items with
  | none => (readSource items).map fun s => ([s], .always)
  | some (first, rest) => do
    let (second, on) ← cutAt "ON" rest
    return ([← readSource first, ← readSource second], ← readFormula on)

def readQuery (items : List Item) : Option Query := do
  let (head, rest) ← cutAt "FROM" items
  match ← readScalar head with
  | (item, []) =>
    match cutAt "WHERE" rest with
    | none =>
      let (sources, joined) ← readSources rest
      return ⟨item, sources, joined⟩
    | some (first, condition) =>
      let (sources, joined) ← readSources first
      return ⟨item, sources, .and joined (← readFormula condition)⟩
  | _ => none

def typeOf? : String → Option ColumnType
  | "BIGINT" => some .bigint
  | "TIMESTAMP" => some .timestamp
  | _ => none

def readGroup : List Item → Option Group
  | .token (.word "SELECT") :: rest => (readQuery rest).map .query
  | [.token (.given s), .token (.word "AS"), .token (.word type)] =>
    (typeOf? type).map (.typed s)
  | items => (readFormula items).map .formula

/-! ## All levels -/

/-- Reads the brackets of the tokens, behind the items of the level so far and with the items of
the levels around it. -/
def readBrackets (outer : List (List Item)) (level : List Item) : List Token → Option (List Item)
  | [] => if outer.isEmpty then some level else none
  | .mark '(' :: ts => readBrackets (level :: outer) [] ts
  | .mark ')' :: ts =>
    match outer with
    | [] => none
    | around :: outer =>
      (readGroup level).bind fun g => readBrackets outer (around ++ [.group g]) ts
  | t :: ts => readBrackets outer (level ++ [.token t]) ts

/-- Reads a text whose question marks stand for the parameters, the first for the first. -/
def read (text : String) (parameters : List String) : Option Formula := do
  let ts ← fill (tokens text.toList) parameters
  let items ← readBrackets [] [] ts
  readFormula items

/-!
## Spelling

How texts put together from words, marks and brackets are read: piece by piece,
each with its own share of the parameters.
-/

/-- Whether a text with its parameters gives these items of one level, wherever it stands. -/
def Spells (text : List Char) (parameters : List String) (items : List Item) : Prop :=
  ∃ ts, fill (tokens text) parameters = some ts ∧
    ∀ outer level rest, readBrackets outer level (ts ++ rest) =
      readBrackets outer (level ++ items) rest

namespace Spells

theorem empty : Spells [] [] [] := ⟨[], rfl, by simp⟩

/-- Texts can be read apart where the second does not go on with a word of the first. -/
theorem append {c : Char} (hc : isWordChar c = false) {cs ds : List Char} {p q : List String}
    {x y : List Item} (h : Spells cs p x) (k : Spells (c :: ds) q y) :
    Spells (cs ++ c :: ds) (p ++ q) (x ++ y) := by
  obtain ⟨ts, hts, hread⟩ := h
  obtain ⟨us, hus, kread⟩ := k
  refine ⟨ts ++ us, ?_, fun outer level rest => ?_⟩
  · rw [tokens_append hc, fill_append hts, hus, Option.map_some]
  · rw [List.append_assoc, hread, kread, List.append_assoc]

theorem blank {cs : List Char} {p : List String} {x : List Item} (h : Spells cs p x) :
    Spells (' ' :: cs) p x := by
  obtain ⟨ts, hts, hread⟩ := h
  exact ⟨ts, by rwa [tokens_blank], hread⟩

theorem word {s : String} (h : isWord s = true) : Spells s.toList [] [Sql.word s] := by
  refine ⟨[.word s], ?_, fun outer level rest => rfl⟩
  rw [tokens_word h, fill_cons_of_ne (by simp)]
  rfl

theorem mark {c : Char} (hc : isWordChar c = false)
    (hapart : c ≠ ' ' ∧ c ≠ '?' ∧ c ≠ '(' ∧ c ≠ ')') {cs : List Char} {p : List String}
    {x : List Item} (h : Spells cs p x) : Spells (c :: cs) p (Sql.mark c :: x) := by
  obtain ⟨ts, hts, hread⟩ := h
  refine ⟨.mark c :: ts, ?_, fun outer level rest => ?_⟩
  · rw [tokens_mark hc hapart.1, fill_cons_of_ne (by simpa using hapart.2.1), hts, Option.map_some]
  · have hstep : readBrackets outer level (.mark c :: (ts ++ rest)) =
        readBrackets outer (level ++ [Sql.mark c]) (ts ++ rest) := by
      simp [readBrackets, hapart]
    rw [List.cons_append, hstep, hread, List.append_assoc, List.singleton_append]

theorem placeholder (s : String) {cs : List Char} {p : List String} {x : List Item}
    (h : Spells cs p x) : Spells ('?' :: cs) (s :: p) (.token (.given s) :: x) := by
  obtain ⟨ts, hts, hread⟩ := h
  refine ⟨.given s :: ts, ?_, fun outer level rest => ?_⟩
  · rw [tokens_mark (by decide) (by decide), fill, if_pos rfl, hts, Option.map_some]
  · have hstep : readBrackets outer level (.given s :: (ts ++ rest)) =
        readBrackets outer (level ++ [.token (.given s)]) (ts ++ rest) := rfl
    rw [List.cons_append, hstep, hread, List.append_assoc, List.singleton_append]

theorem bracket {cs ds : List Char} {p q : List String} {x y : List Item} {g : Group}
    (h : Spells cs p x) (hg : readGroup x = some g) (k : Spells ds q y) :
    Spells ('(' :: (cs ++ ')' :: ds)) (p ++ q) (.group g :: y) := by
  obtain ⟨ts, hts, hread⟩ := h
  obtain ⟨us, hus, kread⟩ := k
  refine ⟨.mark '(' :: (ts ++ .mark ')' :: us), ?_, fun outer level rest => ?_⟩
  · have hclose : tokens (')' :: ds) = .mark ')' :: tokens ds :=
      tokens_mark (by decide) (by decide) ds
    rw [tokens_mark (by decide) (by decide), fill_cons_of_ne (by simp),
      tokens_append (by decide), fill_append hts, hclose, fill_cons_of_ne (by simp), hus]
    rfl
  · have hopen : readBrackets outer level (.mark '(' :: (ts ++ .mark ')' :: (us ++ rest))) =
        readBrackets (level :: outer) [] (ts ++ .mark ')' :: (us ++ rest)) := rfl
    have hclose : readBrackets (level :: outer) x (.mark ')' :: (us ++ rest)) =
        readBrackets outer (level ++ [.group g]) (us ++ rest) := by
      simp [readBrackets, hg]
    rw [List.cons_append, List.append_assoc, List.cons_append, hopen, hread, List.nil_append,
      hclose, kread, List.append_assoc, List.singleton_append]

theorem word_blank {s : String} (hs : isWord s = true) {cs : List Char} {p : List String}
    {x : List Item} (h : Spells cs p x) : Spells (s.toList ++ ' ' :: cs) p (Sql.word s :: x) :=
  append (by decide) (word hs) (blank h)

end Spells

theorem read_of_spells {text : String} {p : List String} {items : List Item} {f : Formula}
    (h : Spells text.toList p items) (hf : readFormula items = some f) : read text p = some f := by
  obtain ⟨ts, hts, hread⟩ := h
  have hall : readBrackets [] [] ts = some items := by
    simpa [readBrackets] using hread [] [] []
  simp [read, hts, hall, hf]

end InventorySearch.Sql
