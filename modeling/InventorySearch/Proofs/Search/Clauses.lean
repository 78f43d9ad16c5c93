import InventorySearch.Proofs.Search.Fitting
import InventorySearch.Proofs.Sql.Connectives

set_option autoImplicit false

/-!
# What the clauses of a text say

The texts of literals, of tests and of the queries for associated rows, with the
items that each of them spells and the formulas that these are read as.
-/
namespace InventorySearch.Search
open Calendar InventorySearch.Filter Sql Store

/-!
## The formulas of conditions

What a condition asks, written as a formula of SQL. That its text is read as this
formula, and that both have one truth value, is shown elsewhere.
-/

def Literal.scalar : Literal → Scalar
  | .text s => .given s
  | .integer n => .cast (Literal.integer n).parameter .bigint
  | .moment t => .cast (Literal.moment t).parameter .timestamp

def Test.formula (row : String) : Test → Formula
  | .isNull column => .isNull (.column (some row) column)
  | .isNotNull column => .not (.isNull (.column (some row) column))
  | .relation column r literal => .compare r (.column (some row) column) literal.scalar

namespace Source

def sources : Source → Sources
  | .owned table _ => [("c", table)]
  | .linked link _ _ table _ => [("l", link), ("c", table)]

def joined : Source → Formula
  | .owned _ _ => .always
  | .linked _ _ member _ key =>
    .compare .eq (.column (some "c") key) (.column (some "l") member)

def tie (key : String) : Source → Formula
  | .owned _ owner => .compare .eq (.column (some "c") owner) (.column (some "p") key)
  | .linked _ owner _ _ _ => .compare .eq (.column (some "l") owner) (.column (some "p") key)

def search (key : String) (tests : List Test) (source : Source) : Formula :=
  .exists source.sources
    (.and source.joined (conjoin (source.tie key :: tests.map (Test.formula "c"))))

end Source

def linkCondition : Option (String × Literal) → Formula
  | none => .always
  | some (member, literal) => .and .always (.compare .eq (.column none member) literal.scalar)

def linkFormula (key : String) (link : Table) (owner : String)
    (asked : Option (String × Literal)) : Formula :=
  .isIn (.column (some "p") key) (.column none owner) [(link.name, link)] (linkCondition asked)

namespace Condition

mutual

def formula : Condition → Formula
  | .always => .compare .eq (.number 1) (.number 1)
  | .test t => t.formula "p"
  | .membership inside key link owner asked =>
    if inside then linkFormula key link owner asked else .not (linkFormula key link owner asked)
  | .related orNone source key tests =>
    if orNone then .or (.not (source.search key [])) (source.search key tests)
    else source.search key tests
  | .all parts => conjoin (formulas parts)
  | .either left right => .or left.formula right.formula

def formulas : List Condition → List Formula
  | [] => []
  | c :: cs => c.formula :: formulas cs

end

theorem formulas_eq_map (cs : List Condition) : formulas cs = cs.map formula := by
  induction cs with
  | nil => rfl
  | cons c cs ih => rw [formulas, ih, List.map_cons]

end Condition

/-! ## Literals and tests -/

def Literal.items : Literal → List Item
  | .text s => [.token (.given s)]
  | .integer n => [word "CAST", .group (.typed (Literal.integer n).parameter .bigint)]
  | .moment t => [word "CAST", .group (.typed (Literal.moment t).parameter .timestamp)]

theorem spells_cast (s : String) {type : String} {t : ColumnType} (hword : isWord type = true)
    (htype : typeOf? type = some t) :
    Spells ("CAST".toList ++ '(' :: (('?' :: ' ' :: ("AS".toList ++ ' ' :: type.toList)) ++ [')']))
      [s] [word "CAST", .group (.typed s t)] := by
  have hinside := Spells.placeholder s
    (.blank (.word_blank (s := "AS") (by decide) (.word hword)))
  have hgroup : readGroup [.token (.given s), word "AS", word type] = some (.typed s t) := by
    simp [readGroup, htype]
  exact .append (by decide) (.word (by decide)) (.bracket hinside hgroup .empty)

theorem Literal.spells_placeholder (l : Literal) :
    Spells l.placeholder.toList [l.parameter] l.items := by
  cases l with
  | text s =>
    have htext : (Literal.text s).placeholder.toList = ['?'] := by simp [placeholder]
    rw [htext]
    exact .placeholder s .empty
  | integer n =>
    have htext : (Literal.integer n).placeholder.toList =
        "CAST".toList ++ '(' ::
          (('?' :: ' ' :: ("AS".toList ++ ' ' :: "BIGINT".toList)) ++ [')']) := by
      simp [placeholder]
    rw [htext]
    exact spells_cast _ (by decide) rfl
  | moment t =>
    have htext : (Literal.moment t).placeholder.toList =
        "CAST".toList ++ '(' ::
          (('?' :: ' ' :: ("AS".toList ++ ' ' :: "TIMESTAMP".toList)) ++ [')']) := by
      simp [placeholder]
    rw [htext]
    exact spells_cast _ (by decide) rfl

def relationItems : Relation → List Item
  | .eq => [mark '=']
  | .ne => [mark '<', mark '>']
  | .lt => [mark '<']
  | .le => [mark '<', mark '=']
  | .gt => [mark '>']
  | .ge => [mark '>', mark '=']

theorem spells_relation (r : Relation) {cs : List Char} {p : List String} {x : List Item}
    (h : Spells cs p x) :
    Spells (' ' :: (r.symbol.toList ++ ' ' :: cs)) p (relationItems r ++ x) := by
  have hone {c : Char} (hc : isWordChar c = false)
      (hapart : c ≠ ' ' ∧ c ≠ '?' ∧ c ≠ '(' ∧ c ≠ ')') :
      Spells (' ' :: c :: ' ' :: cs) p (mark c :: x) := .blank (.mark hc hapart (.blank h))
  have htwo {c d : Char} (hc : isWordChar c = false)
      (hapart : c ≠ ' ' ∧ c ≠ '?' ∧ c ≠ '(' ∧ c ≠ ')') (hd : isWordChar d = false)
      (dapart : d ≠ ' ' ∧ d ≠ '?' ∧ d ≠ '(' ∧ d ≠ ')') :
      Spells (' ' :: c :: d :: ' ' :: cs) p (mark c :: mark d :: x) :=
    .blank (.mark hc hapart (.mark hd dapart (.blank h)))
  cases r with
  | eq => exact hone (by decide) (by decide)
  | ne => exact htwo (by decide) (by decide) (by decide) (by decide)
  | lt => exact hone (by decide) (by decide)
  | le => exact htwo (by decide) (by decide) (by decide) (by decide)
  | gt => exact hone (by decide) (by decide)
  | ge => exact htwo (by decide) (by decide) (by decide) (by decide)

def Test.items (row : String) : Test → List Item
  | .isNull column => [word row, mark '.', word column, word "IS", word "NULL"]
  | .isNotNull column => [word row, mark '.', word column, word "IS", word "NOT", word "NULL"]
  | .relation column r literal =>
    word row :: mark '.' :: word column :: (relationItems r ++ literal.items)

theorem spells_column {row column : String} (hrow : isWord row = true)
    (hcolumn : isWord column = true) {cs : List Char} {p : List String} {x : List Item}
    (h : Spells (' ' :: cs) p x) :
    Spells (row.toList ++ '.' :: (column.toList ++ ' ' :: cs)) p
      (word row :: mark '.' :: word column :: x) :=
  .append (by decide) (.word hrow)
    (.mark (by decide) (by decide) (.append (by decide) (.word hcolumn) h))

theorem Test.spells_text {row : String} (hrow : isWord row = true) {t : Test}
    (hcolumn : isWord t.column = true) :
    Spells (t.text row).toList (t.literals.map Literal.parameter) (t.items row) := by
  cases t with
  | isNull column =>
    have htext : (Test.text row (.isNull column)).toList =
        row.toList ++ '.' :: (column.toList ++ ' ' :: ("IS".toList ++ ' ' :: "NULL".toList)) := by
      simp [text, toString_eq]
    rw [htext]
    exact spells_column hrow hcolumn (.blank (.word_blank (by decide) (.word (by decide))))
  | isNotNull column =>
    have htext : (Test.text row (.isNotNull column)).toList =
        row.toList ++ '.' :: (column.toList ++ ' ' ::
          ("IS".toList ++ ' ' :: ("NOT".toList ++ ' ' :: "NULL".toList))) := by
      simp [text, toString_eq]
    rw [htext]
    exact spells_column hrow hcolumn
      (.blank (.word_blank (by decide) (.word_blank (by decide) (.word (by decide)))))
  | relation column r literal =>
    have htext : (Test.text row (.relation column r literal)).toList =
        row.toList ++ '.' :: (column.toList ++ ' ' ::
          (r.symbol.toList ++ ' ' :: literal.placeholder.toList)) := by
      simp [text, toString_eq]
    rw [htext]
    exact spells_column hrow hcolumn (spells_relation r literal.spells_placeholder)

theorem readTest_items (a : Scalar) (r : Relation) (l : Literal) :
    readTest a (relationItems r ++ l.items) = some (.compare r a l.scalar) := by
  cases r <;> cases l <;> rfl

theorem mem_keywords_of_mem_separators {w : String} (h : w ∈ separators) : w ∈ keywords := by
  revert w
  decide

theorem not_mem_relationItems {w : String} (hw : w ∈ separators) (r : Relation) (l : Literal) :
    word w ∉ relationItems r ++ l.items := by
  have hcast : w ≠ "CAST" := by rintro rfl; exact absurd hw (by decide)
  cases r <;> cases l <;> simp [relationItems, Literal.items, hcast]

theorem Test.isPredicate_items {row : String} (hrow : row = "p" ∨ row = "c") {t : Test}
    (hcolumn : isName t.column = true) : IsPredicate (t.items row) (t.formula row) := by
  constructor
  · cases t with
    | isNull column => rcases hrow with rfl | rfl <;> rfl
    | isNotNull column => rcases hrow with rfl | rfl <;> rfl
    | relation column r literal =>
      have htest := readTest_items (.column (some row) column) r literal
      rcases hrow with rfl | rfl <;> exact htest
  · intro w hw
    have hothers : w ≠ row ∧ w ≠ "IS" ∧ w ≠ "NULL" ∧ w ≠ "NOT" := by
      clear hcolumn
      rcases hrow with rfl | rfl <;> (revert w; decide)
    have hcol : w ≠ t.column := Ne.symm (ne_of_isName hcolumn (mem_keywords_of_mem_separators hw))
    cases t with
    | isNull column =>
      change w ≠ column at hcol
      simp [items, hothers, hcol]
    | isNotNull column =>
      change w ≠ column at hcol
      simp [items, hothers, hcol]
    | relation column r literal =>
      change w ≠ column at hcol
      have hrest := not_mem_relationItems hw r literal
      simp only [items, List.mem_cons, hrest, or_false]
      simp [hothers, hcol]

theorem spells_intercalate {α : Type} {text : α → String} {parameters : α → List String}
    {items : α → List Item} {xs : List α} (hne : xs ≠ [])
    (h : ∀ x ∈ xs, Spells (text x).toList (parameters x) (items x)) :
    Spells (String.intercalate " AND " (xs.map text)).toList (xs.flatMap parameters)
      (between "AND" (xs.map items)) := by
  induction xs with
  | nil => exact absurd rfl hne
  | cons x xs ih =>
    have hx := h x List.mem_cons_self
    cases xs with
    | nil => simpa [between] using hx
    | cons y ys =>
      have hrest := ih (List.cons_ne_nil _ _) fun z hz => h z (List.mem_cons_of_mem _ hz)
      have htext : (String.intercalate " AND " ((x :: y :: ys).map text)).toList =
          (text x).toList ++ ' ' :: ("AND".toList ++ ' ' ::
            (String.intercalate " AND " ((y :: ys).map text)).toList) := by
        simp [String.intercalate_cons_cons]
      rw [htext]
      exact .append (by decide) hx (.blank (.word_blank (by decide) hrest))

/-! ## Sources -/

def equationItems (row column other member : String) : List Item :=
  [word row, mark '.', word column, mark '=', word other, mark '.', word member]

def rowNames : List String := ["p", "c", "l"]

theorem isPredicate_equation {row column other member : String} (hrow : row ∈ rowNames)
    (hother : other ∈ rowNames) (hcolumn : isName column = true) (hmember : isName member = true) :
    IsPredicate (equationItems row column other member)
      (.compare .eq (.column (some row) column) (.column (some other) member)) := by
  constructor
  · simp only [rowNames, List.mem_cons, List.not_mem_nil, or_false] at hrow hother
    rcases hrow with rfl | rfl | rfl <;> rcases hother with rfl | rfl | rfl <;> rfl
  · intro w hw
    have hkey := mem_keywords_of_mem_separators hw
    have hrows : w ∉ rowNames := by
      revert w
      decide
    have hnot {r : String} (hr : r ∈ rowNames) : w ≠ r := fun heq => hrows (heq ▸ hr)
    simp [equationItems, hnot hrow, hnot hother, Ne.symm (ne_of_isName hcolumn hkey),
      Ne.symm (ne_of_isName hmember hkey)]

theorem spells_equation {row column other member : String} (hrow : row ∈ rowNames)
    (hother : other ∈ rowNames) (hcolumn : isName column = true) (hmember : isName member = true) :
    Spells (row.toList ++ '.' :: (column.toList ++ ' ' :: ('=' :: ' ' ::
      (other.toList ++ '.' :: member.toList)))) [] (equationItems row column other member) := by
  have hword : ∀ r ∈ rowNames, isWord r = true := by decide
  have hsecond : Spells (other.toList ++ '.' :: member.toList) []
      [word other, mark '.', word member] :=
    .append (by decide) (.word (hword other hother))
      (.mark (by decide) (by decide) (.word (isWord_of_isName hmember)))
  exact spells_column (hword row hrow) (isWord_of_isName hcolumn)
    (.blank (.mark (by decide) (by decide) (.blank hsecond)))

namespace Source

def items : Source → List Item
  | .owned table _ => [word table.name, word "c"]
  | .linked link _ member table key =>
    [word link.name, word "l"] ++ word "JOIN" ::
      ([word table.name, word "c"] ++ word "ON" :: equationItems "c" key "l" member)

def tieItems (key : String) : Source → List Item
  | .owned _ owner => equationItems "c" owner "p" key
  | .linked _ owner _ _ _ => equationItems "l" owner "p" key

theorem spells_tables {source : Source} (h : source.Fits) :
    Spells source.tables.toList [] source.items := by
  have hname (table : Table) : isWord table.name = true := isWord_of_isName (isName_name table)
  cases source with
  | owned table owner =>
    have htext : (Source.owned table owner).tables.toList =
        table.name.toList ++ ' ' :: "c".toList := by
      simp [tables, toString_eq]
    rw [htext]
    exact .word_blank (hname table) (.word (by decide))
  | linked link owner member table key =>
    have htext : (Source.linked link owner member table key).tables.toList =
        link.name.toList ++ ' ' :: ("l".toList ++ ' ' :: ("JOIN".toList ++ ' ' ::
          (table.name.toList ++ ' ' :: ("c".toList ++ ' ' :: ("ON".toList ++ ' ' ::
            ("c".toList ++ '.' :: (key.toList ++ ' ' :: ('=' :: ' ' ::
              ("l".toList ++ '.' :: member.toList))))))))) := by
      simp [tables, toString_eq]
    have hequation : Spells ("c".toList ++ '.' :: (key.toList ++ ' ' :: ('=' :: ' ' ::
        ("l".toList ++ '.' :: member.toList)))) [] (equationItems "c" key "l" member) :=
      spells_equation (by decide) (by decide) (isName_of_hasNumber h.2.2)
        (isName_of_hasNumber h.2.1)
    rw [htext]
    exact .word_blank (hname link) (.word_blank (by decide) (.word_blank (by decide)
      (.word_blank (hname table) (.word_blank (by decide) (.word_blank (by decide) hequation)))))

theorem readSources_items {source : Source} (h : source.Fits) :
    readSources source.items = some (source.sources, source.joined) := by
  cases source with
  | owned table owner =>
    have hjoin : word "JOIN" ∉ [word table.name, word "c"] := by
      simpa using Ne.symm (ne_of_isName (isName_name table) (by decide))
    rw [items, readSources, cutAt_of_not_mem hjoin]
    simp [readSource, ofName?_name, sources, joined]
  | linked link owner member table key =>
    have hjoin : word "JOIN" ∉ [word link.name, word "l"] := by
      simpa using Ne.symm (ne_of_isName (isName_name link) (by decide))
    have hon : word "ON" ∉ [word table.name, word "c"] := by
      simpa using Ne.symm (ne_of_isName (isName_name table) (by decide))
    have hequation : IsPredicate (equationItems "c" key "l" member)
        (.compare .eq (.column (some "c") key) (.column (some "l") member)) :=
      isPredicate_equation (by decide) (by decide) (isName_of_hasNumber h.2.2)
        (isName_of_hasNumber h.2.1)
    have hcut : cutAt "ON" (word table.name :: word "c" :: word "ON" ::
        equationItems "c" key "l" member) =
        some ([word table.name, word "c"], equationItems "c" key "l" member) :=
      cutAt_append hon _
    rw [items, readSources, cutAt_append hjoin]
    simp [hcut, readSource, ofName?_name, hequation.readFormula, sources, joined]

def tieText (key : String) (source : Source) : String := source.parent ++ " = p." ++ key

theorem spells_tieText {source : Source} (h : source.Fits) {key : String}
    (hkey : isName key = true) : Spells (source.tieText key).toList [] (source.tieItems key) := by
  cases source with
  | owned table owner =>
    have htext : ((Source.owned table owner).tieText key).toList =
        "c".toList ++ '.' :: (owner.toList ++ ' ' :: ('=' :: ' ' ::
          ("p".toList ++ '.' :: key.toList))) := by
      simp [tieText, parent]
    rw [htext]
    exact spells_equation (by decide) (by decide) (isName_of_hasNumber h) hkey
  | linked link owner member table column =>
    have htext : ((Source.linked link owner member table column).tieText key).toList =
        "l".toList ++ '.' :: (owner.toList ++ ' ' :: ('=' :: ' ' ::
          ("p".toList ++ '.' :: key.toList))) := by
      simp [tieText, parent]
    rw [htext]
    exact spells_equation (by decide) (by decide) (isName_of_hasNumber h.1) hkey

theorem isPredicate_tieItems {source : Source} (h : source.Fits) {key : String}
    (hkey : isName key = true) : IsPredicate (source.tieItems key) (source.tie key) := by
  cases source with
  | owned table owner =>
    exact isPredicate_equation (by decide) (by decide) (isName_of_hasNumber h) hkey
  | linked link owner member table column =>
    exact isPredicate_equation (by decide) (by decide) (isName_of_hasNumber h.1) hkey

def queryText (key : String) (tests : List Test) (source : Source) : String :=
  "SELECT 1 FROM " ++ source.tables ++ " WHERE " ++
    String.intercalate " AND " (source.tieText key :: tests.map (Test.text "c"))

def queryItems (key : String) (tests : List Test) (source : Source) : List Item :=
  word "SELECT" :: ([word "1"] ++ word "FROM" :: (source.items ++ word "WHERE" ::
    between "AND" (source.tieItems key :: tests.map (Test.items "c"))))

def query (key : String) (tests : List Test) (source : Source) : Query :=
  ⟨.number 1, source.sources,
    .and source.joined (conjoin (source.tie key :: tests.map (Test.formula "c")))⟩

theorem spells_queryText {source : Source} (h : source.Fits) {key : String}
    (hkey : isName key = true) {tests : List Test}
    (htests : ∀ t ∈ tests, isName t.column = true) :
    Spells (source.queryText key tests).toList
      (tests.flatMap fun t => t.literals.map Literal.parameter) (source.queryItems key tests) := by
  -- the tie and the tests in one list of texts with their parameters and items
  let pieces : List (String × List String × List Item) :=
    (source.tieText key, [], source.tieItems key) ::
      tests.map fun t => (t.text "c", t.literals.map Literal.parameter, t.items "c")
  have hpieces : ∀ x ∈ pieces, Spells x.1.toList x.2.1 x.2.2 := by
    intro x hx
    rcases List.mem_cons.mp hx with rfl | hin
    · exact spells_tieText h hkey
    · obtain ⟨t, ht, rfl⟩ := List.mem_map.mp hin
      exact Test.spells_text (by decide) (isWord_of_isName (htests t ht))
  have hwhere : Spells (String.intercalate " AND " (pieces.map Prod.fst)).toList
      (pieces.flatMap fun x => x.2.1) (between "AND" (pieces.map fun x => x.2.2)) :=
    spells_intercalate (List.cons_ne_nil _ _) hpieces
  have hparameters : (pieces.flatMap fun x => x.2.1) =
      tests.flatMap fun t => t.literals.map Literal.parameter := by
    simp [pieces, List.flatMap_map]
  rw [hparameters] at hwhere
  simp only [pieces, List.map_cons, List.map_map, Function.comp_def] at hwhere
  have htext : (source.queryText key tests).toList =
      "SELECT".toList ++ ' ' :: ("1".toList ++ ' ' :: ("FROM".toList ++ ' ' ::
        (source.tables.toList ++ ' ' :: ("WHERE".toList ++ ' ' ::
          (String.intercalate " AND "
            (source.tieText key :: tests.map (Test.text "c"))).toList)))) := by
    simp [queryText]
  rw [htext]
  exact .word_blank (by decide) (.word_blank (by decide) (.word_blank (by decide)
    (.append (by decide) (spells_tables h) (.blank (.word_blank (by decide) hwhere)))))

theorem not_mem_items {source : Source} (h : source.Fits) : word "WHERE" ∉ source.items := by
  have hname {s : String} (hs : isName s = true) : "WHERE" ≠ s :=
    Ne.symm (ne_of_isName hs (by decide))
  cases source with
  | owned table owner => simp [items, hname (isName_name table)]
  | linked link owner member table key =>
    simp [items, equationItems, hname (isName_name link), hname (isName_name table),
      hname (isName_of_hasNumber h.2.1), hname (isName_of_hasNumber h.2.2)]

theorem readGroup_queryItems {source : Source} (h : source.Fits) {key : String}
    (hkey : isName key = true) {tests : List Test}
    (htests : ∀ t ∈ tests, isName t.column = true) :
    readGroup (source.queryItems key tests) = some (.query (source.query key tests)) := by
  have hparts : List.Forall₂ IsPredicate (source.tieItems key :: tests.map (Test.items "c"))
      (source.tie key :: tests.map (Test.formula "c")) := by
    refine .cons (isPredicate_tieItems h hkey) ?_
    rw [List.forall₂_map_left_iff, List.forall₂_map_right_iff, List.forall₂_same]
    exact fun t ht => Test.isPredicate_items (.inr rfl) (htests t ht)
  exact readGroup_query_where (by simp) rfl (not_mem_items h) (readSources_items h)
    (readFormula_between hparts (List.cons_ne_nil _ _))

theorem spells_exists {source : Source} (h : source.Fits) {key : String}
    (hkey : isName key = true) {tests : List Test}
    (htests : ∀ t ∈ tests, isName t.column = true) :
    Spells ("EXISTS".toList ++ ' ' :: '(' :: ((source.queryText key tests).toList ++ [')']))
      (tests.flatMap fun t => t.literals.map Literal.parameter)
      [word "EXISTS", .group (.query (source.query key tests))] := by
  have hgroup := Spells.bracket (spells_queryText h hkey htests)
    (readGroup_queryItems h hkey htests) .empty
  rw [List.append_nil] at hgroup
  exact .word_blank (by decide) hgroup

theorem isPredicate_exists (key : String) (tests : List Test) (source : Source) :
    IsPredicate [word "EXISTS", .group (.query (source.query key tests))]
      (source.search key tests) := by
  refine ⟨rfl, fun w hw => ?_⟩
  have hne : w ≠ "EXISTS" := by rintro rfl; exact absurd hw (by decide)
  simp [hne]

end Source

end InventorySearch.Search
