import InventorySearch.Proofs.Search.Clauses

set_option autoImplicit false

/-!
# What the text of a condition says

The text of a condition that fits its table, read as SQL with its parameters, is
the formula of the condition.
-/
namespace InventorySearch.Search
open Calendar InventorySearch.Filter Sql Store

/-! ## Memberships -/

theorem readScalar_name {name : String} (h : isName name = true) (rest : List Item) :
    readScalar (word name :: mark '=' :: rest) = some (.column none name, mark '=' :: rest) := by
  have hdigits : name.toList.all Char.isDigit = false := by
    simp only [isName, Bool.and_eq_true, Bool.not_eq_true'] at h
    exact h.2
  simp [readScalar, hdigits]

theorem readScalar_singleton {name : String} (h : isName name = true) :
    readScalar [word name] = some (.column none name, []) := by
  have hdigits : name.toList.all Char.isDigit = false := by
    simp only [isName, Bool.and_eq_true, Bool.not_eq_true'] at h
    exact h.2
  simp [readScalar, hdigits]

theorem isPredicate_member {member : String} (h : isName member = true) (l : Literal) :
    IsPredicate (word member :: mark '=' :: l.items)
      (.compare .eq (.column none member) l.scalar) := by
  constructor
  · have hnot : member ≠ "NOT" := ne_of_isName h (by decide)
    have hstep : readPredicate (word member :: mark '=' :: l.items) =
        (readScalar (word member :: mark '=' :: l.items)).bind fun x => readTest x.1 x.2 := by
      unfold readPredicate
      split <;> simp_all
    rw [hstep, readScalar_name h]
    exact readTest_items (.column none member) .eq l
  · intro w hw
    have hne := Ne.symm (ne_of_isName h (mem_keywords_of_mem_separators hw))
    have hrest := not_mem_relationItems hw .eq l
    simp only [relationItems, List.singleton_append] at hrest
    rw [List.mem_cons, not_or]
    exact ⟨by simpa using hne, hrest⟩

def linkQuery (link : Table) (owner : String) (asked : Option (String × Literal)) : Query :=
  ⟨.column none owner, [(link.name, link)], linkCondition asked⟩

def linkItems (link : Table) (owner : String) (asked : Option (String × Literal)) : List Item :=
  word "SELECT" :: ([word owner] ++ word "FROM" ::
    match asked with
    | none => [word link.name]
    | some (member, literal) =>
      [word link.name] ++ word "WHERE" :: (word member :: mark '=' :: literal.items))

def linkText (link : Table) (owner : String) (asked : Option (String × Literal)) : String :=
  "SELECT " ++ owner ++ " FROM " ++ link.name ++
    match asked with
    | none => ""
    | some (member, literal) => " WHERE " ++ member ++ " = " ++ literal.placeholder

theorem spells_linkText (link : Table) {owner : String} {asked : Option (String × Literal)}
    (howner : isName owner = true) (hasked : ∀ a ∈ asked, isName a.1 = true) :
    Spells (linkText link owner asked).toList (asked.toList.map fun a => a.2.parameter)
      (linkItems link owner asked) := by
  have hlink : isWord link.name = true := isWord_of_isName (isName_name link)
  cases asked with
  | none =>
    have htext : (linkText link owner none).toList =
        "SELECT".toList ++ ' ' :: (owner.toList ++ ' ' ::
          ("FROM".toList ++ ' ' :: link.name.toList)) := by
      simp [linkText]
    rw [htext]
    exact .word_blank (by decide) (.word_blank (isWord_of_isName howner)
      (.word_blank (by decide) (.word hlink)))
  | some a =>
    obtain ⟨member, literal⟩ := a
    have hmember : isWord member = true := isWord_of_isName (hasked (member, literal) rfl)
    have htext : (linkText link owner (some (member, literal))).toList =
        "SELECT".toList ++ ' ' :: (owner.toList ++ ' ' :: ("FROM".toList ++ ' ' ::
          (link.name.toList ++ ' ' :: ("WHERE".toList ++ ' ' ::
            (member.toList ++ ' ' :: ('=' :: ' ' :: literal.placeholder.toList)))))) := by
      simp [linkText]
    rw [htext]
    exact .word_blank (by decide) (.word_blank (isWord_of_isName howner)
      (.word_blank (by decide) (.word_blank hlink (.word_blank (by decide)
        (.word_blank hmember (.mark (by decide) (by decide)
          (.blank literal.spells_placeholder)))))))

theorem readGroup_linkItems (link : Table) {owner : String} {asked : Option (String × Literal)}
    (howner : isName owner = true) (hasked : ∀ a ∈ asked, isName a.1 = true) :
    readGroup (linkItems link owner asked) = some (.query (linkQuery link owner asked)) := by
  have hfrom : word "FROM" ∉ [word owner] := by
    simpa using Ne.symm (ne_of_isName howner (by decide))
  have hwhere : word "WHERE" ∉ [word link.name] := by
    simpa using Ne.symm (ne_of_isName (isName_name link) (by decide))
  have hjoin : word "JOIN" ∉ [word link.name] := by
    simpa using Ne.symm (ne_of_isName (isName_name link) (by decide))
  have hsources : readSources [word link.name] = some ([(link.name, link)], .always) := by
    simp [readSources, cutAt_of_not_mem hjoin, readSource, ofName?_name]
  cases asked with
  | none => exact readGroup_query hfrom (readScalar_singleton howner) hwhere hsources
  | some a =>
    have hmember := isPredicate_member (hasked a rfl) a.2
    exact readGroup_query_where hfrom (readScalar_singleton howner) hwhere hsources
      hmember.readFormula

/-! ## Whole conditions -/

namespace Condition

def items : Condition → List Item
  | .always => [word "1", mark '=', word "1"]
  | .test t => t.items "p"
  | .membership inside key link owner asked =>
    word "p" :: mark '.' :: word key :: ((if inside then [] else [word "NOT"]) ++
      [word "IN", .group (.query (linkQuery link owner asked))])
  | .related orNone source key tests =>
    if orNone then
      [.group (.formula (.or (.not (source.search key [])) (source.search key tests)))]
    else [word "EXISTS", .group (.query (source.query key tests))]
  | .all parts => [.group (.formula (conjoin (formulas parts)))]
  | .either left right => [.group (.formula (.or left.formula right.formula))]

theorem isPredicate_membership {key : String} (hkey : isName key = true) (inside : Bool)
    (link : Table) (owner : String) (asked : Option (String × Literal)) :
    IsPredicate (Condition.membership inside key link owner asked).items
      (Condition.membership inside key link owner asked).formula := by
  constructor
  · cases inside <;> cases asked <;> rfl
  · intro w hw
    have hne : w ≠ key := Ne.symm (ne_of_isName hkey (mem_keywords_of_mem_separators hw))
    have hothers : w ≠ "p" ∧ w ≠ "IN" ∧ w ≠ "NOT" := by
      clear hne
      revert w
      decide
    cases inside <;> simp [items, hne, hothers]

theorem isPredicate_items {table : Table} {c : Condition} (h : c.Fits table) :
    IsPredicate c.items c.formula := by
  cases h with
  | always => exact ⟨rfl, by decide⟩
  | test h => exact Test.isPredicate_items (.inl rfl) (isName_of_hasColumn h)
  | membership hkey howner hasked =>
    exact isPredicate_membership (isName_of_hasColumn (.of_number hkey)) _ _ _ _
  | @related orNone source key tests hkey hsource hne htests =>
    cases orNone with
    | true => exact isPredicate_group _
    | false => exact source.isPredicate_exists key tests
  | all hne hparts => exact isPredicate_group _
  | either hleft hright => exact isPredicate_group _

theorem spells_membership {key : String} (hkey : isName key = true) (inside : Bool)
    {link : Table} {owner : String} {asked : Option (String × Literal)}
    (howner : isName owner = true) (hasked : ∀ a ∈ asked, isName a.1 = true) :
    Spells (Condition.membership inside key link owner asked).text.toList
      (asked.toList.map fun a => a.2.parameter)
      (Condition.membership inside key link owner asked).items := by
  have hgroup := Spells.bracket (spells_linkText link howner hasked)
    (readGroup_linkItems link howner hasked) .empty
  rw [List.append_nil] at hgroup
  have hin := Spells.word_blank (s := "IN") (by decide) hgroup
  have htext : (Condition.membership inside key link owner asked).text.toList =
      "p".toList ++ '.' :: (key.toList ++ ' ' :: ((if inside then "" else "NOT ").toList ++
        ("IN".toList ++ ' ' :: '(' :: ((linkText link owner asked).toList ++ [')'])))) := by
    cases asked <;> simp [text, linkText, toString_eq]
  rw [htext]
  cases inside with
  | true => exact spells_column (by decide) (isWord_of_isName hkey) (.blank hin)
  | false =>
    have hnot := Spells.word_blank (s := "NOT") (by decide) hin
    exact spells_column (by decide) (isWord_of_isName hkey) (.blank hnot)

theorem spells_related (orNone : Bool) {source : Source} (hsource : source.Fits) {key : String}
    (hkey : isName key = true) {tests : List Test} (hne : tests ≠ [])
    (htests : ∀ t ∈ tests, isName t.column = true) :
    Spells (Condition.related orNone source key tests).text.toList
      (tests.flatMap fun t => t.literals.map Literal.parameter)
      (Condition.related orNone source key tests).items := by
  have hsome := Source.spells_exists hsource hkey htests
  have htext : (Condition.related false source key tests).text.toList =
      "EXISTS".toList ++ ' ' :: '(' :: ((source.queryText key tests).toList ++ [')']) := by
    cases tests with
    | nil => exact absurd rfl hne
    | cons t ts => simp [text, Source.queryText, Source.tieText, toString_eq]
  cases orNone with
  | false => exact htext ▸ hsome
  | true =>
    have hnoTests : ∀ t ∈ ([] : List Test), isName t.column = true := by simp
    have hnone := Spells.word_blank (s := "NOT") (by decide)
      (Source.spells_exists hsource hkey hnoTests)
    have hnot : IsPredicate [word "NOT", word "EXISTS", .group (.query (source.query key []))]
        (.not (source.search key [])) := by
      refine ⟨rfl, fun w hw => ?_⟩
      have hothers : w ≠ "NOT" ∧ w ≠ "EXISTS" := by
        revert w
        decide
      simp [hothers]
    have hinside := Spells.append (by decide) hnone
      (.blank (.word_blank (s := "OR") (by decide) hsome))
    have hgroup := Spells.bracket hinside
      (readGroup_or hnot (source.isPredicate_exists key tests)) .empty
    have horText : (Condition.related true source key tests).text.toList =
        '(' :: ((("NOT".toList ++ ' ' :: ("EXISTS".toList ++ ' ' :: '(' ::
          ((source.queryText key []).toList ++ [')']))) ++ ' ' :: ("OR".toList ++ ' ' ::
            (Condition.related false source key tests).text.toList)) ++ [')']) := by
      simp [text, Source.queryText, Source.tieText, toString_eq]
    rw [horText, htext]
    simpa [items] using hgroup

theorem spells_text {table : Table} {c : Condition} (h : c.Fits table) :
    Spells c.text.toList c.parameters c.items := by
  induction h with
  | always =>
    have hone := Spells.word (s := "1") (by decide)
    exact .append (by decide) hone (.mark (by decide) (by decide) hone)
  | test h => exact Test.spells_text (by decide) (isWord_of_isName (isName_of_hasColumn h))
  | @membership inside key link owner asked hkey howner hasked =>
    have hparameters : (Condition.membership inside key link owner asked).parameters =
        asked.toList.map fun a => a.2.parameter := by
      cases asked <;> rfl
    rw [hparameters]
    exact spells_membership (isName_of_hasColumn (.of_number hkey)) inside
      (isName_of_hasColumn (.of_number howner))
      fun a ha => isName_of_hasColumn (.of_number (hasked a ha))
  | @related orNone source key tests hkey hsource hne htests =>
    rw [parameters_related]
    exact spells_related orNone hsource (isName_of_hasColumn (.of_number hkey)) hne
      fun t ht => isName_of_hasColumn (htests t ht)
  | @all parts hne hparts ih =>
    have hinside := spells_intercalate hne ih
    have hpredicates : List.Forall₂ IsPredicate (parts.map items) (parts.map formula) := by
      rw [List.forall₂_map_left_iff, List.forall₂_map_right_iff, List.forall₂_same]
      exact fun c hc => isPredicate_items (hparts c hc)
    have hgroup := Spells.bracket hinside
      (readGroup_between hpredicates (by simpa using hne)) .empty
    have htext : (Condition.all parts).text.toList =
        '(' :: ((String.intercalate " AND " (parts.map text)).toList ++ [')']) := by
      simp [text, texts_eq_map]
    rw [htext, parameters_all, items, formulas_eq_map]
    simpa using hgroup
  | @either left right hleft hright ihLeft ihRight =>
    have hinside := Spells.append (by decide) ihLeft
      (.blank (.word_blank (s := "OR") (by decide) ihRight))
    have hgroup := Spells.bracket hinside
      (readGroup_or (isPredicate_items hleft) (isPredicate_items hright)) .empty
    have htext : (Condition.either left right).text.toList =
        '(' ::
          ((left.text.toList ++ ' ' :: ("OR".toList ++ ' ' :: right.text.toList)) ++ [')']) := by
      simp [text]
    rw [htext, parameters_either, items]
    simpa using hgroup

/-- The text of a condition with its parameters is read as its formula. -/
theorem read_text {table : Table} {c : Condition} (h : c.Fits table) :
    Sql.read c.text c.parameters = some c.formula :=
  read_of_spells (spells_text h) (isPredicate_items h).readFormula

end Condition
end InventorySearch.Search
