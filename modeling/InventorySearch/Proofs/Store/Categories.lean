import InventorySearch.Proofs.Filter.Alternatives
import InventorySearch.Proofs.Store.Integrity
import InventorySearch.Proofs.Store.Joining

set_option autoImplicit false

/-!
# Nodes by category and by source

The inventory answers some questions about nodes directly that can also be put as a
search. Both ways come to the same nodes in the same order. That a category is found
by its number in one of them and by its name in the other makes no difference, since
no two categories share a name.
-/
namespace InventorySearch.Store
open InventorySearch.Filter Search

/-! ## Tables that are there -/

namespace Database

/-- Having all tables but the one that can be dropped. -/
def Furnished (db : Database) : Prop :=
  ∀ table, table ≠ .monitoredServices → (db.rows? table).isSome = true

theorem Furnished.set {db : Database} (h : db.Furnished) {table : Table}
    {rows : Option (List Row)} (hrows : table ≠ .monitoredServices → rows.isSome = true) :
    (db.set table rows).Furnished := by
  intro other hne
  by_cases heq : other = table
  · subst heq
    rw [rows?_set_self]
    exact hrows hne
  · rw [rows?_set_of_ne db rows heq]
    exact h other hne

theorem Furnished.insert {db after : Database} (h : db.Furnished) {table : Table}
    {assigned : List (String × Value)} (hinsert : db.insert table assigned = .ok after) :
    after.Furnished := by
  obtain ⟨rows, row, -, -, -, rfl⟩ := of_insert hinsert
  exact h.set fun _ => rfl

theorem furnished_advance (db : Database) (now version : Int) (description : String) :
    (db.advance now version description).Furnished := by
  intro table _
  by_cases heq : table = .schemaVersion
  · subst heq
    rw [advance, recordVersion, rows?_set_self]
    rfl
  · rw [rows?_advance_of_ne now version description heq]
    rfl

theorem Furnished.opening {db after : Database} (h : db.Furnished) {now : Int}
    (hopening : db.opening now = .ok after) : after.Furnished := by
  rcases of_opening hopening with ⟨-, rfl⟩ | ⟨-, description, rfl⟩
  · exact h
  · exact furnished_advance _ _ _ _

theorem Furnished.rows?_eq {db : Database} (h : db.Furnished) (table : Table)
    (hne : table ≠ .monitoredServices) : db.rows? table = some (db.rowsOrNone table) := by
  obtain ⟨rows, hrows⟩ := Option.isSome_iff_exists.mp (h table hne)
  rw [hrows, rowsOrNone_of_some hrows]

end Database

namespace Session

theorem Changes.furnished {db after : Database} {st : Step} (h : db.Furnished)
    (hchanges : Changes db st after) : after.Furnished := by
  cases hchanges with
  | nothing => exact h
  | loaded hload =>
    exact Database.keeps_load (fun h hinsert => Database.Furnished.insert h hinsert) h hload
  | inserted name table rows =>
    exact Database.keeps_insertAll (fun h hinsert => Database.Furnished.insert h hinsert) h table
      rows
  | cleared _ => exact h.set fun _ => rfl
  | versionSet _ _ => exact h.set fun _ => rfl
  | versionDeleted _ => exact h.set fun _ => rfl
  | servicesDropped => exact h.set fun hne => absurd rfl hne

theorem Reachable.furnished {s : Session} (h : s.Reachable) : s.contents.Furnished := by
  induction h with
  | start now =>
    rw [start_eq]
    exact Database.furnished_advance _ _ _ _
  | @step s now st _ ih =>
    rcases s.step_contents now st with hchanges | ⟨-, hopening⟩
    · exact hchanges.furnished ih
    · exact ih.opening hopening

end Session

/-! ## Searches for nodes -/

def nodeRecords (rows : List Row) : List Record :=
  (sortRows [("label", .asc), ("id", .asc)] rows).map (record Entity.node.schema)

theorem length_nodeRecords (rows : List Row) : (nodeRecords rows).length = rows.length := by
  rw [nodeRecords, List.length_map, (perm_sortRows _ rows).length_eq]

namespace Database

/-- Being the records of the nodes with a property, each once, in the default order. -/
def ShowsNodes (db : Database) (P : Row → Prop) (records : List Record) : Prop :=
  ∃ rows : List Row, records = rows.map (record Entity.node.schema) ∧ rows.Nodup ∧
    rows.Pairwise (RowBefore [("label", .asc), ("id", .asc)]) ∧
    ∀ row, row ∈ rows ↔ row ∈ db.rowsOrNone .nodes ∧ P row

/-- Whether a page that has room for all nodes that a query asks for shows these records. -/
def Lists (db : Database) (query : String) (records : List Record) : Prop :=
  ∀ limit direction, records.length ≤ limit →
    db.search .node ⟨query, limit, 0, "", direction⟩ = .ok ⟨records, records.length⟩

variable {db : Database}

theorem showsNodes_filter (hdb : Lawful db.rowsOrNone) {p : Row → Bool} {P : Row → Prop}
    (hp : ∀ row ∈ db.rowsOrNone .nodes, p row = true ↔ P row) :
    db.ShowsNodes P (nodeRecords ((db.rowsOrNone .nodes).filter p)) := by
  have hperm := perm_sortRows [("label", .asc), ("id", .asc)] ((db.rowsOrNone .nodes).filter p)
  have hsorts : Entity.node.schema.SortsBy Entity.node.defaultOrder
      [("label", .asc), ("id", .asc)] := Schema.sortsBy_of_order rfl
  have hsub : ((db.rowsOrNone .nodes).filter p).Sublist (db.rowsOrNone .nodes) :=
    List.filter_sublist
  refine ⟨_, rfl, hperm.nodup_iff.mpr ?_, pairwise_rowBefore_sortRows hdb .node hsorts hsub,
    fun row => ?_⟩
  · refine ((pairwise_key_ne hdb .node).sublist hsub).imp ?_
    rintro a b hne rfl
    exact hne rfl
  · rw [hperm.mem_iff, List.mem_filter]
    exact and_congr_right fun hrow => hp row hrow

theorem search_of_selects (hdb : Lawful db.rowsOrNone) (hfurnished : db.Furnished)
    {query : String} (hquery : query ≠ "") {r : Restriction}
    (hparse : parse (coercer Entity.node.rules db.lookup) query = .ok r)
    (hselects : ∃ rows, db.Selects .node r rows) {p : Row → Bool}
    (hp : ∀ row ∈ db.rowsOrNone .nodes, p row = true ↔
      r.Holds Entity.node.schema Entity.node.aliases db.rowsOrNone row)
    (limit offset : Nat) (direction : Direction) :
    db.search .node ⟨query, limit, offset, "", direction⟩ =
      .ok ⟨((nodeRecords ((db.rowsOrNone .nodes).filter p)).drop offset).take limit,
        (nodeRecords ((db.rowsOrNone .nodes).filter p)).length⟩ := by
  obtain ⟨_, c, hc, hdecides, rfl⟩ := hselects
  have hmatching : db.matching .nodes c = (db.rowsOrNone .nodes).filter p := by
    refine List.filter_congr fun row hrow => ?_
    rw [Bool.eq_iff_iff, beq_iff_eq, hp row hrow]
    exact Schema.eval_condition_iff hdb Entity.node.schema_fits hc hdecides.2 hrow
  have hplan := (@plan_eq_ok_iff db .node ⟨"", limit, offset, "", direction⟩ query hquery
    ⟨c, [("label", .asc), ("id", .asc)]⟩).mpr ⟨r, hparse, hc, rfl⟩
  have hobstacle := obstacle?_eq_none_iff.mpr ⟨hfurnished .nodes (by decide), hdecides⟩
  have hsearch := search_eq hplan hobstacle
  change _ = Except.ok (Page.mk
    ((((sortRows _ (db.matching .nodes c)).drop offset).take limit).map _)
    (db.matching .nodes c).length) at hsearch
  rw [hmatching] at hsearch
  rw [length_nodeRecords, hsearch, nodeRecords, List.map_take, List.map_drop]

theorem lists_of_selects (hdb : Lawful db.rowsOrNone) (hfurnished : db.Furnished)
    {query : String} (hquery : query ≠ "") {r : Restriction}
    (hparse : parse (coercer Entity.node.rules db.lookup) query = .ok r)
    (hselects : ∃ rows, db.Selects .node r rows) {p : Row → Bool}
    (hp : ∀ row ∈ db.rowsOrNone .nodes, p row = true ↔
      r.Holds Entity.node.schema Entity.node.aliases db.rowsOrNone row) :
    db.Lists query (nodeRecords ((db.rowsOrNone .nodes).filter p)) := by
  intro limit direction hlimit
  rw [search_of_selects hdb hfurnished hquery hparse hselects hp, List.drop_zero,
    List.take_of_length_le hlimit]

theorem search_of_parse_error {entity : Entity} {request : Request} (hquery : request.query ≠ "")
    {e : Error} (hparse : parse (coercer entity.rules db.lookup) request.query = .error e) :
    db.search entity request = .error (.filter e) := by
  have hassemble := assemble_eq entity (coercer entity.rules db.lookup) request
  rw [if_neg hquery, hparse] at hassemble
  rw [search, Database.plan, hassemble]
  rfl

/-! ## Queries joined by "or" -/

theorem selects_foldl_or {entity : Entity} {first : Restriction} {rest : List Restriction}
    (h : ∀ r ∈ first :: rest, ∃ rows, db.Selects entity r rows) :
    ∃ rows, db.Selects entity (rest.foldl .or first) rows := by
  induction rest generalizing first with
  | nil => exact h first List.mem_cons_self
  | cons next rest ih =>
    obtain ⟨hfirst, hnext, hrest⟩ := List.forall_mem_cons.mp h |>.imp_right List.forall_mem_cons.mp
    obtain ⟨rows, hfirst⟩ := hfirst
    obtain ⟨rows', hnext⟩ := hnext
    obtain ⟨found, hfound, -⟩ := selects_or hfirst hnext
    exact ih (List.forall_mem_cons.mpr ⟨⟨found, hfound⟩, hrest⟩)

theorem holds_foldl_or {schema : Schema} {aliases : List Alias} {rows : Rows} {row : Row}
    {first : Restriction} {rest : List Restriction} :
    (rest.foldl .or first).Holds schema aliases rows row ↔
      ∃ r ∈ first :: rest, r.Holds schema aliases rows row := by
  induction rest generalizing first with
  | nil => simp
  | cons next rest ih =>
    rw [List.foldl_cons, ih]
    simp only [List.exists_mem_cons_iff, Restriction.Holds, or_assoc]

/-! ## Categories -/

/-- Whether a node is linked to the category of that name. -/
def Belongs (db : Database) (name : String) (node : Row) : Prop :=
  ∃ category ∈ db.rowsOrNone .categories, category.get "name" = .text name ∧
    ∃ link ∈ db.rowsOrNone .categoryNode, link.get "category_id" = category.get "id" ∧
      link.get "node_id" = node.get "id"

def KnowsCategory (db : Database) (name : String) : Prop :=
  ∃ category ∈ db.rowsOrNone .categories, category.get "name" = .text name

def categoryNumber (db : Database) (name : String) : Int :=
  (((db.rowsOrNone .categories).find? fun row => row.get "name" == .text name).map
    fun row => row.integer "id").getD 0

section
variable (hdb : Lawful db.rowsOrNone)
include hdb

theorem get_id_eq_categoryNumber {category : Row} (hrow : category ∈ db.rowsOrNone .categories)
    {name : String} (hname : category.get "name" = .text name) :
    category.get "id" = .integer (db.categoryNumber name) := by
  have hone : AtMostOne (db.rowsOrNone .categories) "name" (.text name) :=
    (hdb .categories (by decide)).atMostOne (by decide) _
  rw [categoryNumber, hone.find?_eq hrow hname, Option.map_some, Option.getD_some]
  exact integer_id hdb (by decide) hrow

theorem belongs_iff {name : String} (hknown : db.KnowsCategory name) {node : Row} :
    db.Belongs name node ↔ ∃ link ∈ db.rowsOrNone .categoryNode,
      link.get "category_id" = .integer (db.categoryNumber name) ∧
        link.get "node_id" = node.get "id" := by
  constructor
  · rintro ⟨category, hrow, hname, link, hlink, hcategory, hnode⟩
    exact ⟨link, hlink, get_id_eq_categoryNumber hdb hrow hname ▸ hcategory, hnode⟩
  · rintro ⟨link, hlink, hcategory, hnode⟩
    obtain ⟨category, hrow, hname⟩ := hknown
    exact ⟨category, hrow, hname, link, hlink,
      (get_id_eq_categoryNumber hdb hrow hname).symm ▸ hcategory, hnode⟩

/-! ## The equalities -/

theorem coerce_category {name : String} (hfurnished : db.Furnished)
    (hknown : db.KnowsCategory name) :
    coercer Entity.node.rules db.lookup "categories" name =
        .ok (.reference ⟨.category, db.categoryNumber name, name⟩) ∧
      db.categoryId? name = .ok (some (db.categoryNumber name)) := by
  obtain ⟨category, hrow, hname⟩ := hknown
  have hrows := hfurnished.rows?_eq .categories (by decide)
  obtain ⟨hlookup, hid⟩ := ((unambiguous_of_lawful hdb).category name _ hrows).2 category hrow hname
  have hnumber : category.integer "id" = db.categoryNumber name :=
    Row.integer_eq (get_id_eq_categoryNumber hdb hrow hname)
  rw [hnumber] at hlookup hid
  refine ⟨?_, hid⟩
  change Rule.coerce db.lookup "categories" name .category = _
  rw [Rule.coerce, hlookup]
  rfl

end

theorem coerce_unknown_category {name : String} (hfurnished : db.Furnished)
    (hunknown : ¬ db.KnowsCategory name) :
    coercer Entity.node.rules db.lookup "categories" name =
        .error (CoercionFault.category.toError "categories" name) ∧
      db.categoryId? name = .ok none := by
  have hrows := rows_of_some (hfurnished.rows?_eq .categories (by decide))
  have hnone : ((db.rowsOrNone .categories).find? fun row => row.get "name" == .text name) = none :=
    List.find?_eq_none.mpr fun row hrow hname => hunknown ⟨row, hrow, beq_iff_eq.mp hname⟩
  have hlookup : db.lookup .category name = .ok none := by
    rw [lookup, hrows]
    change Except.ok (((db.rowsOrNone .categories).find? fun row =>
      row.get "name" == .text name).map _) = _
    rw [hnone, Option.map_none]
  constructor
  · change Rule.coerce db.lookup "categories" name .category = _
    rw [Rule.coerce, hlookup]
    rfl
  · rw [categoryId?, hrows]
    change Except.ok (((db.rowsOrNone .categories).find? fun row =>
      row.get "name" == .text name).map _) = _
    rw [hnone, Option.map_none]

theorem selects_category (hfurnished : db.Furnished) (reference : Reference) :
    ∃ rows, db.Selects .node (equals "categories" (.reference reference)) rows := by
  refine ⟨_, .membership true "id" .categoryNode "node_id"
    (some ("category_id", .integer reference.id)), rfl, ⟨?_, ?_⟩, rfl⟩
  · intro table htable
    rw [List.mem_singleton.mp htable]
    exact hfurnished .categoryNode (by decide)
  · intro literal hliteral
    rw [List.mem_singleton.mp hliteral]
    rfl

theorem holds_category_iff {rows : Rows} {node : Row} {reference : Reference} :
    (equals "categories" (.reference reference)).Holds Entity.node.schema Entity.node.aliases
        rows node ↔ ∃ link ∈ rows .categoryNode,
      link.get "category_id" = .integer reference.id ∧ link.get "node_id" = node.get "id" := by
  have hfield : field? Entity.node.schema.fields "categories" =
      some ⟨"categories", "category_node", .membership .categoryNode "node_id" "category_id"⟩ := rfl
  rw [equals, Restriction.Holds]
  change Schema.FieldHolds _ _ _ _ _ _ ↔ _
  simp only [Schema.FieldHolds, hfield, Schema.MembershipHolds, operandValue?, Option.mem_def,
    Option.some.injEq, exists_eq_left']
  simp [Entity.schema, and_comm]

theorem columnHolds_text_iff {row : Row} {column s : String} :
    ColumnHolds row column .text (.relation .eq) (some (.text s)) ↔ row.get column = .text s := by
  have hequal : Relation.eq.OnValues (row.get column) (.text s) ↔ row.get column = .text s := by
    rw [← relate_eq_some_true, relate_eq_eq_some_true]
    exact and_iff_left_of_imp fun heq hnull => nomatch heq.symm.trans hnull
  simpa [ColumnHolds, operandValue?] using hequal

theorem holds_categoryName_iff {name : String} {node : Row} :
    (equals "category.name" (.text name)).Holds Entity.node.schema Entity.node.aliases
        db.rowsOrNone node ↔ db.Belongs name node := by
  have hlink : alias? Entity.node.aliases "category" = some ⟨"categories", "category", .left⟩ := rfl
  have hassociation : Entity.node.schema.association? "categories" =
      some ⟨"categories", .linked .categoryNode "node_id" "category_id" .categories "id",
        [⟨"name", "name", .text⟩, ⟨"description", "description", .text⟩]⟩ := rfl
  have hname : field? [⟨"name", "name", .text⟩, ⟨"description", "description", .text⟩] "name" =
      some (⟨"name", "name", .text⟩ : Search.Field ScalarKind) := rfl
  rw [equals, Restriction.Holds]
  change Schema.AliasHolds _ _ _ _ "category"
    [⟨"category.name", "name", .relation .eq, some (.text name)⟩] ↔ _
  simp only [Schema.AliasHolds, hlink, Option.mem_def, Option.some.injEq, exists_eq_left',
    hassociation, List.forall_mem_singleton, Association.TermHolds, hname, columnHolds_text_iff,
    Source.IsCandidate, Source.IsChild]
  constructor
  · rintro ⟨category, ⟨hrow, link, hlink, hnode, hcategory⟩ | ⟨-, -, rfl⟩, hname⟩
    · exact ⟨category, hrow, hname, link, hlink, hcategory, hnode⟩
    · cases hname
  · rintro ⟨category, hrow, hname, link, hlink, hcategory, hnode⟩
    exact ⟨category, .inl ⟨hrow, link, hlink, hnode, hcategory⟩, hname⟩

theorem selects_categoryName (hfurnished : db.Furnished) (name : String) :
    ∃ rows, db.Selects .node (equals "category.name" (.text name)) rows := by
  refine ⟨_, .related false (.linked .categoryNode "node_id" "category_id" .categories "id") "id"
    [.relation "name" .eq (.text name)], rfl, ⟨?_, ?_⟩, rfl⟩
  · intro table htable
    rcases List.mem_pair.mp htable with rfl | rfl
    · exact hfurnished .categoryNode (by decide)
    · exact hfurnished .categories (by decide)
  · intro literal hliteral
    rw [List.mem_singleton.mp hliteral]
    rfl

theorem selects_foreignSource (source : String) :
    ∃ rows, db.Selects .node (equals "foreignSource" (.text source)) rows := by
  refine ⟨_, .test (.relation "foreign_source" .eq (.text source)), rfl, ⟨?_, ?_⟩, rfl⟩
  · intro table htable
    cases htable
  · intro literal hliteral
    rw [List.mem_singleton.mp hliteral]
    rfl

theorem holds_foreignSource_iff {rows : Rows} {source : String} {node : Row} :
    (equals "foreignSource" (.text source)).Holds Entity.node.schema Entity.node.aliases rows node ↔
      node.get "foreign_source" = .text source := by
  rw [equals, Restriction.Holds]
  change Schema.FieldHolds _ _ _ _ _ _ ↔ _
  have hfield : field? Entity.node.schema.fields "foreignSource" =
      some ⟨"foreignSource", "foreign_source", .scalar .text⟩ := rfl
  simp only [Schema.FieldHolds, hfield, Option.mem_def, Option.some.injEq, exists_eq_left',
    columnHolds_text_iff]

/-! ## The direct questions -/

def isLinked (db : Database) (ids : List Int) (node : Row) : Bool :=
  ((db.rowsOrNone .categoryNode).filter fun l => ids.contains (l.integer "category_id")).any
    fun l => l.get "node_id" == node.get "id"

theorem isLinked_iff (hdb : Lawful db.rowsOrNone) {ids : List Int} {node : Row} :
    db.isLinked ids node = true ↔ ∃ id ∈ ids, ∃ link ∈ db.rowsOrNone .categoryNode,
      link.get "category_id" = .integer id ∧ link.get "node_id" = node.get "id" := by
  have hinteger {link : Row} (hlink : link ∈ db.rowsOrNone .categoryNode) :
      link.get "category_id" = .integer (link.integer "category_id") :=
    Row.get_integer (hdb.exists_integer (by decide) hlink)
  simp only [isLinked, List.any_eq_true, List.mem_filter, List.contains_iff_mem, beq_iff_eq]
  constructor
  · rintro ⟨link, ⟨hlink, hid⟩, hnode⟩
    exact ⟨_, hid, link, hlink, hinteger hlink, hnode⟩
  · rintro ⟨id, hid, link, hlink, hcategory, hnode⟩
    obtain rfl := Value.integer.inj (hcategory.symm.trans (hinteger hlink))
    exact ⟨link, ⟨hlink, hid⟩, hnode⟩

theorem categoryIds?_of_known (hdb : Lawful db.rowsOrNone) (hfurnished : db.Furnished)
    {names : List String} (h : ∀ name ∈ names, db.KnowsCategory name) :
    db.categoryIds? names = .ok (some (names.map db.categoryNumber)) := by
  induction names with
  | nil => rfl
  | cons name names ih =>
    obtain ⟨hfirst, hrest⟩ := List.forall_mem_cons.mp h
    rw [categoryIds?, (coerce_category hdb hfurnished hfirst).2]
    change (db.categoryIds? names >>= fun ids => Except.ok (ids.map (_ :: ·))) = _
    rw [ih hrest]
    rfl

theorem categoryIds?_of_unknown (hdb : Lawful db.rowsOrNone) (hfurnished : db.Furnished)
    {names : List String} (h : ∃ name ∈ names, ¬ db.KnowsCategory name) :
    db.categoryIds? names = .ok none := by
  induction names with
  | nil => simp at h
  | cons name names ih =>
    rw [categoryIds?]
    by_cases hfirst : db.KnowsCategory name
    · have hrest := (List.exists_mem_cons_iff _ _ _).mp h |>.resolve_left (not_not_intro hfirst)
      rw [(coerce_category hdb hfurnished hfirst).2]
      change (db.categoryIds? names >>= fun ids => Except.ok (ids.map (_ :: ·))) = _
      rw [ih hrest]
      rfl
    · rw [(coerce_unknown_category hfurnished hfirst).2]
      rfl

theorem nodesByCategories_eq {names : List String} (hne : names ≠ []) (hfurnished : db.Furnished)
    {ids : Option (List Int)} (hids : db.categoryIds? names = .ok ids) :
    db.nodesByCategories names = .ok (ids.map fun ids =>
      nodeRecords ((db.rowsOrNone .nodes).filter (db.isLinked ids))) := by
  have hnodes := rows_of_some (hfurnished.rows?_eq .nodes (by decide))
  have hlinks := rows_of_some (hfurnished.rows?_eq .categoryNode (by decide))
  rw [nodesByCategories, if_neg (by simpa using hne), hids, hnodes, hlinks]
  cases ids <;> rfl

theorem isLinked_congr (hdb : Lawful db.rowsOrNone) {ids ids' : List Int}
    (hsame : ∀ id, id ∈ ids ↔ id ∈ ids') (node : Row) :
    db.isLinked ids node = db.isLinked ids' node := by
  rw [Bool.eq_iff_iff, isLinked_iff hdb, isLinked_iff hdb]
  exact exists_congr fun id => and_congr_left fun _ => hsame id

theorem nodesByCategories_congr (hdb : Lawful db.rowsOrNone) (hfurnished : db.Furnished)
    {names names' : List String} (hne : names ≠ []) (hsame : ∀ name, name ∈ names ↔ name ∈ names') :
    db.nodesByCategories names = db.nodesByCategories names' := by
  have hne' : names' ≠ [] := by
    simpa only [ne_eq, List.eq_nil_iff_forall_not_mem, hsame] using hne
  by_cases hknown : ∀ name ∈ names, db.KnowsCategory name
  · have hknown' : ∀ name ∈ names', db.KnowsCategory name := fun name hname =>
      hknown name ((hsame name).mpr hname)
    have hids (id : Int) : id ∈ names.map db.categoryNumber ↔ id ∈ names'.map db.categoryNumber := by
      simp only [List.mem_map, hsame]
    rw [nodesByCategories_eq hne hfurnished (categoryIds?_of_known hdb hfurnished hknown),
      nodesByCategories_eq hne' hfurnished (categoryIds?_of_known hdb hfurnished hknown'),
      Option.map_some, Option.map_some, funext (isLinked_congr hdb hids)]
  · push Not at hknown
    have hunknown : ∃ name ∈ names', ¬ db.KnowsCategory name := by
      simpa only [hsame] using hknown
    rw [nodesByCategories_eq hne hfurnished (categoryIds?_of_unknown hdb hfurnished hknown),
      nodesByCategories_eq hne' hfurnished (categoryIds?_of_unknown hdb hfurnished hunknown)]

theorem nodesByForeignSource_eq (hfurnished : db.Furnished) (source : String) :
    db.nodesByForeignSource source = .ok (nodeRecords ((db.rowsOrNone .nodes).filter
      fun node => node.get "foreign_source" == .text source)) := by
  have hnodes := rows_of_some (hfurnished.rows?_eq .nodes (by decide))
  rw [nodesByForeignSource, hnodes]
  rfl

/-! ## Both ways -/

def categoriesQuery (names : List String) : String :=
  String.intercalate "," (names.map (equality "categories"))

theorem categoriesQuery_ne_empty {names : List String} (hne : names ≠ []) :
    categoriesQuery names ≠ "" := by
  obtain ⟨name, rest, rfl⟩ := List.exists_cons_of_ne_nil hne
  intro h
  have hlist := congrArg String.toList h
  simp [categoriesQuery, equality, String.toList_intercalate] at hlist

theorem isFree_categories : IsFree "categories" := isFree_of_all (by decide) (by decide)

section
variable (hdb : Lawful db.rowsOrNone) {names : List String}
include hdb

theorem isLinked_categoryNumber_iff (hknown : ∀ name ∈ names, db.KnowsCategory name) {node : Row} :
    db.isLinked (names.map db.categoryNumber) node = true ↔
      ∃ name ∈ names, db.Belongs name node := by
  rw [isLinked_iff hdb]
  simp only [List.mem_map, exists_exists_and_eq_and]
  exact exists_congr fun name => and_congr_right fun hname =>
    (belongs_iff hdb (hknown name hname)).symm

variable (hfurnished : db.Furnished) (hne : names ≠ [])
  (hwritable : ∀ name ∈ names, Writable name)
include hfurnished hne hwritable

theorem exists_restriction_of_known (hknown : ∀ name ∈ names, db.KnowsCategory name) :
    ∃ r, parse (coercer Entity.node.rules db.lookup) (categoriesQuery names) = .ok r ∧
      (∃ rows, db.Selects .node r rows) ∧ ∀ node,
        db.isLinked (names.map db.categoryNumber) node = true ↔
          r.Holds Entity.node.schema Entity.node.aliases db.rowsOrNone node := by
  let operand (name : String) : Operand := .reference ⟨.category, db.categoryNumber name, name⟩
  have hcoerced : List.Forall₂ (fun name operand =>
      coercer Entity.node.rules db.lookup "categories" name = .ok operand) names
      (names.map operand) :=
    List.forall₂_map_right_iff.mpr (List.forall₂_same.mpr fun name hname =>
      (coerce_category hdb hfurnished (hknown name hname)).1)
  obtain ⟨first, rest, rfl⟩ := List.exists_cons_of_ne_nil hne
  refine ⟨_, parse_equalities_of_coerced isFree_categories hwritable hcoerced,
    selects_foldl_or ?_, fun node => ?_⟩
  · rw [← List.map_cons (f := equals "categories"), ← List.map_cons (f := operand), List.map_map]
    exact List.forall_mem_map.mpr fun name _ => selects_category hfurnished _
  · rw [isLinked_iff hdb, holds_foldl_or, ← List.map_cons (f := equals "categories"),
      ← List.map_cons (f := operand), List.map_map]
    simp only [List.mem_map, exists_exists_and_eq_and]
    exact exists_congr fun name => and_congr_right fun _ =>
      (@holds_category_iff _ node ⟨.category, db.categoryNumber name, name⟩).symm

theorem search_of_unknown (hunknown : ∃ name ∈ names, ¬ db.KnowsCategory name)
    (limit offset : Nat) (direction : Direction) :
    ∃ e, e.code = "COERCION_ERROR" ∧
      db.search .node ⟨categoriesQuery names, limit, offset, "", direction⟩ =
        .error (.filter e) := by
  obtain ⟨first, rest, rfl⟩ := List.exists_cons_of_ne_nil hne
  obtain ⟨name, hname, hnot⟩ := hunknown
  obtain ⟨refused, -, e, he, hparse⟩ := parse_equalities_of_refused isFree_categories hwritable
    ⟨name, hname, _, (coerce_unknown_category hfurnished hnot).1⟩
  refine ⟨e, ?_, search_of_parse_error (categoriesQuery_ne_empty hne) hparse⟩
  by_cases hknown : db.KnowsCategory refused
  · rw [(coerce_category hdb hfurnished hknown).1] at he
    cases he
  · rw [(coerce_unknown_category hfurnished hknown).1] at he
    obtain rfl := Except.error.inj he
    rfl

theorem nodesByCategories_of_known (hknown : ∀ name ∈ names, db.KnowsCategory name) :
    ∃ records, db.nodesByCategories names = .ok (some records) ∧
      db.ShowsNodes (fun node => ∃ name ∈ names, db.Belongs name node) records ∧
      db.Lists (categoriesQuery names) records := by
  obtain ⟨r, hparse, hselects, hholds⟩ :=
    exists_restriction_of_known hdb hfurnished hne hwritable hknown
  exact ⟨_, nodesByCategories_eq hne hfurnished (categoryIds?_of_known hdb hfurnished hknown),
    showsNodes_filter hdb fun _ _ => isLinked_categoryNumber_iff hdb hknown,
    lists_of_selects hdb hfurnished (categoriesQuery_ne_empty hne) hparse hselects
      fun node _ => hholds node⟩

theorem exists_search_of_known (hknown : ∀ name ∈ names, db.KnowsCategory name)
    (limit offset : Nat) (direction : Direction) :
    ∃ page, db.search .node ⟨categoriesQuery names, limit, offset, "", direction⟩ = .ok page := by
  obtain ⟨r, hparse, hselects, hholds⟩ :=
    exists_restriction_of_known hdb hfurnished hne hwritable hknown
  exact ⟨_, search_of_selects hdb hfurnished (categoriesQuery_ne_empty hne) hparse hselects
    (fun node _ => hholds node) limit offset direction⟩

end

theorem lists_equality (hdb : Lawful db.rowsOrNone) (hfurnished : db.Furnished)
    {field literal : String} (hfield : IsFree field) (hliteral : Writable literal)
    {operand : Operand}
    (hcoerced : coercer Entity.node.rules db.lookup field literal = .ok operand)
    (hselects : ∃ rows, db.Selects .node (equals field operand) rows) {p : Row → Bool}
    (hp : ∀ row, p row = true ↔ (equals field operand).Holds Entity.node.schema
      Entity.node.aliases db.rowsOrNone row) :
    db.Lists (equality field literal) (nodeRecords ((db.rowsOrNone .nodes).filter p)) :=
  lists_of_selects hdb hfurnished (by simp [equality]) (parse_equality hfield hliteral hcoerced)
    hselects fun row _ => hp row

theorem nodesByCategory_of_known (hdb : Lawful db.rowsOrNone) (hfurnished : db.Furnished)
    {name : String} (hwritable : Writable name) (hknown : db.KnowsCategory name) :
    ∃ records, db.nodesByCategory name = .ok (some records) ∧
      db.ShowsNodes (db.Belongs name) records ∧
      db.Lists (equality "categories" name) records ∧
      db.Lists (equality "category.name" name) records := by
  have hall : ∀ known ∈ [name], db.KnowsCategory known := List.forall_mem_singleton.mpr hknown
  have hbelongs (node : Row) :
      db.isLinked [db.categoryNumber name] node = true ↔ db.Belongs name node :=
    (isLinked_categoryNumber_iff hdb hall).trans (by simp)
  refine ⟨_, nodesByCategories_eq (List.cons_ne_nil _ _) hfurnished
      (categoryIds?_of_known hdb hfurnished hall),
    showsNodes_filter hdb fun node _ => hbelongs node,
    lists_equality hdb hfurnished isFree_categories hwritable
      (coerce_category hdb hfurnished hknown).1 (selects_category hfurnished _) fun node => ?_,
    lists_equality hdb hfurnished (isFree_of_all (by decide) (by decide)) hwritable rfl
      (selects_categoryName hfurnished name) fun node => ?_⟩
  · rw [isLinked_iff hdb, holds_category_iff, List.map_singleton]
    simp
  · rw [holds_categoryName_iff]
    exact hbelongs node

theorem nodesByForeignSource_of_writable (hdb : Lawful db.rowsOrNone)
    (hfurnished : db.Furnished) {source : String} (hwritable : Writable source) :
    ∃ records, db.nodesByForeignSource source = .ok records ∧
      db.ShowsNodes (fun node => node.get "foreign_source" = .text source) records ∧
      db.Lists (equality "foreignSource" source) records := by
  refine ⟨_, nodesByForeignSource_eq hfurnished source,
    showsNodes_filter hdb fun node _ => beq_iff_eq,
    lists_equality hdb hfurnished (isFree_of_all (by decide) (by decide)) hwritable rfl
      (selects_foreignSource source) fun node => ?_⟩
  rw [holds_foreignSource_iff, beq_iff_eq]

end Database

/-- On a reachable store, asking for the nodes of some categories comes to the same as the
search that joins the equalities with their names by "or": where a name is unknown both refuse,
and otherwise both give the nodes that are linked to one of the categories, each once and in
the default order. For one known category the search by its name among the linked rows gives
them too, and the nodes of a source are those of the search for it. -/
theorem Session.Reachable.node_lists {s : Session} (h : s.Reachable) :
    (∀ names, names ≠ [] → (∀ name ∈ names, Writable name) →
      (s.contents.nodesByCategories names = .ok none ↔
        ∃ name ∈ names, ¬ s.contents.KnowsCategory name) ∧
      (∀ limit offset direction, s.contents.nodesByCategories names = .ok none ↔
        ∃ e, e.code = "COERCION_ERROR" ∧ s.contents.search .node
          ⟨Database.categoriesQuery names, limit, offset, "", direction⟩ = .error (.filter e)) ∧
      (s.contents.nodesByCategories names ≠ .ok none → ∃ records,
        s.contents.nodesByCategories names = .ok (some records) ∧
        s.contents.ShowsNodes (fun node => ∃ name ∈ names, s.contents.Belongs name node) records ∧
        s.contents.Lists (Database.categoriesQuery names) records)) ∧
    (∀ name, Writable name → s.contents.KnowsCategory name → ∃ records,
      s.contents.nodesByCategory name = .ok (some records) ∧
      s.contents.ShowsNodes (s.contents.Belongs name) records ∧
      s.contents.Lists (equality "categories" name) records ∧
      s.contents.Lists (equality "category.name" name) records) ∧
    ∀ source, Writable source → ∃ records,
      s.contents.nodesByForeignSource source = .ok records ∧
      s.contents.ShowsNodes (fun node => node.get "foreign_source" = .text source) records ∧
      s.contents.Lists (equality "foreignSource" source) records := by
  have hdb := h.lawful
  have hfurnished := h.furnished
  refine ⟨fun names hne hwritable => ?_, fun name hwritable hknown => ?_,
    fun source hwritable => ?_⟩
  · by_cases hknown : ∀ name ∈ names, s.contents.KnowsCategory name
    · obtain ⟨records, hdirect, hshows, hlists⟩ :=
        Database.nodesByCategories_of_known hdb hfurnished hne hwritable hknown
      have hnot : s.contents.nodesByCategories names ≠ .ok none := by
        rw [hdirect]
        exact nofun
      refine ⟨iff_of_false hnot ?_, fun limit offset direction => iff_of_false hnot ?_,
        fun _ => ⟨records, hdirect, hshows, hlists⟩⟩
      · rintro ⟨name, hname, hunknown⟩
        exact hunknown (hknown name hname)
      · rintro ⟨e, -, he⟩
        obtain ⟨page, hpage⟩ := Database.exists_search_of_known hdb hfurnished hne hwritable hknown
          limit offset direction
        rw [hpage] at he
        cases he
    · push Not at hknown
      have hnone : s.contents.nodesByCategories names = .ok none :=
        Database.nodesByCategories_eq hne hfurnished
          (Database.categoryIds?_of_unknown hdb hfurnished hknown)
      exact ⟨iff_of_true hnone hknown, fun limit offset direction => iff_of_true hnone
        (Database.search_of_unknown hdb hfurnished hne hwritable hknown limit offset direction),
        fun hnot => absurd hnone hnot⟩
  · exact Database.nodesByCategory_of_known hdb hfurnished hwritable hknown
  · exact Database.nodesByForeignSource_of_writable hdb hfurnished hwritable

/-! ## A router -/

/-- A node of the requisition "lab" that is in the category "Routers". -/
def oneRouter : Session :=
  (Session.start 0).after
    [(0, .insert "nodes"
      [[("id", .integer 1), ("label", .text "core"), ("foreign_source", .text "lab")]]),
     (0, .insert "categories" [[("id", .integer 7), ("name", .text "Routers")]]),
     (0, .insert "category_node" [[("category_id", .integer 7), ("node_id", .integer 1)]])]

def routerNode : Row :=
  Table.nodes.written
    [("id", .integer 1), ("label", .text "core"), ("foreign_source", .text "lab")]

theorem rows_oneRouter : oneRouter.contents.rowsOrNone .nodes = [routerNode] := by rfl

theorem belongs_routerNode : oneRouter.contents.Belongs "Routers" routerNode :=
  ⟨_, List.mem_singleton_self _, by rfl, _, List.mem_singleton_self _, by rfl, by rfl⟩

theorem not_knowsCategory_oneRouter : ¬ oneRouter.contents.KnowsCategory "Switches" := by
  rintro ⟨category, hcategory, hname⟩
  obtain rfl := List.mem_singleton.mp hcategory
  exact absurd hname (by decide)

theorem node_lists_oneRouter :
    (∃ records, oneRouter.contents.nodesByCategory "Routers" = .ok (some records) ∧
      record Entity.node.schema routerNode ∈ records ∧
      oneRouter.contents.Lists "category.name==Routers" records) ∧
    oneRouter.contents.nodesByCategories ["Routers", "Switches"] = .ok none ∧
    (∃ records, oneRouter.contents.nodesByForeignSource "lab" = .ok records ∧
      record Entity.node.schema routerNode ∈ records) := by
  have hwritable : ∀ literal ∈ ["Routers", "Switches", "lab"], Writable literal := by
    simp only [List.forall_mem_cons]
    exact ⟨⟨isFree_of_all (by decide) (by decide), by decide, by decide⟩,
      ⟨isFree_of_all (by decide) (by decide), by decide, by decide⟩,
      ⟨isFree_of_all (by decide) (by decide), by decide, by decide⟩, by simp⟩
  have hreachable : oneRouter.Reachable := (Session.Reachable.start 0).after _
  have hknown : oneRouter.contents.KnowsCategory "Routers" :=
    ⟨_, List.mem_singleton_self _, by rfl⟩
  have hnode : routerNode ∈ oneRouter.contents.rowsOrNone .nodes :=
    rows_oneRouter ▸ List.mem_singleton_self _
  obtain ⟨hcategories, hcategory, hsource⟩ := hreachable.node_lists
  refine ⟨?_, ?_, ?_⟩
  · obtain ⟨records, hdirect, ⟨rows, rfl, -, -, hmem⟩, -, hlists⟩ :=
      hcategory "Routers" (hwritable _ (by simp)) hknown
    exact ⟨_, hdirect, List.mem_map_of_mem ((hmem _).mpr ⟨hnode, belongs_routerNode⟩), hlists⟩
  · have hnames := hcategories ["Routers", "Switches"] (by decide) fun literal hliteral =>
      hwritable literal (by simp at hliteral ⊢; tauto)
    exact hnames.1.mpr ⟨"Switches", by simp, not_knowsCategory_oneRouter⟩
  · obtain ⟨records, hdirect, ⟨rows, rfl, -, -, hmem⟩, -⟩ := hsource "lab" (hwritable _ (by simp))
    exact ⟨_, hdirect, List.mem_map_of_mem ((hmem _).mpr ⟨hnode, by rfl⟩)⟩

end InventorySearch.Store
