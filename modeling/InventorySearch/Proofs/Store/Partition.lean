import Mathlib.Data.Fintype.Option
import Mathlib.Data.List.Nodup
import InventorySearch.Proofs.Filter.Writing
import InventorySearch.Proofs.Search.Fields
import InventorySearch.Proofs.Store.Joining
import InventorySearch.Proofs.Store.Runs

set_option autoImplicit false

/-!
# Searches taken apart

A query narrowed by comparing one field with one literal, under each operator in turn. In
a column every row is below the literal, equal to it, above it or without a value, and the
operators find just these parts or two of them together; rows without a value are found
by `null` alone. In a membership field there is no missing value: a row is in the
category or it is not, so that `!=` finds rows in no category as well.
-/
namespace InventorySearch.Store
open InventorySearch.Filter Search Restriction

/-! ## Disjoint unions -/

/-- Being the rows of all parts, of which no two share a row. -/
structure DisjointUnion (rows : List Row) (parts : List (List Row)) : Prop where
  apart : parts.Pairwise List.Disjoint
  perm : rows.Perm parts.flatten

/-- Rows are taken apart by taking apart the classes that they fall in. -/
theorem disjointUnion_filter {κ : Type} {rows : List Row} (hrows : rows.Nodup) (of : Row → κ)
    {whole : κ → Bool} {parts : List (κ → Bool)}
    (hwhole : ∀ k, whole k = true ↔ ∃ part ∈ parts, part k = true)
    (hapart : parts.Pairwise fun part other => ∀ k, ¬ (part k = true ∧ other k = true)) :
    DisjointUnion (rows.filter fun row => whole (of row))
      (parts.map fun part => rows.filter fun row => part (of row)) := by
  have hdisjoint : (parts.map fun part => rows.filter fun row => part (of row)).Pairwise
      List.Disjoint := by
    refine List.pairwise_map.mpr (hapart.imp fun h row hpart hother => ?_)
    exact h (of row) ⟨(List.mem_filter.mp hpart).2, (List.mem_filter.mp hother).2⟩
  refine ⟨hdisjoint, (List.perm_ext_iff_of_nodup (hrows.filter _) ?_).mpr fun row => ?_⟩
  · refine List.nodup_flatten.mpr ⟨List.forall_mem_map.mpr fun part _ => ?_, hdisjoint⟩
    exact hrows.filter _
  · simp only [List.mem_filter, hwhole, List.mem_flatten, List.mem_map, exists_exists_and_eq_and]
    exact ⟨fun ⟨hrow, part, hpart, hk⟩ => ⟨part, hpart, hrow, hk⟩,
      fun ⟨part, hpart, hrow, hk⟩ => ⟨hrow, part, hpart, hk⟩⟩

theorem exists_eval_membership {db : Rows} (hdb : Lawful db) {table link : Table}
    {key owner : String} (hkey : table.HasNumber key) (howner : link.HasNumber owner)
    (asked : Option (String × Literal)) {row : Row} (hrow : row ∈ db table) :
    ∃ b, (Condition.membership true key link owner asked).eval db row = some b := by
  obtain ⟨k, hk⟩ := hdb.exists_integer hkey hrow
  have hlinks {links : List Row} (hsub : ∀ l ∈ links, l ∈ db link) :=
    @Schema.any_map_relate k links owner fun l hl => hdb.exists_integer howner (hsub l hl)
  simp only [Condition.eval, hk, if_true]
  cases asked with
  | none => exact ⟨_, hlinks fun l hl => hl⟩
  | some asked => exact ⟨_, hlinks fun l hl => (List.mem_filter.mp hl).1⟩

def holdsIn (r : Relation) (o : Option Ordering) : Bool := o.map (holdsOf r) == some true

/-! ## Narrowed queries -/

namespace Database
variable {db : Database} {entity : Entity} {field : String}

theorem canDecide_isNull (column : String) : db.CanDecide (.test (.isNull column)) := by
  refine ⟨fun t ht => ?_, fun l hl => ?_⟩
  · cases ht
  · cases hl

def choose (db : Database) (c : Condition) (rows : List Row) : List Row :=
  rows.filter fun row => c.eval db.rowsOrNone row == some true

section
variable {link : Table} {key owner : String}

theorem disjointUnion_membership (hdb : Lawful db.rowsOrNone) {table : Table}
    (hkey : table.HasNumber key) (howner : link.HasNumber owner) {rows : List Row}
    (hrows : rows.Nodup) (hsub : rows ⊆ db.rowsOrNone table) (asked : Option (String × Literal))
    (side : Bool) :
    DisjointUnion rows [db.choose (.membership side key link owner asked) rows,
      db.choose (.membership (!side) key link owner asked) rows] := by
  let of (row : Row) : Bool :=
    (Condition.membership true key link owner asked).eval db.rowsOrNone row == some true
  have hside (side : Bool) : db.choose (.membership side key link owner asked) rows =
      rows.filter fun row => of row == side := by
    refine List.filter_congr fun row hrow => ?_
    obtain ⟨b, hb⟩ := exists_eval_membership hdb hkey howner asked (hsub hrow)
    have hnot : (Condition.membership false key link owner asked).eval db.rowsOrNone row =
        Truth.not (some b) := hb ▸ rfl
    cases side with
    | true => simp [of, hb]
    | false => rw [hnot]; cases b <;> simp [of, hb, Truth.not]
  have hboth := @disjointUnion_filter _ rows hrows of (fun _ => true) [(· == side), (· == !side)]
    (by cases side <;> decide) (by cases side <;> decide)
  rw [List.filter_true] at hboth
  rw [hside, hside]
  exact hboth

variable {member : String} {l : Literal} {inside : Bool}
  (h : db.CanDecide (.membership inside key link owner (some (member, l))))
include h

theorem CanDecide.onSide (side : Bool) :
    db.CanDecide (.membership side key link owner (some (member, l))) := h

theorem CanDecide.ofAny (side : Bool) :
    db.CanDecide (.membership side key link owner none) := by
  refine ⟨h.1, fun l hl => ?_⟩
  cases hl

end

theorem selects_narrowed {r : Restriction} {rows : List Row} (hrows : db.Selects entity r rows)
    (hcut : Text.cut? '.' field = none) {op : Comparator} {operand : Option Operand}
    {c : Condition} (hplain : entity.schema.plain field op operand = .ok c)
    (hdecides : db.CanDecide c) :
    db.Selects entity (.and r (.comparison field op operand)) (db.choose c rows) := by
  have hcondition : entity.schema.condition entity.bareSpec
      (.ofRestriction (.comparison field op operand)) = .ok c := by
    simp only [Grouped.ofRestriction, hcut]
    exact hplain
  have hnames : aliasNames (Restriction.comparison field op operand).members = [] := by
    simp [members, aliasNames, dotted?, hcut]
  obtain ⟨found, hfound, hsub, hsup⟩ :=
    selects_and hrows ⟨c, hcondition, hdecides, rfl⟩
  rw [hnames] at hsup
  have heq : found = db.choose c rows := by
    obtain ⟨b, -, -, rfl⟩ := hrows
    obtain ⟨d, -, -, rfl⟩ := hfound
    rw [choose, matching, matching, List.filter_filter]
    refine List.filter_congr fun row hrow => ?_
    have hmem (e : Condition) : row ∈ db.matching entity.schema.table e ↔
        (e.eval db.rowsOrNone row == some true) = true := by
      rw [matching, List.mem_filter, and_iff_right hrow]
    rw [Bool.eq_iff_iff, Bool.and_eq_true, ← hmem, ← hmem, ← hmem]
    exact ⟨fun hin => (hsub row hin).symm,
      fun hboth => hsup (List.disjoint_nil_right _) row hboth.2 hboth.1⟩
  exact heq ▸ hfound

theorem exists_plain_of_selects {r : Restriction} {op : Comparator} {operand : Option Operand}
    {found : List Row} (hcut : Text.cut? '.' field = none)
    (h : db.Selects entity (.and r (.comparison field op operand)) found) :
    ∃ c, entity.schema.plain field op operand = .ok c ∧ db.CanDecide c := by
  have hplanned := ((Schema.planned_and_iff conjunctive_canDecide).mp h.planned).1.2
    (.comparison field op operand) (List.mem_singleton_self _) (by simp [dotted?, hcut])
  obtain ⟨c, hc, hdecides⟩ := hplanned
  simp only [Grouped.ofRestriction, hcut] at hc
  exact ⟨c, hc, hdecides⟩

section
variable {request : Request} {query : String} (hquery : query ≠ "") {rows : List Row}
  (hrows : db.Finds entity { request with query := query } rows) {f : Search.Field FieldKind}
  (hf : field? entity.schema.fields field = some f)
include hquery hrows hf

theorem finds_narrowed {text : String} (htext : text ≠ "") {op : Comparator}
    {operand : Option Operand} {c : Condition}
    (hparse : ∀ tree, parse (coercer entity.rules db.lookup) query = .ok tree →
      parse (coercer entity.rules db.lookup) text =
        .ok (.and tree (.comparison field op operand)))
    (hplain : entity.schema.plain field op operand = .ok c) (hdecides : db.CanDecide c) :
    db.Finds entity { request with query := text } (db.choose c rows) := by
  obtain ⟨htable, horder, r, hr, hselects⟩ := (finds_iff hquery).mp hrows
  exact (finds_iff htext).mpr ⟨htable, horder, _, hparse r hr,
    selects_narrowed hselects (Entity.undotted_of_field? hf) hplain hdecides⟩

/-- What makes one operator possible makes the others possible: the operand and its literal. -/
theorem exists_operand_of_finds {literal : String} (hliteral : Writable literal) {r : Relation}
    {found : List Row}
    (h : db.Finds entity { request with query := narrowed query field r literal } found) :
    ∃ o c, coercer entity.rules db.lookup field literal = .ok o ∧
      entity.schema.plain field (.relation r) (some o) = .ok c ∧ db.CanDecide c := by
  obtain ⟨-, -, tree, htree, -⟩ := (finds_iff hquery).mp hrows
  obtain ⟨-, -, joined, hjoined, hselects⟩ :=
    (finds_iff (narrowed_ne_empty query field r literal)).mp h
  obtain ⟨o, hcoerced, rfl⟩ :=
    (parse_narrowed_relation_iff htree (Entity.isFree_of_field? hf) r hliteral).mp hjoined
  obtain ⟨c, hc, hdecides⟩ :=
    exists_plain_of_selects (Entity.undotted_of_field? hf) hselects
  exact ⟨o, c, hcoerced, hc, hdecides⟩

theorem finds_narrowed_relation {literal : String} (hliteral : Writable literal) {o : Operand}
    (hcoerced : coercer entity.rules db.lookup field literal = .ok o) {r : Relation}
    {c : Condition} (hplain : entity.schema.plain field (.relation r) (some o) = .ok c)
    (hdecides : db.CanDecide c) :
    db.Finds entity { request with query := narrowed query field r literal }
      (db.choose c rows) := by
  refine finds_narrowed hquery hrows hf (narrowed_ne_empty _ _ _ _) (fun tree htree => ?_) hplain
    hdecides
  exact (parse_narrowed_relation_iff htree (Entity.isFree_of_field? hf) r hliteral).mpr
    ⟨o, hcoerced, rfl⟩

theorem finds_narrowed_isNull {c : Condition}
    (hplain : entity.schema.plain field .isNull none = .ok c) (hdecides : db.CanDecide c) :
    db.Finds entity { request with query := narrowed query field .eq "null" }
      (db.choose c rows) :=
  finds_narrowed hquery hrows hf (narrowed_ne_empty _ _ _ _)
    (fun _ htree => (parse_narrowed_null htree (Entity.isFree_of_field? hf)).1) hplain hdecides

theorem finds_narrowed_isNotNull {c : Condition}
    (hplain : entity.schema.plain field .isNotNull none = .ok c) (hdecides : db.CanDecide c) :
    db.Finds entity { request with query := narrowed query field .ne "null" }
      (db.choose c rows) :=
  finds_narrowed hquery hrows hf (narrowed_ne_empty _ _ _ _)
    (fun _ htree => (parse_narrowed_null htree (Entity.isFree_of_field? hf)).2) hplain hdecides

end

theorem Finds.sublist {request : Request} {rows : List Row} (h : db.Finds entity request rows) :
    rows.Sublist (db.rowsOrNone entity.schema.table) := by
  obtain ⟨plan, page, -, -, rfl, -, -⟩ := h
  exact List.filter_sublist

theorem Finds.nodup {request : Request} {rows : List Row} (h : db.Finds entity request rows)
    (hdb : Lawful db.rowsOrNone) : rows.Nodup := by
  refine ((pairwise_key_ne hdb entity).sublist h.sublist).imp ?_
  rintro a b hne rfl
  exact hne rfl

/-! ## Parts -/

section
variable (db : Database) (entity : Entity) (request : Request) (query field literal : String)
  (rows : List Row)

/-- Whether the rows of a query are taken apart by comparing a column with a literal. -/
def ColumnParts : Prop :=
  ∃ (found : Relation → List Row) (missing : List Row),
    (∀ r, db.Finds entity { request with query := narrowed query field r literal } (found r)) ∧
    db.Finds entity { request with query := narrowed query field .eq "null" } missing ∧
    DisjointUnion rows [found .lt, found .eq, found .gt, missing] ∧
    DisjointUnion (found .ne) [found .lt, found .gt] ∧
    DisjointUnion (found .le) [found .lt, found .eq] ∧
    DisjointUnion (found .ge) [found .gt, found .eq]

/-- Whether the rows of a query are taken apart by asking for a member, and for any at all. -/
def MemberParts : Prop :=
  ∃ inside outside unlinked linked : List Row,
    db.Finds entity { request with query := narrowed query field .eq literal } inside ∧
    db.Finds entity { request with query := narrowed query field .ne literal } outside ∧
    db.Finds entity { request with query := narrowed query field .eq "null" } unlinked ∧
    db.Finds entity { request with query := narrowed query field .ne "null" } linked ∧
    DisjointUnion rows [inside, outside] ∧ DisjointUnion rows [unlinked, linked]

end

variable {db : Database} (hdb : Lawful db.rowsOrNone) {entity : Entity} {request : Request}
  {query : String} (hquery : query ≠ "") {rows : List Row}
  (hrows : db.Finds entity { request with query := query } rows) {field : String}
  {f : Search.Field FieldKind} (hf : field? entity.schema.fields field = some f)
  {literal : String} (hliteral : Writable literal)
  (hsome : ∃ r found,
    db.Finds entity { request with query := narrowed query field r literal } found)
include hdb hquery hrows hf hliteral hsome

/-! ## Columns -/

theorem columnParts {kind : ScalarKind} (hkind : f.kind = .scalar kind) :
    db.ColumnParts entity request query field literal rows := by
  obtain ⟨r, found, hfound⟩ := hsome
  obtain ⟨o, c, hcoerced, hplain, hdecides⟩ :=
    exists_operand_of_finds hquery hrows hf hliteral hfound
  obtain ⟨l, hl, rfl⟩ := Schema.exists_of_plain_relation hf hkind hplain
  let of (row : Row) : Option Ordering := (row.get f.column).compare? l.value
  have hmissing : db.choose (.test (.isNull f.column)) rows =
      rows.filter fun row => (of row).isNone := by
    refine List.filter_congr fun row hrow => ?_
    have hnone := compare?_value_eq_none_iff hdb hf hkind hl
      (hdecides.2 l (List.mem_singleton_self l)) (hrows.sublist.subset hrow)
    rw [Bool.eq_iff_iff, Option.isNone_iff_eq_none, hnone]
    simp [Condition.eval, Test.eval]
  have hparts (whole : Option Ordering → Bool) (parts : List (Option Ordering → Bool)) :=
    @disjointUnion_filter _ rows (hrows.nodup hdb) of whole parts
  refine ⟨fun r => rows.filter fun row => holdsIn r (of row), rows.filter fun row =>
    (of row).isNone, fun r => ?_, ?_, ?_, ?_, ?_, ?_⟩
  · exact finds_narrowed_relation hquery hrows hf hliteral hcoerced
      (Schema.plain_relation hf hkind r hl) hdecides
  · rw [← hmissing]
    exact finds_narrowed_isNull hquery hrows hf (Schema.plain_isNull hf hkind)
      (canDecide_isNull f.column)
  · have hall := hparts (fun _ => true) [holdsIn .lt, holdsIn .eq, holdsIn .gt, Option.isNone]
      (by decide) (by decide)
    rwa [List.filter_true] at hall
  · exact hparts (holdsIn .ne) [holdsIn .lt, holdsIn .gt] (by decide) (by decide)
  · exact hparts (holdsIn .le) [holdsIn .lt, holdsIn .eq] (by decide) (by decide)
  · exact hparts (holdsIn .ge) [holdsIn .gt, holdsIn .eq] (by decide) (by decide)

/-! ## Memberships -/

theorem memberParts {link : Table} {owner member : String}
    (hkind : f.kind = .membership link owner member) :
    db.MemberParts entity request query field literal rows := by
  obtain ⟨r, found, hfound⟩ := hsome
  obtain ⟨o, c, hcoerced, hplain, hdecides⟩ :=
    exists_operand_of_finds hquery hrows hf hliteral hfound
  obtain ⟨l, hl, rfl⟩ := Schema.exists_of_plain_member hf hkind hplain
  have hfits := entity.schema_fits
  have howner : link.HasNumber owner := by
    have hfield := hfits.fields f (mem_of_field? hf)
    rw [Schema.FieldFits, hkind] at hfield
    exact hfield.1
  have hsides := disjointUnion_membership hdb hfits.key howner (hrows.nodup hdb)
    hrows.sublist.subset
  exact ⟨_, _, _, _,
    finds_narrowed_relation hquery hrows hf hliteral hcoerced
      (Schema.plain_member hf hkind rfl hl) (hdecides.onSide true),
    finds_narrowed_relation hquery hrows hf hliteral hcoerced
      (Schema.plain_member hf hkind rfl hl) (hdecides.onSide false),
    finds_narrowed_isNull hquery hrows hf (Schema.plain_membership hf hkind _ _)
      (hdecides.ofAny false),
    finds_narrowed_isNotNull hquery hrows hf (Schema.plain_membership hf hkind _ _)
      (hdecides.ofAny true),
    hsides (some (member, l)) true, hsides none false⟩

end Database

/-- In a store that was reached by steps, comparisons of one field with one literal take the rows of
any query apart as soon as one of them can be searched for, and then all can. -/
theorem Session.Reachable.narrowed_parts {s : Session} (hs : s.Reachable) {entity : Entity}
    {request : Request} {query : String} (hquery : query ≠ "") {rows : List Row}
    (hrows : s.contents.Finds entity { request with query := query } rows) {field : String}
    {f : Search.Field FieldKind} (hf : field? entity.schema.fields field = some f)
    {literal : String} (hliteral : Writable literal)
    (hsome : ∃ r found,
      s.contents.Finds entity { request with query := narrowed query field r literal } found) :
    (∀ kind, f.kind = .scalar kind →
      s.contents.ColumnParts entity request query field literal rows) ∧
    ∀ link owner member, f.kind = .membership link owner member →
      s.contents.MemberParts entity request query field literal rows :=
  ⟨fun _ => Database.columnParts hs.lawful hquery hrows hf hliteral hsome,
    fun _ _ _ => Database.memberParts hs.lawful hquery hrows hf hliteral hsome⟩

/-! ## A router, a node elsewhere, and one nowhere -/

def placedNodes : Session :=
  (Session.start 0).after
    [(0, .insert "nodes"
      [[("id", .integer 1), ("label", .text "core"), ("location", .text "Hall")],
       [("id", .integer 2), ("label", .text "edge"), ("location", .text "Attic")],
       [("id", .integer 3), ("label", .text "spare")]]),
     (0, .insert "categories" [[("id", .integer 7), ("name", .text "Routers")]]),
     (0, .insert "category_node" [[("category_id", .integer 7), ("node_id", .integer 1)]])]

def firstTen : Request := ⟨"", 10, 0, "", .asc⟩

def positive : Condition := .test (.relation "id" .gt (.integer 0))

/-- Three nodes have a positive number, and their locations and categories take them apart. -/
theorem narrowed_parts_placedNodes : ∃ rows, rows.length = 3 ∧
    placedNodes.contents.Finds .node { firstTen with query := "id=gt=0" } rows ∧
    placedNodes.contents.ColumnParts .node firstTen "id=gt=0" "location" "Hall" rows ∧
    placedNodes.contents.MemberParts .node firstTen "id=gt=0" "categories" "Routers" rows := by
  have hreachable : placedNodes.Reachable := (Session.Reachable.start 0).after _
  have hquery : "id=gt=0" ≠ "" := by decide
  have hparse : parse (coercer Entity.node.rules placedNodes.contents.lookup) "id=gt=0" =
      .ok (.comparison "id" (.relation .gt) (some (.integer 0))) := by
    refine parse_of_isLeaf (by decide) (@Primitive.IsLeaf.relation _ _ _ "0" _ _ ?_ rfl rfl)
    exact ⟨by simp [Primitive.IsSide], by simp [Primitive.IsSide], by decide⟩
  have hrows : placedNodes.contents.Finds .node { firstTen with query := "id=gt=0" }
      (placedNodes.contents.matching .nodes positive) :=
    (Database.finds_iff hquery).mpr ⟨by rfl, ⟨_, rfl⟩, _, hparse, _, rfl,
      ⟨List.forall_mem_nil _, List.forall_mem_singleton.mpr rfl⟩, rfl⟩
  have hhall : Writable "Hall" := ⟨isFree_of_all (by decide) (by decide), by decide, by decide⟩
  have hrouters : Writable "Routers" :=
    ⟨isFree_of_all (by decide) (by decide), by decide, by decide⟩
  have hlocation : field? Entity.node.schema.fields "location" =
      some ⟨"location", "location", .scalar .text⟩ := rfl
  have hcategories : field? Entity.node.schema.fields "categories" =
      some ⟨"categories", "category_node", .membership .categoryNode "node_id" "category_id"⟩ := rfl
  refine ⟨_, by rfl, hrows, ?_, ?_⟩
  · have hdecides : placedNodes.contents.CanDecide
        (.test (.relation "location" .eq (.text "Hall"))) :=
      ⟨List.forall_mem_nil _, List.forall_mem_singleton.mpr rfl⟩
    have hfound := Database.finds_narrowed_relation hquery hrows hlocation hhall rfl (r := .eq) rfl
      hdecides
    exact (hreachable.narrowed_parts hquery hrows hlocation hhall ⟨_, _, hfound⟩).1 _ rfl
  · have hdecides : placedNodes.contents.CanDecide (.membership true "id" .categoryNode "node_id"
        (some ("category_id", .integer 7))) :=
      ⟨List.forall_mem_singleton.mpr (by rfl), List.forall_mem_singleton.mpr rfl⟩
    have hfound := Database.finds_narrowed_relation hquery hrows hcategories hrouters rfl
      (r := .eq) rfl hdecides
    exact (hreachable.narrowed_parts hquery hrows hcategories hrouters ⟨_, _, hfound⟩).2 _ _ _ rfl

end InventorySearch.Store
