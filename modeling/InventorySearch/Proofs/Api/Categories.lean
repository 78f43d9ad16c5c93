import InventorySearch.Proofs.Api.Lists
import InventorySearch.Proofs.Store.Categories

set_option autoImplicit false

/-!
# Answers to requests for the nodes in some categories

A request names categories in a text with commas. Only which names there are counts
for its answer, and which of them the store knows.
-/
namespace InventorySearch

namespace Store

/-- Being all categories, each once, by the bytes of their names. -/
def Database.ListsCategories (db : Database) : List Category → Prop :=
  ListsAll (fun c => ∃ row ∈ db.rowsOrNone .categories, c = .ofRow row) Category.id Category.name

theorem Database.exists_categories {db : Database} (hdb : Lawful db.rowsOrNone)
    (hfurnished : db.Furnished) :
    ∃ categories, db.categories = .ok categories ∧ db.ListsCategories categories := by
  have hrows := rows_of_some (hfurnished.rows?_eq .categories (by decide))
  refine ⟨(sortRows [("name", .asc)] (db.rowsOrNone .categories)).map .ofRow, ?_,
    listsAll_mergeSort hdb (fun _ hrow => hrow) (by decide)
      (pairwise_id hdb (by decide) (by decide)) (by decide) (fun _ => rfl) (fun _ => rfl)
      fun c => ?_⟩
  · rw [Database.categories, hrows]
    rfl
  · exact exists_congr fun row => and_congr_right fun _ => eq_comm

end Store

namespace Api
open InventorySearch.Filter Search Store Text

/-! ## Stores that can be asked -/

namespace Access
variable {α : Type} {access : Access}

def contents (access : Access) : Except Failure Database :=
  access.session.askUnless access.interruption .ok

theorem contents_eq_ok {db : Database} (h : access.contents = .ok db) :
    access.session.contents = db := by
  obtain ⟨session, interruption⟩ := access
  cases interruption with
  | some i => cases h
  | none =>
    obtain ⟨db', hconnected, hdb⟩ := Except.exists_of_bind_eq_ok h
    exact (Session.connected_eq_ok hconnected).trans (Except.ok.inj hdb)

theorem askUnless_eq (access : Access) (question : Database → Except Failure α) :
    access.session.askUnless access.interruption question = access.contents >>= question := by
  obtain ⟨session, interruption⟩ := access
  cases interruption with
  | some i => rfl
  | none =>
    change (session.connected >>= question) = (session.connected >>= .ok) >>= question
    cases session.connected <;> rfl

theorem inspect_of_failure {failure : Failure} (h : access.contents = .error failure)
    (question : Database → Except Fault α) :
    inspect access question = .error (.ofFailure failure) := by
  rw [inspect, inquire, askUnless_eq, h]
  rfl

theorem inspect_of_answer {db : Database} (h : access.contents = .ok db)
    {question : Database → Except Fault α} {a : α} (hanswer : question db = .ok a) :
    inspect access question = .ok a := by
  rw [inspect, inquire, askUnless_eq, h]
  change ((question db).mapError _).mapError _ = _
  rw [hanswer]
  rfl

theorem inspect_congr {question question' : Database → Except Fault α}
    (h : ∀ db, access.contents = .ok db → question db = question' db) :
    inspect access question = inspect access question' := by
  rw [inspect, inspect, inquire, inquire, askUnless_eq, askUnless_eq]
  cases hcontents : access.contents with
  | error failure => rfl
  | ok db =>
    change ((((question db).mapError _)).mapError _) = (((question' db).mapError _)).mapError _
    rw [h db hcontents]

end Access

/-! ## What is asked for -/

def categoriesRequest (query : String) (origin : Option String) : HttpRequest :=
  ⟨"GET", "/api/v1/nodes/categories", query, origin⟩

/-- Being a name that stands between the commas of a parameter, with or without blanks around. -/
def Names (q : Option String) (name : String) : Prop :=
  name ≠ "" ∧ ∃ piece ∈ (q.getD "").toList.splitOn ',', trim piece = name.toList

theorem mem_namesOf_iff {q : Option String} {name : String} :
    name ∈ namesOf (q.getD "") ↔ Names q name := by
  have hpiece (piece : List Char) :
      String.ofList (trim piece) = name ↔ trim piece = name.toList :=
    ⟨fun h => h ▸ String.toList_ofList.symm, fun h => h ▸ String.ofList_toList⟩
  simp only [namesOf, List.mem_filter, List.mem_map, hpiece, Names, and_comm, Bool.not_eq_true',
    ← Bool.not_eq_true, String.isEmpty_iff, ne_eq]

theorem namesOf_eq_nil_iff {q : Option String} :
    namesOf (q.getD "") = [] ↔ ¬ ∃ name, Names q name := by
  simp only [List.eq_nil_iff_forall_not_mem, mem_namesOf_iff, not_exists]

/-! ## What becomes of the request -/

def invalidCategory : Problem :=
  .badRequest "INVALID_CATEGORY" "Please specify a set of valid categories"

/-- Being the answer that asks for names, and lists all that there are. -/
def TellsCategories (db : Database) (response : Response) : Prop :=
  ∃ categories, db.ListsCategories categories ∧ response.status = 400 ∧
    response.content = .json (.object
      [("message", .text "Please specify a set of categories in the 'q' parameter"),
       ("data", .array (categories.map fun c => .object c.record))])

/-- Being the answer that has the nodes with a property and their number, or no content where
there are none. -/
def TellsNodes (db : Database) (P : Row → Prop) (response : Response) : Prop :=
  ∃ records, db.ShowsNodes P records ∧
    (records = [] → response.status = 204 ∧ response.content = .empty) ∧
    (records ≠ [] → response.status = 200 ∧ response.content = .json (.object
      [("data", .array (records.map .object)), ("totalCount", .integer records.length)]))

section
variable {db : Database} {P : Row → Prop} {response : Response}

theorem TellsCategories.not_tells (h : TellsCategories db response) :
    ¬ response.Tells invalidCategory := by
  obtain ⟨categories, -, -, hcontent⟩ := h
  rintro ⟨-, hother⟩
  rw [hcontent] at hother
  simp at hother

theorem TellsNodes.status (h : TellsNodes db P response) :
    response.status = 204 ∨ response.status = 200 := by
  obtain ⟨records, -, hempty, hsome⟩ := h
  by_cases hrecords : records = []
  · exact .inl (hempty hrecords).1
  · exact .inr (hsome hrecords).1

theorem TellsNodes.status_ne (h : TellsNodes db P response) : response.status ≠ 400 := by
  rcases h.status with hstatus | hstatus <;> simp [hstatus]

theorem tellsNodes_listResponse {records : List Record} (h : db.ShowsNodes P records)
    (headers : List (String × String)) :
    TellsNodes db P ((listResponse records).withHeaders headers) := by
  refine ⟨records, h, ?_, fun hne => ?_⟩
  · rintro rfl
    exact ⟨rfl, rfl⟩
  · rw [listResponse, if_neg (by rwa [List.isEmpty_iff])]
    exact ⟨rfl, rfl⟩

end

section
variable {access : Access} {query : String} {q : Option String}

theorem answerCategories_of_failure {failure : Failure} (h : access.contents = .error failure)
    (q : String) : answerCategories access q = .error (.ofFailure failure) := by
  rw [answerCategories]
  by_cases hnames : (namesOf q).isEmpty = true
  · rw [if_pos hnames, Access.inspect_of_failure h]
    rfl
  · rw [if_neg hnames, Access.inspect_of_failure h]
    rfl

theorem answerCategories_of_names {q : String} (hne : namesOf q ≠ []) :
    answerCategories access q =
      inspect access (fun db => db.nodesByCategories (namesOf q)) >>= fun nodes =>
        match nodes with
        | some nodes => .ok (listResponse nodes)
        | none => .error invalidCategory := by
  rw [answerCategories, if_neg (by rwa [List.isEmpty_iff])]
  refine congrArg (_ >>= ·) (funext fun nodes => ?_)
  cases nodes <;> rfl

/-- The answer depends on the names through the set of them. -/
theorem answerCategories_congr (hreachable : access.session.Reachable) {q q' : Option String}
    (hsame : ∀ name, Names q name ↔ Names q' name) :
    answerCategories access (q.getD "") = answerCategories access (q'.getD "") := by
  have hmem (name : String) : name ∈ namesOf (q.getD "") ↔ name ∈ namesOf (q'.getD "") :=
    mem_namesOf_iff.trans ((hsame name).trans mem_namesOf_iff.symm)
  have hnil : namesOf (q.getD "") = [] ↔ namesOf (q'.getD "") = [] := by
    simp only [List.eq_nil_iff_forall_not_mem, hmem]
  by_cases hnone : namesOf (q.getD "") = []
  · rw [answerCategories, answerCategories, hnone, hnil.mp hnone]
  · rw [answerCategories_of_names hnone, answerCategories_of_names (mt hnil.mpr hnone),
      Access.inspect_congr fun db hdb => ?_]
    obtain rfl := Access.contents_eq_ok hdb
    exact Database.nodesByCategories_congr hreachable.lawful hreachable.furnished hnone hmem

theorem answer_categoriesRequest (hq : categoriesParameter query = .ok q) (access : Access)
    (limits : Limits) (allowed : List String) (origin : Option String) :
    answer access limits allowed (categoriesRequest query origin) =
      (match answerCategories access (q.getD "") with
        | .ok response => response
        | .error p => p.response).withHeaders (originHeader allowed origin) := by
  have hroute : Route.ofPath? "/api/v1/nodes/categories" = some .categories := by decide
  have hget : (categoriesRequest query origin).method = "GET" := rfl
  have hanswer : answerRoute access limits query .categories =
      answerCategories access (q.getD "") := by
    rw [answerRoute, hq]
  rw [answer_get access limits allowed hget hroute]
  change Response.withHeaders (match answerRoute access limits query .categories with
    | .ok response => response
    | .error p => p.response) _ = _
  rw [hanswer]
  rfl

variable (hq : categoriesParameter query = .ok q) (limits : Limits) (allowed : List String)
  (origin : Option String)
include hq

theorem tells_of_categories_error {p : Problem}
    (h : answerCategories access (q.getD "") = .error p) :
    (answer access limits allowed (categoriesRequest query origin)).Tells p := by
  rw [answer_categoriesRequest hq, h]
  exact ⟨rfl, rfl⟩

variable {db : Database} (hdb : Lawful db.rowsOrNone) (hfurnished : db.Furnished)
  (hcontents : access.contents = .ok db)
include hdb hfurnished hcontents

theorem tellsCategories_of_no_name (hnone : ¬ ∃ name, Names q name) :
    TellsCategories db (answer access limits allowed (categoriesRequest query origin)) := by
  obtain ⟨categories, hanswer, hlists⟩ := Database.exists_categories hdb hfurnished
  have hnames : namesOf (q.getD "") = [] := namesOf_eq_nil_iff.mpr hnone
  have hcategories : answerCategories access (q.getD "") = .ok (.json 400 (.object
      [("message", .text "Please specify a set of categories in the 'q' parameter"),
       ("data", .array (categories.map fun c => .object c.record))])) := by
    rw [answerCategories, hnames, if_pos List.isEmpty_nil, Access.inspect_of_answer hcontents hanswer]
    rfl
  rw [answer_categoriesRequest hq, hcategories]
  exact ⟨categories, hlists, rfl, rfl⟩

theorem tells_of_unknown (hunknown : ∃ name, Names q name ∧ ¬ db.KnowsCategory name) :
    (answer access limits allowed (categoriesRequest query origin)).Tells invalidCategory := by
  simp only [← mem_namesOf_iff] at hunknown
  have hne : namesOf (q.getD "") ≠ [] := by
    obtain ⟨name, hname, -⟩ := hunknown
    exact List.ne_nil_of_mem hname
  have hanswer : db.nodesByCategories (namesOf (q.getD "")) = .ok none :=
    Database.nodesByCategories_eq hne hfurnished
      (Database.categoryIds?_of_unknown hdb hfurnished hunknown)
  refine tells_of_categories_error hq limits allowed origin ?_
  rw [answerCategories_of_names hne, Access.inspect_of_answer hcontents hanswer]
  rfl

theorem tellsNodes_of_known (hsome : ∃ name, Names q name)
    (hknown : ∀ name, Names q name → db.KnowsCategory name) :
    TellsNodes db (fun node => ∃ name, Names q name ∧ db.Belongs name node)
      (answer access limits allowed (categoriesRequest query origin)) := by
  simp only [← mem_namesOf_iff] at hsome hknown ⊢
  obtain ⟨name, hname⟩ := hsome
  have hne := List.ne_nil_of_mem hname
  have hanswer := Database.nodesByCategories_eq hne hfurnished
    (Database.categoryIds?_of_known hdb hfurnished hknown)
  have hcategories : answerCategories access (q.getD "") = .ok (listResponse (nodeRecords
      ((db.rowsOrNone .nodes).filter
        (db.isLinked ((namesOf (q.getD "")).map db.categoryNumber))))) := by
    rw [answerCategories_of_names hne, Access.inspect_of_answer hcontents hanswer]
    rfl
  rw [answer_categoriesRequest hq, hcategories]
  exact tellsNodes_listResponse (Database.showsNodes_filter hdb fun _ _ =>
    Database.isLinked_categoryNumber_iff hdb hknown) _

end

/-- On a reachable store, requests that name the same categories are answered alike, however they
name them. Where the store can be asked, all categories are told of if and only if none is named,
the request is refused if and only if one is named that is not there, and otherwise the nodes that
are linked to one of those named are told of, each once and in the default order. Where it cannot,
the failure is told of. -/
theorem answer_categories {access : Access} (h : access.session.Reachable) (limits : Limits)
    (allowed : List String) (origin : Option String) {query : String} {q : Option String}
    (hq : categoriesParameter query = .ok q) {response : Response}
    (hresponse : answer access limits allowed (categoriesRequest query origin) = response) :
    (∀ query' q', categoriesParameter query' = .ok q' →
      (∀ name, Names q' name ↔ Names q name) →
        answer access limits allowed (categoriesRequest query' origin) = response) ∧
    (∀ failure, access.contents = .error failure → response.Tells (.ofFailure failure)) ∧
    ∀ db, access.contents = .ok db →
      (TellsCategories db response ↔ ¬ ∃ name, Names q name) ∧
      (response.Tells invalidCategory ↔ ∃ name, Names q name ∧ ¬ db.KnowsCategory name) ∧
      ((∃ name, Names q name) → (∀ name, Names q name → db.KnowsCategory name) →
        TellsNodes db (fun node => ∃ name, Names q name ∧ db.Belongs name node) response) := by
  subst hresponse
  refine ⟨fun query' q' hq' hsame => ?_, fun failure hfailure => ?_, fun db hcontents => ?_⟩
  · rw [answer_categoriesRequest hq', answer_categoriesRequest hq, answerCategories_congr h hsame]
  · exact tells_of_categories_error hq limits allowed origin
      (answerCategories_of_failure hfailure _)
  · obtain rfl := Access.contents_eq_ok hcontents
    have hlists := tellsCategories_of_no_name hq limits allowed origin h.lawful h.furnished hcontents
    have hrefuses := tells_of_unknown hq limits allowed origin h.lawful h.furnished hcontents
    have hnodes := tellsNodes_of_known hq limits allowed origin h.lawful h.furnished hcontents
    -- each answer is given in its own case, and no two of the three can be one response
    refine ⟨⟨fun htold hsome => ?_, hlists⟩, ⟨fun htold => ?_, hrefuses⟩, hnodes⟩
    · by_cases hunknown : ∃ name, Names q name ∧ ¬ access.session.contents.KnowsCategory name
      · exact htold.not_tells (hrefuses hunknown)
      · push Not at hunknown
        obtain ⟨categories, -, hstatus, -⟩ := htold
        exact (hnodes hsome hunknown).status_ne hstatus
    · by_contra hknown
      push Not at hknown
      by_cases hsome : ∃ name, Names q name
      · exact (hnodes hsome hknown).status_ne htold.1
      · exact (hlists hsome).not_tells htold

/-- Blanks, stray commas and a name that is there twice make no difference. -/
theorem answer_categories_oneRouter :
    (answer ⟨oneRouter, none⟩ defaultLimits [] (categoriesRequest "q=Routers" none)).status = 200 ∧
    answer ⟨oneRouter, none⟩ defaultLimits [] (categoriesRequest "q=+Routers,,Routers" none) =
      answer ⟨oneRouter, none⟩ defaultLimits [] (categoriesRequest "q=Routers" none) ∧
    (answer ⟨oneRouter, none⟩ defaultLimits []
      (categoriesRequest "q=Routers,Switches" none)).Tells invalidCategory := by
  have hreachable : (Access.mk oneRouter none).session.Reachable :=
    (Session.Reachable.start 0).after _
  have hcontents : Access.contents ⟨oneRouter, none⟩ = .ok oneRouter.contents := rfl
  have hrouters : categoriesParameter "q=Routers" = .ok (some "Routers") := rfl
  have hswitches : categoriesParameter "q=Routers,Switches" = .ok (some "Routers,Switches") := rfl
  have hknown : oneRouter.contents.KnowsCategory "Routers" :=
    ⟨_, List.mem_singleton_self _, by rfl⟩
  have hname (name : String) : Names (some "Routers") name ↔ name = "Routers" := by
    rw [← mem_namesOf_iff]
    exact List.mem_singleton
  have hnames (name : String) : Names (some " Routers,,Routers") name ↔ name = "Routers" := by
    rw [← mem_namesOf_iff]
    change name ∈ ["Routers", "Routers"] ↔ _
    simp
  obtain ⟨hsame, -, htold⟩ := answer_categories hreachable defaultLimits [] none hrouters rfl
  obtain ⟨-, -, hnodes⟩ := htold _ hcontents
  obtain ⟨-, -, htold⟩ := answer_categories hreachable defaultLimits [] none hswitches rfl
  obtain ⟨-, hrefuses, -⟩ := htold _ hcontents
  refine ⟨?_, hsame _ _ rfl fun name => (hnames name).trans (hname name).symm,
    hrefuses.mpr ⟨"Switches", ?_, not_knowsCategory_oneRouter⟩⟩
  · obtain ⟨records, ⟨rows, rfl, -, -, hmem⟩, -, hfound⟩ := hnodes ⟨"Routers", (hname _).mpr rfl⟩
      fun name hnamed => (hname name).mp hnamed ▸ hknown
    have hnode : routerNode ∈ oneRouter.contents.rowsOrNone .nodes :=
      rows_oneRouter ▸ List.mem_singleton_self _
    have hrow := (hmem routerNode).mpr ⟨hnode, "Routers", (hname _).mpr rfl, belongs_routerNode⟩
    exact (hfound (List.ne_nil_of_mem (List.mem_map_of_mem hrow))).1
  · rw [← mem_namesOf_iff]
    exact List.mem_cons_of_mem _ List.mem_cons_self

end Api
end InventorySearch
