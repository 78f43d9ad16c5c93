import InventorySearch.Api.Exchange
import InventorySearch.Proofs.Api.Requests
import InventorySearch.Proofs.Store.Paging

set_option autoImplicit false

/-!
# Answers to list requests

A list request is refused for its parameters, fails with its search, or is
answered with a page. Of a failure the answer tells what the asker can do
something about, and nothing that depends on the rest of its text.
-/
namespace InventorySearch

namespace Store
open InventorySearch.Filter

def Failure.IsTold : Failure → Prop
  | .filter e => e.isClientError = true ∨ ∃ text, e = .execution text
  | _ => False

/-- Being failures that differ in what they tell of the store at most. -/
inductive Failure.SameCause : Failure → Failure → Prop
  | unexpected (text text' : String) :
      SameCause (.filter (.unexpected text)) (.filter (.unexpected text'))
  | database (fault fault' : Fault) : SameCause (.database fault) (.database fault')
  | migration (version version' : Int) (name name' reason reason' : String) :
      SameCause (.migration version name reason) (.migration version' name' reason')
  | io (text text' : String) : SameCause (.io text) (.io text')
  | timeout (seconds seconds' : Nat) : SameCause (.timeout seconds) (.timeout seconds')
  | closed : SameCause .closed .closed

theorem Database.length_of_search {db : Database} {entity : Search.Entity}
    {request : Search.Request} {page : Page} (h : db.search entity request = .ok page) :
    page.records.length = min request.limit (page.total - request.offset) := by
  obtain ⟨plan, hplan, hobstacle⟩ := exists_of_search h
  obtain rfl := Except.ok.inj (h.symm.trans (search_eq hplan hobstacle))
  rw [List.length_map, List.length_take, List.length_drop, (perm_sortRows _ _).length_eq]

end Store

namespace Api
open InventorySearch.Filter Search Store Text

/-! ## Failures -/

structure Problem.Tells (p : Problem) (failure : Failure) : Prop where
  client_iff : p.status = 400 ↔ ∃ e, failure = .filter e ∧ e.isClientError = true
  client : ∀ e, failure = .filter e → e.isClientError = true →
    p.code = e.code ∧ p.message = e.message
  execution : ∀ text, failure = .filter (.execution text) →
    p.status = 500 ∧ p.code = "QUERY_EXECUTION" ∧ p.message = (Error.execution text).message
  untold : ¬ failure.IsTold → p.status = 500 ∧ p.code = "INTERNAL" ∨ p.status = 503

theorem Problem.tells_of_untold {p : Problem} {failure : Failure}
    (hclient : ∀ e, failure = .filter e → e.isClientError = false)
    (hexecution : ∀ text, failure ≠ .filter (.execution text))
    (hp : p.status = 500 ∧ p.code = "INTERNAL" ∨ p.status = 503) : p.Tells failure := by
  have hstatus : p.status ≠ 400 := by
    rcases hp with ⟨h, -⟩ | h <;> simp [h]
  refine ⟨⟨fun h => absurd h hstatus, ?_⟩, ?_, fun text h => absurd h (hexecution text),
    fun _ => hp⟩
  · rintro ⟨e, heq, h⟩
    exact absurd h (by simp [hclient e heq])
  · intro e heq h
    exact absurd h (by simp [hclient e heq])

theorem Problem.tells_ofFilter (e : Error) : (ofFilter e).Tells (.filter e) := by
  by_cases hclient : e.isClientError = true
  · have hbad : ofFilter e = .badRequest e.code e.message := if_pos hclient
    rw [hbad]
    refine ⟨⟨fun _ => ⟨e, rfl, hclient⟩, fun _ => rfl⟩, ?_, ?_, fun h => absurd (.inl hclient) h⟩
    · rintro _ ⟨⟩ -
      exact ⟨rfl, rfl⟩
    · rintro text ⟨⟩
      cases hclient
  · cases e with
    | execution text =>
      refine ⟨⟨fun h => (nomatch h), ?_⟩, ?_, ?_, fun h => absurd (.inr ⟨text, rfl⟩) h⟩
      · rintro ⟨_, ⟨⟩, h⟩
        exact absurd h hclient
      · rintro _ ⟨⟩ h
        exact absurd h hclient
      · rintro _ ⟨⟩
        exact ⟨rfl, rfl, rfl⟩
    | unexpected text =>
      refine tells_of_untold ?_ (by simp) (.inl ⟨rfl, rfl⟩)
      rintro _ ⟨⟩
      rfl
    | _ => exact absurd rfl hclient

theorem Problem.tells_ofFailure (failure : Failure) : (ofFailure failure).Tells failure := by
  cases failure with
  | filter e => exact tells_ofFilter e
  | timeout seconds => exact tells_of_untold (by simp) (by simp) (.inr rfl)
  | _ => exact tells_of_untold (by simp) (by simp) (.inl ⟨rfl, rfl⟩)

theorem Problem.ofFailure_eq {failure other : Failure} (h : failure.SameCause other) :
    ofFailure other = ofFailure failure := by
  cases h <;> rfl

/-! ## Lists -/

def listRequest (entity : Entity) (query : String) (origin : Option String) : HttpRequest :=
  ⟨"GET", "/api/v1/" ++ entity.name, query, origin⟩

def Access.search (access : Access) (entity : Entity) (request : Request) : Except Failure Page :=
  access.session.askUnless access.interruption fun db => db.search entity request

theorem Access.length_of_search {access : Access} {entity : Entity} {request : Request}
    {page : Page} (h : access.search entity request = .ok page) :
    page.records.length = min request.limit (page.total - request.offset) := by
  obtain ⟨session, interruption⟩ := access
  cases interruption with
  | some i => cases h
  | none =>
    obtain ⟨db, -, hsearch⟩ := Except.exists_of_bind_eq_ok h
    exact Database.length_of_search hsearch

theorem ofPath?_list (entity : Entity) :
    Route.ofPath? ("/api/v1/" ++ entity.name) = some (.list entity) := by
  cases entity <;> decide

theorem answer_get (access : Access) (limits : Limits) (allowed : List String) {r : HttpRequest}
    (hget : r.method = "GET") {route : Route} (hroute : Route.ofPath? r.path = some route) :
    answer access limits allowed r =
      (match answerRoute access limits r.query route with
        | .ok response => response
        | .error p => p.response).withHeaders (originHeader allowed r.origin) := by
  have hpath : answerPath access limits r =
      match answerRoute access limits r.query route with
      | .ok response => response
      | .error p => p.response := by
    rw [answerPath, hroute]
    exact if_pos (.inl hget)
  rw [answer, shareWith, hget, hpath, if_neg (by decide)]
  exact if_neg (by decide)

theorem answer_listRequest (access : Access) (limits : Limits) (allowed : List String)
    (entity : Entity) (query : String) (origin : Option String) :
    answer access limits allowed (listRequest entity query origin) =
      (match answerList access limits entity query with
        | .ok response => response
        | .error p => p.response).withHeaders (originHeader allowed origin) := by
  have hget : (listRequest entity query origin).method = "GET" := rfl
  rw [answer_get access limits allowed hget (ofPath?_list entity), answerRoute]
  rfl

/-! ## What becomes of a list request -/

def ExactlyOne (p q r : Prop) : Prop := p ∧ ¬ q ∧ ¬ r ∨ ¬ p ∧ q ∧ ¬ r ∨ ¬ p ∧ ¬ q ∧ r

def Response.Tells (response : Response) (p : Problem) : Prop :=
  response.status = p.status ∧
    response.content = .json (.object
      [("error", .text p.kind), ("code", .text p.code), ("message", .text p.message)])

/-- The parameters are refused, of which the answer tells. -/
def Refuses (limits : Limits) (query : String) (response : Response) : Prop :=
  ∃ p, requestOfQuery limits query = .error p ∧ p.status = 400 ∧ response.Tells p

def FailsWith (access : Access) (limits : Limits) (entity : Entity) (query : String)
    (failure : Failure) : Prop :=
  ∃ request, requestOfQuery limits query = .ok request ∧
    access.search entity request = .error failure

def Fails (access : Access) (limits : Limits) (entity : Entity) (query : String)
    (response : Response) : Prop :=
  ∃ (failure : Failure) (p : Problem), FailsWith access limits entity query failure ∧
    p.Tells failure ∧ response.Tells p

/-- The search succeeds, and the answer is the page that it found. -/
def Lists (access : Access) (limits : Limits) (entity : Entity) (query : String)
    (response : Response) : Prop :=
  ∃ request page, requestOfQuery limits query = .ok request ∧
    access.search entity request = .ok page ∧
    (response.status = 204 ↔ page.total ≤ request.offset) ∧
    (response.status = 204 → response.content = .empty) ∧
    (request.offset < page.total →
      response.status = 200 ∧
      response.content = .json (.object
        [("data", .array (page.records.map .object)),
         ("meta", .object [("limit", .integer request.limit), ("offset", .integer request.offset),
           ("totalCount", .integer page.total)])]) ∧
      page.records.length = min request.limit (page.total - request.offset))

theorem pageResponse_of_nil {request : Request} {page : Page} (h : page.records = []) :
    pageResponse request page = .noContent := by
  rw [pageResponse, h]
  rfl

theorem pageResponse_of_ne {request : Request} {page : Page} (h : page.records ≠ []) :
    pageResponse request page = .json 200 (.object
      [("data", .array (page.records.map .object)),
       ("meta", .object [("limit", .integer request.limit), ("offset", .integer request.offset),
         ("totalCount", .integer page.total)])]) := by
  rw [pageResponse, if_neg (by rwa [List.isEmpty_iff])]

section
variable {access : Access} {limits : Limits} {entity : Entity} {query : String}
  (allowed : List String) (origin : Option String)

theorem answer_of_refused {p : Problem} (h : requestOfQuery limits query = .error p) :
    answer access limits allowed (listRequest entity query origin) =
      p.response.withHeaders (originHeader allowed origin) := by
  have hlist : answerList access limits entity query = .error p := by
    rw [answerList, h]
    rfl
  rw [answer_listRequest, hlist]

theorem answer_of_failed {failure : Failure}
    (h : FailsWith access limits entity query failure) :
    answer access limits allowed (listRequest entity query origin) =
      (Problem.ofFailure failure).response.withHeaders (originHeader allowed origin) := by
  obtain ⟨request, hrequest, hsearch⟩ := h
  have hlist : answerList access limits entity query = .error (.ofFailure failure) := by
    have hinquire : inquire access (fun db => db.search entity request) =
        .error (.ofFailure failure) := congrArg (Except.mapError Problem.ofFailure) hsearch
    rw [answerList, hrequest]
    change (inquire access (fun db => db.search entity request) >>= fun page => _) = _
    rw [hinquire]
    rfl
  rw [answer_listRequest, hlist]

theorem answer_of_found {request : Request} {page : Page}
    (hrequest : requestOfQuery limits query = .ok request)
    (hsearch : access.search entity request = .ok page) :
    answer access limits allowed (listRequest entity query origin) =
      (pageResponse request page).withHeaders (originHeader allowed origin) := by
  have hlist : answerList access limits entity query = .ok (pageResponse request page) := by
    have hinquire : inquire access (fun db => db.search entity request) = .ok page :=
      congrArg (Except.mapError Problem.ofFailure) hsearch
    rw [answerList, hrequest]
    change (inquire access (fun db => db.search entity request) >>= fun page => _) = _
    rw [hinquire]
    rfl
  rw [answer_listRequest, hlist]

/-- A page is empty if and only if it begins behind the last row, as it has room for a row. -/
theorem lists_of_search (hlimits : Command.Accepts limits) {request : Request} {page : Page}
    (hrequest : requestOfQuery limits query = .ok request)
    (hsearch : access.search entity request = .ok page) (headers : List (String × String)) :
    Lists access limits entity query ((pageResponse request page).withHeaders headers) := by
  refine ⟨request, page, hrequest, hsearch, ?_⟩
  have hpos := (limit_of_requestOfQuery hlimits hrequest).1
  have hlength := Access.length_of_search hsearch
  by_cases hpage : page.total ≤ request.offset
  · rw [pageResponse_of_nil (List.length_eq_zero_iff.mp (by omega))]
    exact ⟨⟨fun _ => hpage, fun _ => rfl⟩, fun _ => rfl, fun h => absurd hpage (by omega)⟩
  · rw [pageResponse_of_ne (List.ne_nil_of_length_pos (by omega))]
    exact ⟨⟨fun h => (nomatch h), fun h => absurd h hpage⟩, fun h => (nomatch h),
      fun _ => ⟨rfl, rfl, hlength⟩⟩

theorem refuses_or_fails_or_lists (hlimits : Command.Accepts limits) :
    Refuses limits query (answer access limits allowed (listRequest entity query origin)) ∨
      Fails access limits entity query
        (answer access limits allowed (listRequest entity query origin)) ∨
      Lists access limits entity query
        (answer access limits allowed (listRequest entity query origin)) := by
  cases hrequest : requestOfQuery limits query with
  | error p =>
    have hstatus := status_of_requestOfQuery hrequest
    rw [answer_of_refused allowed origin hrequest]
    exact .inl ⟨p, hrequest, hstatus, rfl, rfl⟩
  | ok request =>
    cases hsearch : access.search entity request with
    | error failure =>
      have hfails : FailsWith access limits entity query failure := ⟨request, hrequest, hsearch⟩
      rw [answer_of_failed allowed origin hfails]
      exact .inr (.inl ⟨failure, _, hfails, Problem.tells_ofFailure failure, rfl, rfl⟩)
    | ok page =>
      rw [answer_of_found allowed origin hrequest hsearch]
      exact .inr (.inr (lists_of_search hlimits hrequest hsearch _))

variable {response : Response}

theorem Refuses.not_fails (h : Refuses limits query response) :
    ¬ Fails access limits entity query response := by
  obtain ⟨p, hp, -⟩ := h
  rintro ⟨failure, -, ⟨request, hrequest, -⟩, -⟩
  cases hp.symm.trans hrequest

theorem Refuses.not_lists (h : Refuses limits query response) :
    ¬ Lists access limits entity query response := by
  obtain ⟨p, hp, -⟩ := h
  rintro ⟨request, page, hrequest, -⟩
  cases hp.symm.trans hrequest

theorem Fails.not_lists (h : Fails access limits entity query response) :
    ¬ Lists access limits entity query response := by
  obtain ⟨failure, -, ⟨request, hrequest, hfailed⟩, -⟩ := h
  rintro ⟨request', page, hrequest', hfound, -⟩
  obtain rfl := Except.ok.inj (hrequest.symm.trans hrequest')
  cases hfailed.symm.trans hfound

end

/-- A list request is refused for its parameters, whatever the store, or its search fails, or it
lists what the search found, and only one of the three. Failures of one cause are told alike. -/
theorem answer_list {surroundings : Command.Surroundings} {files : String → Command.Entry}
    {options : Command.Options} {settings : Command.Settings}
    (hload : Command.Config.load surroundings files options = .ok settings)
    (access : Access) (allowed : List String) (entity : Entity) (query : String)
    (origin : Option String) {response : Response}
    (hresponse :
      answer access settings.limits allowed (listRequest entity query origin) = response) :
    ExactlyOne (Refuses settings.limits query response)
      (Fails access settings.limits entity query response)
      (Lists access settings.limits entity query response) ∧
    (Refuses settings.limits query response → ∀ other,
      answer other settings.limits allowed (listRequest entity query origin) = response) ∧
    (∀ failure, FailsWith access settings.limits entity query failure →
      ∀ other entity' query' failure', FailsWith other settings.limits entity' query' failure' →
        failure.SameCause failure' →
          answer other settings.limits allowed (listRequest entity' query' origin) = response) := by
  subst hresponse
  refine ⟨?_, ?_, ?_⟩
  · have hlimits := Command.Config.accepts_of_load hload
    rcases refuses_or_fails_or_lists allowed origin hlimits with hrefuses | hfails | hlists
    · exact .inl ⟨hrefuses, hrefuses.not_fails, hrefuses.not_lists⟩
    · exact .inr (.inl ⟨fun hrefuses => hrefuses.not_fails hfails, hfails, hfails.not_lists⟩)
    · exact .inr (.inr ⟨fun hrefuses => hrefuses.not_lists hlists,
        fun hfails => hfails.not_lists hlists, hlists⟩)
  · rintro ⟨p, hp, -⟩ other
    rw [answer_of_refused allowed origin hp, answer_of_refused allowed origin hp]
  · intro failure hfails other entity' query' failure' hother hsame
    rw [answer_of_failed allowed origin hfails, answer_of_failed allowed origin hother,
      Problem.ofFailure_eq hsame]

/-! ## A list of two nodes, with one on a page -/

def defaultLimits : Limits := ⟨10, 1000⟩

theorem load_defaults :
    Command.Config.load ⟨['/'], none⟩ (fun _ => .missing) ⟨.empty, none⟩ =
      .ok ⟨"127.0.0.1", 8980, defaultLimits, 30⟩ := rfl

theorem answer_twoNodes :
    (answer ⟨twoNodes, none⟩ defaultLimits [] (listRequest .node "limit=1" none)).status = 200 ∧
      ∃ page, Access.search ⟨twoNodes, none⟩ .node ⟨"", 1, 0, "", .asc⟩ = .ok page ∧
        page.total = 2 ∧ page.records.length = 1 := by
  have hrequest : requestOfQuery defaultLimits "limit=1" = .ok ⟨"", 1, 0, "", .asc⟩ := rfl
  have hplan : twoNodes.contents.plan .node ⟨"", 1, 0, "", .asc⟩ =
      .ok ⟨.always, [("label", .asc), ("id", .asc)]⟩ := rfl
  have hfound : (twoNodes.contents.matching .nodes .always).length = 2 := rfl
  have hsearch : Access.search ⟨twoNodes, none⟩ .node ⟨"", 1, 0, "", .asc⟩ = .ok _ :=
    (Session.ask_opened (s := twoNodes) rfl _).trans (Database.search_eq hplan rfl)
  obtain ⟨hone, -, -⟩ := answer_list load_defaults ⟨twoNodes, none⟩ [] .node "limit=1" none rfl
  rcases hone with ⟨⟨p, hp, -⟩, -⟩ | ⟨-, ⟨failure, p, ⟨request, hr, hfails⟩, -⟩, -⟩ | ⟨-, -, hlists⟩
  · cases hrequest.symm.trans hp
  · obtain rfl := Except.ok.inj (hrequest.symm.trans hr)
    cases hsearch.symm.trans hfails
  · obtain ⟨request, page, hr, hpage, -, -, hlisted⟩ := hlists
    obtain rfl := Except.ok.inj (hrequest.symm.trans hr)
    have htotal : page.total = 2 :=
      (congrArg Page.total (Except.ok.inj (hsearch.symm.trans hpage))).symm.trans hfound
    obtain ⟨hstatus, -, hlength⟩ := hlisted (by rw [htotal]; decide)
    rw [htotal] at hlength
    exact ⟨hstatus, page, hpage, htotal, hlength⟩

end Api
end InventorySearch
