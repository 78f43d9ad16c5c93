import InventorySearch.Command.Config
import InventorySearch.Proofs.Outcome

set_option autoImplicit false

/-!
# List requests and limits

The parameters of a list, read with a limit and without, under the settings that a
server starts with.
-/
namespace InventorySearch

/-!
## List requests

What is wrong with the parameters of a list is always told as a bad request. A
request that is read from them asks for at least one row, since settings with
which a server starts do.
-/

namespace Command

structure Accepts (limits : Api.Limits) : Prop where
  pos : 1 ≤ limits.default
  le_max : limits.default ≤ limits.max

structure Settings.Valid (settings : Settings) : Prop where
  host : settings.host ≠ ""
  portNumber : settings.portNumber ≠ 0
  limits : Accepts settings.limits
  timeout : settings.timeout ≠ 0

theorem Settings.fault?_eq_none_iff {settings : Settings} :
    settings.fault? = none ↔ settings.Valid := by
  unfold fault?
  split_ifs with hhost hport hmax hlimits htimeout
  · exact iff_of_false not_false fun h => h.host (String.isEmpty_iff.mp hhost)
  · exact iff_of_false not_false fun h => h.portNumber hport
  · exact iff_of_false not_false fun h =>
      absurd (Nat.le_trans h.limits.pos h.limits.le_max) (by omega)
  · exact iff_of_false not_false fun h =>
      absurd (And.intro h.limits.pos h.limits.le_max) (by omega)
  · exact iff_of_false not_false fun h => h.timeout htimeout
  · refine iff_of_true rfl ⟨?_, hport, ⟨by omega, by omega⟩, htimeout⟩
    exact fun hempty => hhost (String.isEmpty_iff.mpr hempty)

theorem Config.accepts_of_load {surroundings : Surroundings} {files : String → Entry}
    {options : Options} {settings : Settings}
    (h : Config.load surroundings files options = .ok settings) : Accepts settings.limits := by
  obtain ⟨layer, -, h⟩ := Except.exists_of_bind_eq_ok h
  dsimp only at h
  split at h
  · cases h
  · next hfault =>
    obtain rfl := Except.ok.inj h
    exact (Settings.fault?_eq_none_iff.mp hfault).limits

end Command

namespace Api
open Search

namespace Params

/-! ### Bad requests -/

theorem status_of_assign {name value : String} {old : Option String} {p : Problem}
    (h : assign name value old = .error p) : p.status = 400 := by
  unfold assign at h
  split at h
  · cases h
  · exact Except.error.inj h ▸ rfl

theorem status_of_assignNumber {name value : String} {old : Option Nat} {p : Problem}
    (h : assignNumber name value old = .error p) : p.status = 400 := by
  unfold assignNumber at h
  split at h
  · split at h
    · cases h
    · exact Except.error.inj h ▸ rfl
  · exact Except.error.inj h ▸ rfl

theorem status_of_add {params : Params} {name value : String} {p : Problem}
    (h : params.add name value = .error p) : p.status = 400 := by
  unfold add at h
  split at h
  · exact status_of_assign (Except.error_of_map h)
  · exact status_of_assignNumber (Except.error_of_map h)
  · exact status_of_assignNumber (Except.error_of_map h)
  · exact status_of_assign (Except.error_of_map h)
  · exact status_of_assign (Except.error_of_map h)
  · cases h

theorem status_of_read {query : String} {p : Problem} (h : Params.read query = .error p) :
    p.status = 400 := by
  rcases Except.error_of_bind h with hall | ⟨params, -, h⟩
  · obtain ⟨pair, -, params, hadd⟩ := Except.exists_of_foldlM_eq_error hall
    exact status_of_add hadd
  · split at h
    · exact Except.error.inj h ▸ rfl
    · cases h

theorem status_of_direction {order : Option String} {p : Problem}
    (h : direction order = .error p) : p.status = 400 := by
  unfold direction at h
  split at h
  · cases h
  · cases h
  · split at h
    · cases h
    · exact Except.error.inj h ▸ rfl

theorem status_of_request {params : Params} {limits : Limits} {p : Problem}
    (h : params.request limits = .error p) : p.status = 400 := by
  unfold request at h
  dsimp only at h
  split at h
  · exact Except.error.inj h ▸ rfl
  · rcases Except.error_of_bind h with hdirection | ⟨d, -, h⟩
    · exact status_of_direction hdirection
    · cases h

/-! ### Limits -/

theorem limit_of_read {query : String} {params : Params} (h : Params.read query = .ok params) :
    params.limit ≠ some 0 := by
  obtain ⟨all, -, h⟩ := Except.exists_of_bind_eq_ok h
  split at h
  · cases h
  · next hlimit =>
    obtain rfl := Except.ok.inj h
    exact hlimit

theorem limit_of_request {params : Params} {limits : Limits} {request : Request}
    (h : params.request limits = .ok request) :
    request.limit = params.limit.getD limits.default ∧ request.limit ≤ limits.max := by
  unfold Params.request at h
  dsimp only at h
  split at h
  · cases h
  · next hle =>
    obtain ⟨d, -, h⟩ := Except.exists_of_bind_eq_ok h
    obtain rfl := Except.ok.inj h
    exact ⟨rfl, Nat.le_of_not_lt hle⟩

end Params

theorem status_of_requestOfQuery {limits : Limits} {query : String} {p : Problem}
    (h : requestOfQuery limits query = .error p) : p.status = 400 := by
  rcases Except.error_of_bind h with hread | ⟨params, -, hrequest⟩
  · exact Params.status_of_read hread
  · exact Params.status_of_request hrequest

theorem limit_of_requestOfQuery {limits : Limits} (hlimits : Command.Accepts limits)
    {query : String} {request : Request} (h : requestOfQuery limits query = .ok request) :
    1 ≤ request.limit ∧ request.limit ≤ limits.max := by
  obtain ⟨params, hread, hrequest⟩ := Except.exists_of_bind_eq_ok h
  obtain ⟨hlimit, hmax⟩ := Params.limit_of_request hrequest
  refine ⟨?_, hmax⟩
  rw [hlimit]
  cases hasked : params.limit with
  | none => exact hlimits.pos
  | some n =>
    have hn : n ≠ 0 := fun hzero => Params.limit_of_read hread (hzero ▸ hasked)
    exact Nat.one_le_iff_ne_zero.mpr hn

end Api

end InventorySearch

namespace InventorySearch.Api
open Search Text

/-!
## Lists without a limit

The other parameters are read the same with a limit and without. Where the limit 1
is let pass, so is the default, as it is in range.
-/

namespace Params

variable {p q : Params} {name value : String} {limit : Option Nat} {pairs : List (String × String)}

def withLimit (p : Params) (limit : Option Nat) : Params := { p with limit }

def addAll (p : Params) (pairs : List (String × String)) : Except Problem Params :=
  pairs.foldlM (fun p pair => p.add pair.1 pair.2) p

theorem addAll_cons (p : Params) (pair : String × String) (pairs : List (String × String)) :
    p.addAll (pair :: pairs) = p.add pair.1 pair.2 >>= fun q => q.addAll pairs :=
  List.foldlM_cons

theorem addAll_append (p : Params) (xs ys : List (String × String)) :
    p.addAll (xs ++ ys) = p.addAll xs >>= fun q => q.addAll ys :=
  List.foldlM_append

theorem read_eq_ok_iff {query : String} :
    read query = .ok p ↔ none.addAll (Form.pairs query) = .ok p ∧ p.limit ≠ some 0 := by
  constructor
  · intro h
    obtain ⟨all, hall, h⟩ := Except.exists_of_bind_eq_ok h
    split at h
    · cases h
    · next hlimit =>
      obtain rfl := Except.ok.inj h
      exact ⟨hall, hlimit⟩
  · rintro ⟨hall, hlimit⟩
    rw [addAll] at hall
    rw [read, hall]
    exact if_neg hlimit

theorem add_withLimit (hname : name ≠ "limit") :
    (p.withLimit limit).add name value = (p.add name value).map fun q => q.withLimit limit := by
  unfold add
  split
  · cases h : assign "_s" value p.filter <;> simp [withLimit, h, Except.map]
  · exact absurd rfl hname
  · cases h : assignNumber "offset" value p.offset <;> simp [withLimit, h, Except.map]
  · cases h : assign "orderBy" value p.orderBy <;> simp [withLimit, h, Except.map]
  · cases h : assign "order" value p.order <;> simp [withLimit, h, Except.map]
  · rfl

theorem addAll_withLimit (hpairs : ∀ pair ∈ pairs, pair.1 ≠ "limit") :
    (p.withLimit limit).addAll pairs = (p.addAll pairs).map fun q => q.withLimit limit := by
  induction pairs generalizing p with
  | nil => rfl
  | cons pair pairs ih =>
    rw [List.forall_mem_cons] at hpairs
    rw [addAll_cons, addAll_cons, add_withLimit hpairs.1]
    cases p.add pair.1 pair.2 with
    | error e => rfl
    | ok q => exact ih hpairs.2

theorem limit_of_addAll (hpairs : ∀ pair ∈ pairs, pair.1 ≠ "limit")
    (h : p.addAll pairs = .ok q) : q.limit = p.limit := by
  have hmap : p.addAll pairs = (p.addAll pairs).map fun q => q.withLimit p.limit :=
    addAll_withLimit hpairs
  rw [h] at hmap
  have hq : q = q.withLimit p.limit := Except.ok.inj hmap
  exact (congrArg Params.limit hq).trans rfl

/-- A limit can be left out: whatever comes before and after it is read the same. -/
theorem addAll_of_limit {pre post : List (String × String)}
    (hfree : ∀ pair ∈ pre ++ post, pair.1 ≠ "limit")
    (h : none.addAll (pre ++ ("limit", value) :: post) = .ok p) :
    none.addAll (pre ++ post) = .ok (p.withLimit .none) := by
  rw [List.forall_mem_append] at hfree
  rw [addAll_append] at h
  obtain ⟨before, hbefore, h⟩ := Except.exists_of_bind_eq_ok h
  rw [addAll_cons] at h
  obtain ⟨here, hhere, h⟩ := Except.exists_of_bind_eq_ok h
  obtain ⟨n, -, rfl⟩ := Except.exists_of_map_eq_ok hhere
  have hnone : before.limit = .none := limit_of_addAll hfree.1 hbefore
  have hrest : (before.withLimit n).addAll post = .ok p := h
  rw [addAll_withLimit hfree.2] at hrest
  obtain ⟨after, hafter, rfl⟩ := Except.exists_of_map_eq_ok hrest
  have hlimit : after.limit = .none := (limit_of_addAll hfree.2 hafter).trans hnone
  have hsame : (after.withLimit n).withLimit .none = after := by rw [← hlimit]; rfl
  rw [addAll_append, hbefore, hsame]
  exact hafter

theorem request_withLimit {limits : Limits} (hlimits : Command.Accepts limits) {request : Request}
    (h : p.request limits = .ok request) :
    (p.withLimit .none).request limits = .ok { request with limit := limits.default } := by
  unfold Params.request at h
  dsimp only at h
  split at h
  · cases h
  · obtain ⟨d, hd, h⟩ := Except.exists_of_bind_eq_ok h
    obtain rfl := Except.ok.inj h
    have hdefault : (p.withLimit .none).limit.getD limits.default = limits.default := rfl
    rw [Params.request, hdefault, if_neg (Nat.not_lt_of_le hlimits.le_max)]
    change (direction p.order >>= _) = _
    rw [hd]
    rfl

end Params

/-- The second query string says the same as the first, and a limit of 1, which the first leaves
out. -/
def AddsLimit (query added : String) : Prop :=
  ∃ pre post, Form.pairs query = pre ++ post ∧ (∀ pair ∈ pre ++ post, pair.1 ≠ "limit") ∧
    Form.pairs added = pre ++ ("limit", "1") :: post

theorem pairs_append (s t : String) :
    Form.pairs (s ++ ("&" ++ t)) = Form.pairs s ++ Form.pairs t := by
  have hchars : (s ++ ("&" ++ t)).toList = s.toList ++ '&' :: t.toList := by
    rw [String.toList_append, String.toList_append]
    rfl
  have hsplit : (s.toList ++ '&' :: t.toList).splitOn '&' =
      s.toList.splitOn '&' ++ t.toList.splitOn '&' :=
    List.splitOnP_append_cons _ _ (beq_self_eq_true '&')
  rw [Form.pairs, hchars, hsplit, List.filter_append, List.map_append, Form.pairs, Form.pairs]

theorem addsLimit_append {query : String} (hfree : ∀ pair ∈ Form.pairs query, pair.1 ≠ "limit") :
    AddsLimit query (query ++ "&limit=1") := by
  have hlimit : Form.pairs "limit=1" = [("limit", "1")] := by decide +kernel
  refine ⟨Form.pairs query, [], (List.append_nil _).symm, ?_, ?_⟩
  · rwa [List.append_nil]
  · rw [← hlimit]
    exact pairs_append query "limit=1"

/-- A query string without a limit asks for what it does with the limit 1, but for the default
number of rows. -/
theorem requestOfQuery_of_addsLimit {limits : Limits} (hlimits : Command.Accepts limits)
    {query added : String} (hadds : AddsLimit query added) {request : Request}
    (h : requestOfQuery limits added = .ok request) :
    requestOfQuery limits query = .ok { request with limit := limits.default } := by
  obtain ⟨pre, post, hquery, hfree, hadded⟩ := hadds
  obtain ⟨params, hread, hrequest⟩ := Except.exists_of_bind_eq_ok h
  have hall := (Params.read_eq_ok_iff.mp hread).1
  rw [hadded] at hall
  have hless : Params.read query = .ok (params.withLimit none) := by
    rw [Params.read_eq_ok_iff, hquery]
    exact ⟨Params.addAll_of_limit hfree hall, nofun⟩
  rw [requestOfQuery, hless]
  exact Params.request_withLimit hlimits hrequest

end InventorySearch.Api
