import Mathlib.Data.Option.Basic
import InventorySearch.Command.Config
import InventorySearch.Proofs.Outcome
import InventorySearch.Proofs.Text.Numeral

set_option autoImplicit false

/-!
# Configuration documents

Which JSON documents set which values. Sections and values may be absent or `null`,
and a section may be a list of all its values. Members without a meaning are let
pass; those with one may stand once.
-/
namespace InventorySearch.Text.Numeral
open Calendar

theorem all_isDigit_of_extend {max value n : Nat} {cs : List Char}
    (h : extend max value cs = .ok n) : cs.all Char.isDigit = true := by
  induction cs generalizing value with
  | nil => rfl
  | cons c cs ih =>
    rw [extend] at h
    by_cases hc : c.isDigit = true
    · rw [digit?, if_pos hc] at h
      dsimp only at h
      split at h
      · rw [List.all_cons, hc, ih h, Bool.and_self]
      · cases h
    · rw [digit?, if_neg hc] at h
      cases h

theorem magnitude_eq_ok_iff {max n : Nat} {cs : List Char} :
    magnitude max cs = .ok n ↔
      cs ≠ [] ∧ cs.all Char.isDigit = true ∧ digitsValue cs = n ∧ n ≤ max := by
  cases cs with
  | nil => simp [magnitude]
  | cons c cs =>
    have hmagnitude : magnitude max (c :: cs) = extend max 0 (c :: cs) := rfl
    have hvalue : valueFrom 0 (c :: cs) = digitsValue (c :: cs) := rfl
    rw [hmagnitude]
    constructor
    · intro h
      have hdigits := all_isDigit_of_extend h
      rw [extend_eq hdigits (Nat.zero_le max), hvalue] at h
      split at h
      · next hle =>
        obtain rfl := Except.ok.inj h
        exact ⟨List.cons_ne_nil c cs, hdigits, rfl, hle⟩
      · cases h
    · rintro ⟨-, hdigits, rfl, hle⟩
      rw [extend_eq hdigits (Nat.zero_le max), hvalue, if_pos hle]

end InventorySearch.Text.Numeral

namespace InventorySearch.Command
open Calendar Text Layer

/-! ## Values -/

inductive IsText : JsonNode → String → Prop
  | text (s : String) : IsText (.text (some s)) s

inductive IsNatural (max : Nat) : JsonNode → Nat → Prop
  | digits {cs : List Char} (hne : cs ≠ []) (hdigits : cs.all Char.isDigit = true)
      (hmax : digitsValue cs ≤ max) : IsNatural max (.number cs) (digitsValue cs)

/-- Being what a value says that may be left open, also by `null`. -/
inductive Says {α : Type} (P : JsonNode → α → Prop) : Option JsonNode → Option α → Prop
  | absent : Says P none none
  | null : Says P (some .null) none
  | value {node : JsonNode} {a : α} (h : P node a) : Says P (some node) (some a)

theorem text?_eq_some_iff {node : JsonNode} {s : String} :
    text? node = some s ↔ IsText node s := by
  constructor
  · intro h
    unfold text? at h
    split at h
    · exact h ▸ .text s
    · cases h
  · rintro ⟨⟩
    rfl

theorem integer?_of_minus {digits : List Char} {i : Int}
    (h : (JsonNode.number ('-' :: digits)).integer? = some i) : i < 0 := by
  cases hread : (Numeral.magnitude 0x8000000000000000 digits).toOption with
  | none => simp [JsonNode.integer?, hread] at h
  | some n =>
    cases n with
    | zero => simp [JsonNode.integer?, hread] at h
    | succ n =>
      simp only [JsonNode.integer?, hread, Option.some.injEq] at h
      omega

theorem integer?_of_digits {cs : List Char} (hminus : cs.head? ≠ some '-') :
    (JsonNode.number cs).integer? =
      (Numeral.magnitude maxTimeout cs).toOption.map Int.ofNat := by
  unfold JsonNode.integer?
  split
  · next digits h =>
    obtain rfl := JsonNode.number.inj h
    exact absurd rfl hminus
  · next digits _ h =>
    obtain rfl := JsonNode.number.inj h
    rfl
  · next h => exact absurd rfl (h cs)

/-- A number is read if it has no sign. A sign before zero makes it no integer. -/
theorem number?_eq_some_iff {max : Nat} (hmax : max ≤ maxTimeout) {node : JsonNode} {n : Nat} :
    number? max node = some n ↔ IsNatural max node n := by
  constructor
  · intro h
    obtain ⟨i, hi, h⟩ := Option.bind_eq_some_iff.mp h
    split at h
    · next hrange =>
      obtain rfl := Option.some.inj h
      cases node with
      | number cs =>
        by_cases hminus : cs.head? = some '-'
        · obtain ⟨digits, rfl⟩ := List.head?_eq_some_iff.mp hminus
          have hneg := integer?_of_minus hi
          omega
        · rw [integer?_of_digits hminus] at hi
          obtain ⟨m, hm, rfl⟩ := Option.map_eq_some_iff.mp hi
          obtain ⟨hne, hdigits, rfl, -⟩ :=
            Numeral.magnitude_eq_ok_iff.mp (Except.toOption_eq_some_iff.mp hm)
          exact .digits hne hdigits (by simpa using hrange.2)
      | _ => cases hi
    · cases h
  · rintro @⟨cs, hne, hdigits, hle⟩
    have hread : Numeral.magnitude maxTimeout cs = .ok (digitsValue cs) :=
      Numeral.magnitude_eq_ok_iff.mpr ⟨hne, hdigits, rfl, Nat.le_trans hle hmax⟩
    have hminus : cs.head? ≠ some '-' := by
      intro h
      obtain ⟨rest, rfl⟩ := List.head?_eq_some_iff.mp h
      rw [List.all_cons, Bool.and_eq_true] at hdigits
      exact absurd hdigits.1 (by decide)
    rw [number?, integer?_of_digits hminus, hread]
    exact if_pos ⟨Int.natCast_nonneg _, Int.ofNat_le.mpr hle⟩

theorem value?_eq_some_iff {α : Type} {read? : JsonNode → Option α} {P : JsonNode → α → Prop}
    (hread : ∀ node a, read? node = some a ↔ P node a) (hnull : ∀ a, ¬P .null a)
    {node? : Option JsonNode} {a? : Option α} :
    value? read? node? = some a? ↔ Says P node? a? := by
  cases node? with
  | none => exact ⟨fun h => Option.some.inj h ▸ .absent, fun h => by cases h; rfl⟩
  | some node =>
    by_cases hnode : node = .null
    · subst hnode
      constructor
      · intro h
        exact Option.some.inj h ▸ .null
      · intro h
        cases h with
        | null => rfl
        | value h => exact absurd h (hnull _)
    · have hvalue : value? read? (some node) = (read? node).map some := by
        cases node with
        | null => exact absurd rfl hnode
        | _ => rfl
      rw [hvalue, Option.map_eq_some_iff]
      constructor
      · rintro ⟨a, ha, rfl⟩
        exact .value ((hread node a).mp ha)
      · intro h
        cases h with
        | null => exact absurd rfl hnode
        | value h => exact ⟨_, (hread node _).mpr h, rfl⟩

/-! ## Members -/

inductive IsMember (members : List (Option String × JsonNode)) (name : String) :
    Option JsonNode → Prop
  | absent (h : ∀ member ∈ members, member.1 ≠ some name) : IsMember members name none
  | once {pre post : List (Option String × JsonNode)} {node : JsonNode}
      (hmembers : members = pre ++ (some name, node) :: post)
      (hpre : ∀ member ∈ pre, member.1 ≠ some name)
      (hpost : ∀ member ∈ post, member.1 ≠ some name) : IsMember members name (some node)

theorem filter_named_eq_nil_iff {members : List (Option String × JsonNode)} {name : String} :
    (members.filter fun m => m.1 == some name) = [] ↔ ∀ m ∈ members, m.1 ≠ some name := by
  simp [List.filter_eq_nil_iff]

theorem member?_eq_some_iff {members : List (Option String × JsonNode)} {name : String}
    {node? : Option JsonNode} :
    member? members name = some node? ↔ IsMember members name node? := by
  constructor
  · intro h
    unfold member? at h
    split at h
    · next hnone => exact Option.some.inj h ▸ .absent (filter_named_eq_nil_iff.mp hnone)
    · next m hone =>
      obtain ⟨pre, post, rfl, hpre, hm, hpost⟩ := List.filter_eq_cons_iff.mp hone
      obtain rfl := Option.some.inj h
      have hname : (some name, m.2) = m := Prod.ext (eq_of_beq hm).symm rfl
      exact .once (by rw [hname]) (by simpa using hpre) (filter_named_eq_nil_iff.mp hpost)
    · cases h
  · intro h
    cases h with
    | absent habsent => rw [member?, filter_named_eq_nil_iff.mpr habsent]
    | @once pre post node hmembers hpre hpost =>
      have hone : (members.filter fun m => m.1 == some name) = [(some name, node)] := by
        rw [hmembers, List.filter_append, filter_named_eq_nil_iff.mpr hpre, List.nil_append,
          List.filter_cons_of_pos (by simp), filter_named_eq_nil_iff.mpr hpost]
      rw [member?, hone]

theorem mapM_member?_eq_some_iff {members : List (Option String × JsonNode)}
    {names : List String} {values : List (Option JsonNode)} :
    names.mapM (member? members) = some values ↔
      List.Forall₂ (IsMember members) names values := by
  induction names generalizing values with
  | nil =>
    change some [] = some values ↔ _
    rw [List.forall₂_nil_left_iff, Option.some.injEq, eq_comm]
  | cons name names ih =>
    rw [List.mapM_cons, List.forall₂_cons_left_iff]
    simp only [bind, Option.bind_eq_some_iff, pure, Option.some.injEq, member?_eq_some_iff, ih]
    constructor
    · rintro ⟨value, hvalue, rest, hrest, rfl⟩
      exact ⟨value, rest, hvalue, hrest, rfl⟩
    · rintro ⟨value, rest, hvalue, hrest, rfl⟩
      exact ⟨value, hvalue, rest, hrest, rfl⟩

/-! ## Sections -/

/-- Holding these values: nothing, an object with some of them, or a list of all in order. -/
inductive IsSection (names : List String) : JsonNode → List (Option JsonNode) → Prop
  | null : IsSection names .null (names.map fun _ => none)
  | object {members : List (Option String × JsonNode)} {values : List (Option JsonNode)}
      (hnamed : ∀ member ∈ members, member.1.isSome)
      (hvalues : List.Forall₂ (IsMember members) names values) :
      IsSection names (.object members) values
  | array {items : List JsonNode} (hlength : items.length = names.length) :
      IsSection names (.array items) (items.map some)

theorem section?_eq_some_iff {names : List String} {node : JsonNode}
    {values : List (Option JsonNode)} : section? names node = some values ↔
      IsSection names node values := by
  constructor
  · intro h
    cases node with
    | null => exact Option.some.inj h ▸ .null
    | object members =>
      rw [section?] at h
      split at h
      · next hnamed => exact .object (by simpa using hnamed) (mapM_member?_eq_some_iff.mp h)
      · cases h
    | array items =>
      rw [section?] at h
      split at h
      · next hlength => exact Option.some.inj h ▸ .array hlength
      · cases h
    | _ => cases h
  · intro h
    cases h with
    | null => rfl
    | object hnamed hvalues =>
      rw [section?, if_pos (by simpa using hnamed), mapM_member?_eq_some_iff.mpr hvalues]
    | array hlength => rw [section?, if_pos hlength]

/-! ## Documents -/

/-- Having no meaning, but a name with characters and a value that can be kept. -/
def IsIgnored (member : Option String × JsonNode) : Prop :=
  member.1.isSome = true ∧ member.2.isSound maxDepth = true

/-- Being a JSON document that sets these values and leaves the others open. -/
inductive Document : JsonNode → Layer → Prop
  | object {members : List (Option String × JsonNode)} {server query : Option JsonNode}
      {host portNumber defaultLimit maxLimit timeout : Option JsonNode} {layer : Layer}
      (hmembers : ∀ member ∈ members,
        member.1 = some "server" ∨ member.1 = some "query" ∨ IsIgnored member)
      (hserver : IsMember members "server" server)
      (hquery : IsMember members "query" query)
      (hserverValues : IsSection ["host", "port"] (server.getD .null) [host, portNumber])
      (hqueryValues : IsSection ["default_limit", "max_limit", "timeout_secs"]
        (query.getD .null) [defaultLimit, maxLimit, timeout])
      (hhost : Says IsText host layer.host)
      (hport : Says (IsNatural maxPort) portNumber layer.portNumber)
      (hdefault : Says (IsNatural maxLimitValue) defaultLimit layer.defaultLimit)
      (hmax : Says (IsNatural maxLimitValue) maxLimit layer.maxLimit)
      (htimeout : Says (IsNatural maxTimeout) timeout layer.timeout) :
      Document (.object members) layer

theorem isIgnorable_iff {member : Option String × JsonNode} :
    isIgnorable member = true ↔
      member.1 = some "server" ∨ member.1 = some "query" ∨ IsIgnored member := by
  simp only [isIgnorable, IsIgnored, Bool.or_eq_true, Bool.and_eq_true, beq_iff_eq, or_assoc]

theorem says_text_iff {node? : Option JsonNode} {s? : Option String} :
    value? text? node? = some s? ↔ Says IsText node? s? :=
  value?_eq_some_iff (fun _ _ => text?_eq_some_iff) (fun _ h => by cases h)

theorem says_natural_iff {max : Nat} (hmax : max ≤ maxTimeout) {node? : Option JsonNode}
    {n? : Option Nat} : value? (number? max) node? = some n? ↔ Says (IsNatural max) node? n? :=
  value?_eq_some_iff (fun _ _ => number?_eq_some_iff hmax) (fun _ h => by cases h)

theorem maxPort_le : maxPort ≤ maxTimeout := by decide

theorem maxLimitValue_le : maxLimitValue ≤ maxTimeout := by decide

theorem ofNode?_eq_some_iff {node : JsonNode} {layer : Layer} :
    ofNode? node = some layer ↔ Document node layer := by
  constructor
  · intro h
    cases node with
    | object members =>
      obtain ⟨_, hmembers, h⟩ := Option.bind_eq_some_iff.mp h
      obtain ⟨server, hserver, h⟩ := Option.bind_eq_some_iff.mp h
      obtain ⟨query, hquery, h⟩ := Option.bind_eq_some_iff.mp h
      obtain ⟨serverValues, hserverValues, h⟩ := Option.bind_eq_some_iff.mp h
      obtain ⟨queryValues, hqueryValues, h⟩ := Option.bind_eq_some_iff.mp h
      split at h
      · obtain ⟨host, hhost, h⟩ := Option.bind_eq_some_iff.mp h
        obtain ⟨portNumber, hport, h⟩ := Option.bind_eq_some_iff.mp h
        obtain ⟨defaultLimit, hdefault, h⟩ := Option.bind_eq_some_iff.mp h
        obtain ⟨maxLimit, hmax, h⟩ := Option.bind_eq_some_iff.mp h
        obtain ⟨timeout, htimeout, h⟩ := Option.bind_eq_some_iff.mp h
        obtain rfl := Option.some.inj h
        have hall : ∀ member ∈ members, isIgnorable member = true :=
          List.all_eq_true.mp ((Option.guard_eq_some' _).mp hmembers)
        exact .object (fun member hm => isIgnorable_iff.mp (hall member hm))
          (member?_eq_some_iff.mp hserver) (member?_eq_some_iff.mp hquery)
          (section?_eq_some_iff.mp hserverValues) (section?_eq_some_iff.mp hqueryValues)
          (says_text_iff.mp hhost) ((says_natural_iff maxPort_le).mp hport)
          ((says_natural_iff maxLimitValue_le).mp hdefault)
          ((says_natural_iff maxLimitValue_le).mp hmax)
          ((says_natural_iff (Nat.le_refl _)).mp htimeout)
      · cases h
    | _ => cases h
  · rintro @⟨members, server, query, host, portNumber, defaultLimit, maxLimit, timeout, layer,
      hmembers, hserver, hquery, hserverValues, hqueryValues, hhost, hport, hdefault, hmax,
      htimeout⟩
    have hall : members.all isIgnorable = true :=
      List.all_eq_true.mpr fun member hm => isIgnorable_iff.mpr (hmembers member hm)
    rw [ofNode?, hall, member?_eq_some_iff.mpr hserver, member?_eq_some_iff.mpr hquery]
    simp only [guard, if_true, bind, pure, Option.bind_some,
      (section?_eq_some_iff.mpr hserverValues), (section?_eq_some_iff.mpr hqueryValues),
      says_text_iff.mpr hhost, (says_natural_iff maxPort_le).mpr hport,
      (says_natural_iff maxLimitValue_le).mpr hdefault,
      (says_natural_iff maxLimitValue_le).mpr hmax,
      (says_natural_iff (Nat.le_refl maxTimeout)).mpr htimeout]

theorem ofText?_eq_some_iff {content : String} {layer : Layer} :
    ofText? content = some layer ↔
      ∃ node, JsonNode.read? content = some node ∧ Document node layer := by
  simp only [ofText?, Option.bind_eq_some_iff, ofNode?_eq_some_iff]

end InventorySearch.Command
