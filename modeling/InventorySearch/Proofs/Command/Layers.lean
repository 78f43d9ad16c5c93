import InventorySearch.Proofs.Api.Requests
import InventorySearch.Proofs.Command.Documents

set_option autoImplicit false

/-!
# Layered settings

A setting is what the first source says that sets it: the options, then the file that
they name or the local one, then the file in the home directory, then the defaults.
Only what comes out is checked, and what is let pass gives every list a number of rows
in range.
-/
namespace InventorySearch.Command
open Text

/-! ## Sources -/

/-- What a file sets: nothing if it is not there. -/
inductive Sets (files : String → Entry) (path : String) : Layer → Prop
  | missing (h : files path = .missing) : Sets files path .empty
  | document {content : String} {node : JsonNode} {layer : Layer}
      (hfile : files path = .text content) (hread : JsonNode.read? content = some node)
      (hnode : Document node layer) : Sets files path layer

/-- The files that a run reads are well-formed and set these values, and a file that the options
name is there. -/
structure Sources (surroundings : Surroundings) (files : String → Entry) (options : Options)
    (main profile : Layer) : Prop where
  main : Sets files (Config.mainPath surroundings options) main
  named : options.config.isSome = true →
    files (Config.mainPath surroundings options) ≠ .missing
  homeless : Config.profilePath? surroundings = none → profile = .empty
  profile : ∀ path, Config.profilePath? surroundings = some path → Sets files path profile

def firstSet {α : Type} (layers : List Layer) (value? : Layer → Option α) (default : α) : α :=
  (layers.findSome? value?).getD default

theorem firstSet_cons {α : Type} (layer : Layer) (layers : List Layer)
    (value? : Layer → Option α) (default : α) :
    firstSet (layer :: layers) value? default =
      (value? layer).getD (firstSet layers value? default) := by
  rw [firstSet, List.findSome?_cons]
  cases value? layer <;> rfl

namespace Settings

/-- Each setting for itself, from the first layer that sets it. -/
def resolved (layers : List Layer) : Settings where
  host := firstSet layers Layer.host "127.0.0.1"
  portNumber := firstSet layers Layer.portNumber 8980
  limits := ⟨firstSet layers Layer.defaultLimit 10, firstSet layers Layer.maxLimit 1000⟩
  timeout := firstSet layers Layer.timeout 30

theorem ofLayer_above (upper middle lower : Layer) :
    ofLayer (upper.above (middle.above lower)) = resolved [upper, middle, lower] := by
  simp only [ofLayer, Layer.above, resolved, firstSet_cons, Option.getD_or]
  rfl

end Settings

/-! ## Files -/

namespace Config

variable {surroundings : Surroundings} {files : String → Entry} {options : Options}
  {main profile : Layer}

theorem readFile_eq_ok_iff {path : String} {layer : Layer} :
    readFile files path = .ok layer ↔ Sets files path layer := by
  constructor
  · intro h
    unfold readFile at h
    split at h
    · next hfile => exact Except.ok.inj h ▸ .missing hfile
    · cases h
    · next content hfile =>
      split at h
      · next layer' htext =>
        obtain rfl := Except.ok.inj h
        obtain ⟨node, hread, hnode⟩ := ofText?_eq_some_iff.mp htext
        exact .document hfile hread hnode
      · cases h
  · intro h
    cases h with
    | missing hfile => rw [readFile, hfile]
    | document hfile hread hnode =>
      rw [readFile, hfile]
      simp only [ofText?_eq_some_iff.mpr ⟨_, hread, hnode⟩]

theorem readFiles_eq_ok (h : Sources surroundings files options main profile) :
    readFiles surroundings files options = .ok (main.above profile) := by
  have hmain := readFile_eq_ok_iff.mpr h.main
  have hnamed : ¬(options.config.isSome = true ∧
      files (mainPath surroundings options) = .missing) :=
    fun hboth => h.named hboth.1 hboth.2
  cases hpath : profilePath? surroundings with
  | none =>
    rw [readFiles, hpath, h.homeless hpath]
    simp only [if_neg hnamed, hmain]
    rfl
  | some path =>
    rw [readFiles, hpath]
    simp only [readFile_eq_ok_iff.mpr (h.profile path hpath), if_neg hnamed, hmain]
    rfl

/-- Of well-formed files the settings are loaded if what comes first is valid. -/
theorem load_eq_ok_iff (h : Sources surroundings files options main profile)
    {settings : Settings} :
    load surroundings files options = .ok settings ↔
      settings = Settings.resolved [options.layer, main, profile] ∧ settings.Valid := by
  rw [← Settings.ofLayer_above]
  constructor
  · intro hload
    obtain ⟨layer, hlayer, hload⟩ := Except.exists_of_bind_eq_ok hload
    obtain rfl := Except.ok.inj ((readFiles_eq_ok h).symm.trans hlayer)
    dsimp only at hload
    split at hload
    · cases hload
    · next hfault =>
      obtain rfl := Except.ok.inj hload
      exact ⟨rfl, Settings.fault?_eq_none_iff.mp hfault⟩
  · rintro ⟨rfl, hvalid⟩
    rw [load, readFiles_eq_ok h]
    simp only [bind, Except.bind, Settings.fault?_eq_none_iff.mpr hvalid]
    rfl

/-! ## Loading -/

/-- Settings are what comes first among the options, the main file, the file in the home
directory and the defaults, and are loaded if they are valid, whatever they hide. Under loaded
settings lists ask for a number of rows in range, and may leave it out. -/
theorem load_layered (h : Sources surroundings files options main profile) :
    ((∃ settings, load surroundings files options = .ok settings) ↔
      (Settings.resolved [options.layer, main, profile]).Valid) ∧
    ∀ settings, load surroundings files options = .ok settings →
      settings = Settings.resolved [options.layer, main, profile] ∧
      (∀ query request, Api.requestOfQuery settings.limits query = .ok request →
        1 ≤ request.limit ∧ request.limit ≤ settings.limits.max) ∧
      ∀ query added, Api.AddsLimit query added →
        (∃ request, Api.requestOfQuery settings.limits added = .ok request) →
        ∃ request, Api.requestOfQuery settings.limits query = .ok request := by
  refine ⟨⟨?_, ?_⟩, ?_⟩
  · rintro ⟨settings, hload⟩
    obtain ⟨rfl, hvalid⟩ := (load_eq_ok_iff h).mp hload
    exact hvalid
  · exact fun hvalid => ⟨_, (load_eq_ok_iff h).mpr ⟨rfl, hvalid⟩⟩
  · intro settings hload
    obtain ⟨hsettings, hvalid⟩ := (load_eq_ok_iff h).mp hload
    refine ⟨hsettings, ?_, ?_⟩
    · exact fun query request => Api.limit_of_requestOfQuery hvalid.limits
    · rintro query added hadds ⟨request, hrequest⟩
      exact ⟨_, Api.requestOfQuery_of_addsLimit hvalid.limits hadds hrequest⟩

/-! A local file without rows, and one at home with the port 0, under options that hide both. -/

def atHome : Surroundings := ⟨['/'], some "/root".toList⟩

def hiddenFiles (path : String) : Entry :=
  if path = "nmsquery.json" then
    .text "\x7b\"server\": null, \"query\": \x7b\"default_limit\": 20, \"max_limit\": 0\x7d\x7d"
  else if path = "/root/.nmsquery/nmsquery.json" then
    .text "\x7b\"server\": \x7b\"host\": \"::1\", \"port\": 0\x7d, \"query\": [50, null, 5]\x7d"
  else .missing

def hidingOptions : Options := ⟨⟨none, some 9000, none, some 200, none⟩, none⟩

theorem sources_hidden : Sources atHome hiddenFiles hidingOptions
    ⟨none, none, some 20, some 0, none⟩ ⟨some "::1", some 0, some 50, none, some 5⟩ where
  main := readFile_eq_ok_iff.mp (by decide +kernel)
  named h := by cases h
  homeless h := by cases h
  profile path h := by
    obtain rfl := Option.some.inj h
    exact readFile_eq_ok_iff.mp (by decide +kernel)

theorem load_layered_hidden :
    Sources atHome hiddenFiles hidingOptions
      ⟨none, none, some 20, some 0, none⟩ ⟨some "::1", some 0, some 50, none, some 5⟩ ∧
    (∃ settings, load atHome hiddenFiles hidingOptions = .ok settings) ∧
    ∀ settings, load atHome hiddenFiles hidingOptions = .ok settings →
      settings = ⟨"::1", 9000, ⟨20, 200⟩, 5⟩ ∧
      ∃ request, Api.requestOfQuery settings.limits "offset=3" = .ok request := by
  refine ⟨sources_hidden, (load_layered sources_hidden).1.mpr ?_, ?_⟩
  · exact ⟨by decide, by decide, ⟨by decide, by decide⟩, by decide⟩
  · intro settings hload
    obtain ⟨rfl, -, hleave⟩ := (load_layered sources_hidden).2 settings hload
    refine ⟨rfl, hleave "offset=3" "offset=3&limit=1" (Api.addsLimit_append ?_) ?_⟩
    · decide +kernel
    · exact ⟨⟨"", 1, 3, "", .asc⟩, by decide +kernel⟩

end Config

end InventorySearch.Command
