import Mathlib.Data.List.Basic
import InventorySearch.Command.Config

set_option autoImplicit false

/-!
# Where written paths lead

A path that a user writes leads somewhere below the home directory if it starts
with a tilde and one slash, and below the current directory if it is relative. It
does so by its steps: dots stay in it, and may lead out again.
-/
namespace InventorySearch.Command
open Text

/-! ## Steps -/

namespace Path

def steps (path : List Char) : List (List Char) :=
  (path.splitOn '/').filter fun piece => piece != [] && piece != ['.']

/-- Being at a directory or under it, step by step. -/
def Under (base path : List Char) : Prop := components base <+: components path

instance (base path : List Char) : Decidable (Under base path) :=
  inferInstanceAs (Decidable (_ <+: _))

theorem under_self (path : List Char) : Under path path := List.prefix_refl _

theorem components_of_isAbsolute {path : List Char} (h : isAbsolute path = true) :
    components path = ['/'] :: steps path := by
  rw [components]
  exact if_pos h

theorem steps_append_slash (front back : List Char) :
    steps (front ++ '/' :: back) = steps front ++ steps back := by
  have hsplit : (front ++ '/' :: back).splitOn '/' = front.splitOn '/' ++ back.splitOn '/' :=
    List.splitOnP_append_cons front back (beq_self_eq_true '/')
  rw [steps, hsplit, List.filter_append, steps, steps]

theorem steps_concat_slash (path : List Char) : steps (path ++ ['/']) = steps path := by
  have hnone : steps [] = [] := rfl
  rw [steps_append_slash, hnone, List.append_nil]

theorem isAbsolute_append {base : List Char} (h : isAbsolute base = true) (path : List Char) :
    isAbsolute (base ++ path) = true := by
  cases base with
  | nil => cases h
  | cons c cs => exact h

/-! ## Joining -/

theorem join_of_isAbsolute {path : List Char} (h : isAbsolute path = true) (base : List Char) :
    join base path = path :=
  if_pos h

theorem isAbsolute_join {base : List Char} (hbase : isAbsolute base = true) (path : List Char) :
    isAbsolute (join base path) = true := by
  unfold join
  split_ifs with hpath
  · exact hpath
  · exact isAbsolute_append hbase _
  · exact isAbsolute_append hbase _

/-- The slash between the two is added if the first does not end with one. -/
theorem steps_join {path : List Char} (hpath : isAbsolute path = false) {base : List Char}
    (hbase : isAbsolute base = true) : steps (join base path) = steps base ++ steps path := by
  obtain ⟨front, last, rfl⟩ : ∃ front last, base = front ++ [last] :=
    List.eq_nil_or_concat' base |>.resolve_left fun h => by simp [h, isAbsolute] at hbase
  rw [join, if_neg (by simp [hpath]), List.getLast?_concat]
  by_cases hlast : last = '/'
  · subst hlast
    rw [if_neg (by simp), List.append_assoc, List.singleton_append, steps_append_slash,
      steps_concat_slash]
  · rw [if_pos (by simpa using hlast), steps_append_slash]

theorem under_join {base : List Char} (hbase : isAbsolute base = true) {path : List Char}
    (hpath : isAbsolute path = false) : Under base (join base path) := by
  rw [Under, components_of_isAbsolute hbase, components_of_isAbsolute (isAbsolute_join hbase path),
    steps_join hpath hbase]
  exact List.prefix_append (['/'] :: steps base) (steps path)

end Path

/-! ## Expanding -/

namespace Surroundings
open InventorySearch.Command.Path
variable {s : Surroundings}

/-- What is left of a text that is not blank is taken from the current directory, unless the
replacement of the tilde has made it absolute. -/
theorem expand_eq {text : List Char} (h : trim text ≠ []) :
    s.expand text = join s.current (s.withoutTilde (trim text)) := by
  have hexpand : s.expand text =
      if isAbsolute (s.withoutTilde (trim text)) then s.withoutTilde (trim text)
      else join s.current (s.withoutTilde (trim text)) := by
    unfold expand
    split
    · next hnil => exact absurd hnil h
    · rfl
  rw [hexpand]
  split_ifs with habsolute
  · exact (join_of_isAbsolute habsolute _).symm
  · rfl

theorem expand_blank {text : List Char} (h : trim text = []) : s.expand text = s.current := by
  unfold expand
  rw [h]

theorem isAbsolute_expand (hcurrent : isAbsolute s.current = true) (text : List Char) :
    isAbsolute (s.expand text) = true := by
  by_cases h : trim text = []
  · rw [expand_blank h]
    exact hcurrent
  · rw [expand_eq h]
    exact isAbsolute_join hcurrent _

theorem withoutTilde_eq_self {path : List Char} (halone : path ≠ ['~'])
    (hslash : ¬ ['~', '/'] <+: path) : s.withoutTilde path = path := by
  unfold withoutTilde
  split
  · exact absurd rfl halone
  · next _ rest _ => exact absurd (List.prefix_append ['~', '/'] rest) hslash
  · rfl

theorem under_current (hcurrent : isAbsolute s.current = true) {text : List Char}
    (halone : trim text ≠ ['~']) (hslash : ¬ ['~', '/'] <+: trim text)
    (hrelative : isAbsolute (trim text) = false) : Under s.current (s.expand text) := by
  by_cases h : trim text = []
  · rw [expand_blank h]
    exact under_self _
  · rw [expand_eq h, withoutTilde_eq_self halone hslash]
    exact under_join hcurrent hrelative

variable {home : List Char} (hhome : s.home? = some home)
include hhome

theorem expand_tilde (habsolute : isAbsolute home = true) {text : List Char}
    (h : trim text = ['~']) : s.expand text = home := by
  have htilde : s.withoutTilde ['~'] = home := by
    simp [withoutTilde, hhome]
  rw [expand_eq (by rw [h]; exact List.cons_ne_nil _ _), h, htilde,
    join_of_isAbsolute habsolute]

theorem expand_tilde_slash (habsolute : isAbsolute home = true) {text rest : List Char}
    (h : trim text = '~' :: '/' :: rest) : s.expand text = join home rest := by
  have htilde : s.withoutTilde ('~' :: '/' :: rest) = join home rest := by
    simp [withoutTilde, hhome]
  rw [expand_eq (by rw [h]; exact List.cons_ne_nil _ _), h, htilde,
    join_of_isAbsolute (isAbsolute_join habsolute rest)]

/-- A written path leads to an absolute one, which is at the home directory or under it for a
tilde that is alone or has one slash behind it, and at the current directory or under it for a
relative path. Of a tilde with more slashes nothing is left but the path from the second slash
on. -/
theorem expand_leads (habsolute : isAbsolute home = true)
    (hcurrent : isAbsolute s.current = true) (text : List Char) :
    isAbsolute (s.expand text) = true ∧
    (trim text = ['~'] → Under home (s.expand text)) ∧
    (∀ rest, trim text = '~' :: '/' :: rest →
      (isAbsolute rest = false → Under home (s.expand text)) ∧
      (isAbsolute rest = true → s.expand text = rest)) ∧
    (trim text ≠ ['~'] → ¬ ['~', '/'] <+: trim text → isAbsolute (trim text) = false →
      Under s.current (s.expand text)) := by
  refine ⟨isAbsolute_expand hcurrent text, fun h => ?_, fun rest h => ⟨fun hrest => ?_,
    fun hrest => ?_⟩, under_current hcurrent⟩
  · rw [expand_tilde hhome habsolute h]
    exact under_self home
  · rw [expand_tilde_slash hhome habsolute h]
    exact under_join habsolute hrest
  · rw [expand_tilde_slash hhome habsolute h]
    exact join_of_isAbsolute hrest home

end Surroundings

/-! ## A home and a working directory -/

def atWork : Surroundings := ⟨"/srv/work".toList, some "/home/kim".toList⟩

theorem expand_atWork :
    Path.Under "/home/kim".toList (atWork.expand "  ~/./conf//db ".toList) ∧
      Path.Under "/srv/work".toList (atWork.expand "~kim/conf".toList) := by
  have htilde := Surroundings.expand_leads (s := atWork) rfl (by decide) (by decide)
    "  ~/./conf//db ".toList
  have huser := Surroundings.expand_leads (s := atWork) rfl (by decide) (by decide)
    "~kim/conf".toList
  exact ⟨(htilde.2.2.1 _ rfl).1 rfl, huser.2.2.2 (by decide) (by decide) (by decide)⟩

/-- With a second slash the home directory is lost. -/
theorem expand_second_slash :
    Path.isAbsolute "/home/kim".toList = true ∧ Path.isAbsolute atWork.current = true ∧
      ['~', '/'] <+: trim "~//etc".toList ∧
      ¬ Path.Under "/home/kim".toList (atWork.expand "~//etc".toList) := by
  decide

end InventorySearch.Command
