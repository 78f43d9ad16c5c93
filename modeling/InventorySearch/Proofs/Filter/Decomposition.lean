import InventorySearch.Proofs.Filter.Reading

set_option autoImplicit false

/-!
# Parts of expressions

How derivations are put together from parts, where in an expression a unit can stand,
and in how many ways a derived text can be taken apart.
-/
namespace InventorySearch.Filter

/-!
## Sequences of units

Two derivations with a pivot between them make one, and its tree is put together from
what comes first and what follows: an "or" closes all that stands in front of it, and an
"and" goes on with the last run. A derivation without "or" outside of brackets is one run.
-/

/-! ### Joining units in two steps -/

theorem joinRuns_append_or (before : Option Restriction) (run next : Restriction)
    (units more : List (Pivot × Restriction)) :
    joinRuns before run (units ++ (.or, next) :: more) =
      joinRuns (some (joinRuns before run units)) next more := by
  induction units generalizing before run with
  | nil => rfl
  | cons unit units ih =>
    obtain ⟨pivot, following⟩ := unit
    cases pivot with
    | and => exact ih before (.and run following)
    | or => exact ih (some (closeRun before run)) following

theorem joinRuns_append_of_and {units : List (Pivot × Restriction)}
    (h : ∀ unit ∈ units, unit.1 = .and) (before : Option Restriction) (run : Restriction)
    (more : List (Pivot × Restriction)) :
    joinRuns before run (units ++ more) = joinRuns before (joinRuns none run units) more := by
  induction units generalizing run with
  | nil => rfl
  | cons unit units ih =>
    obtain ⟨pivot, following⟩ := unit
    obtain ⟨hpivot, hunits⟩ := List.forall_mem_cons.mp h
    obtain rfl : pivot = .and := hpivot
    exact ih hunits (.and run following)

theorem joinRuns_of_and {units : List (Pivot × Restriction)}
    (h : ∀ unit ∈ units, unit.1 = .and) (before : Option Restriction) (run : Restriction) :
    joinRuns before run units = closeRun before (joinRuns none run units) := by
  have happend := joinRuns_append_of_and h before run []
  rwa [List.append_nil] at happend

/-! ### Derivations in two parts -/

def Phrase.append : Phrase → Pivot → Phrase → Phrase
  | .last f, pivot, q => .join f pivot q
  | .join f between rest, pivot, q => .join f between (rest.append pivot q)

def Phrase.IsRun : Phrase → Prop
  | .last _ => True
  | .join _ pivot rest => pivot = .and ∧ rest.IsRun

namespace Phrase

theorem chars_append (p : Phrase) (pivot : Pivot) (q : Phrase) :
    (p.append pivot q).chars = p.chars ++ pivot.mark :: q.chars := by
  cases p with
  | last f => rfl
  | join f between rest =>
    rw [append, chars, chars, rest.chars_append pivot q, List.append_assoc, List.cons_append]

theorem fragments_append (p : Phrase) (pivot : Pivot) (q : Phrase) :
    (p.append pivot q).fragments = p.fragments ++ q.fragments := by
  cases p with
  | last f => rfl
  | join f between rest =>
    rw [append, fragments, fragments, rest.fragments_append pivot q, List.append_assoc]

section
variable {leaf : List Char → Restriction}

theorem units_append (p : Phrase) (pivot : Pivot) (q : Phrase) : (p.append pivot q).units leaf =
    ((p.units leaf).1, (p.units leaf).2 ++ (pivot, (q.units leaf).1) :: (q.units leaf).2) := by
  cases p with
  | last f => rfl
  | join f between rest => rw [append, units, units, rest.units_append pivot q, List.cons_append]

theorem IsRun.and_of_mem_units : ∀ {p : Phrase}, p.IsRun →
    ∀ unit ∈ (p.units leaf).2, unit.1 = .and
  | .last f, _ => nofun
  | .join f pivot rest, h => by
    rw [units]
    exact List.forall_mem_cons.mpr ⟨h.1, h.2.and_of_mem_units⟩

theorem IsRun.append : ∀ {p q : Phrase}, p.IsRun → q.IsRun → (p.append .and q).IsRun
  | .last _, _, _, hq => ⟨rfl, hq⟩
  | .join _ _ _, _, hp, hq => ⟨hp.1, hp.2.append hq⟩

theorem tree_eq_joinRuns (p : Phrase) :
    p.tree leaf = joinRuns none (p.units leaf).1 (p.units leaf).2 := by
  rw [joinRuns_none, tree]

theorem tree_group (p : Phrase) : (Factor.group p).tree leaf = p.tree leaf := by
  rw [Factor.tree, tree]

theorem tree_last (f : Factor) : (last f).tree leaf = f.tree leaf := rfl

theorem tree_append_and {p : Phrase} (hp : p.IsRun) (f : Factor) :
    (p.append .and (.last f)).tree leaf = .and (p.tree leaf) (f.tree leaf) := by
  rw [tree_eq_joinRuns, units_append, joinRuns_append_of_and hp.and_of_mem_units,
    ← tree_eq_joinRuns]
  rfl

theorem tree_append_or {q : Phrase} (hq : q.IsRun) (p : Phrase) :
    (p.append .or q).tree leaf = .or (p.tree leaf) (q.tree leaf) := by
  rw [tree_eq_joinRuns, units_append, joinRuns_append_or, ← tree_eq_joinRuns,
    joinRuns_of_and hq.and_of_mem_units, ← tree_eq_joinRuns]
  rfl

end
end Phrase

/-!
## Places of units

Between which characters of an expression a unit can stand. What the parser reads is
always delimited in this way, in the whole expression and not only in its level.
-/

open Text

/-- Whether a unit can start behind a text. -/
def StartsUnit (before : List Char) : Prop := ∀ c ∈ before.getLast?, c ∈ ['(', ';', ',']

def EndsUnit (after : List Char) : Prop := ∀ c ∈ after.head?, c ∈ [')', ';', ',']

theorem StartsUnit.not_isPlain {before : List Char} (h : StartsUnit before) :
    ∀ c ∈ before.getLast?, isPlain c = false := by
  have hmarks : ∀ c ∈ ['(', ';', ','], isPlain c = false := by simp [isPlain]
  exact fun c hc => hmarks c (h c hc)

theorem EndsUnit.not_isPlain {after : List Char} (h : EndsUnit after) :
    ∀ c ∈ after.head?, isPlain c = false := by
  have hmarks : ∀ c ∈ [')', ';', ','], isPlain c = false := by simp [isPlain]
  exact fun c hc => hmarks c (h c hc)

/-- Whether a text stands at a byte of an expression, from where a unit can start to where one
can end. -/
def Delimited (query : String) (offset : Nat) (text : List Char) : Prop :=
  ∃ before after, query.toList = before ++ text ++ after ∧ offset = byteLength before ∧
    StartsUnit before ∧ EndsUnit after

theorem startsUnit_concat {before : List Char} {c : Char} (h : c ∈ ['(', ';', ',']) :
    StartsUnit (before ++ [c]) := by
  intro d hd
  rw [List.getLast?_concat, Option.mem_some_iff] at hd
  exact hd ▸ h

theorem endsUnit_cons {after : List Char} {c : Char} (h : c ∈ [')', ';', ',']) :
    EndsUnit (c :: after) := by
  intro d hd
  rw [List.head?_cons, Option.mem_some_iff] at hd
  exact hd ▸ h

theorem startsUnit_mark (before : List Char) (pivot : Pivot) :
    StartsUnit (before ++ [pivot.mark]) :=
  startsUnit_concat (by cases pivot <;> decide)

theorem endsUnit_mark (pivot : Pivot) (after : List Char) : EndsUnit (pivot.mark :: after) :=
  endsUnit_cons (by cases pivot <;> decide)

theorem utf8Size_mark (pivot : Pivot) : pivot.mark.utf8Size = 1 := by
  cases pivot <;> rfl

section
variable {query : String} {offset : Nat} {done enclosed rest behind : List Char} {pivot : Pivot}

theorem Delimited.first (h : Delimited query offset (done ++ pivot.mark :: behind)) :
    Delimited query offset done := by
  obtain ⟨before, after, heq, hoffset, hstarts, -⟩ := h
  exact ⟨before, pivot.mark :: behind ++ after, by simp [heq], hoffset, hstarts,
    endsUnit_mark pivot _⟩

theorem Delimited.following (h : Delimited query offset (done ++ pivot.mark :: behind)) :
    Delimited query (offset + byteLength done + 1) behind := by
  obtain ⟨before, after, heq, rfl, -, hends⟩ := h
  refine ⟨before ++ done ++ [pivot.mark], after, by simp [heq], ?_, startsUnit_mark _ pivot, hends⟩
  simp [utf8Size_mark, Nat.add_assoc]

theorem Delimited.inside (h : Delimited query offset ('(' :: (enclosed ++ ')' :: rest))) :
    Delimited query (offset + 1) enclosed := by
  obtain ⟨before, after, heq, rfl, -, -⟩ := h
  refine ⟨before ++ ['('], ')' :: rest ++ after, by simp [heq], ?_,
    startsUnit_concat (by decide), endsUnit_cons (by decide)⟩
  rw [byteLength_append]
  rfl

end

/-!
## Parts of derived texts

The text of a derivation can be taken apart in one way only: what starts with the text of
a unit, and goes on as behind a unit, starts with that unit, and a part that is well-bracketed
stands between two units of one level or within a bracket.
-/

theorem Fragment.eq_of_chars_eq {f g : Fragment} (h : f.chars = g.chars) : f = g := by
  cases f
  cases g
  cases h
  rfl

theorem Pivot.mark_inj {pivot pivot' : Pivot} (h : pivot.mark = pivot'.mark) : pivot = pivot' := by
  have hself : Pivot.ofChar? pivot.mark = some pivot := Pivot.ofChar?_eq_some_iff.mpr rfl
  exact Option.some.inj (hself.symm.trans (Pivot.ofChar?_eq_some_iff.mpr h))

mutual

/-- The unit at the start of a text is determined, and so is what follows it. -/
theorem Factor.eq_of_append_eq : ∀ (f g : Factor) {after rest : List Char},
    f.chars ++ after = g.chars ++ rest → EndsUnit after → EndsUnit rest → f = g ∧ after = rest
  | .fragment f, .fragment g, after, rest, h, hafter, hrest => by
    have hchars := congrArg (List.takeWhile isPlain) h
    rw [Factor.chars, Factor.chars, takeWhile_plain f.plain hafter.not_isPlain,
      takeWhile_plain g.plain hrest.not_isPlain] at hchars
    obtain rfl := Fragment.eq_of_chars_eq hchars
    exact ⟨rfl, List.append_cancel_left h⟩
  | .fragment f, .group _, after, _, h, _, _ => absurd h (f.ne_open after _)
  | .group _, .fragment g, _, rest, h, _, _ => absurd h.symm (g.ne_open rest _)
  | .group p, .group q, after, rest, h, _, _ => by
    have htext : p.chars ++ ')' :: after = q.chars ++ ')' :: rest := by
      simpa [Factor.chars] using h
    have hsplit := congrArg (splitClose 0) htext
    rw [splitClose_zero_balanced p.balanced, splitClose_zero_balanced q.balanced] at hsplit
    obtain ⟨hchars, rfl⟩ := Prod.mk.inj (Option.some.inj hsplit)
    rcases @Phrase.eq_append_of_prefix p q [] (by simpa using hchars) nofun with
      ⟨-, rfl⟩ | ⟨_, _, h, -⟩
    · exact ⟨rfl, rfl⟩
    · cases h

theorem Phrase.eq_append_of_prefix : ∀ (p q : Phrase) {after : List Char},
    p.chars ++ after = q.chars → EndsUnit after → (after = [] ∧ q = p) ∨
      ∃ pivot rest, after = pivot.mark :: rest.chars ∧ q = p.append pivot rest
  | .last f, .last g, after, h, hafter => by
    obtain ⟨rfl, rfl⟩ := @Factor.eq_of_append_eq f g after [] (by simpa [Phrase.chars] using h)
      hafter nofun
    exact .inl ⟨rfl, rfl⟩
  | .last f, .join g pivot rest, after, h, hafter => by
    obtain ⟨rfl, rfl⟩ := f.eq_of_append_eq g h hafter (endsUnit_mark pivot _)
    exact .inr ⟨pivot, rest, rfl, rfl⟩
  | .join f pivot rest, .last g, after, h, _ => by
    have htext : f.chars ++ pivot.mark :: (rest.chars ++ after) = g.chars ++ [] := by
      simpa [Phrase.chars] using h
    cases (f.eq_of_append_eq g htext (endsUnit_mark pivot _) nofun).2
  | .join f pivot rest, .join g pivot' rest', after, h, hafter => by
    have htext : f.chars ++ pivot.mark :: (rest.chars ++ after) =
        g.chars ++ pivot'.mark :: rest'.chars := by
      simpa [Phrase.chars] using h
    obtain ⟨rfl, htail⟩ :=
      f.eq_of_append_eq g htext (endsUnit_mark pivot _) (endsUnit_mark pivot' _)
    obtain ⟨hmark, hrest⟩ := List.cons.inj htail
    obtain rfl := Pivot.mark_inj hmark
    rcases rest.eq_append_of_prefix rest' hrest hafter with ⟨rfl, rfl⟩ | ⟨pivot', more, rfl, rfl⟩
    · exact .inl ⟨rfl, rfl⟩
    · exact .inr ⟨pivot', more, rfl, rfl⟩

end

/-- A text has one derivation at most. -/
theorem Phrase.chars_injective : Function.Injective Phrase.chars := by
  intro p q h
  rcases @Phrase.eq_append_of_prefix p q [] (by simpa using h) nofun with ⟨-, rfl⟩ | ⟨_, _, h, -⟩
  · rfl
  · cases h

/-! ### Parts within a bracket -/

theorem exists_inside {p : Phrase} {before inside after following : List Char}
    (h : '(' :: (p.chars ++ ')' :: following) = before ++ inside ++ after) (hne : before ≠ [])
    (hlt : before.length ≤ p.chars.length + 1) (hinside : WellBracketed inside) :
    ∃ start stop, before = '(' :: start ∧ after = stop ++ ')' :: following ∧
      p.chars = start ++ inside ++ stop := by
  obtain ⟨start, rfl⟩ : ∃ start, before = '(' :: start := by
    cases before with
    | nil => exact absurd rfl hne
    | cons c start =>
      obtain ⟨rfl, -⟩ := List.cons.inj h
      exact ⟨start, rfl⟩
  have htext : p.chars ++ ')' :: following = start ++ (inside ++ after) := by simpa using h
  obtain ⟨level, hlevel, hrest⟩ :
      ∃ level, p.chars = start ++ level ∧ inside ++ after = level ++ ')' :: following := by
    rcases List.append_eq_append_iff.mp htext with ⟨more, rfl, hrest⟩ | ⟨level, hlevel, hrest⟩
    · rw [List.length_cons, List.length_append] at hlt
      obtain rfl : more = [] := List.length_eq_zero_iff.mp (by omega)
      exact ⟨[], by simp, hrest.symm⟩
    · exact ⟨level, hlevel, hrest⟩
  rcases List.append_eq_append_iff.mp hrest with ⟨stop, rfl, hafter⟩ | ⟨more, rfl, hmore⟩
  · exact ⟨start, stop, rfl, hafter, by rw [hlevel, List.append_assoc]⟩
  · cases more with
    | nil => exact ⟨start, [], rfl, hmore.symm, by simpa using hlevel⟩
    | cons c more =>
      obtain ⟨rfl, -⟩ := List.cons.inj hmore
      have hp := p.balanced.wellBracketed
      rw [hlevel] at hp
      exact absurd hinside.within (@WellBracketed.not_within_close start level hp more)

end InventorySearch.Filter
