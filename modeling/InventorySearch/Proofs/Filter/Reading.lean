import Mathlib.Data.List.TakeWhile
import InventorySearch.Proofs.Filter.Grammar
import InventorySearch.Proofs.Filter.Matching
import InventorySearch.Proofs.Filter.Shape
import InventorySearch.Proofs.Outcome

set_option autoImplicit false

/-!
# Reading derived texts

What the parser makes of a text is what its derivation says, fragment by fragment and
fault by fault; and a text that the parser accepts has a derivation. The brackets that
the parser takes off at once are groups like all others.
-/
namespace InventorySearch.Filter

variable {coerce : Coercer}

/-! ## One step of the parser -/

theorem readUnits_unclosed {rest : List Char} (h : splitClose 0 rest = none)
    (level : List Char) (offset : Nat) :
    readUnits coerce level offset ('(' :: rest) = .error (.unmatchedOpen offset) := by
  rw [readUnits]
  split <;> simp_all

theorem readUnits_group {rest inside : List Char} (h : splitClose 0 rest = some (inside, []))
    (level : List Char) (offset : Nat) :
    readUnits coerce level offset ('(' :: rest) =
      (readExpression coerce (offset + 1) inside).map fun group => ([group], []) := by
  rw [readUnits]
  split <;> simp_all
  rfl

theorem readUnits_group_found {rest inside following : List Char} {found : Char}
    (h : splitClose 0 rest = some (inside, found :: following))
    (level : List Char) (offset : Nat) :
    readUnits coerce level offset ('(' :: rest) = do
      let group ← readExpression coerce (offset + 1) inside
      match Pivot.ofChar? found with
      | none => .error (.illegalPivot found (offset + 1 + Text.byteLength inside + 1))
      | some pivot =>
        let (components, pivots) ←
          readUnits coerce level (offset + 1 + Text.byteLength inside + 1 + 1) following
        return (group :: components, pivot :: pivots) := by
  rw [readUnits]
  split
  · simp_all
  · simp_all
  · next heq =>
    obtain ⟨rfl, rfl, rfl⟩ : _ = inside ∧ _ = found ∧ _ = following := by
      simpa using heq.symm.trans h
    rfl

theorem readUnits_group_pivot {rest inside following : List Char} {pivot : Pivot}
    (h : splitClose 0 rest = some (inside, pivot.mark :: following))
    (level : List Char) (offset : Nat) :
    ∃ next, readUnits coerce level offset ('(' :: rest) = do
      let group ← readExpression coerce (offset + 1) inside
      let (components, pivots) ← readUnits coerce level next following
      return (group :: components, pivot :: pivots) := by
  refine ⟨offset + 1 + Text.byteLength inside + 1 + 1, ?_⟩
  rw [readUnits_group_found h, Pivot.ofChar?_eq_some_iff.2 rfl]

theorem readUnits_fragment {text : List Char} (h : ∀ c ∈ text, isPlain c = true)
    (level : List Char) (offset : Nat) :
    readUnits coerce level offset text =
      (Primitive.read coerce offset text).map fun primitive => ([primitive], []) := by
  have hopen : ∀ rest, text ≠ '(' :: rest := by
    rintro rest rfl
    exact absurd (h '(' (by simp)) (by decide)
  have htake : text.takeWhile isPlain = text := List.takeWhile_eq_self_iff.2 h
  have hdrop : text.dropWhile isPlain = [] := List.dropWhile_eq_nil_iff.2 h
  rw [readUnits.eq_def]
  split
  · next rest => exact absurd rfl (hopen rest)
  · simp only [htake]
    split <;> simp_all
    rfl

theorem readUnits_mark {text following : List Char} {found : Char}
    (hopen : ∀ rest, text = '(' :: rest → False)
    (hdrop : text.dropWhile isPlain = found :: following) (level : List Char) (offset : Nat) :
    (∀ pivot, Pivot.ofChar? found = some pivot →
      readUnits coerce level offset text = do
        let primitive ← Primitive.read coerce offset (text.takeWhile isPlain)
        let (components, pivots) ←
          readUnits coerce level (offset + Text.byteLength (text.takeWhile isPlain) + 1) following
        return (primitive :: components, pivot :: pivots)) ∧
    (Pivot.ofChar? found = none → readUnits coerce level offset text =
      let stop := offset + Text.byteLength (text.takeWhile isPlain)
      if found = ')' then .error (.strayClose (String.ofList level) stop)
      else
        match (text.takeWhile isPlain).getLast? with
        | some last => .error (.illegalPivot last (stop - last.utf8Size))
        | none => .error (.unexpected s!"no character before bracket at index {stop}")) := by
  have hread : readUnits coerce level offset text = readUnits coerce level offset text := rfl
  conv at hread => rhs; rw [readUnits.eq_def]
  split at hread
  · next rest => exact absurd rfl (hopen rest)
  · simp only at hread
    split at hread
    · next heq => simp [hdrop] at heq
    · next found' following' heq =>
      obtain ⟨rfl, rfl⟩ := List.cons.inj (hdrop.symm.trans heq)
      refine ⟨fun pivot hpivot => by rw [hread, hpivot], fun hnone => ?_⟩
      rw [hnone] at hread
      exact hread

theorem readUnits_error_of_mark {text following : List Char} {found : Char}
    (hopen : ∀ rest, text = '(' :: rest → False)
    (hdrop : text.dropWhile isPlain = found :: following) (hnone : Pivot.ofChar? found = none)
    (level : List Char) (offset : Nat) : ∃ e, readUnits coerce level offset text = .error e := by
  rw [(readUnits_mark hopen hdrop level offset).2 hnone]
  dsimp only
  split
  · exact ⟨_, rfl⟩
  · split <;> exact ⟨_, rfl⟩

theorem takeWhile_plain {cs after : List Char} (h : ∀ c ∈ cs, isPlain c = true)
    (hafter : ∀ c ∈ after.head?, isPlain c = false) : (cs ++ after).takeWhile isPlain = cs := by
  rw [List.takeWhile_append_of_pos h]
  cases after with
  | nil => rw [List.takeWhile_nil, List.append_nil]
  | cons c after => rw [List.takeWhile_cons_of_neg (by simp [hafter c rfl]), List.append_nil]

theorem readUnits_fragment_pivot {fragment : List Char} (h : ∀ c ∈ fragment, isPlain c = true)
    (pivot : Pivot) (following level : List Char) (offset : Nat) :
    ∃ next, readUnits coerce level offset (fragment ++ pivot.mark :: following) = do
      let primitive ← Primitive.read coerce offset fragment
      let (components, pivots) ← readUnits coerce level next following
      return (primitive :: components, pivot :: pivots) := by
  have hmark := isPlain_mark pivot
  have hopen : ∀ rest, fragment ++ pivot.mark :: following = '(' :: rest → False := by
    intro rest heq
    cases fragment with
    | nil => cases pivot <;> simp [Pivot.mark] at heq
    | cons c cs =>
      obtain ⟨rfl, -⟩ := List.cons.inj heq
      exact absurd (h '(' (by simp)) (by decide)
  have htake : (fragment ++ pivot.mark :: following).takeWhile isPlain = fragment :=
    takeWhile_plain h (by simp [hmark])
  have hdrop : (fragment ++ pivot.mark :: following).dropWhile isPlain =
      pivot.mark :: following := by
    rw [List.dropWhile_append_of_pos h, List.dropWhile_cons_of_neg (by simp [hmark])]
  have hstep := (@readUnits_mark coerce _ _ _ hopen hdrop level offset).1 pivot
    (Pivot.ofChar?_eq_some_iff.2 rfl)
  rw [htake] at hstep
  exact ⟨_, hstep⟩

def Enclosed (text : List Char) : Prop :=
  ∃ rest inside, text = '(' :: rest ∧ splitClose 0 rest = some (inside, [])

theorem unwrap_enclosed {rest inside : List Char} (h : splitClose 0 rest = some (inside, []))
    (offset : Nat) : unwrap offset ('(' :: rest) = unwrap (offset + 1) inside := by
  rw [unwrap]
  split <;> simp_all

theorem unwrap_not_enclosed {text : List Char} (h : ¬ Enclosed text) (offset : Nat) :
    unwrap offset text = (offset, text) := by
  rw [unwrap.eq_def]
  split
  · next rest =>
    split
    · next inside hs => exact absurd ⟨rest, inside, rfl, hs⟩ h
    · rfl
  · rfl

theorem readExpression_enclosed {rest inside : List Char}
    (h : splitClose 0 rest = some (inside, [])) (offset : Nat) :
    readExpression coerce offset ('(' :: rest) = readExpression coerce (offset + 1) inside := by
  rw [readExpression, unwrap_enclosed h, ← readExpression]

theorem readExpression_not_enclosed {text : List Char} (h : ¬ Enclosed text) (offset : Nat) :
    readExpression coerce offset text =
      readUnits coerce text offset text >>= fun units => merge units.1 units.2 := by
  rw [readExpression, unwrap_not_enclosed h]

/-! ## Accepted texts are derived -/

theorem exists_phrase_of_unwrap (offset : Nat) (text : List Char)
    (h : ∃ p : Phrase, p.chars = (unwrap offset text).2) : ∃ p : Phrase, p.chars = text := by
  fun_induction unwrap offset text with
  | case1 offset rest inside hs ih =>
    obtain ⟨p, rfl⟩ := ih h
    refine ⟨.last (.group p), ?_⟩
    rw [Phrase.chars, Factor.chars, eq_append_of_splitClose hs, List.cons_append]
  | case2 => exact h
  | case3 => exact h

theorem exists_phrase_of_fragment {cs : List Char} {position : Nat} {leaf : Restriction}
    (hplain : ∀ c ∈ cs, isPlain c = true) (h : Primitive.read coerce position cs = .ok leaf) :
    ∃ f : Fragment, f.chars = cs := by
  refine ⟨⟨cs, ?_, hplain⟩, rfl⟩
  rintro rfl
  simp [Primitive.read] at h

theorem exists_phrase_of_read :
    (∀ offset text tree, readExpression coerce offset text = .ok tree →
      ∃ p : Phrase, p.chars = text) ∧
    ∀ level offset text result, readUnits coerce level offset text = .ok result →
      ∃ p : Phrase, p.chars = text := by
  refine readExpression.mutual_induct
    (fun offset text => ∀ tree, readExpression coerce offset text = .ok tree →
      ∃ p : Phrase, p.chars = text)
    (fun level offset text => ∀ result, readUnits coerce level offset text = .ok result →
      ∃ p : Phrase, p.chars = text)
    ?expression ?unclosed ?group ?groupPivot ?fragment ?fragmentPivot ?stray ?bracket ?none
  case expression =>
    intro offset text ih tree h
    rw [readExpression] at h
    obtain ⟨result, hr, -⟩ := Except.exists_of_bind_eq_ok h
    exact exists_phrase_of_unwrap offset text (ih result hr)
  case unclosed =>
    intro level offset rest hs result h
    exact absurd ((readUnits_unclosed hs level offset).symm.trans h) (by simp)
  case group =>
    intro level offset rest inside hs ih result h
    rw [readUnits_group hs] at h
    cases hr : readExpression coerce (offset + 1) inside with
    | error e => simp [hr, Except.map] at h
    | ok tree =>
      obtain ⟨p, rfl⟩ := ih tree hr
      refine ⟨.last (.group p), ?_⟩
      rw [Phrase.chars, Factor.chars, eq_append_of_splitClose hs, List.cons_append]
  case groupPivot =>
    intro level offset rest inside found following hs ih₁ ih₂ result h
    rw [readUnits_group_found hs] at h
    obtain ⟨group, hg, h⟩ := Except.exists_of_bind_eq_ok h
    obtain ⟨p, rfl⟩ := ih₁ group hg
    cases hpivot : Pivot.ofChar? found with
    | none => simp [hpivot] at h
    | some pivot =>
      rw [hpivot] at h
      obtain ⟨more, hm, -⟩ := Except.exists_of_bind_eq_ok h
      obtain ⟨q, rfl⟩ := ih₂ more hm
      refine ⟨.join (.group p) pivot q, ?_⟩
      rw [Phrase.chars, Factor.chars, eq_append_of_splitClose hs,
        Pivot.ofChar?_eq_some_iff.1 hpivot]
      simp
  case fragment =>
    intro level offset text hopen hdrop result h
    have hplain := List.dropWhile_eq_nil_iff.1 hdrop
    rw [readUnits_fragment hplain] at h
    cases hr : Primitive.read coerce offset text with
    | error e => simp [hr, Except.map] at h
    | ok leaf =>
      obtain ⟨f, rfl⟩ := exists_phrase_of_fragment hplain hr
      exact ⟨.last (.fragment f), rfl⟩
  case fragmentPivot =>
    intro level offset text found following pivot hpivot hopen fragment stop hdrop ih result h
    rw [(readUnits_mark hopen hdrop level offset).1 pivot hpivot] at h
    obtain ⟨leaf, hleaf, h⟩ := Except.exists_of_bind_eq_ok h
    obtain ⟨more, hmore, -⟩ := Except.exists_of_bind_eq_ok h
    obtain ⟨p, rfl⟩ := ih more hmore
    obtain ⟨f, hf⟩ := exists_phrase_of_fragment (fun c hc => List.mem_takeWhile_imp hc) hleaf
    refine ⟨.join (.fragment f) pivot p, ?_⟩
    calc
      (Phrase.join (.fragment f) pivot p).chars = f.chars ++ pivot.mark :: p.chars := rfl
      _ = text.takeWhile isPlain ++ text.dropWhile isPlain := by
        rw [hf, hdrop, Pivot.ofChar?_eq_some_iff.1 hpivot]
      _ = text := List.takeWhile_append_dropWhile
  case stray =>
    intro level offset text following hopen hnone hdrop result h
    obtain ⟨e, he⟩ := @readUnits_error_of_mark coerce _ _ _ hopen hdrop hnone level offset
    exact absurd (he.symm.trans h) (by simp)
  case bracket =>
    intro level offset text found following hnone hne last hopen fragment hdrop hlast result h
    obtain ⟨e, he⟩ := @readUnits_error_of_mark coerce _ _ _ hopen hdrop hnone level offset
    exact absurd (he.symm.trans h) (by simp)
  case none =>
    intro level offset text found following hnone hne hopen fragment hdrop hlast result h
    obtain ⟨e, he⟩ := @readUnits_error_of_mark coerce _ _ _ hopen hdrop hnone level offset
    exact absurd (he.symm.trans h) (by simp)

theorem exists_phrase_of_readExpression (offset : Nat) (text : List Char) (tree : Restriction)
    (h : readExpression coerce offset text = .ok tree) : ∃ p : Phrase, p.chars = text :=
  exists_phrase_of_read.1 offset text tree h

/-! ## Derived texts are read -/

mutual

def Factor.read (primitive : List Char → Except Error Restriction) :
    Factor → Except Error Restriction
  | .fragment f => primitive f.chars
  | .group inside => inside.readUnits primitive >>= fun units => merge units.1 units.2

def Phrase.readUnits (primitive : List Char → Except Error Restriction) :
    Phrase → Except Error (List Restriction × List Pivot)
  | .last f => do return ([← f.read primitive], [])
  | .join f pivot rest => do
    let first ← f.read primitive
    let (components, pivots) ← rest.readUnits primitive
    return (first :: components, pivot :: pivots)

end

def Phrase.read (primitive : List Char → Except Error Restriction) (p : Phrase) :
    Except Error Restriction :=
  p.readUnits primitive >>= fun units => merge units.1 units.2

theorem balanced_of_plain {cs : List Char} (h : ∀ c ∈ cs, isPlain c = true) : Balanced cs := by
  refine balanced_of_forall fun c hc => ⟨?_, ?_⟩
  · rintro rfl
    exact absurd (h _ hc) (by decide)
  · rintro rfl
    exact absurd (h _ hc) (by decide)

theorem balanced_mark (pivot : Pivot) : Balanced [pivot.mark] := by
  cases pivot <;> exact balanced_singleton (by decide) (by decide)

mutual

theorem Factor.balanced : ∀ f : Factor, Balanced f.chars
  | .fragment f => balanced_of_plain f.plain
  | .group inside => inside.balanced.bracket

theorem Phrase.balanced : ∀ p : Phrase, Balanced p.chars
  | .last f => f.balanced
  | .join f pivot rest => f.balanced.append ((balanced_mark pivot).append rest.balanced)

end

theorem Fragment.ne_open (f : Fragment) (following rest : List Char) :
    f.chars ++ following ≠ '(' :: rest := by
  intro h
  cases hf : f.chars with
  | nil => exact f.nonempty hf
  | cons c cs =>
    rw [hf, List.cons_append] at h
    obtain ⟨rfl, -⟩ := List.cons.inj h
    exact absurd (f.plain '(' (by simp [hf])) (by decide)

theorem Fragment.not_enclosed (f : Fragment) (following : List Char) :
    ¬ Enclosed (f.chars ++ following) := by
  rintro ⟨rest, inside, htext, -⟩
  exact f.ne_open following rest htext

theorem Phrase.not_enclosed_group (inside : Phrase) (pivot : Pivot) (following : List Char) :
    ¬ Enclosed ('(' :: (inside.chars ++ ')' :: pivot.mark :: following)) := by
  rintro ⟨rest, inside', htext, hs⟩
  obtain ⟨-, rfl⟩ := List.cons.inj htext
  rw [splitClose_zero_balanced inside.balanced] at hs
  simp at hs

theorem read_fragment (f : Fragment) (offset : Nat) :
    Primitive.read coerce offset f.chars = Primitive.read coerce 0 f.chars :=
  Primitive.read_position f.nonempty offset

theorem readExpression_of_readUnits {p : Phrase} (hencl : ¬ Enclosed p.chars)
    (h : ∀ level offset, readUnits coerce level offset p.chars =
      p.readUnits (Primitive.read coerce 0)) (offset : Nat) :
    readExpression coerce offset p.chars = p.read (Primitive.read coerce 0) := by
  rw [readExpression_not_enclosed hencl, h, Phrase.read]

theorem Phrase.read_group (primitive : List Char → Except Error Restriction) (inside : Phrase) :
    (Phrase.last (.group inside)).read primitive = inside.read primitive := by
  have hgroup : Factor.read primitive (.group inside) = inside.read primitive := rfl
  rw [Phrase.read, Phrase.readUnits, hgroup]
  cases inside.read primitive <;> rfl

/-- The induction is on the derivation. It carries both readings of a phrase: as the units of a
bracket level that is open already, and as an expression, whose outer brackets come off first. -/
theorem read_chars : ∀ p : Phrase,
    (∀ level offset, readUnits coerce level offset p.chars =
      p.readUnits (Primitive.read coerce 0)) ∧
    ∀ offset, readExpression coerce offset p.chars = p.read (Primitive.read coerce 0)
  | .last (.fragment f) => by
    have hunits : ∀ level offset, readUnits coerce level offset (Phrase.last (.fragment f)).chars =
        (Phrase.last (.fragment f)).readUnits (Primitive.read coerce 0) := by
      intro level offset
      rw [Phrase.chars, Factor.chars, readUnits_fragment f.plain, read_fragment]
      rfl
    have hencl : ¬ Enclosed (Phrase.last (.fragment f)).chars := by
      simpa [Phrase.chars, Factor.chars] using f.not_enclosed []
    exact ⟨hunits, readExpression_of_readUnits hencl hunits⟩
  | .last (.group inside) => by
    have ih := read_chars inside
    have hclose : splitClose 0 (inside.chars ++ [')']) = some (inside.chars, []) :=
      splitClose_zero_balanced inside.balanced []
    refine ⟨fun level offset => ?_, fun offset => ?_⟩
    · rw [Phrase.chars, Factor.chars, List.cons_append, readUnits_group hclose, ih.2]
      rfl
    · rw [Phrase.chars, Factor.chars, List.cons_append, readExpression_enclosed hclose, ih.2]
      exact (Phrase.read_group (Primitive.read coerce 0) inside).symm
  | .join (.fragment f) pivot rest => by
    have ih := read_chars rest
    have hunits : ∀ level offset,
        readUnits coerce level offset (Phrase.join (.fragment f) pivot rest).chars =
          (Phrase.join (.fragment f) pivot rest).readUnits (Primitive.read coerce 0) := by
      intro level offset
      obtain ⟨next, hstep⟩ :=
        @readUnits_fragment_pivot coerce _ f.plain pivot rest.chars level offset
      rw [Phrase.chars, Factor.chars, hstep, ih.1, read_fragment]
      rfl
    exact ⟨hunits, readExpression_of_readUnits (f.not_enclosed _) hunits⟩
  | .join (.group inside) pivot rest => by
    have ihi := read_chars inside
    have ihr := read_chars rest
    have hclose : splitClose 0 (inside.chars ++ ')' :: pivot.mark :: rest.chars) =
        some (inside.chars, pivot.mark :: rest.chars) :=
      splitClose_zero_balanced inside.balanced _
    have hchars : (Phrase.join (.group inside) pivot rest).chars =
        '(' :: (inside.chars ++ ')' :: pivot.mark :: rest.chars) := by
      simp [Phrase.chars, Factor.chars]
    have hunits : ∀ level offset,
        readUnits coerce level offset (Phrase.join (.group inside) pivot rest).chars =
          (Phrase.join (.group inside) pivot rest).readUnits (Primitive.read coerce 0) := by
      intro level offset
      obtain ⟨next, hstep⟩ := @readUnits_group_pivot coerce _ _ _ _ hclose level offset
      rw [hchars, hstep, ihi.2, ihr.1]
      rfl
    refine ⟨hunits, readExpression_of_readUnits ?_ hunits⟩
    rw [hchars]
    exact inside.not_enclosed_group pivot rest.chars

/-! ## What reading a derivation gives -/

section
variable {primitive : List Char → Except Error Restriction} {leaf : List Char → Restriction}

mutual

theorem Factor.read_eq_tree :
    ∀ f : Factor, (∀ g ∈ f.fragments, primitive g.chars = .ok (leaf g.chars)) →
      f.read primitive = .ok (f.tree leaf)
  | .fragment g, h => h g (by simp [Factor.fragments])
  | .group inside, h => by
    rw [Factor.read, inside.readUnits_eq_units h, Factor.tree]
    exact merge_units _ _

theorem Phrase.readUnits_eq_units :
    ∀ p : Phrase, (∀ g ∈ p.fragments, primitive g.chars = .ok (leaf g.chars)) →
      p.readUnits primitive =
        .ok ((p.units leaf).1 :: (p.units leaf).2.map (·.2), (p.units leaf).2.map (·.1))
  | .last f, h => by
    rw [Phrase.readUnits, f.read_eq_tree h]
    rfl
  | .join f pivot rest, h => by
    rw [Phrase.fragments] at h
    rw [Phrase.readUnits, f.read_eq_tree fun g hg => h g (List.mem_append_left _ hg),
      rest.readUnits_eq_units fun g hg => h g (List.mem_append_right _ hg)]
    rfl

end

theorem Phrase.read_eq_tree (p : Phrase)
    (h : ∀ g ∈ p.fragments, primitive g.chars = .ok (leaf g.chars)) :
    p.read primitive = .ok (p.tree leaf) := by
  rw [Phrase.read, p.readUnits_eq_units h]
  exact merge_units _ _

mutual

theorem Factor.readable :
    ∀ (f : Factor) {tree : Restriction}, f.read primitive = .ok tree →
      ∀ g ∈ f.fragments, ∃ leaf, primitive g.chars = .ok leaf
  | .fragment g, tree, h => by
    intro g' hg
    rw [Factor.fragments, List.mem_singleton] at hg
    subst hg
    exact ⟨tree, h⟩
  | .group inside, _, h => by
    obtain ⟨units, hu, -⟩ := Except.exists_of_bind_eq_ok h
    exact inside.readable hu

theorem Phrase.readable :
    ∀ (p : Phrase) {units : List Restriction × List Pivot}, p.readUnits primitive = .ok units →
      ∀ g ∈ p.fragments, ∃ leaf, primitive g.chars = .ok leaf
  | .last f, _, h => by
    obtain ⟨tree, ht, -⟩ := Except.exists_of_bind_eq_ok h
    exact f.readable ht
  | .join f pivot rest, _, h => by
    obtain ⟨tree, ht, h⟩ := Except.exists_of_bind_eq_ok h
    obtain ⟨units, hu, -⟩ := Except.exists_of_bind_eq_ok h
    intro g hg
    rw [Phrase.fragments, List.mem_append] at hg
    rcases hg with hg | hg
    · exact f.readable ht g hg
    · exact rest.readable hu g hg

end

end

end InventorySearch.Filter
