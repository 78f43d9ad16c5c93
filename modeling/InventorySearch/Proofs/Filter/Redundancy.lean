import InventorySearch.Proofs.Filter.Decomposition
import InventorySearch.Proofs.Filter.Derivability

set_option autoImplicit false

/-!
# Redundant brackets

Brackets around a whole expression, around a unit or around the units that a run starts
with say nothing that precedence does not say: the expression with them is accepted too and
has the same tree.
-/
namespace InventorySearch.Filter

def StartsRun (before : List Char) : Prop := ∀ c ∈ before.getLast?, c ∈ ['(', ',']

theorem startsRun_concat {before : List Char} {c : Char} (h : c ∈ ['(', ',']) :
    StartsRun (before ++ [c]) := by
  intro d hd
  rw [List.getLast?_concat, Option.mem_some_iff] at hd
  exact hd ▸ h

theorem StartsRun.startsUnit {before : List Char} (h : StartsRun before) : StartsUnit before := by
  have hmarks : ∀ c ∈ ['(', ','], c ∈ ['(', ';', ','] := by simp
  exact fun c hc => hmarks c (h c hc)

/-- Whether brackets around a part of an expression are redundant: the part is all of it, a unit at
whatever depth, or units that "and" joins and that no other one stands in front of in their run. -/
inductive Redundant : List Char → List Char → List Char → Prop
  | whole (expression : List Char) : Redundant [] expression []
  | unit (f : Factor) {before after : List Char} (starts : StartsUnit before)
      (ends : EndsUnit after) : Redundant before f.chars after
  | segment (p : Phrase) {before after : List Char} (run : p.IsRun) (starts : StartsRun before)
      (ends : EndsUnit after) : Redundant before p.chars after

/-! ## Trees behind what has been read -/

def continueRun (run : Option Restriction) (next : Restriction) : Restriction :=
  match run with
  | none => next
  | some run => .and run next

/-- The tree of a phrase behind runs that are closed and one that may be open. -/
def Phrase.joined (leaf : List Char → Restriction) (p : Phrase)
    (earlier run : Option Restriction) : Restriction :=
  joinRuns earlier (continueRun run (p.units leaf).1) (p.units leaf).2

def Phrase.IsUnit : Phrase → Prop
  | .last _ => True
  | .join .. => False

section
variable {leaf : List Char → Restriction} {earlier run : Option Restriction}

theorem Phrase.joined_none (p : Phrase) : p.joined leaf none none = p.tree leaf :=
  p.tree_eq_joinRuns.symm

theorem Phrase.joined_and (f : Factor) (rest : Phrase) :
    (Phrase.join f .and rest).joined leaf earlier run =
      rest.joined leaf earlier (some (continueRun run (f.tree leaf))) := rfl

theorem Phrase.joined_or (f : Factor) (rest : Phrase) :
    (Phrase.join f .or rest).joined leaf earlier run =
      rest.joined leaf (some (closeRun earlier (continueRun run (f.tree leaf)))) none := rfl

theorem joinRuns_continueRun {p : Phrase} (hp : p.IsRun) (h : run = none ∨ p.IsUnit)
    (more : List (Pivot × Restriction)) :
    joinRuns earlier (continueRun run (p.tree leaf)) more =
      joinRuns earlier (continueRun run (p.units leaf).1) ((p.units leaf).2 ++ more) := by
  rcases h with rfl | hunit
  · rw [continueRun, continueRun, joinRuns_append_of_and hp.and_of_mem_units, p.tree_eq_joinRuns]
  · cases p with
    | last f => rfl
    | join f pivot rest => cases hunit

end

/-! ## Brackets around a part -/

structure Segment (before : List Char) (p : Phrase) (after : List Char) : Prop where
  run : p.IsRun
  starts : StartsUnit before
  leads : StartsRun before ∨ p.IsUnit
  ends : EndsUnit after

section
variable {m : Phrase} {before after : List Char}

theorem Segment.of_append {first : List Char} {rest : List Char}
    (h : Segment (first ++ before) m (after ++ rest)) : Segment before m after where
  run := h.run
  starts := fun c hc => h.starts c (List.mem_getLast?_append_of_mem_getLast? hc)
  leads := h.leads.imp_left fun hleads c hc =>
    hleads c (List.mem_getLast?_append_of_mem_getLast? hc)
  ends := fun c hc => h.ends c (List.mem_head?_append_of_mem_head? hc)

/-- Being a derivation with brackets around a part, which stands for the same as without them. -/
structure Phrase.Bracketed (m : Phrase) (before after : List Char) (p p' : Phrase) : Prop where
  chars : p'.chars = before ++ '(' :: (m.chars ++ ')' :: after)
  fragments : p'.fragments = p.fragments
  /-- Behind an "and" only a unit may be put in brackets at the start. -/
  joined : ∀ leaf earlier run, run = none ∨ before ≠ [] ∨ m.IsUnit →
    p'.joined leaf earlier run = p.joined leaf earlier run

theorem Phrase.Bracketed.tree_eq {p p' : Phrase} (h : Phrase.Bracketed m before after p p')
    (leaf : List Char → Restriction) : p'.tree leaf = p.tree leaf := by
  rw [← Phrase.joined_none, ← Phrase.joined_none, h.joined leaf none none (.inl rfl)]

theorem Phrase.Bracketed.behind {f : Factor} {pivot : Pivot} {rest rest' : Phrase}
    (h : Phrase.Bracketed m before after rest rest')
    (hand : pivot = .and → before ≠ [] ∨ m.IsUnit) :
    Phrase.Bracketed m (f.chars ++ pivot.mark :: before) after (.join f pivot rest)
      (.join f pivot rest') := by
  refine ⟨?_, ?_, fun leaf earlier run _ => ?_⟩
  · simp [Phrase.chars, h.chars]
  · rw [Phrase.fragments, Phrase.fragments, h.fragments]
  · cases pivot with
    | or =>
      rw [Phrase.joined_or, Phrase.joined_or]
      exact h.joined leaf _ none (.inl rfl)
    | and =>
      rw [Phrase.joined_and, Phrase.joined_and]
      exact h.joined leaf _ _ (.inr (hand rfl))

theorem Phrase.exists_bracketed_first {p : Phrase} (h : p.chars = m.chars ++ after)
    (hm : m.IsRun) (hends : EndsUnit after) : ∃ p', Phrase.Bracketed m [] after p p' := by
  rcases m.eq_append_of_prefix p h.symm hends with ⟨rfl, rfl⟩ | ⟨pivot, rest, rfl, rfl⟩
  · refine ⟨.last (.group p), ?_, rfl, fun leaf earlier run hrun => ?_⟩
    · simp [Phrase.chars, Factor.chars]
    · have hjoin := @joinRuns_continueRun leaf earlier run p hm (by simpa using hrun) []
      rwa [List.append_nil] at hjoin
  · refine ⟨.join (.group m) pivot rest, ?_, ?_, fun leaf earlier run hrun => ?_⟩
    · simp [Phrase.chars, Factor.chars]
    · rw [Phrase.fragments_append]
      rfl
    · rw [Phrase.joined, Phrase.joined, Phrase.units_append]
      exact joinRuns_continueRun hm (by simpa using hrun) _

theorem not_startsUnit_of_plain {cs : List Char} (hne : cs ≠ [])
    (hplain : ∀ c ∈ cs, isPlain c = true) : ¬ StartsUnit cs := by
  intro h
  have hlast := h.not_isPlain _ (List.getLast?_eq_some_getLast hne)
  rw [hplain _ (List.getLast_mem hne)] at hlast
  cases hlast

theorem Factor.not_startsUnit (f : Factor) : ¬ StartsUnit f.chars := by
  cases f with
  | fragment f => exact not_startsUnit_of_plain f.nonempty f.plain
  | group p =>
    intro h
    have hlast := h ')' (by rw [Factor.chars, List.getLast?_concat]; rfl)
    exact absurd hlast (by decide)

theorem Factor.length_lt_or_exists (f : Factor) {following rest : List Char}
    (h : f.chars ++ following = before ++ rest) (hstarts : StartsUnit before) :
    before.length < f.chars.length ∨
      ∃ c start, before = f.chars ++ c :: start ∧ following = c :: start ++ rest := by
  rcases List.append_eq_append_iff.mp h with ⟨start, rfl, hfollowing⟩ | ⟨more, hmore, -⟩
  · cases start with
    | nil => exact absurd (by simpa using hstarts) f.not_startsUnit
    | cons c start => exact .inr ⟨c, start, rfl, hfollowing⟩
  · cases more with
    | nil => exact absurd (by simpa [hmore] using hstarts) f.not_startsUnit
    | cons c more => exact .inl (by simp [hmore])

mutual

theorem Factor.exists_bracketed : ∀ (f : Factor) {before after following : List Char},
    f.chars ++ following = before ++ m.chars ++ after → before ≠ [] →
      before.length < f.chars.length → Segment before m after →
        ∃ f' : Factor, f'.chars ++ following = before ++ '(' :: (m.chars ++ ')' :: after) ∧
          f'.fragments = f.fragments ∧ ∀ leaf, f'.tree leaf = f.tree leaf
  | .fragment f, before, after, following, h, hne, hlt, hseg => by
    have hstart : before <+: f.chars := by
      refine List.prefix_of_prefix_length_le ?_ (List.prefix_append _ following) hlt.le
      exact h ▸ List.append_assoc before _ _ ▸ List.prefix_append _ _
    exact absurd hseg.starts (not_startsUnit_of_plain hne fun c hc => f.plain c (hstart.mem hc))
  | .group p, before, after, following, h, hne, hlt, hseg => by
    have htext : '(' :: (p.chars ++ ')' :: following) = before ++ m.chars ++ after := by
      simpa [Factor.chars] using h
    obtain ⟨start, stop, rfl, rfl, hp⟩ := exists_inside htext hne
      (by simp [Factor.chars] at hlt; omega) m.balanced.wellBracketed
    obtain ⟨p', hp'⟩ := p.exists_bracketed hp (@Segment.of_append _ _ _ ['('] _ hseg)
    refine ⟨.group p', ?_, hp'.fragments, hp'.tree_eq⟩
    simp [Factor.chars, hp'.chars]

/-- The induction is on the derivation. The part starts with it, or within its first unit, or
behind the pivot after that. -/
theorem Phrase.exists_bracketed : ∀ (p : Phrase) {before after : List Char},
    p.chars = before ++ m.chars ++ after → Segment before m after →
      ∃ p', Phrase.Bracketed m before after p p'
  | .last f, before, after, h, hseg => by
    by_cases hne : before = []
    · subst hne
      exact Phrase.exists_bracketed_first h hseg.run hseg.ends
    · have htext : f.chars ++ [] = before ++ (m.chars ++ after) := by
        simpa [Phrase.chars] using h
      rcases f.length_lt_or_exists htext hseg.starts with hlt | ⟨c, start, -, hnil⟩
      · obtain ⟨f', hchars, hfragments, htree⟩ :=
          f.exists_bracketed (by rw [List.append_assoc]; exact htext) hne hlt hseg
        refine ⟨.last f', ?_, hfragments, fun leaf earlier run _ => ?_⟩
        · simpa [Phrase.chars] using hchars
        · rw [Phrase.joined, Phrase.units, htree]
          rfl
      · cases hnil
  | .join f pivot rest, before, after, h, hseg => by
    by_cases hne : before = []
    · subst hne
      exact Phrase.exists_bracketed_first h hseg.run hseg.ends
    · have htext : f.chars ++ pivot.mark :: rest.chars = before ++ (m.chars ++ after) := by
        simpa [Phrase.chars] using h
      rcases f.length_lt_or_exists htext hseg.starts with hlt | ⟨c, start, rfl, htail⟩
      · obtain ⟨f', hchars, hfragments, htree⟩ :=
          f.exists_bracketed (by rw [List.append_assoc]; exact htext) hne hlt hseg
        refine ⟨.join f' pivot rest, hchars, ?_, fun leaf earlier run _ => ?_⟩
        · rw [Phrase.fragments, Phrase.fragments, hfragments]
        · rw [Phrase.joined, Phrase.units, htree]
          rfl
      · obtain ⟨rfl, hlevel⟩ := List.cons.inj htail
        have hbehind : Segment start m after :=
          @Segment.of_append m start after (f.chars ++ [pivot.mark]) [] (by simpa using hseg)
        have hrest : rest.chars = start ++ m.chars ++ after :=
          hlevel.trans (List.append_assoc start _ _).symm
        obtain ⟨rest', hrest'⟩ := rest.exists_bracketed hrest hbehind
        refine ⟨.join f pivot rest', hrest'.behind ?_⟩
        -- A run does not start behind an "and", so there what is put in brackets is a unit.
        rintro rfl
        refine hseg.leads.imp_left ?_
        rintro hleads rfl
        exact absurd (hleads ';' (List.mem_getLast?_append_of_mem_getLast? rfl)) (by decide)

end

end

theorem Redundant.exists_phrase {before inside after : List Char}
    (h : Redundant before inside after) {p : Phrase} (hp : p.chars = before ++ inside ++ after) :
    ∃ p' : Phrase, p'.chars = before ++ '(' :: (inside ++ ')' :: after) ∧
      p'.fragments = p.fragments ∧ ∀ leaf, p'.tree leaf = p.tree leaf := by
  have hsegment (m : Phrase) (hm : p.chars = before ++ m.chars ++ after)
      (hseg : Segment before m after) :
      ∃ p' : Phrase, p'.chars = before ++ '(' :: (m.chars ++ ')' :: after) ∧
        p'.fragments = p.fragments ∧ ∀ leaf, p'.tree leaf = p.tree leaf := by
    obtain ⟨p', hp'⟩ := Phrase.exists_bracketed p hm hseg
    exact ⟨p', hp'.chars, hp'.fragments, hp'.tree_eq⟩
  cases h with
  | whole expression =>
    refine ⟨.last (.group p), ?_, rfl, fun leaf => p.tree_group⟩
    simp [Phrase.chars, Factor.chars, hp]
  | unit f starts ends => exact hsegment (.last f) hp ⟨trivial, starts, .inr trivial, ends⟩
  | segment m run starts ends => exact hsegment m hp ⟨run, starts.startsUnit, .inl starts, ends⟩

/-- An accepted expression is still accepted with redundant brackets around a part of it, and has
the same tree. -/
theorem parse_bracketed {coerce : Coercer} {query bracketed : String} {tree : Restriction}
    {before inside after : List Char} (h : parse coerce query = .ok tree)
    (htext : query.toList = before ++ inside ++ after) (hredundant : Redundant before inside after)
    (hbracketed : bracketed.toList = before ++ '(' :: (inside ++ ')' :: after)) :
    parse coerce bracketed = .ok tree := by
  obtain ⟨p, hp⟩ := exists_phrase_of_readExpression 0 query.toList tree h
  obtain ⟨hleaf, rfl⟩ := tree_of_parse hp h
  obtain ⟨p', hchars, hfragments, htree⟩ := hredundant.exists_phrase (hp.trans htext)
  have haccepted : ∀ f ∈ p'.fragments, Primitive.Accepted coerce f.chars := by
    rw [hfragments]
    exact fun f hf => Primitive.accepted_iff.mpr ⟨_, hleaf f hf⟩
  rw [parse_of_accepted (hchars.trans hbracketed.symm) haccepted, htree]

/-- Brackets around the start of a run that stands in brackets and behind an "or". -/
theorem parse_bracketed_start_of_run :
    let coerce := coercer [] fun _ _ => .ok none
    let leaf := fun field literal : String =>
      Restriction.comparison field (.relation .eq) (some (.text literal))
    let tree := Restriction.and
      (.or (leaf "a" "1") (.and (.and (leaf "b" "2") (leaf "c" "3")) (leaf "d" "4"))) (leaf "e" "5")
    parse coerce "(a==1,b==2;c==3;d==4);e==5" = .ok tree ∧
      parse coerce "(a==1,(b==2;c==3);d==4);e==5" = .ok tree := by
  intro coerce leaf tree
  let fragment (text : String) (nonempty : text.toList ≠ [] := by decide)
      (plain : text.toList.all isPlain = true := by decide) : Factor :=
    .fragment ⟨text.toList, nonempty, List.all_eq_true.mp plain⟩
  have hp : (Phrase.join
        (.group (.join (fragment "a==1") .or (.join (fragment "b==2") .and
          (.join (fragment "c==3") .and (.last (fragment "d==4"))))))
        .and (.last (fragment "e==5"))).chars = "(a==1,b==2;c==3;d==4);e==5".toList := rfl
  have hparse : parse coerce "(a==1,b==2;c==3;d==4);e==5" = .ok tree := (parse_chars hp).trans rfl
  have hredundant : Redundant "(a==1,".toList "b==2;c==3".toList ";d==4);e==5".toList :=
    .segment (.join (fragment "b==2") .and (.last (fragment "c==3"))) ⟨rfl, trivial⟩
      (@startsRun_concat "(a==1".toList ',' (by decide)) (endsUnit_cons (by decide))
  exact ⟨hparse, parse_bracketed hparse rfl hredundant rfl⟩

end InventorySearch.Filter
