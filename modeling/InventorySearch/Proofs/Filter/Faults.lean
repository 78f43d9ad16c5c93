import InventorySearch.Proofs.Filter.Safety

set_option autoImplicit false

/-!
# Faults of expressions

What the parser blames an expression for. It is one of four kinds of fault, or
what the coercer says of the literal of some fragment; the other errors are
raised at places that no expression reaches. Of several faults the first is told.
-/
namespace InventorySearch.Filter

def Error.OfExpression : Error → Prop
  | .illegalPivot .. | .unmatchedOpen .. | .strayClose .. => True
  | .emptyExpression .. | .unsupportedOperator .. => True
  | _ => False

variable {coerce : Coercer}

def Primitive.Refused (coerce : Coercer) (fragment : List Char) (e : Error) : Prop :=
  ∃ field r literal, IsShape fragment field r literal ∧ sentinel? r literal = none ∧
    coerce field literal = .error e

/-- Being an error that a text can be blamed for. -/
def Blamed (coerce : Coercer) (text : List Char) (e : Error) : Prop :=
  e.OfExpression ∨ ∃ fragment, fragment <:+: text ∧ Primitive.Refused coerce fragment e

theorem Blamed.mono {text whole : List Char} {e : Error} (h : Blamed coerce text e)
    (hin : text <:+: whole) : Blamed coerce whole e := by
  rcases h with h | ⟨fragment, hfragment, h⟩
  · exact .inl h
  · exact .inr ⟨fragment, hfragment.trans hin, h⟩

theorem Primitive.blamed_of_read {position : Nat} {fragment : List Char} {e : Error}
    (h : read coerce position fragment = .error e) : Blamed coerce fragment e := by
  unfold read at h
  split at h
  · cases h
    exact .inl trivial
  · split at h
    · cases h
      exact .inl trivial
    · next field r literal hshape =>
      rw [nullTest?_eq_sentinel?] at h
      split at h
      · cases h
      · next hplain =>
        refine .inr ⟨fragment, List.infix_refl _, field, r, literal,
          shape?_eq_some_iff.1 hshape, hplain, Except.error_of_map h⟩

theorem infix_of_unwrap (offset : Nat) (text : List Char) : (unwrap offset text).2 <:+: text := by
  fun_induction unwrap offset text with
  | case1 offset rest inside hs ih =>
    refine ih.trans ⟨['('], [')'], ?_⟩
    rw [eq_append_of_splitClose hs]
    rfl
  | case2 => exact List.infix_refl _
  | case3 => exact List.infix_refl _

theorem infix_of_splitClose {rest inside after : List Char}
    (hs : splitClose 0 rest = some (inside, after)) : inside <:+: '(' :: rest :=
  ⟨['('], ')' :: after, by rw [eq_append_of_splitClose hs]; simp⟩

theorem merge_ne_error {components : List Restriction} {pivots : List Pivot}
    (h : components.length = pivots.length + 1) (e : Error) :
    merge components pivots ≠ .error e := by
  cases components with
  | nil => simp at h
  | cons first rest =>
    intro herror
    rw [merge, if_pos (Nat.succ.inj h)] at herror
    cases herror

theorem blamed_of_read :
    (∀ offset text e, readExpression coerce offset text = .error e → Blamed coerce text e) ∧
    ∀ level offset text e, readUnits coerce level offset text = .error e →
      Blamed coerce text e := by
  refine readExpression.mutual_induct
    (fun offset text => ∀ e, readExpression coerce offset text = .error e → Blamed coerce text e)
    (fun level offset text => ∀ e, readUnits coerce level offset text = .error e →
      Blamed coerce text e)
    ?expression ?unclosed ?group ?groupPivot ?fragment ?fragmentPivot ?stray ?bracket ?none
  case expression =>
    intro offset text ih e h
    rw [readExpression] at h
    rcases Except.error_of_bind h with h | ⟨units, hunits, h⟩
    · exact (ih e h).mono (infix_of_unwrap offset text)
    · exact absurd h (merge_ne_error (Bytewise.length_of_readUnits hunits) e)
  case unclosed =>
    intro level offset rest hs e h
    rw [readUnits_unclosed hs] at h
    cases h
    exact .inl trivial
  case group =>
    intro level offset rest inside hs ih e h
    rw [readUnits_group hs] at h
    exact (ih e (Except.error_of_map h)).mono (infix_of_splitClose hs)
  case groupPivot =>
    intro level offset rest inside found following hs ih₁ ih₂ e h
    rw [readUnits_group_found hs] at h
    rcases Except.error_of_bind h with h | ⟨group, -, h⟩
    · exact (ih₁ e h).mono (infix_of_splitClose hs)
    · cases hpivot : Pivot.ofChar? found with
      | none =>
        rw [hpivot] at h
        cases h
        exact .inl trivial
      | some pivot =>
        rw [hpivot] at h
        rcases Except.error_of_bind h with h | ⟨units, -, h⟩
        · refine (ih₂ e h).mono ⟨'(' :: inside ++ [')', found], [], ?_⟩
          rw [eq_append_of_splitClose hs]
          simp
        · cases h
  case fragment =>
    intro level offset text hopen hdrop e h
    rw [readUnits_fragment (List.dropWhile_eq_nil_iff.1 hdrop)] at h
    exact Primitive.blamed_of_read (Except.error_of_map h)
  case fragmentPivot =>
    intro level offset text found following pivot hpivot hopen fragment stop hdrop ih e h
    rw [(readUnits_mark hopen hdrop level offset).1 pivot hpivot] at h
    rcases Except.error_of_bind h with h | ⟨primitive, -, h⟩
    · exact (Primitive.blamed_of_read h).mono (List.takeWhile_prefix isPlain).isInfix
    · rcases Except.error_of_bind h with h | ⟨units, -, h⟩
      · have hsuffix : following <:+ text :=
          (List.suffix_cons found following).trans (hdrop ▸ List.dropWhile_suffix isPlain)
        exact (ih e h).mono hsuffix.isInfix
      · cases h
  case stray =>
    intro level offset text following hopen hnone hdrop e h
    rw [(readUnits_mark hopen hdrop level offset).2 hnone] at h
    cases h
    exact .inl trivial
  case bracket =>
    intro level offset text found following hnone hne last hopen fragment hdrop hlast e h
    rw [(readUnits_mark hopen hdrop level offset).2 hnone] at h
    dsimp only at h
    rw [if_neg hne, show (text.takeWhile isPlain).getLast? = some last from hlast] at h
    cases h
    exact .inl trivial
  case none =>
    intro level offset text found following hnone hne hopen fragment hdrop hlast e h
    exact (hopen following (Bytewise.eq_cons_bracket hdrop hnone hne hlast)).elim

/-- What the parser does with an expression of any form. It blames no error on it but those of
expressions and those of the coercer; whatever it joins has one component more than pivots; and a
reader by byte indices that stops at every slip ends as it does, so that none is ever made. -/
theorem parse_safe (coerce : Coercer) (query : String) :
    (∀ e, parse coerce query = .error e →
      e.OfExpression ∨
        ∃ fragment, fragment <:+: query.toList ∧ Primitive.Refused coerce fragment e) ∧
    (∀ level offset text units, readUnits coerce level offset text = .ok units →
      units.1.length = units.2.length + 1) ∧
    Bytewise.parse coerce query = (parse coerce query).mapError .fault := by
  refine ⟨fun e h => blamed_of_read.1 0 query.toList e h, ?_, Bytewise.parse_eq coerce query⟩
  exact fun level offset text units h => Bytewise.length_of_readUnits h

/-!
## The first fault

In an expression of the form of the grammar nothing but a primitive can be at fault. The
primitives are read in the order in which they are written, at whatever depth they stand,
so the first one that is at fault gives the error, and nothing behind it matters.
-/

variable {e : Error}

theorem Phrase.read_eq_error_iff {primitive : List Char → Except Error Restriction} (p : Phrase) :
    p.read primitive = .error e ↔ p.readUnits primitive = .error e := by
  rw [Phrase.read, Except.bind_eq_error_iff, or_iff_left]
  rintro ⟨units, hunits, h⟩
  exact merge_ne_error (Bytewise.length_of_phrase p hunits) e h

theorem Factor.exists_read_iff (f : Factor) :
    (∃ tree, f.read (Primitive.read coerce 0) = .ok tree) ↔
      ∀ g ∈ f.fragments, ∃ leaf, Primitive.read coerce 0 g.chars = .ok leaf := by
  constructor
  · rintro ⟨tree, h⟩
    exact f.readable h
  · intro h
    exact ⟨_, f.read_eq_tree fun g hg => read_eq_leafOf (h g hg)⟩

mutual

theorem Factor.read_eq_error_iff : ∀ f : Factor,
    f.read (Primitive.read coerce 0) = .error e ↔
      Except.FailsFirst (Primitive.read coerce 0) (f.fragments.map (·.chars)) e
  | .fragment g => by
    rw [Factor.read, Factor.fragments, List.map_singleton, Except.failsFirst_singleton_iff]
  | .group inside => by
    have hgroup : Factor.read (Primitive.read coerce 0) (.group inside) =
        inside.read (Primitive.read coerce 0) := rfl
    rw [hgroup, inside.read_eq_error_iff, Factor.fragments, inside.readUnits_eq_error_iff]

theorem Phrase.readUnits_eq_error_iff : ∀ p : Phrase,
    p.readUnits (Primitive.read coerce 0) = .error e ↔
      Except.FailsFirst (Primitive.read coerce 0) (p.fragments.map (·.chars)) e
  | .last f => by
    rw [Phrase.readUnits, Phrase.fragments, ← f.read_eq_error_iff, Except.bind_eq_error_iff,
      or_iff_left]
    rintro ⟨tree, -, h⟩
    cases h
  | .join f pivot rest => by
    have hrest (tree : Restriction) :
        (do
          let (components, pivots) ← rest.readUnits (Primitive.read coerce 0)
          return (tree :: components, pivot :: pivots)) =
            (.error e : Except Error (List Restriction × List Pivot)) ↔
          rest.readUnits (Primitive.read coerce 0) = .error e := by
      rw [Except.bind_eq_error_iff, or_iff_left]
      rintro ⟨units, -, h⟩
      cases h
    -- A factor is passed exactly if all of its fragments are read.
    rw [Phrase.readUnits, Phrase.fragments, List.map_append, Except.failsFirst_append_iff,
      List.forall_mem_map, ← f.read_eq_error_iff, ← f.exists_read_iff,
      ← rest.readUnits_eq_error_iff, Except.bind_eq_error_iff]
    simp only [hrest, exists_and_right]

end

/-- The first primitive of an expression that cannot be read gives its error, if there is one. -/
theorem parse_eq_error_iff {p : Phrase} {query : String} (hp : p.chars = query.toList) :
    parse coerce query = .error e ↔
      Except.FailsFirst (Primitive.read coerce 0) (plainRuns query.toList) e := by
  rw [parse_chars hp, p.read_eq_error_iff, p.readUnits_eq_error_iff, ← hp, p.plainRuns_chars]

/-- An expression of the form of the grammar is refused exactly if one of its primitives is, read
alone. The error is that of the first such primitive, and it stays the same whatever primitives
take the place of those behind it, in whatever brackets. -/
theorem parse_first_fault (coerce : Coercer) {p : Phrase} {query : String}
    (hp : p.chars = query.toList) :
    ((∃ e, parse coerce query = .error e) ↔
      ∃ primitive ∈ plainRuns query.toList, ∃ e, Primitive.read coerce 0 primitive = .error e) ∧
    (∀ e, parse coerce query = .error e ↔
      Except.FailsFirst (Primitive.read coerce 0) (plainRuns query.toList) e) ∧
    ∀ before primitive later e, plainRuns query.toList = before ++ primitive :: later →
      (∀ earlier ∈ before, ∃ leaf, Primitive.read coerce 0 earlier = .ok leaf) →
      Primitive.read coerce 0 primitive = .error e →
        parse coerce query = .error e ∧
          ∀ (p' : Phrase) (query' : String) (others : List (List Char)),
            p'.chars = query'.toList → plainRuns query'.toList = before ++ primitive :: others →
              parse coerce query' = .error e := by
  refine ⟨?_, fun e => parse_eq_error_iff hp, ?_⟩
  · simp only [parse_eq_error_iff hp, Except.exists_failsFirst_iff]
  · intro before primitive later e hruns hbefore hprimitive
    have hfirst (p' : Phrase) (query' : String) (others : List (List Char))
        (hp' : p'.chars = query'.toList)
        (hruns' : plainRuns query'.toList = before ++ primitive :: others) :
        parse coerce query' = .error e :=
      (parse_eq_error_iff hp').mpr ⟨before, primitive, others, hruns', hbefore, hprimitive⟩
    exact ⟨hfirst p query later hp hruns, hfirst⟩

/-- The literal `x` is no number, and nothing behind it can be read either. -/
theorem first_fault_in_brackets :
    let coerce := coercer [("b", .integer)] fun _ _ => .ok none
    parse coerce "a==1;(b==x,c);d" = .error (CoercionFault.integer.toError "b" "x") ∧
      parse coerce "a==1,b==x" = .error (CoercionFault.integer.toError "b" "x") := by
  intro coerce
  have hp : (Phrase.join (.fragment ⟨"a==1".toList, by decide, List.all_eq_true.mp rfl⟩) .and
      (.join (.group (.join (.fragment ⟨"b==x".toList, by decide, List.all_eq_true.mp rfl⟩) .or
        (.last (.fragment ⟨"c".toList, by decide, List.all_eq_true.mp rfl⟩)))) .and
          (.last (.fragment ⟨"d".toList, by decide, List.all_eq_true.mp rfl⟩)))).chars =
      "a==1;(b==x,c);d".toList := rfl
  have hp' : (Phrase.join (.fragment ⟨"a==1".toList, by decide, List.all_eq_true.mp rfl⟩) .or
      (.last (.fragment ⟨"b==x".toList, by decide, List.all_eq_true.mp rfl⟩))).chars =
      "a==1,b==x".toList := rfl
  have hbefore : ∀ earlier ∈ ["a==1".toList], ∃ leaf, Primitive.read coerce 0 earlier = .ok leaf :=
    List.forall_mem_singleton.mpr ⟨.comparison "a" (.relation .eq) (some (.text "1")), rfl⟩
  obtain ⟨hfirst, hothers⟩ := (parse_first_fault coerce hp).2.2 ["a==1".toList] "b==x".toList
    ["c".toList, "d".toList] _ (by decide) hbefore rfl
  exact ⟨hfirst, hothers _ _ [] hp' (by decide)⟩

end InventorySearch.Filter
