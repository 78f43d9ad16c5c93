import InventorySearch.Proofs.Filter.Faults

set_option autoImplicit false

/-!
# Ranges of expressions

A range of an expression is read as an expression of its own. Only the positions in
errors tell where the range starts, and nothing around it plays a part.
-/
namespace InventorySearch.Filter
open Text

def Error.moved (n : Nat) : Error → Error
  | .illegalPivot found position => .illegalPivot found (n + position)
  | .unmatchedOpen position => .unmatchedOpen (n + position)
  | .strayClose level position => .strayClose level (n + position)
  | .emptyExpression position => .emptyExpression (n + position)
  | e => e

theorem Error.moved_of_not_ofExpression {e : Error} (h : ¬ e.OfExpression) (n : Nat) :
    e.moved n = e := by
  cases e with
  | illegalPivot | unmatchedOpen | strayClose | emptyExpression => exact absurd trivial h
  | pivotCount | unsupportedOperator | coercion | execution | unexpected => rfl

@[simp] theorem Error.moved_zero (e : Error) : e.moved 0 = e := by
  cases e <;> simp [Error.moved]

theorem exists_merge {components : List Restriction} {pivots : List Pivot}
    (h : components.length = pivots.length + 1) : ∃ tree, merge components pivots = .ok tree := by
  cases hmerge : merge components pivots with
  | error e => exact absurd hmerge (merge_ne_error h e)
  | ok tree => exact ⟨tree, rfl⟩

/-! ## Readings at two offsets -/

theorem unwrap_moved (n offset : Nat) (text : List Char) :
    unwrap (n + offset) text = (n + (unwrap offset text).1, (unwrap offset text).2) := by
  fun_induction unwrap offset text with
  | case1 offset rest inside hs ih => rw [unwrap_enclosed hs, Nat.add_assoc, ih]
  | case2 offset rest hs =>
    have hencl : ¬ Enclosed ('(' :: rest) := by
      rintro ⟨_, inside, htext, hsplit⟩
      obtain ⟨-, rfl⟩ := List.cons.inj htext
      exact hs inside hsplit
    rw [unwrap_not_enclosed hencl]
  | case3 offset text hopen =>
    have hencl : ¬ Enclosed text := by
      rintro ⟨rest, _, htext, -⟩
      exact hopen rest htext
    rw [unwrap_not_enclosed hencl]

section
variable {coerce coerce' : Coercer} {change : Error → Error} {n : Nat}

/-- Being the errors of one reading beside those of another, which starts `n` bytes earlier and
asks another coercer. -/
structure Carries (coerce coerce' : Coercer) (change : Error → Error) (n : Nat) : Prop where
  ofExpression : ∀ e : Error, e.OfExpression → change e = e.moved n
  ofCoercer : ∀ field literal, coerce' field literal = (coerce field literal).mapError change

theorem Carries.read (h : Carries coerce coerce' change n) (position : Nat)
    (fragment : List Char) : Primitive.read coerce' (n + position) fragment =
      (Primitive.read coerce position fragment).mapError change := by
  unfold Primitive.read
  split
  · exact congrArg Except.error (h.ofExpression (.emptyExpression position) trivial).symm
  · split
    · next hshape =>
      exact congrArg Except.error (h.ofExpression (.unsupportedOperator _) trivial).symm
    · next field r literal hshape =>
      split
      · rfl
      · rw [h.ofCoercer]
        cases coerce field literal <;> rfl

theorem Carries.readUnits (h : Carries coerce coerce' change n) :
    (∀ offset text, readExpression coerce' (n + offset) text =
      (readExpression coerce offset text).mapError change) ∧
    ∀ level offset text, readUnits coerce' level (n + offset) text =
      (readUnits coerce level offset text).mapError change := by
  refine readExpression.mutual_induct
    (fun offset text => readExpression coerce' (n + offset) text =
      (readExpression coerce offset text).mapError change)
    (fun level offset text => Filter.readUnits coerce' level (n + offset) text =
      (Filter.readUnits coerce level offset text).mapError change)
    ?expression ?unclosed ?group ?groupPivot ?fragment ?fragmentPivot ?stray ?bracket ?none
  case expression =>
    intro offset text ih
    rw [readExpression, readExpression, unwrap_moved, ih]
    cases hread : Filter.readUnits coerce (unwrap offset text).2 (unwrap offset text).1
        (unwrap offset text).2 with
    | error e => rfl
    | ok units =>
      obtain ⟨tree, htree⟩ := exists_merge (Bytewise.length_of_readUnits hread)
      change merge units.1 units.2 = (merge units.1 units.2).mapError change
      rw [htree]
      rfl
  case unclosed =>
    intro level offset rest hs
    rw [readUnits_unclosed hs, readUnits_unclosed hs]
    exact congrArg Except.error (h.ofExpression (.unmatchedOpen offset) trivial).symm
  case group =>
    intro level offset rest inside hs ih
    rw [readUnits_group hs, readUnits_group hs, Nat.add_assoc, ih]
    cases readExpression coerce (offset + 1) inside <;> rfl
  case groupPivot =>
    intro level offset rest inside found following hs ih₁ ih₂
    rw [readUnits_group_found hs, readUnits_group_found hs, Nat.add_assoc n offset 1, ih₁]
    cases readExpression coerce (offset + 1) inside with
    | error e => rfl
    | ok group =>
      cases hpivot : Pivot.ofChar? found with
      | none =>
        have hposition : n + (offset + 1) + byteLength inside + 1 =
            n + (offset + 1 + byteLength inside + 1) := by omega
        rw [hposition]
        exact congrArg Except.error (h.ofExpression (.illegalPivot found _) trivial).symm
      | some pivot =>
        obtain rfl := Pivot.ofChar?_eq_some_iff.mp hpivot
        have hposition : n + (offset + 1) + byteLength inside + 1 + 1 =
            n + (offset + 1 + byteLength inside + 1 + 1) := by omega
        change Filter.readUnits _ _ _ _ >>= _ = _
        rw [hposition, ih₂]
        cases Filter.readUnits coerce level (offset + 1 + byteLength inside + 1 + 1) following <;>
          rfl
  case fragment =>
    intro level offset text hopen hdrop
    have hplain := List.dropWhile_eq_nil_iff.mp hdrop
    rw [readUnits_fragment hplain, readUnits_fragment hplain, h.read]
    cases Primitive.read coerce offset text <;> rfl
  case fragmentPivot =>
    intro level offset text found following pivot hpivot hopen fragment stop hdrop ih
    rw [(readUnits_mark hopen hdrop level _).1 pivot hpivot,
      (readUnits_mark hopen hdrop level _).1 pivot hpivot, h.read]
    cases Primitive.read coerce offset (text.takeWhile isPlain) with
    | error e => rfl
    | ok primitive =>
      change Filter.readUnits _ _ _ _ >>= _ = _
      rw [Nat.add_assoc n offset, Nat.add_assoc n, ih]
      cases Filter.readUnits coerce level (stop + 1) following <;> rfl
  case stray =>
    intro level offset text following hopen hnone hdrop
    rw [(readUnits_mark hopen hdrop level _).2 hnone, (readUnits_mark hopen hdrop level _).2 hnone,
      Nat.add_assoc]
    exact congrArg Except.error (h.ofExpression (.strayClose _ _) trivial).symm
  case bracket =>
    intro level offset text found following hnone hne last hopen fragment hdrop hlast
    rw [(readUnits_mark hopen hdrop level _).2 hnone, (readUnits_mark hopen hdrop level _).2 hnone]
    have hlast' : (text.takeWhile isPlain).getLast? = some last := hlast
    have hle := utf8Size_le_of_getLast? hlast'
    have hposition : n + offset + byteLength (text.takeWhile isPlain) - last.utf8Size =
        n + (offset + byteLength (text.takeWhile isPlain) - last.utf8Size) := by omega
    simp only [if_neg hne, hlast', hposition]
    exact congrArg Except.error (h.ofExpression (.illegalPivot last _) trivial).symm
  case none =>
    intro level offset text found following hnone hne hopen fragment hdrop hlast
    exact (hopen following (Bytewise.eq_cons_bracket hdrop hnone hne hlast)).elim

end

/-! ## What the coercer refused -/

/-- The coercer that refuses a literal with the question it was asked, and not with its own
error. -/
def questioned (coerce : Coercer) : Coercer := fun field literal =>
  (coerce field literal).mapError fun _ => .coercion field literal

/-- The error of the coercer for a question; of the others, the one `n` bytes further on. -/
def answered (coerce : Coercer) (n : Nat) : Error → Error
  | .coercion field literal =>
    match coerce field literal with
    | .error e => e
    | .ok _ => .coercion field literal
  | e => e.moved n

section
variable {coerce : Coercer}

theorem carries_answered (coerce : Coercer) (n : Nat) :
    Carries (questioned coerce) coerce (answered coerce n) n where
  ofExpression e he := by
    cases e with
    | illegalPivot | unmatchedOpen | strayClose | emptyExpression | unsupportedOperator => rfl
    | pivotCount | coercion | execution | unexpected => exact he.elim
  ofCoercer field literal := by
    cases h : coerce field literal with
    | ok operand => simp [questioned, h, Except.mapError]
    | error e => simp [questioned, answered, h, Except.mapError]

theorem readExpression_eq_answered (coerce : Coercer) (n : Nat) (text : List Char) :
    readExpression coerce n text =
      (readExpression (questioned coerce) 0 text).mapError (answered coerce n) :=
  (carries_answered coerce n).readUnits.1 0 text

/-- What is read of a text wherever it starts: one tree, one error of the text at a place that
moves with the start, or one error of the coercer, which stays as it is. -/
theorem readExpression_cases (coerce : Coercer) (text : List Char) :
    (∃ tree, ∀ n, readExpression coerce n text = .ok tree) ∨
    (∃ e : Error, e.OfExpression ∧ ∀ n, readExpression coerce n text = .error (e.moved n)) ∨
    ∃ e, (∃ fragment, fragment <:+: text ∧ Primitive.Refused coerce fragment e) ∧
      ∀ n, readExpression coerce n text = .error e := by
  have hanswered := readExpression_eq_answered coerce
  cases hread : readExpression (questioned coerce) 0 text with
  | ok tree => exact .inl ⟨tree, fun n => by rw [hanswered, hread]; rfl⟩
  | error e =>
    rcases blamed_of_read.1 0 text e hread with he | ⟨fragment, hin, field, r, literal, hrefused⟩
    · refine .inr (.inl ⟨e, he, fun n => ?_⟩)
      rw [hanswered, hread]
      exact congrArg Except.error ((carries_answered coerce n).ofExpression e he)
    · obtain ⟨shape, plain, hrefused⟩ := hrefused
      cases hc : coerce field literal with
      | ok operand =>
        rw [questioned, hc] at hrefused
        cases hrefused
      | error e' =>
        rw [questioned, hc] at hrefused
        cases hrefused
        refine .inr (.inr ⟨e', ⟨fragment, hin, field, r, literal, shape, plain, hc⟩, fun n => ?_⟩)
        rw [hanswered, hread, Except.mapError, answered, hc]

end

theorem not_ofExpression_of_orFault {α : Type} {field literal : String} {fault : CoercionFault}
    {value : Option α} {e : Error} (h : orFault field literal fault value = .error e) :
    ¬ e.OfExpression := by
  cases value with
  | some value => cases h
  | none =>
    cases h
    exact id

theorem not_ofExpression_of_coercer {rules : RuleTable} {lookup : Lookup}
    (hlookup : ∀ kind key e, lookup kind key = .error e → ¬ e.OfExpression)
    {field literal : String} {e : Error} (h : coercer rules lookup field literal = .error e) :
    ¬ e.OfExpression := by
  unfold coercer at h
  split at h
  · next rule _ =>
    cases rule with
    | timestamp | integer | severity => exact not_ofExpression_of_orFault (Except.error_of_map h)
    | category =>
      rcases Except.error_of_bind h with h | ⟨found, -, h⟩
      · exact hlookup _ _ _ h
      · exact not_ofExpression_of_orFault (Except.error_of_map h)
    | node =>
      rcases Except.error_of_bind h with h | ⟨id, -, h⟩
      · exact not_ofExpression_of_orFault h
      · rcases Except.error_of_bind h with h | ⟨found, -, h⟩
        · exact hlookup _ _ _ h
        · exact not_ofExpression_of_orFault (Except.error_of_map h)
  · cases h

/-! ## Ranges -/

namespace Bytewise

def readRange (coerce : Coercer) {query : String} (start stop : query.Pos) :
    Checked Restriction :=
  split coerce query start.offset.byteIdx stop.offset.byteIdx

theorem stands_extract {query : String} {start stop : query.Pos} (h : start ≤ stop) :
    Stands query start.offset.byteIdx (query.extract start stop).toList ∧
      stop.offset.byteIdx =
        start.offset.byteIdx + byteLength (query.extract start stop).toList := by
  obtain ⟨before, after, hstart, hstop⟩ := String.copy_slice_eq_iff_splits.mp
    ⟨h, (String.extract_eq_copy_slice start stop h).symm⟩
  have hbytes (s : String) : s.rawEndPos.byteIdx = byteLength s.toList := length_bytes s
  refine ⟨⟨before.toList, after.toList, ?_, ?_⟩, ?_⟩
  · have hquery := congrArg String.toList hstart.eq_append
    simpa using hquery
  · rw [hstart.offset_eq_rawEndPos, hbytes]
  · rw [hstart.offset_eq_rawEndPos, hstop.offset_eq_rawEndPos, hbytes, hbytes,
      String.toList_append, byteLength_append]

theorem readRange_eq (coerce : Coercer) {query : String} {start stop : query.Pos}
    (h : start ≤ stop) : readRange coerce start stop =
      (readExpression coerce start.offset.byteIdx (query.extract start stop).toList).mapError
        .fault := by
  obtain ⟨hstands, hstop⟩ := stands_extract h
  rw [readRange, hstop, split_and_units_eq.1 _ _ hstands]

/-- A range is read as its text alone: to the same tree, or with the same error at a place that is
moved on by the start of the range. Only what the coercer refuses a literal with stays as it is,
whatever place it may name; where it names none, one equation says it all. -/
theorem readRange_alone (coerce : Coercer) {query : String} {start stop : query.Pos}
    (h : start ≤ stop) :
    ((∃ tree, Filter.parse coerce (query.extract start stop) = .ok tree ∧
        readRange coerce start stop = .ok tree) ∨
      (∃ e, e.OfExpression ∧ Filter.parse coerce (query.extract start stop) = .error e ∧
        readRange coerce start stop = .error (.fault (e.moved start.offset.byteIdx))) ∨
      ∃ e, (∃ fragment, fragment <:+: (query.extract start stop).toList ∧
          Primitive.Refused coerce fragment e) ∧
        Filter.parse coerce (query.extract start stop) = .error e ∧
        readRange coerce start stop = .error (.fault e)) ∧
    ((∀ field literal e, coerce field literal = .error e → ¬ e.OfExpression) →
      readRange coerce start stop = (Filter.parse coerce (query.extract start stop)).mapError
        fun e => .fault (e.moved start.offset.byteIdx)) := by
  rw [readRange_eq coerce h, Filter.parse]
  rcases readExpression_cases coerce (query.extract start stop).toList with
    ⟨tree, htree⟩ | ⟨e, he, herror⟩ | ⟨e, hrefused, herror⟩
  · rw [htree, htree]
    exact ⟨.inl ⟨tree, rfl, rfl⟩, fun _ => rfl⟩
  · rw [herror, herror, e.moved_zero]
    exact ⟨.inr (.inl ⟨e, he, rfl, rfl⟩), fun _ => rfl⟩
  · rw [herror, herror]
    refine ⟨.inr (.inr ⟨e, hrefused, rfl, rfl⟩), fun hcoerce => ?_⟩
    obtain ⟨fragment, -, field, r, literal, -, -, hc⟩ := hrefused
    have hown := Error.moved_of_not_ofExpression (hcoerce field literal e hc) start.offset.byteIdx
    simp only [Except.mapError, hown]

/-! ## A range behind a pivot -/

/-- Between `é==1;` and `x` a bracket closes too many. The place counts the bytes of the whole
query, and what stands around the range is not met. -/
theorem readRange_behind_pivot : ∃ start stop : String.Pos "é==1;a==2)x", start ≤ stop ∧
    String.extract start stop = "a==2)" ∧
    readRange (coercer [] fun _ _ => .ok none) start stop =
      .error (.fault (.strayClose "a==2)" 10)) := by
  let start : String.Pos "é==1;a==2)x" := ⟨⟨6⟩, by decide⟩
  let stop : String.Pos "é==1;a==2)x" := ⟨⟨11⟩, by decide⟩
  have hle : start ≤ stop := by decide
  have hpart : String.extract start stop = "a==2)" := by decide
  have hparse : Filter.parse (coercer [] fun _ _ => .ok none) "a==2)" =
      .error (.strayClose "a==2)" 4) := by
    have hopen : ∀ rest, "a==2)".toList ≠ '(' :: rest := by
      rintro rest htext
      cases htext
    have hencl : ¬ Enclosed "a==2)".toList := by
      rintro ⟨rest, inside, htext, -⟩
      exact hopen rest htext
    have hstray := (@readUnits_mark (coercer [] fun _ _ => .ok none) "a==2)".toList [] ')' hopen rfl
      "a==2)".toList 0).2 rfl
    rw [Filter.parse, readExpression_not_enclosed hencl, hstray]
    rfl
  have hlookup : ∀ field literal e, coercer [] (fun _ _ => .ok none) field literal = .error e →
      ¬ e.OfExpression := by
    intro field literal e
    refine not_ofExpression_of_coercer fun kind key e h => ?_
    cases h
  refine ⟨start, stop, hle, hpart, ?_⟩
  rw [(readRange_alone _ hle).2 hlookup, hpart, hparse]
  rfl

end Bytewise
end InventorySearch.Filter
