import InventorySearch.Proofs.Filter.Derivability
import InventorySearch.Proofs.Filter.Offsets

set_option autoImplicit false

/-!
# Reading never slips

The byte-wise reader agrees with the parser on every expression, well-formed or
not: it finds the same tree or the same fault, and it never slips.
-/
namespace InventorySearch.Filter.Bytewise
open Text

variable {coerce : Coercer} {query : String}

/-! ## Joining -/

theorem stackRuns_eq (last : Restriction) (earlier : List Restriction)
    (units : List (Pivot × Restriction)) :
    stackRuns (last :: earlier) units =
      .ok (((splitRuns units).2.map Run.conjunction).reverse ++
        Run.conjunction ⟨last, (splitRuns units).1⟩ :: earlier) := by
  induction units generalizing last earlier with
  | nil => rfl
  | cons unit units ih =>
    obtain ⟨pivot, next⟩ := unit
    cases pivot with
    | and =>
      rw [stackRuns, ih]
      rfl
    | or =>
      rw [stackRuns, ih, splitRuns, List.map_cons, List.reverse_cons, List.append_assoc]
      rfl

theorem merge_eq {components : List Restriction} {pivots : List Pivot}
    (h : components.length = pivots.length + 1) :
    merge components pivots = (Filter.merge components pivots).mapError .fault := by
  cases components with
  | nil => simp at h
  | cons first rest =>
    have hrest : rest.length = pivots.length := Nat.succ.inj h
    have hruns : ((((splitRuns (pivots.zip rest)).2.map Run.conjunction).reverse ++
        [Run.conjunction ⟨first, (splitRuns (pivots.zip rest)).1⟩]).reverse) =
      Run.conjunction ⟨first, (splitRuns (pivots.zip rest)).1⟩ ::
        (splitRuns (pivots.zip rest)).2.map Run.conjunction := by simp
    rw [merge, if_pos h, Filter.merge, if_pos hrest, joinRuns_none]
    simp only [stackRuns_eq, bind, Except.bind, hruns]
    rw [List.foldl_map]
    rfl

theorem length_of_phrase {primitive : List Char → Except Error Restriction} (p : Phrase)
    {units : List Restriction × List Pivot} (h : p.readUnits primitive = .ok units) :
    units.1.length = units.2.length + 1 := by
  cases p with
  | last f =>
    obtain ⟨tree, -, h⟩ := Except.exists_of_bind_eq_ok h
    cases h
    rfl
  | join f pivot rest =>
    obtain ⟨tree, -, h⟩ := Except.exists_of_bind_eq_ok h
    obtain ⟨more, hmore, h⟩ := Except.exists_of_bind_eq_ok h
    cases h
    exact congrArg Nat.succ (length_of_phrase rest hmore)

/-- Whatever has been read can be joined: there is one component more than there are pivots. -/
theorem length_of_readUnits {level text : List Char} {offset : Nat}
    {units : List Restriction × List Pivot}
    (h : readUnits coerce level offset text = .ok units) :
    units.1.length = units.2.length + 1 := by
  obtain ⟨p, rfl⟩ := exists_phrase_of_read.2 level offset text units h
  rw [(read_chars p).1] at h
  exact length_of_phrase p h

/-! ## One step of the byte-wise reader -/

theorem byte_of_isPlain {c : Char} (hc : isPlain c = true) {b : UInt8}
    (hb : b ∈ String.utf8EncodeChar c) :
    b ≠ '('.toUInt8 ∧ b ≠ ')'.toUInt8 ∧ Pivot.ofByte? b = none := by
  have hne {mark : Char} (hmark : mark.toNat < 128) (hmarked : isPlain mark = false) :
      b ≠ mark.toUInt8 := by
    refine ne_of_mem_utf8EncodeChar hmark ?_ hb
    rintro rfl
    exact absurd (hc.symm.trans hmarked) (by decide)
  refine ⟨hne (by decide) (by decide), hne (by decide) (by decide), ?_⟩
  rw [Pivot.ofByte?, if_neg (hne (by decide) (by decide)), if_neg (hne (by decide) (by decide))]

section
variable {start stop unitStart i : Nat} {components : List Restriction} {pivots : List Pivot}

theorem units_byte (hi : i < stop) {b : UInt8} (hb : (bytes query)[i]? = some b)
    (hopen : b ≠ '('.toUInt8) (hclose : b ≠ ')'.toUInt8) (hpivot : Pivot.ofByte? b = none) :
    units coerce query start stop unitStart i components pivots =
      units coerce query start stop unitStart (i + 1) components pivots := by
  have hbyte : byteAt (bytes query) i = .ok b := by rw [byteAt, hb]
  rw [units, dif_pos hi, hbyte]
  simp only [bind, Except.bind, if_neg hopen, if_neg hclose, hpivot]

theorem units_bytes {n : Nat} (hstop : i + n ≤ stop)
    (h : ∀ k < n, ∃ b, (bytes query)[i + k]? = some b ∧ b ≠ '('.toUInt8 ∧ b ≠ ')'.toUInt8 ∧
      Pivot.ofByte? b = none) :
    units coerce query start stop unitStart i components pivots =
      units coerce query start stop unitStart (i + n) components pivots := by
  induction n generalizing i with
  | zero => rfl
  | succ n ih =>
    obtain ⟨b, hget, hopen, hclose, hpivot⟩ := h 0 (Nat.succ_pos n)
    have hrest := @ih (i + 1) (by omega) fun k hk => by
      rw [Nat.add_right_comm]
      exact h (k + 1) (by omega)
    rw [Nat.add_zero] at hget
    rw [units_byte (by omega) hget hopen hclose hpivot, hrest, Nat.add_right_comm]
    rfl

theorem units_mark {pivot : Pivot} {following : List Char} (hi : i < stop)
    (h : Stands query i (pivot.mark :: following)) :
    units coerce query start stop unitStart i components pivots =
      readPrimitive coerce query unitStart i >>= fun primitive =>
        units coerce query start stop (i + 1) (i + 1) (components ++ [primitive])
          (pivots ++ [pivot]) := by
  have hbyte := h.byteAt_mark (by cases pivot <;> decide)
  have hopen : pivot.mark.toUInt8 ≠ '('.toUInt8 := by cases pivot <;> decide
  have hclose : pivot.mark.toUInt8 ≠ ')'.toUInt8 := by cases pivot <;> decide
  have hpivot : Pivot.ofByte? pivot.mark.toUInt8 = some pivot := by cases pivot <;> decide
  rw [units, dif_pos hi, hbyte]
  simp only [bind, Except.bind, if_neg hopen, if_neg hclose, hpivot]

theorem units_stray {following : List Char} (hi : i < stop)
    (h : Stands query i (')' :: following)) :
    units coerce query start stop unitStart i components pivots =
      slice query start stop >>= fun level =>
        refused (.strayClose (String.ofList level) i) := by
  have hopen : ')'.toUInt8 ≠ '('.toUInt8 := by decide
  rw [units, dif_pos hi, h.byteAt_mark (by decide)]
  simp only [bind, Except.bind, if_neg hopen, if_true]

theorem units_bracket {following : List Char} (hi : i < stop) (hne : i ≠ unitStart)
    (h : Stands query i ('(' :: following)) :
    units coerce query start stop unitStart i components pivots = pivotBefore query i := by
  rw [units, dif_pos hi, h.byteAt_mark (by decide)]
  simp only [bind, Except.bind, if_neg hne, if_true]

theorem units_done (hi : ¬ i < stop) :
    units coerce query start stop unitStart i components pivots =
      if components.length = pivots.length then
        (readPrimitive coerce query unitStart stop).map fun primitive =>
          (components ++ [primitive], pivots)
      else .ok (components, pivots) := by
  rw [units, dif_neg hi]
  split
  · cases readPrimitive coerce query unitStart stop <;> rfl
  · rfl

theorem units_unclosed (hi : i < stop) {rest : List Char} (h : Stands query i ('(' :: rest))
    (hnone : matchingClose (bytes query) i stop = .ok none) :
    units coerce query start stop i i components pivots = refused (.unmatchedOpen i) := by
  rw [units, dif_pos hi, h.byteAt_mark (by decide)]
  simp only [bind, Except.bind, if_true]
  split <;> simp_all

theorem units_group (hi : i < stop) {rest : List Char} (h : Stands query i ('(' :: rest))
    {close : Nat} (hclose : matchingClose (bytes query) i stop = .ok (some close)) :
    units coerce query start stop i i components pivots =
      split coerce query (i + 1) close >>= fun group =>
        if close + 1 = stop then
          units coerce query start stop stop stop (components ++ [group]) pivots
        else
          pivotAfter query close >>= fun pivot =>
            units coerce query start stop (close + 2) (close + 2) (components ++ [group])
              (pivots ++ [pivot]) := by
  rw [units, dif_pos hi, h.byteAt_mark (by decide)]
  simp only [bind, Except.bind, if_true]
  split <;> simp_all

theorem units_plain {fragment rest : List Char} (h : Stands query i (fragment ++ rest))
    (hplain : ∀ c ∈ fragment, isPlain c = true) (hstop : i + byteLength fragment ≤ stop) :
    units coerce query start stop unitStart i components pivots =
      units coerce query start stop unitStart (i + byteLength fragment) components pivots := by
  induction fragment generalizing i with
  | nil => rfl
  | cons c fragment ih =>
    rw [byteLength_cons, ← Nat.add_assoc] at hstop
    have hskip : units coerce query start stop unitStart i components pivots =
        units coerce query start stop unitStart (i + c.utf8Size) components pivots := by
      refine units_bytes (by omega) fun k hk => ?_
      obtain ⟨b, hb, hget⟩ := Stands.exists_byte h hk
      exact ⟨b, hget, byte_of_isPlain (hplain c List.mem_cons_self) hb⟩
    rw [hskip, ih h.tail (fun d hd => hplain d (List.mem_cons_of_mem _ hd)) hstop,
      byteLength_cons, Nat.add_assoc]

end

/-! ## Agreement with the parser -/

theorem readPrimitive_eq {offset : Nat} {fragment : List Char} (h : Stands query offset fragment) :
    readPrimitive coerce query offset (offset + byteLength fragment) =
      (Primitive.read coerce offset fragment).mapError .fault := by
  rw [readPrimitive, h.slice]
  rfl

theorem pivotBefore_eq {α : Type} {offset : Nat} {fragment : List Char} {last : Char}
    (h : Stands query offset fragment) (hlast : fragment.getLast? = some last) :
    (pivotBefore query (offset + byteLength fragment) : Checked α) =
      refused (.illegalPivot last (offset + byteLength fragment - last.utf8Size)) := by
  obtain ⟨before, after, heq, rfl⟩ := h
  have hwhole : Stands query 0 (before ++ fragment) := ⟨[], after, by simpa using heq, rfl⟩
  have hslice := hwhole.slice
  rw [Nat.zero_add, byteLength_append] at hslice
  have hgetLast : (before ++ fragment).getLast? = some last := by
    rw [List.getLast?_append, hlast, Option.some_or]
  have hle : last.utf8Size ≤ byteLength before + byteLength fragment :=
    Nat.le_add_left_of_le (utf8Size_le_of_getLast? hlast)
  rw [pivotBefore, hslice]
  simp only [bind, Except.bind, hgetLast, lowered, if_pos hle]

theorem pivotAfter_eq {close : Nat} {found : Char} {following : List Char}
    (h : Stands query close (')' :: found :: following)) :
    pivotAfter query close =
      match Pivot.ofChar? found with
      | some pivot => .ok pivot
      | none => refused (.illegalPivot found (close + 1)) := by
  obtain ⟨before, after, heq, rfl⟩ := h
  have hstands : Stands query (byteLength before + 1) (found :: following ++ after) :=
    ⟨before ++ [')'], [], by simp [heq], by rw [byteLength_append]; rfl⟩
  have hslice := hstands.slice
  have hlength : byteLength before + 1 + byteLength (found :: following ++ after) =
      byteLength query.toList := by
    have hsize : ')'.utf8Size = 1 := rfl
    simp [heq, hsize]
    omega
  rw [hlength] at hslice
  rw [pivotAfter, hslice]
  rfl

/-! ## Whole expressions -/

theorem split_of_strip {start stop : Nat} {range : Nat × Nat}
    (h : strip (bytes query) start stop = .ok range) :
    split coerce query start stop =
      units coerce query range.1 range.2 range.1 range.1 [] [] >>= fun read =>
        merge read.1 read.2 := by
  rw [split]
  split <;> simp_all

theorem stop_of_splitClose (offset : Nat) {rest inside after : List Char}
    (hs : splitClose 0 rest = some (inside, after)) :
    offset + byteLength ('(' :: rest) =
      offset + 1 + byteLength inside + 1 + byteLength after := by
  have hsize : '('.utf8Size = 1 := rfl
  rw [byteLength_cons, byteLength_of_splitClose hs, hsize]
  omega

theorem units_closed {start offset : Nat} {components : List Restriction} {pivots : List Pivot}
    {rest inside after : List Char} (h : Stands query offset ('(' :: rest))
    (hs : splitClose 0 rest = some (inside, after)) :
    units coerce query start (offset + byteLength ('(' :: rest)) offset offset components pivots =
      split coerce query (offset + 1) (offset + 1 + byteLength inside) >>= fun group =>
        if after = [] then
          units coerce query start (offset + byteLength ('(' :: rest))
            (offset + byteLength ('(' :: rest)) (offset + byteLength ('(' :: rest))
            (components ++ [group]) pivots
        else
          pivotAfter query (offset + 1 + byteLength inside) >>= fun pivot =>
            units coerce query start (offset + byteLength ('(' :: rest))
              (offset + 1 + byteLength inside + 1 + 1) (offset + 1 + byteLength inside + 1 + 1)
              (components ++ [group]) (pivots ++ [pivot]) := by
  have hclose : matchingClose (bytes query) offset (offset + byteLength ('(' :: rest)) =
      .ok (some (offset + 1 + byteLength inside)) := by
    rw [matchingClose_eq h, hs]
    rfl
  have hlast : offset + 1 + byteLength inside + 1 = offset + byteLength ('(' :: rest) ↔
      after = [] := by
    rw [stop_of_splitClose offset hs, ← byteLength_eq_zero_iff]
    omega
  rw [units_group (lt_add_byteLength_cons _ _ _) h hclose]
  simp only [hlast]

theorem byteLength_to_mark {text following : List Char} {found : Char}
    (hdrop : text.dropWhile isPlain = found :: following) :
    byteLength text = byteLength (text.takeWhile isPlain) + byteLength (found :: following) := by
  rw [← hdrop, ← byteLength_append, List.takeWhile_append_dropWhile]

theorem eq_bracket_of_dropWhile {text following : List Char} {found : Char}
    (hdrop : text.dropWhile isPlain = found :: following) (hnone : Pivot.ofChar? found = none)
    (hclose : found ≠ ')') : found = '(' := by
  have hmark : isPlain found = false := by
    have hfind : text.find? (fun c => !isPlain c) = some found := by
      rw [List.find?_not_eq_head?_dropWhile, hdrop, List.head?_cons]
    simpa using List.find?_some hfind
  have hpivot (pivot : Pivot) : found ≠ pivot.mark := fun heq =>
    absurd (hnone.symm.trans (Pivot.ofChar?_eq_some_iff.mpr heq)) (by simp)
  have hand : found ≠ ';' := hpivot .and
  have hor : found ≠ ',' := hpivot .or
  simpa [isPlain, hclose, hand, hor] using hmark

theorem eq_cons_bracket {text following : List Char} {found : Char}
    (hdrop : text.dropWhile isPlain = found :: following) (hnone : Pivot.ofChar? found = none)
    (hclose : found ≠ ')') (hlast : (text.takeWhile isPlain).getLast? = none) :
    text = '(' :: following := by
  have htext := @List.takeWhile_append_dropWhile _ isPlain text
  rw [List.getLast?_eq_none_iff.mp hlast, hdrop, List.nil_append,
    eq_bracket_of_dropWhile hdrop hnone hclose] at htext
  exact htext.symm

theorem units_to_mark {start offset : Nat} {components : List Restriction} {pivots : List Pivot}
    {text following : List Char} {found : Char}
    (hdrop : text.dropWhile isPlain = found :: following) (h : Stands query offset text) :
    units coerce query start (offset + byteLength text) offset offset components pivots =
        units coerce query start (offset + byteLength text) offset
          (offset + byteLength (text.takeWhile isPlain)) components pivots ∧
      Stands query offset (text.takeWhile isPlain) ∧
      Stands query (offset + byteLength (text.takeWhile isPlain)) (found :: following) := by
  have htext : Stands query offset (text.takeWhile isPlain ++ found :: following) := by
    rwa [← hdrop, List.takeWhile_append_dropWhile]
  have hstop := byteLength_to_mark hdrop
  exact ⟨units_plain htext (fun c hc => List.mem_takeWhile_imp hc) (by omega), htext.left,
    htext.right⟩

theorem map_append_read (first : Restriction) (pivot : Pivot) (components : List Restriction)
    (pivots : List Pivot) (more : Except Error (List Restriction × List Pivot)) :
    ((more.mapError Stop.fault).map fun read =>
        (components ++ [first] ++ read.1, pivots ++ [pivot] ++ read.2)) =
      ((more >>= fun read => .ok (first :: read.1, pivot :: read.2)).mapError Stop.fault).map
        fun read => (components ++ read.1, pivots ++ read.2) := by
  cases more with
  | error e => rfl
  | ok read => simp [Except.map, Except.mapError, bind, Except.bind]

theorem split_and_units_eq :
    (∀ offset text, Stands query offset text →
      split coerce query offset (offset + byteLength text) =
        (readExpression coerce offset text).mapError .fault) ∧
    ∀ level offset text start components pivots, Stands query start level →
      start + byteLength level = offset + byteLength text → Stands query offset text →
      components.length = pivots.length →
        units coerce query start (offset + byteLength text) offset offset components pivots =
          ((readUnits coerce level offset text).mapError .fault).map fun read =>
            (components ++ read.1, pivots ++ read.2) := by
  refine readExpression.mutual_induct
    (fun offset text => Stands query offset text →
      split coerce query offset (offset + byteLength text) =
        (readExpression coerce offset text).mapError .fault)
    (fun level offset text => ∀ start components pivots, Stands query start level →
      start + byteLength level = offset + byteLength text → Stands query offset text →
      components.length = pivots.length →
        units coerce query start (offset + byteLength text) offset offset components pivots =
          ((readUnits coerce level offset text).mapError .fault).map fun read =>
            (components ++ read.1, pivots ++ read.2))
    ?expression ?unclosed ?group ?groupPivot ?fragment ?fragmentPivot ?stray ?bracket ?none
  case expression =>
    intro offset text ih h
    obtain ⟨hstrip, hstands⟩ := strip_eq offset text h
    rw [split_of_strip hstrip, ih _ [] [] hstands rfl hstands rfl, readExpression]
    cases hread : readUnits coerce (unwrap offset text).2 (unwrap offset text).1
        (unwrap offset text).2 with
    | error e => rfl
    | ok read => exact merge_eq (length_of_readUnits hread)
  case unclosed =>
    intro level offset rest hs start components pivots _ _ hstands _
    have hnone := matchingClose_eq hstands
    rw [hs] at hnone
    rw [units_unclosed (lt_add_byteLength_cons _ _ _) hstands hnone, readUnits_unclosed hs]
    rfl
  case group =>
    intro level offset rest inside hs ih start components pivots _ _ hstands hcount
    have hinside : Stands query (offset + 1) inside :=
      (eq_append_of_splitClose hs ▸ hstands).tail.left
    have hdone (group : Restriction) : (components ++ [group]).length ≠ pivots.length := by
      simp [hcount]
    rw [units_closed hstands hs, ih hinside, readUnits_group hs]
    cases readExpression coerce (offset + 1) inside with
    | error e => rfl
    | ok group =>
      change units .. = _
      rw [units_done (Nat.lt_irrefl _), if_neg (hdone group)]
      simp [Except.map, Except.mapError]
  case groupPivot =>
    intro level offset rest inside found following hs ih₁ ih₂ start components pivots hlevel hend
      hstands hcount
    have htext := eq_append_of_splitClose hs ▸ hstands
    have hinside : Stands query (offset + 1) inside := htext.tail.left
    have hbehind : Stands query (offset + 1 + byteLength inside) (')' :: found :: following) :=
      htext.tail.right
    rw [units_closed hstands hs, ih₁ hinside, readUnits_group_found hs]
    cases readExpression coerce (offset + 1) inside with
    | error e => rfl
    | ok group =>
      change pivotAfter query (offset + 1 + byteLength inside) >>= _ = _
      rw [pivotAfter_eq hbehind]
      cases hpivot : Pivot.ofChar? found with
      | none => simp [bind, Except.bind, refused, Except.map, Except.mapError]
      | some pivot =>
        obtain rfl := Pivot.ofChar?_eq_some_iff.mp hpivot
        have hsize : pivot.mark.utf8Size = 1 := by cases pivot <;> rfl
        have hfollowing : Stands query (offset + 1 + byteLength inside + 1 + 1) following := by
          have htail := hbehind.tail.tail
          rwa [hsize] at htail
        have hstop : offset + byteLength ('(' :: rest) =
            offset + 1 + byteLength inside + 1 + 1 + byteLength following := by
          rw [stop_of_splitClose offset hs, byteLength_cons, hsize]
          omega
        have hrest := ih₂ start (components ++ [group]) (pivots ++ [pivot]) hlevel
          (hend.trans hstop) hfollowing (by simp [hcount])
        rw [hstop]
        change units .. = _
        rw [hrest]
        exact map_append_read group pivot components pivots _
  case fragment =>
    intro level offset text hopen hdrop start components pivots _ _ hstands hcount
    have hplain := List.dropWhile_eq_nil_iff.1 hdrop
    have htext : Stands query offset (text ++ []) := by rwa [List.append_nil]
    rw [units_plain htext hplain (Nat.le_refl _), units_done (Nat.lt_irrefl _), if_pos hcount,
      readPrimitive_eq hstands, readUnits_fragment hplain]
    cases Primitive.read coerce offset text with
    | error e => rfl
    | ok primitive => simp [Except.map, Except.mapError]
  case fragmentPivot =>
    intro level offset text found following pivot hpivot hopen fragment stop hdrop ih start
      components pivots hlevel hend hstands hcount
    obtain rfl := Pivot.ofChar?_eq_some_iff.mp hpivot
    have hsize : pivot.mark.utf8Size = 1 := by cases pivot <;> rfl
    obtain ⟨hskip, hfragment, hmark⟩ := @units_to_mark coerce _ start _ components pivots _ _ _ hdrop
      hstands
    have hlength := byteLength_to_mark hdrop
    rw [byteLength_cons, hsize] at hlength
    have hstop : offset + byteLength text =
        offset + byteLength (text.takeWhile isPlain) + 1 + byteLength following := by omega
    have hfollowing : Stands query (offset + byteLength (text.takeWhile isPlain) + 1) following := by
      have htail := hmark.tail
      rwa [hsize] at htail
    rw [hskip, units_mark (by omega) hmark, readPrimitive_eq hfragment,
      (readUnits_mark hopen hdrop level offset).1 pivot hpivot]
    cases Primitive.read coerce offset (text.takeWhile isPlain) with
    | error e => rfl
    | ok primitive =>
      have hrest := ih start (components ++ [primitive]) (pivots ++ [pivot]) hlevel
        (hend.trans hstop) hfollowing (by simp [hcount])
      rw [hstop]
      change units .. = _
      exact hrest.trans (map_append_read primitive pivot components pivots _)
  case stray =>
    intro level offset text following hopen hnone hdrop start components pivots hlevel hend
      hstands hcount
    obtain ⟨hskip, -, hmark⟩ := @units_to_mark coerce _ start _ components pivots _ _ _ hdrop hstands
    have hslice := hlevel.slice
    rw [hend] at hslice
    have hlength := byteLength_to_mark hdrop
    have hpos := lt_add_byteLength_cons (offset + byteLength (text.takeWhile isPlain)) ')' following
    rw [hskip, units_stray (by omega) hmark, hslice,
      (readUnits_mark hopen hdrop level offset).2 hnone]
    rfl
  case bracket =>
    intro level offset text found following hnone hne last hopen fragment hdrop hlast start
      components pivots hlevel hend hstands hcount
    obtain rfl := eq_bracket_of_dropWhile hdrop hnone hne
    obtain ⟨hskip, hfragment, hmark⟩ :=
      @units_to_mark coerce _ start _ components pivots _ _ _ hdrop hstands
    have hlength := byteLength_to_mark hdrop
    have hpos := lt_add_byteLength_cons (offset + byteLength (text.takeWhile isPlain)) '(' following
    have hlast' : (text.takeWhile isPlain).getLast? = some last := hlast
    have hnonempty : byteLength (text.takeWhile isPlain) ≠ 0 := by
      rw [Ne, byteLength_eq_zero_iff]
      intro hnil
      simp [hnil] at hlast'
    rw [hskip, units_bracket (by omega) (by omega) hmark, pivotBefore_eq hfragment hlast',
      (readUnits_mark hopen hdrop level offset).2 hnone, hlast']
    rfl
  case none =>
    intro level offset text found following hnone hne hopen fragment hdrop hlast start components
      pivots _ _ _ _
    exact (hopen following (eq_cons_bracket hdrop hnone hne hlast)).elim

theorem parse_eq (coerce : Coercer) (query : String) :
    parse coerce query = (Filter.parse coerce query).mapError .fault := by
  have hsplit := (@split_and_units_eq coerce query).1 0 query.toList (stands_whole query)
  rw [Nat.zero_add] at hsplit
  rw [parse, length_bytes, hsplit, Filter.parse]

end InventorySearch.Filter.Bytewise
