import Mathlib.Data.List.Count
import Mathlib.Order.Bounds.Basic
import InventorySearch.Proofs.Filter.Matching
import InventorySearch.Proofs.Filter.Offsets

set_option autoImplicit false

/-!
# The index of a closing bracket

Where the byte-wise reader finds a bracket closed: at the first index up to which as many
brackets have closed as opened. The bytes need not be those of a text, and the range that is
searched may end anywhere, behind the last byte too.
-/
namespace InventorySearch.Filter.Bytewise

/-! ## Counting bytes -/

def opened (bytes : List UInt8) : Nat := bytes.count '('.toUInt8

def closed (bytes : List UInt8) : Nat := bytes.count ')'.toUInt8

/-- Whether the bytes from `start` to `close`, both included, end in front of `stop` and close as
many brackets as they open. -/
structure Evens (bytes : List UInt8) (start stop close : Nat) : Prop where
  behind : start < close
  before : close < stop
  there : close < bytes.length
  even : closed (bytes.extract start (close + 1)) = opened (bytes.extract start (close + 1))

/-- Whether the bracket at `close` closes the one at `start`, by the counts of the bytes from the
one to the other and of those between them. -/
structure Matches (bytes : List UInt8) (start close : Nat) : Prop where
  mark : bytes[close]? = some ')'.toUInt8
  pending : ∀ part, part <+: bytes.extract start (close + 1) → part ≠ [] →
    part ≠ bytes.extract start (close + 1) → closed part < opened part
  within : ∀ part, part <+: bytes.extract (start + 1) close → closed part ≤ opened part
  even : closed (bytes.extract (start + 1) close) = opened (bytes.extract (start + 1) close)

/-! ## Bytes as characters -/

/-- The characters that have the bytes for numbers, which are not those that the bytes encode. -/
def characters (bytes : List UInt8) : List Char := bytes.map Char.ofUInt8

theorem ofUInt8_injective : Function.Injective Char.ofUInt8 := by
  intro a b h
  have hnumber : a.toUInt32 = b.toUInt32 := congrArg Char.val h
  exact UInt8.toUInt32_inj.mp hnumber

theorem count_open_characters (bytes : List UInt8) :
    (characters bytes).count '(' = opened bytes :=
  List.count_map_of_injective bytes _ ofUInt8_injective '('.toUInt8

theorem count_close_characters (bytes : List UInt8) :
    (characters bytes).count ')' = closed bytes :=
  List.count_map_of_injective bytes _ ofUInt8_injective ')'.toUInt8

theorem within_characters_iff {depth : Nat} {bytes : List UInt8} :
    Within depth (characters bytes) ↔
      ∀ part, part <+: bytes → closed part ≤ opened part + depth := by
  constructor
  · intro h part hpart
    rw [← count_open_characters, ← count_close_characters]
    exact h _ (hpart.map _)
  · intro h start hstart
    obtain ⟨part, hpart, rfl⟩ := List.prefix_map_iff.mp hstart
    have hcount := h part hpart
    rwa [← count_open_characters, ← count_close_characters] at hcount

theorem closed_lt_opened {bytes part : List UInt8} (h : Within 0 (characters bytes))
    (hpart : part <+: '('.toUInt8 :: bytes) (hne : part ≠ []) : closed part < opened part := by
  rcases List.prefix_cons_iff.mp hpart with rfl | ⟨rest, rfl, hrest⟩
  · exact absurd rfl hne
  · have hcount := within_characters_iff.mp h rest hrest
    have hother : '('.toUInt8 ≠ ')'.toUInt8 := by decide
    rw [closed, opened, List.count_cons_of_ne hother, List.count_cons_self]
    exact Nat.lt_succ_of_le hcount

/-! ## Ranges of bytes -/

section
variable {bytes : List UInt8} {i start stop : Nat}

theorem extract_eq_cons (hi : i < stop) {b : UInt8} (hb : bytes[i]? = some b) :
    bytes.extract i stop = b :: bytes.extract (i + 1) stop := by
  obtain ⟨hlength, rfl⟩ := List.getElem?_eq_some_iff.mp hb
  obtain ⟨n, rfl⟩ := Nat.exists_eq_add_of_lt hi
  have hsize : i + n + 1 - i = n + 1 := by omega
  have hrest : i + n + 1 - (i + 1) = n := by omega
  rw [List.extract_eq_take_drop, List.extract_eq_take_drop, List.drop_eq_getElem_cons hlength,
    hsize, hrest, List.take_succ_cons]

theorem extract_concat (hi : i ≤ stop) {b : UInt8} (hb : bytes[stop]? = some b) :
    bytes.extract i (stop + 1) = bytes.extract i stop ++ [b] := by
  have hsize : stop + 1 - i = stop - i + 1 := by omega
  have hlast : i + (stop - i) = stop := by omega
  rw [List.extract_eq_take_drop, hsize, List.take_add_one, List.getElem?_drop, hlast, hb]
  rfl

theorem extract_prefix_extract (start : Nat) {stop' : Nat} (hle : stop ≤ stop') :
    bytes.extract start stop <+: bytes.extract start stop' :=
  List.take_prefix_take_left (Nat.sub_le_sub_right hle start)

theorem exists_of_characters_eq_cons {c : Char} {cs : List Char}
    (h : characters (bytes.extract i stop) = c :: cs) :
    i < stop ∧ (∃ b, bytes[i]? = some b ∧ Char.ofUInt8 b = c) ∧
      characters (bytes.extract (i + 1) stop) = cs := by
  have hi : i < stop := by
    refine Nat.lt_of_not_le fun hle => ?_
    rw [List.extract_eq_take_drop, Nat.sub_eq_zero_of_le hle] at h
    cases h
  cases hb : bytes[i]? with
  | none =>
    rw [List.extract_eq_take_drop, List.drop_eq_nil_of_le (List.getElem?_eq_none_iff.mp hb),
      List.take_nil] at h
    cases h
  | some b =>
    rw [extract_eq_cons hi hb] at h
    obtain ⟨hc, hcs⟩ := List.cons.inj h
    exact ⟨hi, ⟨b, rfl, hc⟩, hcs⟩

theorem byte_of_characters_eq_cons (b : UInt8) {cs : List Char}
    (h : characters (bytes.extract i stop) = Char.ofUInt8 b :: cs) :
    i < stop ∧ bytes[i]? = some b ∧ characters (bytes.extract (i + 1) stop) = cs := by
  obtain ⟨hi, ⟨first, hfirst, hnumber⟩, hrest⟩ := exists_of_characters_eq_cons h
  obtain rfl := ofUInt8_injective hnumber
  exact ⟨hi, hfirst, hrest⟩

theorem characters_extract_of_append {xs ys : List Char}
    (h : characters (bytes.extract i stop) = xs ++ ys) :
    characters (bytes.extract i (i + xs.length)) = xs ∧
      characters (bytes.extract (i + xs.length) stop) = ys := by
  induction xs generalizing i with
  | nil =>
    refine ⟨?_, h⟩
    rw [List.length_nil, Nat.add_zero, List.extract_eq_take_drop, Nat.sub_self, List.take_zero]
    rfl
  | cons c xs ih =>
    obtain ⟨-, ⟨b, hb, rfl⟩, hrest⟩ := exists_of_characters_eq_cons h
    obtain ⟨hxs, hys⟩ := ih hrest
    have hlength : i + (Char.ofUInt8 b :: xs).length = i + 1 + xs.length := by
      rw [List.length_cons]
      omega
    have hcons := congrArg (Char.ofUInt8 b :: ·) hxs
    rw [hlength, extract_eq_cons (by omega) hb]
    exact ⟨hcons, hys⟩

theorem map_cons_length (i : Nat) (c : Char) (found : Option (List Char × List Char)) :
    (found.map fun (inside, after) => (c :: inside, after)).map (fun p => i + p.1.length) =
      found.map fun p => i + 1 + p.1.length := by
  cases found <;> simp [Nat.add_comm, Nat.add_left_comm]

/-! ## The search -/

/-- The count stays above zero, and the search goes as that of the parser in the characters that
have the bytes for numbers. -/
theorem closeFrom_eq_splitClose (depth : Nat) : closeFrom bytes stop i (depth + 1) =
    .ok ((splitClose depth (characters (bytes.extract i stop))).map fun p => i + p.1.length) := by
  generalize hcs : characters (bytes.extract i stop) = cs
  fun_induction splitClose depth cs generalizing i with
  | case1 depth =>
    have hnone : bytes[i]? = none ∨ ¬ i < stop := by
      by_contra! h
      obtain ⟨b, hb⟩ := Option.ne_none_iff_exists'.mp h.1
      rw [extract_eq_cons h.2 hb] at hcs
      cases hcs
    rw [closeFrom]
    rcases hnone with hb | hi
    · simp [hb]
    · rw [if_neg hi]
      rfl
  | case2 cs =>
    obtain ⟨hi, hb, -⟩ := byte_of_characters_eq_cons ')'.toUInt8 hcs
    rw [closeFrom_close hi hb, if_pos rfl]
    rfl
  | case3 cs outer ih =>
    obtain ⟨hi, hb, hrest⟩ := byte_of_characters_eq_cons ')'.toUInt8 hcs
    rw [closeFrom_close hi hb, if_neg (Nat.succ_ne_zero outer), map_cons_length]
    exact ih hrest
  | case4 depth cs ih =>
    obtain ⟨hi, hb, hrest⟩ := byte_of_characters_eq_cons '('.toUInt8 hcs
    rw [closeFrom_open hi hb, map_cons_length]
    exact ih hrest
  | case5 depth c cs hclose hopen ih =>
    obtain ⟨hi, ⟨b, hb, rfl⟩, hrest⟩ := exists_of_characters_eq_cons hcs
    have hskip := closeFrom_skip (depth + 1) (Nat.succ_le_of_lt hi) fun k hk => by
      obtain rfl := Nat.lt_one_iff.mp hk
      exact ⟨b, hb, fun heq => hopen (congrArg Char.ofUInt8 heq),
        fun heq => hclose (congrArg Char.ofUInt8 heq)⟩
    rw [hskip, map_cons_length]
    exact ih hrest

end

/-! ## What the search finds -/

section
variable {bytes : List UInt8} {start stop close : Nat}

theorem matchingClose_eq_splitClose (hopen : bytes[start]? = some '('.toUInt8)
    (hstop : start < stop) : matchingClose bytes start stop =
      .ok ((splitClose 0 (characters (bytes.extract (start + 1) stop))).map
        fun p => start + 1 + p.1.length) := by
  rw [matchingClose, closeFrom_open hstop hopen]
  exact closeFrom_eq_splitClose 0

theorem extract_ne_nil (hopen : bytes[start]? = some '('.toUInt8) (hstop : start < stop) :
    bytes.extract start stop ≠ [] := by
  rw [extract_eq_cons hstop hopen]
  exact List.cons_ne_nil _ _

theorem not_evens_of_matchingClose (hopen : bytes[start]? = some '('.toUInt8)
    (hstop : start < stop) (h : matchingClose bytes start stop = .ok none) (j : Nat) :
    ¬ Evens bytes start stop j := by
  intro heven
  rw [matchingClose_eq_splitClose hopen hstop] at h
  have hwithin := splitClose_eq_none_iff.mp (Option.map_eq_none_iff.mp (Except.ok.inj h))
  have hbehind := heven.behind
  have hpart : bytes.extract start (j + 1) <+: bytes.extract start stop :=
    extract_prefix_extract start heven.before
  have hne : bytes.extract start (j + 1) ≠ [] := extract_ne_nil hopen (by omega)
  rw [extract_eq_cons hstop hopen] at hpart
  have hlt := closed_lt_opened hwithin hpart hne
  have heq := heven.even
  omega

theorem matches_of_matchingClose (hopen : bytes[start]? = some '('.toUInt8)
    (hstop : start < stop) (h : matchingClose bytes start stop = .ok (some close)) :
    start < close ∧ close < stop ∧ Matches bytes start close := by
  rw [matchingClose_eq_splitClose hopen hstop] at h
  obtain ⟨⟨inside, after⟩, hsplit, rfl⟩ := Option.map_eq_some_iff.mp (Except.ok.inj h)
  obtain ⟨hinside, hafter⟩ := characters_extract_of_append (eq_append_of_splitClose hsplit)
  obtain ⟨hlt, hb, -⟩ := byte_of_characters_eq_cons ')'.toUInt8 hafter
  have hwell := wellBracketed_of_splitClose hsplit
  rw [← hinside] at hwell
  have hbehind : start < start + 1 + inside.length := by omega
  refine ⟨hbehind, hlt, hb, fun part hpart hne hproper => ?_,
    within_characters_iff.mp hwell.within, ?_⟩
  · -- without the last bracket the range is a bracket and what no start of it closes
    rw [extract_concat (Nat.le_of_lt hbehind) hb] at hpart hproper
    have hfront := (List.prefix_concat_iff.mp hpart).resolve_left hproper
    rw [extract_eq_cons hbehind hopen] at hfront
    exact closed_lt_opened hwell.within hfront hne
  · rw [← count_open_characters, ← count_close_characters, hwell.even]

theorem Matches.evens (h : Matches bytes start close) (hopen : bytes[start]? = some '('.toUInt8)
    (hbehind : start < close) (hstop : close < stop) : Evens bytes start stop close := by
  obtain ⟨hthere, -⟩ := List.getElem?_eq_some_iff.mp h.mark
  have hother : '('.toUInt8 ≠ ')'.toUInt8 := by decide
  have hinner := h.even
  refine ⟨hbehind, hstop, hthere, ?_⟩
  rw [extract_concat (Nat.le_of_lt hbehind) h.mark, extract_eq_cons hbehind hopen]
  simp only [closed, opened, List.count_append, List.count_cons_self,
    List.count_cons_of_ne hother] at hinner ⊢
  rw [hinner]
  rfl

/-- The range up to an earlier index is a proper start of the one up to the match. -/
theorem Matches.le_of_evens (h : Matches bytes start close)
    (hopen : bytes[start]? = some '('.toUInt8) {j : Nat} (heven : Evens bytes start stop j) :
    close ≤ j := by
  refine Nat.le_of_not_lt fun hlt => ?_
  have hbehind := heven.behind
  have hpart : bytes.extract start (j + 1) <+: bytes.extract start (close + 1) :=
    extract_prefix_extract start (by omega)
  have hne : bytes.extract start (j + 1) ≠ [] := extract_ne_nil hopen (by omega)
  have hproper : bytes.extract start (j + 1) ≠ bytes.extract start (close + 1) := by
    intro heq
    have hlength := congrArg List.length heq
    obtain ⟨hthere, -⟩ := List.getElem?_eq_some_iff.mp h.mark
    simp only [List.extract_eq_take_drop, List.length_take, List.length_drop] at hlength
    omega
  have hpending := h.pending _ hpart hne hproper
  have heq := heven.even
  omega

theorem matchingClose_congr {other : List UInt8} (hopen : bytes[start]? = some '('.toUInt8)
    (hstop : start < stop) (h : other.take stop = bytes.take stop) :
    matchingClose other start stop = matchingClose bytes start stop := by
  have hfirst : other[start]? = bytes[start]? := by
    rw [← List.getElem?_take_of_lt hstop, h, List.getElem?_take_of_lt hstop]
  have hrange : other.extract (start + 1) stop = bytes.extract (start + 1) stop := by
    rw [List.extract_eq_take_drop, List.extract_eq_take_drop, ← List.drop_take, h, List.drop_take]
  rw [matchingClose_eq_splitClose hopen hstop, ← hrange,
    matchingClose_eq_splitClose (hfirst.trans hopen) hstop]

/-- Behind a bracket that opens, the search finds the least index up to which as many brackets
close as open, and nothing exactly if the range has none. There the brackets match, what stands
behind the range is not met, and in a part of an expression it is the search of the parser. -/
theorem matchingClose_least (hopen : bytes[start]? = some '('.toUInt8) (hstop : start < stop) :
    ∃ found, matchingClose bytes start stop = .ok found ∧
      (∀ close, found = some close ↔ IsLeast {j | Evens bytes start stop j} close) ∧
      (∀ close, found = some close → Matches bytes start close) ∧
      (found = none ↔ ∀ j, ¬ Evens bytes start stop j) ∧
      (∀ other : List UInt8, other.take stop = bytes.take stop →
        matchingClose other start stop = .ok found) ∧
      ∀ query rest, bytes = Text.bytes query → Stands query start ('(' :: rest) →
        stop = start + Text.byteLength ('(' :: rest) →
        found = (splitClose 0 rest).map fun p => start + 1 + Text.byteLength p.1 := by
  obtain ⟨found, hfound⟩ : ∃ found, matchingClose bytes start stop = .ok found :=
    ⟨_, matchingClose_eq_splitClose hopen hstop⟩
  have hmatches {close : Nat} (h : found = some close) :
      Matches bytes start close ∧ IsLeast {j | Evens bytes start stop j} close := by
    obtain ⟨hbehind, hbefore, hmatch⟩ := matches_of_matchingClose hopen hstop (h ▸ hfound)
    exact ⟨hmatch, hmatch.evens hopen hbehind hbefore, fun j => hmatch.le_of_evens hopen⟩
  have hnone (h : found = none) : ∀ j, ¬ Evens bytes start stop j :=
    not_evens_of_matchingClose hopen hstop (h ▸ hfound)
  refine ⟨found, hfound, fun close => ⟨fun h => (hmatches h).2, fun hleast => ?_⟩,
    fun close h => (hmatches h).1, ⟨hnone, fun h => ?_⟩, fun other h => ?_, ?_⟩
  · cases hcase : found with
    | none => exact absurd hleast.1 (hnone hcase close)
    | some first => exact congrArg some ((hmatches hcase).2.unique hleast)
  · cases hcase : found with
    | none => rfl
    | some first => exact absurd (hmatches hcase).2.1 (h first)
  · exact (matchingClose_congr hopen hstop h).trans hfound
  · rintro query rest rfl hstands rfl
    exact Except.ok.inj (hfound.symm.trans (matchingClose_eq hstands))

def noText : List UInt8 := [0xFF, 0x28, 0x28, 0x80, 0x29, 0x29, 0x29]

/-- Inner brackets are passed over, in bytes of no text and behind a character of two bytes; in a
range that ends in front of the last bracket there is none to find. -/
theorem matchingClose_nested :
    (noText[1]? = some '('.toUInt8 ∧ matchingClose noText 1 6 = .ok (some 5) ∧
      Matches noText 1 5) ∧
    (matchingClose noText 1 5 = .ok none ∧ ∀ j, ¬ Evens noText 1 5 j) ∧
    (Stands "é((b))" 2 ['(', '(', 'b', ')', ')'] ∧
      matchingClose (Text.bytes "é((b))") 2 7 = .ok (some 6)) := by
  have hopen : noText[1]? = some '('.toUInt8 := rfl
  have hearlier : ∀ j < 5, 1 < j →
      closed (noText.extract 1 (j + 1)) ≠ opened (noText.extract 1 (j + 1)) := by decide
  have hleast : IsLeast {j | Evens noText 1 6 j} 5 := by
    refine ⟨⟨by decide, by decide, by decide, by decide⟩, fun j hj => ?_⟩
    exact Nat.le_of_not_lt fun hlt => hearlier j hlt hj.behind hj.even
  have hcut : ∀ j, ¬ Evens noText 1 5 j := fun j hj => hearlier j hj.before hj.behind hj.even
  have hstands : Stands "é((b))" 2 ['(', '(', 'b', ')', ')'] := ⟨['é'], [], rfl, rfl⟩
  obtain ⟨found, hfound, hfirst, hmatches, -⟩ := matchingClose_least hopen (by decide : 1 < 6)
  obtain ⟨cut, hfoundCut, -, -, hnone, -⟩ := matchingClose_least hopen (by decide : 1 < 5)
  obtain ⟨inText, hfoundText, -, -, -, -, hparser⟩ :=
    matchingClose_least (hstands.getElem?_mark (by decide)) (by decide : 2 < 7)
  have hfive := (hfirst 5).mpr hleast
  have hsix := hparser "é((b))" ['(', 'b', ')', ')'] rfl hstands rfl
  refine ⟨⟨hopen, hfive ▸ hfound, hmatches 5 hfive⟩, ⟨?_, hcut⟩, hstands, ?_⟩
  · rw [hfoundCut, hnone.mpr hcut]
  · rw [hfoundText, hsix]
    rfl

end
end InventorySearch.Filter.Bytewise
