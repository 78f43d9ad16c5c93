import InventorySearch.Proofs.Filter.Bytewise
import InventorySearch.Proofs.Filter.Grammar
import InventorySearch.Proofs.Text.Basic

set_option autoImplicit false

/-!
# Byte indices into an expression

What stands at a byte index of an expression, and what the byte-wise reader finds
there. Bytes of marks are bytes of characters, so every index at which the reader
stops is a character boundary.
-/
namespace InventorySearch.Filter.Bytewise
open Text

/-- Being a part of an expression, from a byte of it on. -/
def Stands (query : String) (offset : Nat) (text : List Char) : Prop :=
  ∃ before after, query.toList = before ++ text ++ after ∧ offset = byteLength before

variable {query : String} {offset : Nat}

theorem stands_whole (query : String) : Stands query 0 query.toList :=
  ⟨[], [], by simp, rfl⟩

theorem Stands.left {xs ys : List Char} (h : Stands query offset (xs ++ ys)) :
    Stands query offset xs := by
  obtain ⟨before, after, heq, rfl⟩ := h
  exact ⟨before, ys ++ after, by simp [heq], rfl⟩

theorem Stands.right {xs ys : List Char} (h : Stands query offset (xs ++ ys)) :
    Stands query (offset + byteLength xs) ys := by
  obtain ⟨before, after, heq, rfl⟩ := h
  exact ⟨before ++ xs, after, by simp [heq], by simp⟩

theorem Stands.tail {c : Char} {cs : List Char} (h : Stands query offset (c :: cs)) :
    Stands query (offset + c.utf8Size) cs := by
  have hright : Stands query (offset + byteLength [c]) cs := h.right
  simpa using hright

/-! ## Ranges -/

theorem dropBytes?_append (xs ys : List Char) : dropBytes? (byteLength xs) (xs ++ ys) = some ys := by
  induction xs with
  | nil => cases ys <;> rfl
  | cons c xs ih =>
    obtain ⟨n, hn⟩ : ∃ n, byteLength (c :: xs) = n + 1 :=
      Nat.exists_eq_add_one.mpr (Nat.add_pos_left c.utf8Size_pos _)
    have hle : c.utf8Size ≤ n + 1 := hn ▸ Nat.le_add_right _ _
    have hrest : n + 1 - c.utf8Size = byteLength xs := by
      rw [← hn, byteLength_cons, Nat.add_sub_cancel_left]
    rw [hn, List.cons_append, dropBytes?, if_pos hle, hrest, ih]

theorem takeBytes?_append (xs ys : List Char) : takeBytes? (byteLength xs) (xs ++ ys) = some xs := by
  induction xs with
  | nil => cases ys <;> rfl
  | cons c xs ih =>
    obtain ⟨n, hn⟩ : ∃ n, byteLength (c :: xs) = n + 1 :=
      Nat.exists_eq_add_one.mpr (Nat.add_pos_left c.utf8Size_pos _)
    have hle : c.utf8Size ≤ n + 1 := hn ▸ Nat.le_add_right _ _
    have hrest : n + 1 - c.utf8Size = byteLength xs := by
      rw [← hn, byteLength_cons, Nat.add_sub_cancel_left]
    rw [hn, List.cons_append, takeBytes?, if_pos hle, hrest, ih]
    rfl

theorem Stands.slice {text : List Char} (h : Stands query offset text) :
    Bytewise.slice query offset (offset + byteLength text) = .ok text := by
  obtain ⟨before, after, heq, rfl⟩ := h
  have hdrop : dropBytes? (byteLength before) query.toList = some (text ++ after) := by
    rw [heq, List.append_assoc, dropBytes?_append]
  have htake : takeBytes? (byteLength before + byteLength text - byteLength before)
      (text ++ after) = some text := by
    rw [Nat.add_sub_cancel_left, takeBytes?_append]
  rw [Bytewise.slice, if_pos (Nat.le_add_right _ _), hdrop, Option.bind_some, htake]

/-! ## Bytes -/

theorem Stands.getElem? {text : List Char} (h : Stands query offset text) {k : Nat}
    (hk : k < byteLength text) : (bytes query)[offset + k]? = (encoded text)[k]? := by
  obtain ⟨before, after, heq, rfl⟩ := h
  rw [bytes_eq_encoded, heq, encoded_append, encoded_append, List.append_assoc,
    ← length_encoded before, List.getElem?_append_right (Nat.le_add_right _ _),
    Nat.add_sub_cancel_left, List.getElem?_append_left (length_encoded text ▸ hk)]

theorem Stands.exists_byte {c : Char} {cs : List Char} (h : Stands query offset (c :: cs)) {k : Nat}
    (hk : k < c.utf8Size) :
    ∃ b ∈ String.utf8EncodeChar c, (bytes query)[offset + k]? = some b := by
  have hlength : k < (String.utf8EncodeChar c).length := by
    rwa [String.length_utf8EncodeChar]
  refine ⟨_, List.getElem_mem hlength, ?_⟩
  rw [h.getElem? (Nat.lt_of_lt_of_le hk (Nat.le_add_right _ _)), encoded_cons,
    List.getElem?_append_left hlength, List.getElem?_eq_getElem hlength]

theorem Stands.byteAt {c : Char} {cs : List Char} (h : Stands query offset (c :: cs)) :
    ∃ b ∈ String.utf8EncodeChar c, Bytewise.byteAt (bytes query) offset = .ok b := by
  obtain ⟨b, hb, hget⟩ := h.exists_byte c.utf8Size_pos
  exact ⟨b, hb, by rw [Bytewise.byteAt, ← Nat.add_zero offset, hget]⟩

theorem Stands.getElem?_mark {mark : Char} {cs : List Char} (hmark : mark.toNat < 128)
    (h : Stands query offset (mark :: cs)) :
    (bytes query)[offset]? = some mark.toUInt8 := by
  obtain ⟨b, hb, hget⟩ := h.exists_byte mark.utf8Size_pos
  rw [utf8EncodeChar_of_lt hmark, List.mem_singleton] at hb
  rwa [hb] at hget

theorem Stands.byteAt_mark {mark : Char} {cs : List Char} (hmark : mark.toNat < 128)
    (h : Stands query offset (mark :: cs)) :
    Bytewise.byteAt (bytes query) offset = .ok mark.toUInt8 := by
  rw [Bytewise.byteAt, h.getElem?_mark hmark]

theorem ne_of_mem_utf8EncodeChar {mark c : Char} (hmark : mark.toNat < 128) (hne : c ≠ mark)
    {b : UInt8} (hb : b ∈ String.utf8EncodeChar c) : b ≠ mark.toUInt8 := by
  rintro rfl
  exact hne (eq_of_mem_utf8EncodeChar hmark hb)

/-! ## Brackets -/

theorem closeFrom_skip {text : List UInt8} {stop i n : Nat} (depth : Nat) (hstop : i + n ≤ stop)
    (h : ∀ k < n, ∃ b, text[i + k]? = some b ∧ b ≠ '('.toUInt8 ∧ b ≠ ')'.toUInt8) :
    closeFrom text stop i depth = closeFrom text stop (i + n) depth := by
  induction n generalizing i with
  | zero => rfl
  | succ n ih =>
    obtain ⟨b, hget, hopen, hclose⟩ := h 0 (Nat.succ_pos n)
    have hrest := @ih (i + 1) (by omega) fun k hk => by
      rw [Nat.add_right_comm]
      exact h (k + 1) (by omega)
    have hstep : closeFrom text stop i depth = closeFrom text stop (i + 1) depth := by
      rw [closeFrom, if_pos (by omega)]
      rw [Nat.add_zero] at hget
      simp only [hget, if_neg hopen, if_neg hclose]
    rw [hstep, hrest, Nat.add_right_comm]
    rfl

theorem closeFrom_open {text : List UInt8} {stop i depth : Nat} (hi : i < stop)
    (h : text[i]? = some '('.toUInt8) :
    closeFrom text stop i depth = closeFrom text stop (i + 1) (depth + 1) := by
  rw [closeFrom, if_pos hi]
  simp only [h, if_true]

theorem closeFrom_close {text : List UInt8} {stop i depth : Nat} (hi : i < stop)
    (h : text[i]? = some ')'.toUInt8) :
    closeFrom text stop i (depth + 1) =
      if depth = 0 then .ok (some i) else closeFrom text stop (i + 1) depth := by
  have hne : ')'.toUInt8 ≠ '('.toUInt8 := by decide
  rw [closeFrom, if_pos hi]
  simp only [h, if_neg hne, if_true]
  rfl

theorem lt_add_byteLength_cons (offset : Nat) (c : Char) (cs : List Char) :
    offset < offset + byteLength (c :: cs) :=
  Nat.lt_add_of_pos_right (Nat.add_pos_left c.utf8Size_pos _)

theorem map_cons_close (offset : Nat) (c : Char) (found : Option (List Char × List Char)) :
    (found.map fun (inside, after) => (c :: inside, after)).map (fun p => offset + byteLength p.1) =
      found.map fun p => offset + c.utf8Size + byteLength p.1 := by
  cases found <;> simp [Nat.add_assoc]

/-- The count is one more than the brackets that are open around the text, so it ends at zero and
never below. -/
theorem closeFrom_eq (depth : Nat) (text : List Char) {offset : Nat}
    (h : Stands query offset text) :
    closeFrom (bytes query) (offset + byteLength text) offset (depth + 1) =
      .ok ((splitClose depth text).map fun p => offset + byteLength p.1) := by
  fun_induction splitClose depth text generalizing offset with
  | case1 depth =>
    rw [closeFrom, if_neg (by simp)]
    rfl
  | case2 cs =>
    rw [closeFrom_close (lt_add_byteLength_cons _ _ _) (h.getElem?_mark (by decide)), if_pos rfl]
    rfl
  | case3 cs outer ih =>
    rw [closeFrom_close (lt_add_byteLength_cons _ _ _) (h.getElem?_mark (by decide)),
      if_neg (Nat.succ_ne_zero outer), byteLength_cons, ← Nat.add_assoc, map_cons_close]
    exact ih h.tail
  | case4 depth cs ih =>
    rw [closeFrom_open (lt_add_byteLength_cons _ _ _) (h.getElem?_mark (by decide)),
      byteLength_cons, ← Nat.add_assoc, map_cons_close]
    exact ih h.tail
  | case5 depth c cs hclose hopen ih =>
    have hskip := closeFrom_skip (depth + 1)
      (Nat.add_le_add_left (Nat.le_add_right c.utf8Size (byteLength cs)) offset) fun k hk => by
        obtain ⟨b, hb, hget⟩ := h.exists_byte hk
        exact ⟨b, hget, ne_of_mem_utf8EncodeChar (by decide) hopen hb,
          ne_of_mem_utf8EncodeChar (by decide) hclose hb⟩
    rw [byteLength_cons, hskip, ← Nat.add_assoc, map_cons_close]
    exact ih h.tail

theorem matchingClose_eq {rest : List Char} (h : Stands query offset ('(' :: rest)) :
    matchingClose (bytes query) offset (offset + byteLength ('(' :: rest)) =
      .ok ((splitClose 0 rest).map fun p => offset + 1 + byteLength p.1) := by
  rw [matchingClose, closeFrom_open (lt_add_byteLength_cons _ _ _) (h.getElem?_mark (by decide)),
    byteLength_cons, ← Nat.add_assoc]
  exact closeFrom_eq 0 rest h.tail

/-! ## Enclosing brackets -/

theorem strip_open {rest : List Char} (h : Stands query offset ('(' :: rest)) :
    strip (bytes query) offset (offset + byteLength ('(' :: rest)) =
      if (splitClose 0 rest).map (fun p => offset + 1 + byteLength p.1) =
          some (offset + byteLength rest) then
        strip (bytes query) (offset + 1) (offset + byteLength rest)
      else .ok (offset, offset + byteLength ('(' :: rest)) := by
  have hlast : offset + byteLength ('(' :: rest) - 1 = offset + byteLength rest := by
    have hsize : '('.utf8Size = 1 := rfl
    rw [byteLength_cons, hsize]
    omega
  rw [strip, dif_pos (lt_add_byteLength_cons _ _ _), h.byteAt_mark (by decide),
    matchingClose_eq h, hlast]
  rfl

theorem strip_not_open {text : List Char} (h : Stands query offset text)
    (hopen : ∀ rest, text ≠ '(' :: rest) :
    strip (bytes query) offset (offset + byteLength text) =
      .ok (offset, offset + byteLength text) := by
  cases text with
  | nil =>
    rw [strip, dif_neg (by simp)]
    rfl
  | cons c cs =>
    obtain ⟨b, hb, hbyte⟩ := h.byteAt
    have hc : c ≠ '(' := fun heq => hopen cs (by rw [heq])
    have hne := ne_of_mem_utf8EncodeChar (by decide) hc hb
    rw [strip, dif_pos (lt_add_byteLength_cons _ _ _), hbyte]
    exact if_neg hne

theorem byteLength_of_splitClose {depth : Nat} {rest inside after : List Char}
    (hs : splitClose depth rest = some (inside, after)) :
    byteLength rest = byteLength inside + 1 + byteLength after := by
  rw [eq_append_of_splitClose hs, byteLength_append, byteLength_cons, ← Nat.add_assoc]
  rfl

theorem byteLength_eq_zero_iff {cs : List Char} : byteLength cs = 0 ↔ cs = [] := by
  cases cs with
  | nil => simp
  | cons c cs => simp [Nat.ne_of_gt c.utf8Size_pos]

/-- The bracket that closes the one in front is the last byte exactly if nothing follows it. -/
theorem closes_last_iff {rest : List Char} (offset : Nat) :
    (splitClose 0 rest).map (fun p => offset + 1 + byteLength p.1) =
        some (offset + byteLength rest) ↔
      ∃ inside, splitClose 0 rest = some (inside, []) := by
  cases hs : splitClose 0 rest with
  | none => simp
  | some found =>
    obtain ⟨inside, after⟩ := found
    have hlength := byteLength_of_splitClose hs
    simp only [Option.map_some, Option.some.injEq, Prod.mk.injEq, exists_eq_left']
    rw [← byteLength_eq_zero_iff]
    omega

theorem strip_eq (offset : Nat) (text : List Char) (h : Stands query offset text) :
    strip (bytes query) offset (offset + byteLength text) =
        .ok ((unwrap offset text).1,
          (unwrap offset text).1 + byteLength (unwrap offset text).2) ∧
      Stands query (unwrap offset text).1 (unwrap offset text).2 := by
  fun_induction unwrap offset text with
  | case1 offset rest inside hs ih =>
    have hinside : Stands query (offset + 1) inside := (eq_append_of_splitClose hs ▸ h).tail.left
    have hstop : offset + byteLength rest = offset + 1 + byteLength inside := by
      rw [byteLength_of_splitClose hs, byteLength_nil]
      omega
    rw [strip_open h, if_pos ((closes_last_iff offset).mpr ⟨inside, hs⟩), hstop]
    exact ih hinside
  | case2 offset rest hs =>
    have hlast : ¬ ∃ inside, splitClose 0 rest = some (inside, []) := by
      rintro ⟨inside, hinside⟩
      exact hs inside hinside
    rw [strip_open h, if_neg (mt (closes_last_iff offset).mp hlast)]
    exact ⟨rfl, h⟩
  | case3 offset text hopen => exact ⟨strip_not_open h hopen, h⟩

end InventorySearch.Filter.Bytewise
