import Mathlib.Data.List.TakeWhile
import InventorySearch.Text.Basic

set_option autoImplicit false

/-!
# Blanks and bytes of texts

What trimming takes off a text, and what its bytes say of its characters.
-/
namespace InventorySearch.Text

/-!
## Blanks at the ends

Trimming takes all blanks off the ends of a text and nothing else. No letter and no
digit is a blank.
-/

theorem trimStart_append {front rest : List Char} (h : ∀ c ∈ front, isBlank c = true) :
    trimStart (front ++ rest) = trimStart rest :=
  List.dropWhile_append_of_pos h

theorem trimStart_eq_self {cs : List Char} (h : ∀ c ∈ cs.head?, isBlank c = false) :
    trimStart cs = cs := by
  cases cs with
  | nil => rfl
  | cons c cs => exact List.dropWhile_cons_of_neg (by simp [h c rfl])

theorem exists_eq_trim (cs : List Char) :
    ∃ front back, cs = front ++ trim cs ++ back ∧ ∀ c ∈ front ++ back, isBlank c = true := by
  have hblank (ds : List Char) : ∀ c ∈ ds.takeWhile isBlank, isBlank c = true := fun c hc =>
    List.mem_takeWhile_imp hc
  refine ⟨cs.takeWhile isBlank, ((trimStart cs).reverse.takeWhile isBlank).reverse, ?_, ?_⟩
  · have hback : trim cs ++ ((trimStart cs).reverse.takeWhile isBlank).reverse = trimStart cs := by
      rw [trim, ← List.reverse_append]
      exact (congrArg List.reverse List.takeWhile_append_dropWhile).trans (List.reverse_reverse _)
    rw [List.append_assoc, hback, trimStart, List.takeWhile_append_dropWhile]
  · intro c hc
    rcases List.mem_append.mp hc with hc | hc
    · exact hblank cs c hc
    · exact hblank _ c (List.mem_reverse.mp hc)

theorem trim_eq {front word back : List Char} (hblank : ∀ c ∈ front ++ back, isBlank c = true)
    (hword : ∀ c ∈ word, isBlank c = false) (hne : word ≠ []) :
    trim (front ++ word ++ back) = word := by
  rw [List.forall_mem_append] at hblank
  have hstart : trimStart (front ++ word ++ back) = word ++ back := by
    rw [List.append_assoc, trimStart_append hblank.1]
    obtain ⟨first, rest, rfl⟩ := List.exists_cons_of_ne_nil hne
    refine trimStart_eq_self fun c hc => ?_
    obtain rfl := Option.some.inj hc
    exact hword _ List.mem_cons_self
  have hend : trimStart (back.reverse ++ word.reverse) = word.reverse := by
    rw [trimStart_append fun c hc => hblank.2 c (List.mem_reverse.mp hc)]
    exact trimStart_eq_self fun c hc => hword c (List.mem_reverse.mp (List.mem_of_mem_head? hc))
  rw [trim, hstart, List.reverse_append, hend, List.reverse_reverse]

theorem isBlank_of_isDigit {c : Char} (h : c.isDigit = true) : isBlank c = false := by
  simp only [Char.isDigit, Bool.and_eq_true, decide_eq_true_iff] at h
  have hlow : 48 ≤ c.toNat := h.1
  have hhigh : c.toNat ≤ 57 := h.2
  simp [isBlank, blankRanges]
  omega

theorem toLower_of_isBlank {c : Char} (h : isBlank c = true) : c.toLower = c := by
  simp only [isBlank, blankRanges, List.any_cons, List.any_nil, Bool.or_eq_true, Bool.and_eq_true,
    decide_eq_true_iff, Bool.or_false] at h
  refine dif_neg fun hupper => ?_
  have hlow : 65 ≤ c.toNat := hupper.1
  have hhigh : c.toNat ≤ 90 := hupper.2
  omega

/-!
## Bytes of texts

The bytes of a text are those of its characters one after another. A character
below 128 is one byte, and the bytes of all others are 128 and above, so that
the byte of a mark stands for nothing but the mark.
-/

def encoded (cs : List Char) : List UInt8 := cs.flatMap String.utf8EncodeChar

theorem bytes_eq_encoded (s : String) : bytes s = encoded s.toList := by
  have hutf8 : s.toByteArray = s.toList.utf8Encode := by
    rw [← String.toByteArray_ofList, String.ofList_toList]
  rw [bytes, hutf8, List.utf8Encode, List.data_toByteArray, encoded]

theorem encoded_cons (c : Char) (cs : List Char) :
    encoded (c :: cs) = String.utf8EncodeChar c ++ encoded cs := rfl

theorem encoded_append (cs ds : List Char) : encoded (cs ++ ds) = encoded cs ++ encoded ds :=
  List.flatMap_append

theorem length_encoded (cs : List Char) : (encoded cs).length = byteLength cs := by
  induction cs with
  | nil => rfl
  | cons c cs ih =>
    rw [encoded_cons, List.length_append, String.length_utf8EncodeChar, ih, byteLength_cons]

theorem length_bytes (s : String) : (bytes s).length = byteLength s.toList := by
  rw [bytes_eq_encoded, length_encoded]

theorem utf8Size_le_of_getLast? {cs : List Char} {last : Char} (h : cs.getLast? = some last) :
    last.utf8Size ≤ byteLength cs := by
  obtain ⟨before, rfl⟩ := List.getLast?_eq_some_iff.mp h
  rw [byteLength_append, byteLength_cons]
  omega

theorem utf8EncodeChar_of_lt {c : Char} (h : c.toNat < 128) :
    String.utf8EncodeChar c = [c.toUInt8] := by
  have hle : c.val ≤ 127 := UInt32.le_iff_toNat_le.mpr (Nat.le_of_lt_succ h)
  exact String.utf8EncodeChar_eq_singleton (Char.utf8Size_eq_one_iff.mpr hle)

theorem le_of_mem_utf8EncodeChar {c : Char} (h : 128 ≤ c.toNat) :
    ∀ b ∈ String.utf8EncodeChar c, 128 ≤ b.toNat := by
  have hgt : ¬ c.val.toNat ≤ 127 := Nat.not_le.mpr h
  simp only [String.utf8EncodeChar, if_neg hgt]
  split
  · simp
    omega
  · split
    · simp
      omega
    · simp
      omega

theorem toNat_toUInt8 {c : Char} (h : c.toNat < 128) : c.toUInt8.toNat = c.toNat := by
  have hmod : c.toUInt8.toNat = c.toNat % 2 ^ 8 := UInt32.toNat_toUInt8 c.val
  omega

/-- The byte of a mark occurs in no other character. -/
theorem eq_of_mem_utf8EncodeChar {mark c : Char} (hmark : mark.toNat < 128)
    (h : mark.toUInt8 ∈ String.utf8EncodeChar c) : c = mark := by
  by_cases hc : c.toNat < 128
  · rw [utf8EncodeChar_of_lt hc, List.mem_singleton] at h
    have hnat := congrArg UInt8.toNat h
    rw [toNat_toUInt8 hmark, toNat_toUInt8 hc] at hnat
    exact Char.toNat_inj.mp hnat.symm
  · have hle := le_of_mem_utf8EncodeChar (Nat.not_lt.mp hc) _ h
    have hbyte := toNat_toUInt8 hmark
    omega

end InventorySearch.Text
