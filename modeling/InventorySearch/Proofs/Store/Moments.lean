import InventorySearch.Proofs.Calendar.Numbering
import InventorySearch.Proofs.Calendar.Written
import InventorySearch.Proofs.Text.Basic
import InventorySearch.Store.Search

set_option autoImplicit false

/-!
# Moments that are shown

Timestamps are written and read back, so a moment that is shown can be asked for.
-/
namespace InventorySearch.Calendar
open Text Text.Numeral

/-!
## Written timestamps are read back

A timestamp that is written as filter literals are is read back to the second, in
whatever year it is and also in a sixtieth second. However leniently a literal was
read, writing what it says and reading that again changes nothing.
-/

/-! ### Numbers -/

theorem trimStart_digits {ds : List Char} (hne : ds ≠ []) (hds : ds.all Char.isDigit = true)
    (rest : List Char) : trimStart (ds ++ rest) = ds ++ rest := by
  obtain ⟨d, ds, rfl⟩ := List.exists_cons_of_ne_nil hne
  rw [List.all_cons, Bool.and_eq_true] at hds
  refine trimStart_eq_self fun c hc => ?_
  obtain rfl := Option.some.inj hc
  exact isBlank_of_isDigit hds.1

theorem readMarked_padded (mark : Char) {n : Nat} (h : n < 100) (rest : List Char) :
    readMarked mark (mark :: (padded 2 n ++ rest)) = some (n, rest) := by
  rw [readMarked, readMark_self, Option.bind_some, readField,
    trimStart_digits (padded_ne_nil 2 n) (all_isDigit_padded 2 n), readDigitsUpTo_padded h]

theorem readMarked_padded_end (mark : Char) {n : Nat} (h : n < 100) :
    readMarked mark (mark :: padded 2 n) = some (n, []) := by
  have happend := readMarked_padded mark h []
  rwa [List.append_nil] at happend

namespace Timestamp

/-! ### Years -/

theorem readYear_of_isDigit {ds : List Char} (hne : ds ≠ []) (hds : ds.all Char.isDigit = true)
    (rest : List Char) :
    readYear (ds ++ rest) =
      (readDigitsUpTo 4 (ds ++ rest)).map fun (n, rest) => ((n : Int), rest) := by
  rw [readYear, trimStart_digits hne hds]
  split
  · next h => exact absurd (congrArg List.head? h) (head?_ne_of_isDigit hne hds (by decide))
  · next h => exact absurd (congrArg List.head? h) (head?_ne_of_isDigit hne hds (by decide))
  · rfl

theorem readYear_writeYear (year : Int) {rest : List Char}
    (hrest : ∀ c ∈ rest.head?, c.isDigit = false) :
    readYear (writeYear year ++ rest) = some (year, rest) := by
  rw [writeYear]
  by_cases hplain : 0 ≤ year ∧ year ≤ 9999
  · have hshort : year.toNat < Nat.pow 10 (3 + 1) := by
      change year.toNat < 10000
      omega
    have hyear : (year.toNat : Int) = year := Int.toNat_of_nonneg hplain.1
    rw [if_pos hplain, readYear_of_isDigit (padded_ne_nil 4 _) (all_isDigit_padded 4 _),
      readDigitsUpTo_width hshort]
    simp only [Option.map_some, hyear]
  · have hdigits := readDigits_append (padded_ne_nil 4 year.natAbs)
      (all_isDigit_padded 4 year.natAbs) hrest
    rw [digitsValue_padded] at hdigits
    rw [if_neg hplain]
    by_cases hneg : year < 0
    · have hyear : -(year.natAbs : Int) = year := by omega
      have htrim (cs : List Char) : trimStart ('-' :: cs) = '-' :: cs :=
        trimStart_eq_self (by simp; decide)
      rw [if_pos hneg, List.cons_append, readYear, htrim]
      simp only [hdigits, Option.map_some, hyear]
    · have hyear : (year.natAbs : Int) = year := by omega
      have htrim (cs : List Char) : trimStart ('+' :: cs) = '+' :: cs :=
        trimStart_eq_self (by simp; decide)
      rw [if_neg hneg, List.cons_append, readYear, htrim]
      simp only [hdigits, Option.map_some, hyear]

/-! ### Timestamps -/

theorem read?_write (t : Timestamp) : read? (t.write 'T') = some t.wholeSecond := by
  obtain ⟨hhour, hminute, hsecond, -⟩ := t.clock
  have hmonth := t.date.month_range.2
  have hday := Nat.le_trans t.date.day_range.2 (monthLength_le t.date.year t.date.month)
  have hdash : ∀ c ∈ (t.writeRest 'T').head?, c.isDigit = false := by simp [writeRest]
  have hyear : readYear (t.write 'T') = some (t.date.year, t.writeRest 'T') := by
    rw [write_eq, readYear_writeYear _ hdash]
  have hwhole : ofFields? t.date t.hour t.minute t.second 0 = some t.wholeSecond :=
    ofFields?_self t.wholeSecond
  rw [read?, hyear]
  simp only [Option.bind_eq_bind, Option.bind_some, writeRest,
    readMarked_padded '-' (by omega : t.date.month < 100),
    readMarked_padded '-' (by omega : t.date.day < 100),
    readMarked_padded 'T' (by omega : t.hour < 100),
    readMarked_padded ':' (by omega : t.minute < 100),
    readMarked_padded_end ':' (by omega : t.second < 100), Date.ofFields?_self, hwhole]

theorem micro_of_read? {cs : List Char} {t : Timestamp} (h : read? cs = some t) : t.micro = 0 := by
  simp only [read?, Option.bind_eq_bind, Option.bind_eq_some_iff] at h
  obtain ⟨_, -, _, -, _, -, _, -, _, -, ⟨_, rest⟩, -, h⟩ := h
  cases rest with
  | cons c cs => cases h
  | nil =>
    obtain ⟨date, -, h⟩ := Option.bind_eq_some_iff.mp h
    rw [ofFields?] at h
    split at h
    · exact (congrArg micro (Option.some.inj h)).symm
    · cases h

theorem wholeSecond_of_read? {cs : List Char} {t : Timestamp} (h : read? cs = some t) :
    t.wholeSecond = t := by
  have hmicro := micro_of_read? h
  ext <;> simp [wholeSecond, hmicro]

theorem read?_text (t : Timestamp) : read? t.text.toList = some t.wholeSecond := by
  rw [text, String.toList_ofList, read?_write]

end Timestamp

end InventorySearch.Calendar

namespace InventorySearch.Store
open InventorySearch.Filter Calendar

/-!
## Moments that are shown can be asked for

The text that a record shows for a moment is a literal for its whole second, and so
can be put into a filter as it is. The same holds of what a literal was read as.
-/

section
variable {lookup : Lookup} {field : String}

theorem coerce_timestamp_eq_ok_iff {literal : String} {t : Timestamp} :
    Rule.timestamp.coerce lookup field literal = .ok (.moment t) ↔
      Timestamp.read? literal.toList = some t := by
  rw [Rule.coerce]
  cases Timestamp.read? literal.toList with
  | none => exact iff_of_false nofun nofun
  | some u =>
    change Except.ok (Operand.moment u) = .ok (.moment t) ↔ some u = some t
    simp

theorem json_moment {m : Int} {t : Timestamp} (h : Timestamp.ofMicros? m = some t) :
    (Value.moment m).json = .text t.text := by
  rw [Value.json, Timestamp.ofMicros, h, Option.getD_some]

end

/-- What is shown of a moment in the years that can be shown is accepted as a literal, and read as
the whole second that the moment lies in. Whatever literal is accepted, the text of what it is
read as is accepted too, and read as the same. -/
theorem shown_moment_is_literal (lookup : Lookup) (field : String) :
    (∀ m : Int, Timestamp.earliest.micros ≤ m → m ≤ Timestamp.latest.micros →
      ∃ shown t, (Value.moment m).json = .text shown ∧
        Rule.timestamp.coerce lookup field shown = .ok (.moment t) ∧
        t.micros = m / 1000000 * 1000000 ∧ t.second < 60 ∧ t.micro = 0) ∧
    ∀ (literal : String) (t : Timestamp),
      Rule.timestamp.coerce lookup field literal = .ok (.moment t) →
        Rule.timestamp.coerce lookup field t.text = .ok (.moment t) := by
  constructor
  · intro m hearliest hlatest
    obtain ⟨t, ht, hmicros, hsecond⟩ := Timestamp.exists_ofMicros? hearliest hlatest
    refine ⟨t.text, t.wholeSecond, json_moment ht,
      coerce_timestamp_eq_ok_iff.mpr t.read?_text, ?_, hsecond, rfl⟩
    rw [Timestamp.micros_wholeSecond, hmicros]
  · intro literal t hliteral
    have hread := coerce_timestamp_eq_ok_iff.mp hliteral
    have hwhole : t.wholeSecond = t := Timestamp.wholeSecond_of_read? hread
    exact coerce_timestamp_eq_ok_iff.mpr (hwhole ▸ t.read?_text)

def lastSecond : Timestamp := ⟨⟨-44, 3, 15, by decide, by decide, by decide⟩, 9, 5, 60, 0, by decide⟩

/-- The moment before 1970, and a literal with short fields and a sixtieth second. -/
theorem shown_beforeEpoch :
    (∃ shown t, (Value.moment (-1)).json = .text shown ∧
      Rule.timestamp.coerce (fun _ _ => .ok none) "createTime" shown = .ok (.moment t) ∧
      t.micros = -1000000 ∧ t.second < 60 ∧ t.micro = 0) ∧
    Rule.timestamp.coerce (fun _ _ => .ok none) "createTime" " -44-3- 15T09:5:60" =
      .ok (.moment lastSecond) ∧
    Rule.timestamp.coerce (fun _ _ => .ok none) "createTime" lastSecond.text =
      .ok (.moment lastSecond) := by
  obtain ⟨hmoment, hliteral⟩ := shown_moment_is_literal (fun _ _ => .ok none) "createTime"
  have hread : Rule.timestamp.coerce (fun _ _ => .ok none) "createTime" " -44-3- 15T09:5:60" =
      .ok (.moment lastSecond) := coerce_timestamp_eq_ok_iff.mpr (by decide)
  exact ⟨hmoment (-1) (by decide) (by decide), hread, hliteral _ _ hread⟩

end InventorySearch.Store
