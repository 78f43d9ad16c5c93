import InventorySearch.Proofs.Text.Numeral

set_option autoImplicit false

/-!
# Timestamps in the store

What the store makes of a timestamp that is passed to it as text: the same
instant to the second, unless the year is written with a plus sign or the second
is a sixtieth.
-/
namespace InventorySearch.Calendar
open Text Text.Numeral

theorem takeWhile_isDigit_append {ds rest : List Char} (hds : ds.all Char.isDigit = true)
    (hrest : ∀ c ∈ rest.head?, c.isDigit = false) :
    (ds ++ rest).takeWhile Char.isDigit = ds := by
  rw [List.takeWhile_append_of_pos (List.all_eq_true.mp hds)]
  cases rest with
  | nil => simp
  | cons c rest => simp [hrest c rfl]

theorem readDigits_append {ds rest : List Char} (hne : ds ≠ []) (hds : ds.all Char.isDigit = true)
    (hrest : ∀ c ∈ rest.head?, c.isDigit = false) :
    readDigits (ds ++ rest) = some (digitsValue ds, rest) := by
  rw [readDigits, takeWhile_isDigit_append hds hrest]
  cases ds with
  | nil => exact absurd rfl hne
  | cons d ds => simp

theorem readDigitsUpTo_width {width n : Nat} (h : n < Nat.pow 10 (width + 1))
    (rest : List Char) :
    readDigitsUpTo (width + 1) (padded (width + 1) n ++ rest) = some (n, rest) := by
  have hlen : (padded (width + 1) n).length = width + 1 := length_padded h
  have htake : (padded (width + 1) n ++ rest).take (width + 1) = padded (width + 1) n := by
    rw [List.take_append_of_le_length (by omega), List.take_of_length_le (by omega)]
  have hall := all_isDigit_padded (width + 1) n
  have hwhile : (padded (width + 1) n).takeWhile Char.isDigit = padded (width + 1) n := by
    have happend := @takeWhile_isDigit_append (padded (width + 1) n) [] hall (by simp)
    rwa [List.append_nil] at happend
  have hdrop : (padded (width + 1) n ++ rest).drop (width + 1) = rest := by
    rw [List.drop_append_of_le_length (by omega), List.drop_of_length_le (by omega),
      List.nil_append]
  rw [readDigitsUpTo, htake, hwhile]
  cases hp : padded (width + 1) n with
  | nil => exact absurd hp (padded_ne_nil (width + 1) n)
  | cons d ds =>
    have hvalue := digitsValue_padded (width + 1) n
    rw [hp] at hvalue hdrop hlen
    simp only [hvalue, hlen, hdrop]

theorem readDigitsUpTo_padded {n : Nat} (h : n < 100) (rest : List Char) :
    readDigitsUpTo 2 (padded 2 n ++ rest) = some (n, rest) :=
  readDigitsUpTo_width h rest

theorem readMark_self (c : Char) (cs : List Char) : readMark c (c :: cs) = some cs := by
  simp [readMark]

namespace Timestamp

def writeRest (separator : Char) (t : Timestamp) : List Char :=
  '-' :: (padded 2 t.date.month ++ '-' :: (padded 2 t.date.day ++ separator ::
    (padded 2 t.hour ++ ':' :: (padded 2 t.minute ++ ':' :: padded 2 t.second))))

theorem write_eq (separator : Char) (t : Timestamp) :
    t.write separator = writeYear t.date.year ++ t.writeRest separator := by
  simp [write, writeRest, List.append_assoc]

theorem monthLength_le (year : Int) (month : Nat) : monthLength year month ≤ 31 := by
  unfold monthLength
  split
  · split <;> decide
  all_goals decide

theorem bind_readMark (c : Char) (cs : List Char) (f : List Char → Option (Nat × List Char)) :
    (readMark c (c :: cs)).bind f = f cs := by
  rw [readMark_self, Option.bind_some]

theorem readDigitsUpTo_padded_end {n : Nat} (h : n < 100) :
    readDigitsUpTo 2 (padded 2 n) = some (n, []) := by
  have happend := readDigitsUpTo_padded h []
  rwa [List.append_nil] at happend

def readSigned? (sign : Int) (cs : List Char) : Option Timestamp := do
  let (year, cs) ← readDigits cs
  let (month, cs) ← (readMark '-' cs).bind (readDigitsUpTo 2)
  let (day, cs) ← (readMark '-' cs).bind (readDigitsUpTo 2)
  let (hour, cs) ← (readMark ' ' cs).bind (readDigitsUpTo 2)
  let (minute, cs) ← (readMark ':' cs).bind (readDigitsUpTo 2)
  let (second, cs) ← (readMark ':' cs).bind (readDigitsUpTo 2)
  let micro ← readFraction cs
  let date ← Date.ofFields? (sign * year) month day
  if second < 60 then ofFields? date hour minute second micro else none

def splitSign : List Char → Int × List Char
  | '-' :: cs => (-1, cs)
  | cs => (1, cs)

theorem readStored?_eq (cs : List Char) :
    readStored? cs = readSigned? (splitSign cs).1 (splitSign cs).2 := rfl

theorem splitSign_of_head_ne {cs : List Char} (h : cs.head? ≠ some '-') :
    splitSign cs = (1, cs) := by
  unfold splitSign
  split
  · exact absurd rfl h
  · rfl

theorem readSigned?_append (sign : Int) {y : List Char} (hne : y ≠ [])
    (hy : y.all Char.isDigit = true) (t : Timestamp) :
    readSigned? sign (y ++ t.writeRest ' ') =
      (Date.ofFields? (sign * (digitsValue y : Int)) t.date.month t.date.day).bind fun date =>
        if t.second < 60 then ofFields? date t.hour t.minute t.second 0 else none := by
  obtain ⟨hhour, hminute, hsecond, -⟩ := t.clock
  have hmonth := t.date.month_range
  have hday := Nat.le_trans t.date.day_range.2 (monthLength_le t.date.year t.date.month)
  have hyear : readDigits (y ++ t.writeRest ' ') = some (digitsValue y, t.writeRest ' ') :=
    readDigits_append hne hy (by simp [writeRest])
  rw [readSigned?, hyear]
  simp only [Option.bind_eq_bind, Option.bind_some, writeRest, bind_readMark, readFraction,
    readDigitsUpTo_padded (Nat.lt_of_le_of_lt hmonth.2 (by decide : 12 < 100)),
    readDigitsUpTo_padded (Nat.lt_of_le_of_lt hday (by decide : 31 < 100)),
    readDigitsUpTo_padded (Nat.lt_trans hhour (by decide : 24 < 100)),
    readDigitsUpTo_padded (Nat.lt_trans hminute (by decide : 60 < 100)),
    readDigitsUpTo_padded_end (Nat.lt_of_le_of_lt hsecond (by decide : 60 < 100))]

theorem readSigned?_year {sign : Int} {y : List Char} (hne : y ≠ [])
    (hy : y.all Char.isDigit = true) {t : Timestamp}
    (hyear : sign * (digitsValue y : Int) = t.date.year) :
    readSigned? sign (y ++ t.writeRest ' ') =
      if t.second < 60 then some t.wholeSecond else none := by
  have hwhole : ofFields? t.date t.hour t.minute t.second 0 = some t.wholeSecond :=
    ofFields?_self t.wholeSecond
  rw [readSigned?_append sign hne hy, hyear, Date.ofFields?_self, Option.bind_some, hwhole]

theorem head?_ne_of_isDigit {cs rest : List Char} (hne : cs ≠ [])
    (hdigits : cs.all Char.isDigit = true) {c : Char} (hc : c.isDigit = false) :
    (cs ++ rest).head? ≠ some c := by
  cases cs with
  | nil => exact absurd rfl hne
  | cons d ds =>
    rintro heq
    obtain rfl : d = c := by simpa using heq
    simp [hc] at hdigits

/-- What the store makes of a timestamp passed to it. -/
theorem readStored?_write (t : Timestamp) :
    readStored? (t.write ' ') =
      if t.second < 60 ∧ t.date.year ≤ 9999 then some t.wholeSecond else none := by
  rw [write_eq, writeYear]
  by_cases hplain : 0 ≤ t.date.year ∧ t.date.year ≤ 9999
  · have hyear : (1 : Int) * (digitsValue (padded 4 t.date.year.toNat) : Int) = t.date.year := by
      rw [digitsValue_padded]
      omega
    have hall := all_isDigit_padded 4 t.date.year.toNat
    have hsign : splitSign (padded 4 t.date.year.toNat ++ t.writeRest ' ') = (1, _) :=
      splitSign_of_head_ne (head?_ne_of_isDigit (padded_ne_nil 4 _) hall (by decide))
    rw [if_pos hplain, readStored?_eq, hsign, readSigned?_year (padded_ne_nil 4 _) hall hyear]
    simp [hplain.2]
  · rw [if_neg hplain]
    by_cases hneg : t.date.year < 0
    · have hyear : (-1 : Int) * (digitsValue (padded 4 t.date.year.natAbs) : Int) =
          t.date.year := by
        rw [digitsValue_padded]
        omega
      have hle : t.date.year ≤ 9999 := by omega
      rw [if_pos hneg, List.cons_append, readStored?_eq, splitSign,
        readSigned?_year (padded_ne_nil 4 _) (all_isDigit_padded 4 _) hyear]
      simp [hle]
    · have hgt : ¬ t.date.year ≤ 9999 := by omega
      have hplus (cs : List Char) : readSigned? 1 ('+' :: cs) = none := by
        simp [readSigned?, readDigits]
      rw [if_neg hneg, List.cons_append, readStored?_eq, splitSign_of_head_ne (by simp), hplus,
        if_neg (fun h => hgt h.2)]

end Timestamp
end InventorySearch.Calendar
