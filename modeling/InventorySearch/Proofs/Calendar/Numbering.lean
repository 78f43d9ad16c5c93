import Mathlib.Tactic.SplitIfs
import InventorySearch.Calendar.Timestamp

set_option autoImplicit false

/-!
# Days and instants by their numbers

Every day number from the first date that can be shown to the last one is that of a
date, and every count of microseconds between them that of a timestamp, before 1970
as well as after it. The timestamp has no sixtieth second.
-/
namespace InventorySearch.Calendar

namespace Date

/-! ## Years -/

theorem daysBeforeYear_succ (year : Int) :
    daysBeforeYear (year + 1) = daysBeforeYear year + if isLeap year then 366 else 365 := by
  have hleap : isLeap year = true ↔ year % 4 = 0 ∧ (year % 100 ≠ 0 ∨ year % 400 = 0) := by
    simp [isLeap]
  unfold daysBeforeYear
  split
  · next h =>
    have hrule := hleap.mp h
    omega
  · next h =>
    have hrule := mt hleap.mpr h
    omega

theorem daysBeforeYear_mono {year other : Int} (h : year ≤ other) :
    daysBeforeYear year ≤ daysBeforeYear other := by
  unfold daysBeforeYear
  omega

/-- The year that is found begins on the day or before it, and the next one after it. -/
theorem yearOf_holds (n : Int) :
    daysBeforeYear (yearOf n) ≤ n ∧ n < daysBeforeYear (yearOf n + 1) := by
  unfold yearOf
  dsimp only
  split_ifs with hbefore hafter
  · unfold daysBeforeYear at *
    omega
  · unfold daysBeforeYear at *
    omega
  · omega

/-! ## Months -/

theorem daysBeforeMonth_succ (year : Int) {month : Nat} (h : 1 ≤ month) :
    daysBeforeMonth year (month + 1) = daysBeforeMonth year month + monthLength year month := by
  cases month with
  | zero => omega
  | succ m => rfl

theorem daysBeforeMonth_whole (year : Int) :
    daysBeforeMonth year 13 = if isLeap year then 366 else 365 := by
  cases h : isLeap year <;> simp [daysBeforeMonth, monthLength, h]

/-- Taking whole months off keeps the day that is counted to. -/
theorem locate_counts (year : Int) {left month rest : Nat} (hmonth : 1 ≤ month)
    (hrest : daysBeforeMonth year month + rest < daysBeforeMonth year (month + left + 1))
    {m d : Nat} (h : locate year left month rest = (m, d)) :
    (month ≤ m ∧ m ≤ month + left) ∧ (1 ≤ d ∧ d ≤ monthLength year m) ∧
      daysBeforeMonth year m + (d - 1) = daysBeforeMonth year month + rest := by
  induction left generalizing month rest with
  | zero =>
    obtain ⟨rfl, rfl⟩ := Prod.mk.inj h
    have hsucc := daysBeforeMonth_succ year hmonth
    rw [Nat.add_zero] at hrest
    omega
  | succ left ih =>
    have hsucc := daysBeforeMonth_succ year hmonth
    rw [locate] at h
    split_ifs at h with hfits
    · obtain ⟨rfl, rfl⟩ := Prod.mk.inj h
      omega
    · have hend : month + 1 + left + 1 = month + (left + 1) + 1 := by omega
      have hnext := ih (by omega) (by rw [hend]; omega) h
      omega

/-! ## Dates -/

def first : Date := ⟨minYear, 1, 1, by decide, epoch.month_range, by decide⟩

def last : Date := ⟨maxYear, 12, 31, by decide, by decide, by decide⟩

theorem exists_ofNumber? {n : Int} (hfirst : first.number ≤ n) (hlast : n ≤ last.number) :
    ∃ d, ofNumber? n = some d ∧ d.number = n := by
  obtain ⟨hbegun, hends⟩ := yearOf_holds n
  have hmin : minYear ≤ yearOf n := Int.not_lt.mp fun hless => by
    have hmono := daysBeforeYear_mono (by omega : yearOf n + 1 ≤ minYear)
    have hnumber : first.number = daysBeforeYear minYear := by decide
    omega
  have hmax : yearOf n ≤ maxYear := Int.not_lt.mp fun hmore => by
    have hmono := daysBeforeYear_mono (by omega : maxYear + 1 ≤ yearOf n)
    have hnumber : last.number = daysBeforeYear (maxYear + 1) - 1 := by decide
    omega
  have hjanuary : daysBeforeMonth (yearOf n) 1 = 0 := rfl
  have hrest : daysBeforeMonth (yearOf n) 1 + (n - daysBeforeYear (yearOf n)).toNat <
      daysBeforeMonth (yearOf n) 13 := by
    rw [daysBeforeYear_succ] at hends
    rw [hjanuary, daysBeforeMonth_whole]
    split_ifs at hends ⊢ <;> omega
  cases hlocate : locate (yearOf n) 11 1 (n - daysBeforeYear (yearOf n)).toNat with
  | mk month day =>
    obtain ⟨hmonth, hday, hcount⟩ := locate_counts (yearOf n) (Nat.le_refl 1) hrest hlocate
    refine ⟨⟨yearOf n, month, day, ⟨hmin, hmax⟩, hmonth, hday⟩, ?_, ?_⟩
    · rw [ofNumber?, hlocate]
      exact dif_pos ⟨⟨hmin, hmax⟩, hmonth, hday⟩
    · rw [number]
      dsimp only
      omega

end Date

namespace Timestamp

/-! ## Instants -/

def earliest : Timestamp := ⟨Date.first, 0, 0, 0, 0, epoch.clock⟩

def latest : Timestamp := ⟨Date.last, 23, 59, 59, 999999, by decide⟩

theorem micros_earliest :
    earliest.micros = (Date.first.number - Date.epoch.number) * microsPerDay := by
  simp [micros, earliest]

theorem micros_latest :
    latest.micros = (Date.last.number - Date.epoch.number + 1) * microsPerDay - 1 := by
  simp only [micros, latest, microsPerDay]
  omega

theorem exists_ofMicros? {m : Int} (hearliest : earliest.micros ≤ m) (hlatest : m ≤ latest.micros) :
    ∃ t, ofMicros? m = some t ∧ t.micros = m ∧ t.second < 60 := by
  rw [micros_earliest, microsPerDay] at hearliest
  rw [micros_latest, microsPerDay] at hlatest
  obtain ⟨date, hdate, hnumber⟩ := @Date.exists_ofNumber?
    (m / 86400000000 + Date.epoch.number) (by omega) (by omega)
  have hclock : (m % 86400000000).toNat / 3600000000 < 24 ∧
      (m % 86400000000).toNat / 60000000 % 60 < 60 ∧
      (m % 86400000000).toNat / 1000000 % 60 ≤ 60 ∧
      (m % 86400000000).toNat % 1000000 < 1000000 := by
    omega
  refine ⟨⟨date, _, _, _, _, hclock⟩, ?_, ?_, ?_⟩
  · rw [ofMicros?, microsPerDay, hdate]
    exact dif_pos hclock
  · simp only [micros, microsPerDay]
    omega
  · exact Nat.mod_lt _ (by decide)

theorem micros_wholeSecond (t : Timestamp) :
    t.wholeSecond.micros = t.micros / 1000000 * 1000000 := by
  have hmicro := t.clock.2.2.2
  simp only [micros, wholeSecond, microsPerDay]
  omega

end Timestamp
end InventorySearch.Calendar
