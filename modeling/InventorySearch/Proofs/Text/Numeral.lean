import InventorySearch.Calendar.Timestamp

set_option autoImplicit false

/-!
# Numerals are read back

The digits of a number are read as that number, with zeros in front or without,
and refused only where it is out of range.
-/
namespace InventorySearch.Text.Numeral
open Calendar

theorem isDigit_digitChar {d : Nat} (h : d < 10) : (digitChar d).isDigit = true :=
  (by decide : ∀ d : Fin 10, (digitChar d).isDigit = true) ⟨d, h⟩

theorem digit?_digitChar {d : Nat} (h : d < 10) : digit? (digitChar d) = some d :=
  (by decide : ∀ d : Fin 10, digit? (digitChar d) = some d.val) ⟨d, h⟩

theorem all_isDigit_digits (n : Nat) : (digits n).all Char.isDigit = true := by
  induction n using Nat.strongRecOn with | ind n ih => ?_
  rw [digits]
  split
  · next h => simp [isDigit_digitChar h]
  · next h =>
    rw [List.all_append, ih (n / 10) (by omega)]
    simp [isDigit_digitChar (Nat.mod_lt n (by decide : 0 < 10))]

theorem digits_ne_nil (n : Nat) : digits n ≠ [] := by
  rw [digits]
  split <;> simp

theorem digitsValue_append (cs : List Char) (c : Char) :
    digitsValue (cs ++ [c]) = 10 * digitsValue cs + (digit? c).getD 0 := by
  simp [digitsValue, List.foldl_append]

theorem digitsValue_digits (n : Nat) : digitsValue (digits n) = n := by
  induction n using Nat.strongRecOn with | ind n ih => ?_
  rw [digits]
  split
  · next h => simp [digitsValue, digit?_digitChar h]
  · next h =>
    rw [digitsValue_append, ih (n / 10) (by omega),
      digit?_digitChar (Nat.mod_lt n (by decide : 0 < 10)), Option.getD_some]
    omega

/-! ## Zeros in front -/

theorem digitsValue_replicate (k : Nat) (cs : List Char) :
    digitsValue (List.replicate k '0' ++ cs) = digitsValue cs := by
  induction k with
  | zero => rfl
  | succ k ih =>
    have hzero : digit? '0' = some 0 := by decide
    rw [List.replicate_succ, List.cons_append, ← ih]
    simp [digitsValue, hzero]

theorem digitsValue_padded (width n : Nat) : digitsValue (padded width n) = n := by
  rw [padded, List.leftpad, digitsValue_replicate, digitsValue_digits]

theorem all_isDigit_padded (width n : Nat) : (padded width n).all Char.isDigit = true := by
  have hzeros : (List.replicate (width - (digits n).length) '0').all Char.isDigit = true := by
    simp only [List.all_replicate]
    split
    · rfl
    · decide
  rw [padded, List.leftpad, List.all_append, hzeros, all_isDigit_digits, Bool.and_self]

theorem padded_ne_nil (width n : Nat) : padded width n ≠ [] := by
  rw [padded, List.leftpad]
  exact List.append_ne_nil_of_right_ne_nil _ (digits_ne_nil n)

theorem length_digits_le {n k : Nat} (h : n < Nat.pow 10 (k + 1)) :
    (digits n).length ≤ k + 1 := by
  induction k generalizing n with
  | zero => rw [digits, if_pos (by simpa using h)]; simp
  | succ k ih =>
    rw [digits]
    split
    · simp
    · have hdiv : n / 10 < Nat.pow 10 (k + 1) := (Nat.div_lt_iff_lt_mul (by decide)).mpr h
      simpa using ih hdiv

theorem length_padded {width n : Nat} (h : n < Nat.pow 10 (width + 1)) :
    (padded (width + 1) n).length = width + 1 := by
  have hlen := length_digits_le h
  rw [padded, List.length_leftpad]
  omega

/-! ## Reading in a range -/

def valueFrom (value : Nat) (cs : List Char) : Nat :=
  cs.foldl (fun n c => 10 * n + (digit? c).getD 0) value

theorem le_valueFrom (value : Nat) (cs : List Char) : value ≤ valueFrom value cs := by
  induction cs generalizing value with
  | nil => exact Nat.le_refl value
  | cons c cs ih =>
    have hrest := ih (10 * value + (digit? c).getD 0)
    rw [valueFrom, List.foldl_cons]
    exact Nat.le_trans (by omega) hrest

theorem extend_eq {max value : Nat} {cs : List Char} (hdigits : cs.all Char.isDigit = true)
    (hvalue : value ≤ max) :
    extend max value cs =
      if valueFrom value cs ≤ max then .ok (valueFrom value cs) else .error .tooLarge := by
  induction cs generalizing value with
  | nil => simp [extend, valueFrom, hvalue]
  | cons c cs ih =>
    rw [List.all_cons, Bool.and_eq_true] at hdigits
    have hc : digit? c = some (c.toNat - 48) := by rw [digit?, if_pos hdigits.1]
    have hstep : valueFrom value (c :: cs) = valueFrom (10 * value + (c.toNat - 48)) cs := by
      simp [valueFrom, hc]
    rw [hstep, extend, hc]
    by_cases hmax : 10 * value + (c.toNat - 48) ≤ max
    · simp only [if_pos hmax]
      exact ih hdigits.2 hmax
    · have hle := le_valueFrom (10 * value + (c.toNat - 48)) cs
      rw [if_neg (by omega)]
      simp only [if_neg hmax]

theorem magnitude_digits (max n : Nat) :
    magnitude max (digits n) = if n ≤ max then .ok n else .error .tooLarge := by
  have hextend := extend_eq (all_isDigit_digits n) (Nat.zero_le max)
  have hvalue : valueFrom 0 (digits n) = n := digitsValue_digits n
  rw [hvalue] at hextend
  rw [← hextend]
  unfold magnitude
  split
  · next h => exact absurd h (digits_ne_nil n)
  · rfl

theorem signed?_of_isDigit {bits : Nat} {cs : List Char} (hdigits : cs.all Char.isDigit = true) :
    signed? bits cs = ((magnitude (Nat.pow 2 (bits - 1) - 1) cs).toOption).map Int.ofNat := by
  unfold signed?
  split
  · simp at hdigits
  · simp at hdigits
  · rfl

theorem signed?_decimal (bits : Nat) (n : Int) :
    signed? bits (decimal n).toList =
      if -(Nat.pow 2 (bits - 1) : Int) ≤ n ∧ n < (Nat.pow 2 (bits - 1) : Int) then some n
      else none := by
  have hpos : 0 < Nat.pow 2 (bits - 1) := Nat.pow_pos (by decide)
  generalize hbound : Nat.pow 2 (bits - 1) = bound at hpos
  cases n with
  | ofNat k =>
    rw [decimal, String.toList_ofList, signed?_of_isDigit (all_isDigit_digits k), hbound,
      magnitude_digits]
    by_cases hk : k ≤ bound - 1
    · have hin : -(bound : Int) ≤ Int.ofNat k ∧ Int.ofNat k < (bound : Int) := by
        simp only [Int.ofNat_eq_natCast]
        omega
      rw [if_pos hk, if_pos hin]
      rfl
    · have hout : ¬ (-(bound : Int) ≤ Int.ofNat k ∧ Int.ofNat k < (bound : Int)) := by
        simp only [Int.ofNat_eq_natCast]
        omega
      rw [if_neg hk, if_neg hout]
      rfl
  | negSucc k =>
    rw [decimal, String.toList_ofList, signed?, hbound, magnitude_digits]
    by_cases hk : k + 1 ≤ bound
    · have hin : -(bound : Int) ≤ Int.negSucc k ∧ Int.negSucc k < (bound : Int) := by omega
      rw [if_pos hk, if_pos hin]
      rfl
    · have hout : ¬ (-(bound : Int) ≤ Int.negSucc k ∧ Int.negSucc k < (bound : Int)) := by omega
      rw [if_neg hk, if_neg hout]
      rfl

theorem int64?_decimal (n : Int) :
    int64? (decimal n) =
      if -(Nat.pow 2 63 : Int) ≤ n ∧ n < (Nat.pow 2 63 : Int) then some n else none :=
  signed?_decimal 64 n

/-! ## What is read is in range -/

theorem le_of_extend {max value n : Nat} {cs : List Char} (hvalue : value ≤ max)
    (h : extend max value cs = .ok n) : n ≤ max := by
  induction cs generalizing value with
  | nil =>
    rw [extend, Except.ok.injEq] at h
    exact h ▸ hvalue
  | cons c cs ih =>
    rw [extend] at h
    cases hd : digit? c with
    | none => simp [hd] at h
    | some d =>
      by_cases hmax : 10 * value + d ≤ max
      · simp only [hd, if_pos hmax] at h
        exact ih hmax h
      · simp [hd, hmax] at h

theorem le_of_magnitude {max n : Nat} {cs : List Char}
    (h : (magnitude max cs).toOption = some n) : n ≤ max := by
  have hok : magnitude max cs = .ok n := by
    cases hm : magnitude max cs with
    | error e => simp [hm, Except.toOption] at h
    | ok m => simpa [hm, Except.toOption] using h
  unfold magnitude at hok
  split at hok
  · cases hok
  · exact le_of_extend (Nat.zero_le max) hok

theorem bounds_of_signed? {bits : Nat} {cs : List Char} {n : Int} (h : signed? bits cs = some n) :
    -(Nat.pow 2 (bits - 1) : Int) ≤ n ∧ n < (Nat.pow 2 (bits - 1) : Int) := by
  have hpos : 0 < Nat.pow 2 (bits - 1) := Nat.pow_pos (by decide)
  unfold signed? at h
  generalize Nat.pow 2 (bits - 1) = bound at h hpos
  split at h
  · obtain ⟨m, hm, rfl⟩ := Option.map_eq_some_iff.mp h
    obtain ⟨k, hk, hcast⟩ := Option.bind_eq_some_iff.mp hm
    obtain rfl := Option.some.inj hcast
    have hle := le_of_magnitude hk
    omega
  all_goals
    obtain ⟨k, hk, rfl⟩ := Option.map_eq_some_iff.mp h
    have hle := le_of_magnitude hk
    simp only [Int.ofNat_eq_natCast]
    omega

end InventorySearch.Text.Numeral
