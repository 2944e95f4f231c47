import Mathlib.Data.Nat.Digits.Defs
import TreeOffsets.Double.Layout
import TreeOffsets.Json.Token.Number

namespace TreeOffsets.Proofs.DecimalDigits

open TreeOffsets.Json.Token
open TreeOffsets.Double

theorem foldl_digits (n : Nat) (digits : Text) :
    digits.foldl (fun n c => n * 10 + (c.val - 0x30)) n =
      n * 10 ^ digits.length + digitsValue digits := by
  induction digits generalizing n with
  | nil => simp [digitsValue]
  | cons c digits ih =>
      rw [List.foldl_cons, digitsValue, List.foldl_cons, ih, ih (0 * 10 + (c.val - 0x30)),
        List.length_cons, Nat.pow_succ]
      ring

theorem digitsValue_cons (c : CodePoint) (digits : Text) :
    digitsValue (c :: digits) = (c.val - 0x30) * 10 ^ digits.length + digitsValue digits := by
  rw [digitsValue, List.foldl_cons, foldl_digits, Nat.zero_mul, Nat.zero_add]

theorem digitsValue_append (s t : Text) :
    digitsValue (s ++ t) = digitsValue s * 10 ^ t.length + digitsValue t := by
  rw [digitsValue, List.foldl_append, foldl_digits]
  rfl

theorem digitsValue_zeros (count : Nat) : digitsValue (zeros count) = 0 := by
  induction count with
  | zero => rfl
  | succ count ih =>
      rw [zeros, List.replicate_succ, digitsValue_cons]
      change _ + digitsValue (zeros count) = 0
      rw [ih]
      simp

theorem digitsValue_lt {digits : Text} (h : ∀ c ∈ digits, isDigit c = true) :
    digitsValue digits < 10 ^ digits.length := by
  induction digits with
  | nil => decide
  | cons c digits ih =>
      have hc := h c List.mem_cons_self
      have htail := ih fun d hd => h d (List.mem_cons_of_mem _ hd)
      simp only [isDigit, decide_eq_true_eq] at hc
      have hdigit : (c.val - 0x30) * 10 ^ digits.length ≤ 9 * 10 ^ digits.length :=
        Nat.mul_le_mul_right _ (by omega)
      rw [digitsValue_cons, List.length_cons, Nat.pow_succ]
      omega

theorem isDigit_ofChar (c : Char) : isDigit (CodePoint.ofChar c) = c.isDigit := by
  simp only [isDigit, Char.isDigit, ge_iff_le, UInt32.le_iff_toNat_le, Bool.decide_and]
  rfl

theorem isDigit_of_mem_ofNat {n : Nat} {c : CodePoint} (h : c ∈ Text.ofNat n) :
    isDigit c = true := by
  obtain ⟨d, hd, rfl⟩ := List.mem_map.mp h
  rw [isDigit_ofChar]
  exact Nat.isDigit_of_mem_toDigits (by decide) (Nat.le_refl _) hd

theorem digitsValue_ofNat (n : Nat) : digitsValue (Text.ofNat n) = n := by
  have hfold : digitsValue (Text.ofNat n) = Nat.ofDigitChars 10 (Nat.toDigits 10 n) 0 := by
    simp only [digitsValue, Text.ofNat, List.foldl_map, Nat.ofDigitChars, Nat.mul_comm 10]
    rfl
  rw [hfold, Nat.ofDigitChars_toDigits (by decide) (Nat.le_refl _)]

theorem length_ofNat (n : Nat) : (Text.ofNat n).length = Decimal.digitCount n := by
  rw [Text.ofNat, List.length_map, Decimal.digitCount]

theorem digitCount_pos (n : Nat) : 0 < Decimal.digitCount n := Nat.length_toDigits_pos

theorem digitCount_le_iff {n k : Nat} (hk : 0 < k) : Decimal.digitCount n ≤ k ↔ n < 10 ^ k :=
  Nat.length_toDigits_le_iff (by decide) hk

theorem pow_le_of_lt_digitCount {n k : Nat} (hn : 0 < n) (h : k < Decimal.digitCount n) :
    10 ^ k ≤ n := by
  rcases Nat.eq_zero_or_pos k with rfl | hk
  · exact hn
  · exact Nat.le_of_not_lt fun hlt => absurd ((digitCount_le_iff hk).mpr hlt) (by omega)

theorem lt_digitCount_of_pow_le {n k : Nat} (h : 10 ^ k ≤ n) : k < Decimal.digitCount n := by
  rcases Nat.eq_zero_or_pos k with rfl | hk
  · exact digitCount_pos n
  · exact Nat.lt_of_not_le fun hle => absurd ((digitCount_le_iff hk).mp hle) (by omega)

theorem digitCount_eq {n k : Nat} (hlow : 10 ^ k ≤ n) (hhigh : n < 10 ^ (k + 1)) :
    Decimal.digitCount n = k + 1 := by
  have := lt_digitCount_of_pow_le hlow
  have := (digitCount_le_iff (Nat.succ_pos k)).mpr hhigh
  omega

theorem digitCount_mul_pow {n : Nat} (hn : 0 < n) (k : Nat) :
    Decimal.digitCount (n * 10 ^ k) = Decimal.digitCount n + k := by
  obtain ⟨m, hm⟩ := Nat.exists_eq_add_one.mpr (digitCount_pos n)
  have hlow : 10 ^ m ≤ n := pow_le_of_lt_digitCount hn (by omega)
  have hhigh : n < 10 ^ (m + 1) := (digitCount_le_iff (Nat.succ_pos m)).mp (by omega)
  have heq : Decimal.digitCount (n * 10 ^ k) = m + k + 1 := by
    apply digitCount_eq
    · rw [Nat.pow_add]
      exact Nat.mul_le_mul_right _ hlow
    · rw [Nat.add_right_comm, Nat.pow_add]
      exact Nat.mul_lt_mul_of_pos_right hhigh (Nat.pow_pos (by decide))
  omega

theorem exists_ofNat_eq_cons {n : Nat} (hn : 0 < n) :
    ∃ c digits, Text.ofNat n = c :: digits ∧ isDigit c = true ∧ c ≠ CodePoint.ofChar '0' := by
  cases hdigits : Text.ofNat n with
  | nil =>
      have hlength := length_ofNat n
      rw [hdigits, List.length_nil] at hlength
      exact absurd hlength (Nat.ne_of_lt (digitCount_pos n))
  | cons c digits =>
      have hall : ∀ d ∈ c :: digits, isDigit d = true := fun d hd =>
        isDigit_of_mem_ofNat (hdigits ▸ hd)
      refine ⟨c, digits, rfl, hall c List.mem_cons_self, ?_⟩
      rintro rfl
      have hvalue := digitsValue_ofNat n
      have hlength := length_ofNat n
      rw [hdigits, List.length_cons] at hlength
      rw [hdigits, digitsValue_cons] at hvalue
      have hlt := digitsValue_lt fun d hd => hall d (List.mem_cons_of_mem _ hd)
      have hle : 10 ^ digits.length ≤ n := pow_le_of_lt_digitCount hn (by omega)
      simp only [CodePoint.val_ofChar] at hvalue
      change 0 * _ + _ = n at hvalue
      omega

end TreeOffsets.Proofs.DecimalDigits
