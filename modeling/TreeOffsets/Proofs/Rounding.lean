import TreeOffsets.Double.Layout
import TreeOffsets.Proofs.DecimalDigits

namespace TreeOffsets.Proofs.Rounding

open TreeOffsets.Double
open TreeOffsets.Proofs.DecimalDigits

theorem nearestRank_mul (num den : Nat) {k : Nat} (hk : 0 < k) :
    nearestRank (num * k) (den * k) = nearestRank num den := by
  have hstep : ∀ n, den * k * n = den * n * k := fun n => Nat.mul_right_comm den k n
  have hless : ∀ a b, a * k < b * k ↔ a < b := fun a b => Nat.mul_lt_mul_right hk
  have hequal : ∀ a b, a * k = b * k ↔ a = b := fun a b => Nat.mul_left_inj (Nat.ne_of_gt hk)
  simp only [nearestRank, Nat.mul_div_mul_right _ _ hk, hstep, Nat.mul_mod_mul_right,
    ← Nat.mul_assoc, hless, hequal]

theorem nearestRank_congr {num den num' den' : Nat} (hden : 0 < den) (hden' : 0 < den')
    (h : num * den' = num' * den) : nearestRank num den = nearestRank num' den' := by
  rw [← nearestRank_mul num den hden', h, Nat.mul_comm den den', nearestRank_mul num' den' hden]

theorem magnitude_of_lt {rank : Nat} (h : rank < 2 * block) : magnitude rank = rank := if_pos h

theorem magnitude_of_le {rank : Nat} (h : 2 * block ≤ rank) :
    magnitude rank = (block + rank % block) * 2 ^ (rank / block - 1) :=
  if_neg (Nat.not_lt.mpr h)

theorem nearestRank_one_of_lt {n : Nat} (h : n < 2 * block) : nearestRank n 1 = n := by
  have hshift : Nat.log2 n + 1 - 53 = 0 := by
    rcases Nat.eq_zero_or_pos n with rfl | hn
    · rfl
    · have := (Nat.log2_lt (Nat.ne_of_gt hn) (k := 53)).mpr h
      omega
  simp [nearestRank, hshift, Nat.mod_one]

theorem nearestRank_one_of_scaled {lead : Nat} (hlow : block ≤ lead) (hhigh : lead < 2 * block)
    (shift : Nat) : nearestRank (lead * 2 ^ shift) 1 = shift * block + lead := by
  have hpos : 0 < 2 ^ shift := Nat.pow_pos (by decide)
  have hlog : Nat.log2 (lead * 2 ^ shift) = 52 + shift := by
    rw [Nat.log2_eq_iff (Nat.mul_ne_zero (by unfold block at hlow; omega) (Nat.ne_of_gt hpos))]
    refine ⟨?_, ?_⟩
    · rw [Nat.pow_add]
      exact Nat.mul_le_mul_right _ hlow
    · rw [Nat.add_right_comm, Nat.pow_add]
      exact Nat.mul_lt_mul_of_pos_right hhigh hpos
  have hshift : 52 + shift + 1 - 53 = shift := by omega
  simp [nearestRank, hlog, hshift, Nat.mul_div_cancel _ hpos]

/-- A magnitude is nearest to its own rank. -/
theorem nearestRank_magnitude (rank : Nat) : nearestRank (magnitude rank) 1 = rank := by
  rcases Nat.lt_or_ge rank (2 * block) with h | h
  · rw [magnitude_of_lt h, nearestRank_one_of_lt h]
  · have hmod : rank % block < block := Nat.mod_lt _ (by decide)
    have hdiv : 2 ≤ rank / block := (Nat.le_div_iff_mul_le (by decide)).mpr h
    have hrank := Nat.div_add_mod rank block
    rw [magnitude_of_le h, nearestRank_one_of_scaled (Nat.le_add_right _ _) (by omega)]
    obtain ⟨q, hq⟩ := Nat.exists_eq_add_of_le hdiv
    rw [hq] at hrank ⊢
    rw [show 2 + q - 1 = q + 1 by omega, Nat.add_mul]
    rw [Nat.mul_add, Nat.mul_comm block q] at hrank
    omega

theorem nearestRank_magnitude_mul (rank : Nat) {fives twos tens : Nat} (h : fives * twos = tens)
    (htens : 0 < tens) : nearestRank (magnitude rank * fives * twos) tens = rank := by
  have hcongr : nearestRank (magnitude rank * fives * twos) tens =
      nearestRank (magnitude rank) 1 :=
    nearestRank_congr htens Nat.one_pos (by rw [Nat.mul_one, Nat.mul_assoc, h])
  rw [hcongr, nearestRank_magnitude]

def rankOf (d : Decimal) : Nat :=
  nearestRank (d.digits * Nat.pow 10 d.exponent.toNat * unit) (Nat.pow 10 (-d.exponent).toNat)

theorem ofDecimal_eq (negative : Bool) (d : Decimal) :
    ofDecimal negative d =
      if d.digits = 0 ∨ d.leading < -324 then zero negative
      else if 309 ≤ d.leading then .infinity negative
      else ofRank negative (rankOf d) := rfl

theorem ofDecimal_zero (negative : Bool) (e : Int) :
    ofDecimal negative ⟨0, e⟩ = zero negative := by
  rw [ofDecimal_eq, if_pos (.inl rfl)]

theorem leading_mul_pow {n : Nat} (hn : 0 < n) (k : Nat) (e : Int) :
    Decimal.leading ⟨n * 10 ^ k, e⟩ = Decimal.leading ⟨n, e + k⟩ := by
  simp only [Decimal.leading, digitCount_mul_pow hn, Nat.cast_add]
  omega

theorem rankOf_mul_pow (n k : Nat) (e : Int) : rankOf ⟨n * 10 ^ k, e⟩ = rankOf ⟨n, e + k⟩ := by
  refine nearestRank_congr (Nat.pow_pos (by decide)) (Nat.pow_pos (by decide)) ?_
  have hexponents : k + e.toNat + (-(e + k)).toNat = (e + k).toNat + (-e).toNat := by omega
  have hpowers := congrArg (fun x => n * unit * 10 ^ x) hexponents
  simp only [Nat.pow_add] at hpowers
  simp only [Nat.pow_eq]
  calc
    n * 10 ^ k * 10 ^ e.toNat * unit * 10 ^ (-(e + k)).toNat =
        n * unit * (10 ^ k * 10 ^ e.toNat * 10 ^ (-(e + k)).toNat) := by ring
    _ = n * unit * (10 ^ (e + k).toNat * 10 ^ (-e).toNat) := hpowers
    _ = n * 10 ^ (e + k).toNat * unit * 10 ^ (-e).toNat := by ring

/-- Zeros at the end of the digits may be left to the exponent. -/
theorem ofDecimal_mul_pow (negative : Bool) (n k : Nat) (e : Int) :
    ofDecimal negative ⟨n * 10 ^ k, e⟩ = ofDecimal negative ⟨n, e + k⟩ := by
  rcases Nat.eq_zero_or_pos n with rfl | hn
  · rw [Nat.zero_mul, ofDecimal_zero, ofDecimal_zero]
  · have hpos : n * 10 ^ k ≠ 0 := Nat.mul_ne_zero (Nat.ne_of_gt hn) (by simp)
    simp only [ofDecimal_eq, leading_mul_pow hn, rankOf_mul_pow, hpos, Nat.ne_of_gt hn]

theorem ofDecimal_sign {d : Decimal} {rank : Fin rankCount}
    (h : ofDecimal false d = .finite false rank) (negative : Bool) :
    ofDecimal negative d = .finite negative rank := by
  rw [ofDecimal_eq] at h ⊢
  generalize rankOf d = r at h ⊢
  split at h
  · next hzero =>
      rw [if_pos hzero]
      cases h
      rfl
  · next hzero =>
      rw [if_neg hzero]
      split at h
      · cases h
      · next hlarge =>
          rw [if_neg hlarge]
          unfold ofRank at h ⊢
          split at h
          · next hrank =>
              rw [dif_pos hrank]
              cases h
              rfl
          · cases h

theorem magnitude_pos {rank : Nat} (h : 0 < rank) : 0 < magnitude rank := by
  rcases Nat.lt_or_ge rank (2 * block) with hsmall | hlarge
  · rwa [magnitude_of_lt hsmall]
  · rw [magnitude_of_le hlarge]
    exact Nat.mul_pos (Nat.add_pos_left (by decide) _) (Nat.pow_pos (by decide))

theorem magnitude_lt {rank n : Nat} (h : rank < (n + 2) * block) :
    magnitude rank < 2 * block * 2 ^ n := by
  rcases Nat.lt_or_ge rank (2 * block) with hsmall | hlarge
  · rw [magnitude_of_lt hsmall]
    exact Nat.lt_of_lt_of_le hsmall (Nat.le_mul_of_pos_right _ (Nat.two_pow_pos n))
  · have hmod : rank % block < block := Nat.mod_lt _ (by decide)
    have hdiv : rank / block < n + 2 := (Nat.div_lt_iff_lt_mul (by decide)).mpr h
    rw [magnitude_of_le hlarge]
    exact Nat.mul_lt_mul_of_lt_of_le (by omega) (Nat.pow_le_pow_right (by decide) (by omega))
      (Nat.two_pow_pos n)

theorem pow_le_expansion {rank : Nat} (h : 0 < rank) : 10 ^ 750 ≤ expansion rank := by
  have hfives : 10 ^ 750 ≤ fives := by decide +kernel
  exact Nat.le_trans hfives (Nat.le_mul_of_pos_left _ (magnitude_pos h))

theorem expansion_lt_pow {rank : Nat} (h : rank < rankCount) : expansion rank < 10 ^ 1383 := by
  have hfives : 0 < fives := by decide +kernel
  have hlimit : 2 * block * 2 ^ 2045 * fives ≤ 10 ^ 1383 := by decide +kernel
  exact Nat.lt_of_lt_of_le (Nat.mul_lt_mul_of_pos_right (magnitude_lt h) hfives) hlimit

theorem le_leading_exact {rank : Nat} (h : 0 < rank) : -324 ≤ (exact rank).leading := by
  have hcount := lt_digitCount_of_pow_le (pow_le_expansion h)
  simp only [Decimal.leading, exact]
  omega

theorem leading_exact_lt {rank : Nat} (h : rank < rankCount) : (exact rank).leading < 309 := by
  have hcount := (digitCount_le_iff (by decide)).mpr (expansion_lt_pow h)
  simp only [Decimal.leading, exact]
  omega

theorem rankOf_exact (rank : Nat) : rankOf (exact rank) = rank := by
  have hden : Nat.pow 10 (-(-1074) : Int).toNat = fives * unit := by decide +kernel
  have hpos : 0 < fives * unit := by decide +kernel
  rw [rankOf, exact, hden]
  change nearestRank (magnitude rank * fives * 1 * unit) (fives * unit) = rank
  rw [Nat.mul_one, nearestRank_magnitude_mul rank rfl hpos]

/-- The whole expansion of a double rounds to it. -/
theorem ofDecimal_exact (rank : Fin rankCount) :
    ofDecimal false (exact rank) = .finite false rank := by
  obtain ⟨rank, hrank⟩ := rank
  rw [ofDecimal_eq, rankOf_exact]
  dsimp only
  rcases Nat.eq_zero_or_pos rank with rfl | hpos
  · have hdigits : (exact 0).digits = 0 := by decide +kernel
    rw [if_pos (.inl hdigits)]
    rfl
  · have hlow := le_leading_exact hpos
    have hhigh := leading_exact_lt hrank
    have hdigits : 0 < (exact rank).digits :=
      Nat.lt_of_lt_of_le (by decide +kernel) (pow_le_expansion hpos)
    rw [if_neg (by omega), if_neg (by omega), ofRank, dif_pos hrank]

theorem ofDecimal_of_withoutDigits? {rank : Fin rankCount} {dropped : Nat} {d : Decimal}
    (h : withoutDigits? rank dropped = some d) : ofDecimal false d = .finite false rank := by
  have hfound := List.find?_some h
  rwa [decide_eq_true_eq] at hfound

/-- The shortest decimal of a double rounds to it. -/
theorem ofDecimal_shortest (rank : Fin rankCount) :
    ofDecimal false (shortest rank) = .finite false rank := by
  simp only [shortest]
  cases hfound : (List.range' 1 17).findSome? fun count =>
      withoutDigits? rank (Decimal.digitCount (expansion rank) - count) with
  | none =>
      rw [Option.getD_none]
      exact ofDecimal_exact rank
  | some d =>
      obtain ⟨count, -, hd⟩ := List.exists_of_findSome?_eq_some hfound
      rw [Option.getD_some]
      exact ofDecimal_of_withoutDigits? hd

end TreeOffsets.Proofs.Rounding
