import TreeOffsets.Proofs.Rounding

namespace TreeOffsets.Proofs.Differences

open TreeOffsets.Double
open TreeOffsets.Proofs.Rounding

/-- The value of a double is less than a whole number. A NaN has no value. -/
inductive IsBelow (n : Int) : Double → Prop where
  | infinity : IsBelow n (.infinity true)
  | finite {negative : Bool} {rank : Fin rankCount} (h : scaled negative rank < n * unit) :
    IsBelow n (.finite negative rank)

/-- The value of a double is a whole number or more. -/
inductive IsAtLeast (n : Int) : Double → Prop where
  | infinity : IsAtLeast n (.infinity false)
  | finite {negative : Bool} {rank : Fin rankCount} (h : n * unit ≤ scaled negative rank) :
    IsAtLeast n (.finite negative rank)

theorem isBelow_finite_iff {n : Int} {negative : Bool} {rank : Fin rankCount} :
    IsBelow n (.finite negative rank) ↔ scaled negative rank < n * unit :=
  ⟨fun | .finite h => h, .finite⟩

theorem isAtLeast_finite_iff {n : Int} {negative : Bool} {rank : Fin rankCount} :
    IsAtLeast n (.finite negative rank) ↔ n * unit ≤ scaled negative rank :=
  ⟨fun | .finite h => h, .finite⟩

theorem compareInt_eq_lt_iff {x : Double} {n : Int} :
    x.compareInt n = some .lt ↔ IsBelow n x := by
  cases x with
  | nan => exact ⟨nofun, nofun⟩
  | infinity negative =>
      cases negative with
      | true => exact ⟨fun _ => .infinity, fun _ => rfl⟩
      | false => exact ⟨nofun, nofun⟩
  | finite negative rank =>
      rw [compareInt, isBelow_finite_iff, Option.some_inj, Int.compare_eq_lt]

theorem any_compareInt_iff {x : Double} {n : Int} :
    (x.compareInt n).any (fun order => order != .lt) = true ↔ IsAtLeast n x := by
  cases x with
  | nan => exact ⟨nofun, nofun⟩
  | infinity negative =>
      cases negative with
      | true => exact ⟨nofun, nofun⟩
      | false => exact ⟨fun _ => .infinity, fun _ => rfl⟩
  | finite negative rank =>
      rw [compareInt, isAtLeast_finite_iff, Option.any_some, bne_iff_ne, ne_eq, Int.compare_eq_lt,
        Int.not_lt]

theorem exists_magnitude_eq {lead : Nat} (h : lead < 2 * block) (shift : Nat) :
    ∃ rank, magnitude rank = lead * 2 ^ shift := by
  induction shift generalizing lead with
  | zero => exact ⟨lead, by rw [magnitude_of_lt h, Nat.pow_zero, Nat.mul_one]⟩
  | succ shift ih =>
      rcases Nat.lt_or_ge lead block with hsmall | hlarge
      · obtain ⟨rank, hrank⟩ := ih (show 2 * lead < 2 * block by omega)
        exact ⟨rank, by rw [hrank, Nat.pow_succ]; ring⟩
      · obtain ⟨low, rfl⟩ := Nat.exists_eq_add_of_le hlarge
        have hlow : low < block := by omega
        have hpos : 0 < block := by decide
        have hrank : (shift + 1) * block + (block + low) = low + block * (shift + 2) := by ring
        refine ⟨(shift + 1) * block + (block + low), ?_⟩
        rw [magnitude_of_le (by rw [hrank]; nlinarith), hrank, Nat.add_mul_mod_self_left,
          Nat.mod_eq_of_lt hlow, Nat.add_mul_div_left _ _ hpos, Nat.div_eq_of_lt hlow]
        congr 2
        omega

/-- The leading bits of a magnitude, which are as many as can be unless nothing is shifted. -/
theorem exists_lead (rank : Nat) :
    ∃ lead shift, magnitude rank = lead * 2 ^ shift ∧ lead < 2 * block
      ∧ (shift = 0 ∨ block ≤ lead) := by
  rcases Nat.lt_or_ge rank (2 * block) with hsmall | hlarge
  · exact ⟨rank, 0, by rw [magnitude_of_lt hsmall, Nat.pow_zero, Nat.mul_one], hsmall, .inl rfl⟩
  · have hmod : rank % block < block := Nat.mod_lt _ (by decide)
    exact ⟨_, _, magnitude_of_le hlarge, by omega, .inr (Nat.le_add_right _ _)⟩

theorem le_magnitude {rank n : Nat} (h : (n + 1) * block ≤ rank) :
    block * 2 ^ n ≤ magnitude rank := by
  rcases Nat.lt_or_ge rank (2 * block) with hsmall | hlarge
  · have hzero : n = 0 := by
      by_contra hne
      have hle : 2 * block ≤ (n + 1) * block := Nat.mul_le_mul_right _ (by omega)
      omega
    rw [magnitude_of_lt hsmall, hzero, Nat.pow_zero, Nat.mul_one]
    simpa [hzero] using h
  · have hdiv : n + 1 ≤ rank / block := (Nat.le_div_iff_mul_le (by decide)).mpr h
    rw [magnitude_of_le hlarge]
    exact Nat.mul_le_mul (Nat.le_add_right _ _) (Nat.pow_le_pow_right (by decide) (by omega))

theorem le_nearestRank {n j : Nat} (h : block * 2 ^ j ≤ n) : (j + 1) * block ≤ nearestRank n 1 := by
  have hblock : block = 2 ^ 52 := rfl
  have hne : n ≠ 0 := by
    have hpos : 0 < block * 2 ^ j := Nat.mul_pos (by decide) (Nat.two_pow_pos j)
    omega
  have hlog : 52 + j ≤ Nat.log2 n := by
    rw [Nat.le_log2 hne, Nat.pow_add, ← hblock]
    exact h
  have hlow : block ≤ n / 2 ^ (Nat.log2 n + 1 - 53) := by
    rw [Nat.le_div_iff_mul_le (Nat.two_pow_pos _), hblock, ← Nat.pow_add,
      show 52 + (Nat.log2 n + 1 - 53) = Nat.log2 n by omega]
    exact Nat.log2_self_le hne
  have hshift : j * block ≤ (Nat.log2 n + 1 - 53) * block := Nat.mul_le_mul_right _ (by omega)
  simp only [nearestRank, Nat.div_one, Nat.one_mul, Nat.pow_eq]
  rw [Nat.add_mul, Nat.one_mul]
  omega

theorem nearestRank_pos {n : Nat} (h : 0 < n) : 0 < nearestRank n 1 := by
  rcases Nat.lt_or_ge n (2 * block) with hsmall | hlarge
  · rwa [nearestRank_one_of_lt hsmall]
  · have hle := le_nearestRank (n := n) (j := 0) (by omega)
    have hpos : 0 < block := by decide
    omega

theorem block_mul_pow_succ (e : Nat) : block * 2 ^ (e + 1) = 2 ^ 53 * 2 ^ e := by
  have hblock : block = 2 ^ 52 := rfl
  rw [hblock]
  ring

/-- A magnitude less a power of two is one again, if that power is within its 53 bits. -/
theorem exists_magnitude_sub {rank e : Nat} (hhigh : magnitude rank ≤ 2 ^ 53 * 2 ^ e) :
    ∃ k, magnitude k = magnitude rank - 2 ^ e := by
  obtain ⟨lead, shift, hrank, hlead, hfull⟩ := exists_lead rank
  rcases Nat.lt_or_ge e shift with hshift | hshift
  · -- Only the largest magnitude has its lowest bit above the power.
    have hlarge : 2 ^ 53 * 2 ^ e ≤ magnitude rank := by
      rw [← block_mul_pow_succ, hrank]
      exact Nat.mul_le_mul (hfull.resolve_left (by omega)) (Nat.pow_le_pow_right (by decide) hshift)
    have heq : magnitude rank - 2 ^ e = (2 ^ 53 - 1) * 2 ^ e := by
      rw [Nat.le_antisymm hhigh hlarge, Nat.sub_mul, Nat.one_mul]
    rw [heq]
    exact exists_magnitude_eq (by decide) e
  · have hpow : 2 ^ e = 2 ^ (e - shift) * 2 ^ shift := by
      rw [← Nat.pow_add, Nat.sub_add_cancel hshift]
    rw [hrank, hpow, ← Nat.sub_mul]
    exact exists_magnitude_eq (Nat.lt_of_le_of_lt (Nat.sub_le _ _) hlead) shift

theorem magnitude_nearestRank_sub {rank e : Nat} (hhigh : magnitude rank ≤ 2 ^ 53 * 2 ^ e) :
    magnitude (nearestRank (magnitude rank - 2 ^ e) 1) = magnitude rank - 2 ^ e := by
  obtain ⟨k, hk⟩ := exists_magnitude_sub hhigh
  rw [← hk, nearestRank_magnitude]

/-- Larger magnitudes are at least two powers apart, so one power less is still as large. -/
theorem add_pow_le_magnitude {rank e : Nat} (h : 2 ^ 53 * 2 ^ e < magnitude rank) :
    2 ^ 53 * 2 ^ e + 2 ^ e ≤ magnitude rank := by
  obtain ⟨lead, shift, hrank, hlead, -⟩ := exists_lead rank
  have hblock : 2 * block = 2 ^ 53 := rfl
  have hshift : e + 1 ≤ shift := by
    by_contra hsmall
    have hle : lead * 2 ^ shift ≤ 2 ^ 53 * 2 ^ e :=
      Nat.mul_le_mul (by omega) (Nat.pow_le_pow_right (by decide) (by omega))
    omega
  obtain ⟨more, rfl⟩ := Nat.exists_eq_add_of_le hshift
  have hmultiple : magnitude rank = lead * 2 ^ more * 2 ^ (e + 1) := by
    rw [hrank, Nat.pow_add]
    ring
  have hnext : block + 1 ≤ lead * 2 ^ more := by
    rw [hmultiple, ← block_mul_pow_succ] at h
    exact Nat.lt_of_mul_lt_mul_right h
  have hle := Nat.mul_le_mul_right (2 ^ (e + 1)) hnext
  rw [← hmultiple, Nat.add_mul, block_mul_pow_succ, Nat.one_mul, Nat.pow_succ] at hle
  omega

theorem le_magnitude_nearestRank {n e : Nat} (h : 2 ^ 53 * 2 ^ e ≤ n) :
    2 ^ 53 * 2 ^ e ≤ magnitude (nearestRank n 1) := by
  rw [← block_mul_pow_succ] at h ⊢
  exact le_magnitude (le_nearestRank h)

theorem exists_unit_eq : ∃ e, unit = Nat.pow 2 e ∧ (e + 1 + 1) * block ≤ rankCount := by
  unfold unit
  exact ⟨1074, rfl, by decide⟩

theorem isAtLeast_ofRank_iff {rank n : Nat} (hn : n ≤ 2 ^ 53) :
    IsAtLeast n (ofRank false rank) ↔ n * unit ≤ magnitude rank := by
  unfold ofRank
  split
  · rw [isAtLeast_finite_iff, scaled, if_neg Bool.false_ne_true]
    exact_mod_cast Iff.rfl
  · next hrank =>
      obtain ⟨e, hunit, hcount⟩ := exists_unit_eq
      have hlarge := le_magnitude (hcount.trans (Nat.not_lt.mp hrank))
      rw [Nat.pow_eq] at hunit
      rw [block_mul_pow_succ, ← hunit] at hlarge
      exact ⟨fun _ => (Nat.mul_le_mul_right _ hn).trans hlarge, fun _ => .infinity⟩

theorem not_isBelow_ofRank (rank : Nat) : ¬IsBelow 0 (ofRank false rank) := by
  unfold ofRank
  split
  · rw [isBelow_finite_iff, scaled, if_neg Bool.false_ne_true, Int.zero_mul]
    exact Int.not_lt.mpr (Int.natCast_nonneg _)
  · nofun

theorem isBelow_ofRank {rank : Nat} (h : 0 < rank) : IsBelow 0 (ofRank true rank) := by
  unfold ofRank
  split
  · rw [isBelow_finite_iff, scaled, if_pos rfl, Int.zero_mul]
    exact Int.neg_neg_of_pos (Int.natCast_pos.mpr (magnitude_pos h))
  · exact .infinity

theorem not_isAtLeast_of_isBelow {x : Double} (h : IsBelow 0 x) (n : Nat) : ¬IsAtLeast n x := by
  have hunit : 0 ≤ (n : Int) * unit := Int.mul_nonneg (Int.natCast_nonneg n) (Int.natCast_nonneg _)
  cases h with
  | infinity => nofun
  | finite hbelow =>
      rw [isAtLeast_finite_iff]
      omega

theorem isBelow_ofScaled {d : Int} (h : d < 0) : IsBelow 0 (ofScaled d) := by
  rw [ofScaled, decide_eq_true h]
  exact isBelow_ofRank (nearestRank_pos (by omega))

theorem ofScaled_natCast {d : Nat} : ofScaled d = ofRank false (nearestRank d 1) := by
  rw [ofScaled, decide_eq_false (Int.not_lt.mpr (Int.natCast_nonneg d)), Int.natAbs_natCast]

theorem unit_le_magnitude {negative : Bool} {rank : Nat} (h : (unit : Int) ≤ scaled negative rank) :
    negative = false ∧ unit ≤ magnitude rank := by
  have hpos : 0 < unit := by decide +kernel
  unfold scaled at h
  split at h
  · omega
  · next hpositive => exact ⟨Bool.eq_false_of_not_eq_true hpositive, by omega⟩

theorem isBelow_minusOne_iff (x : Double) : IsBelow 0 x.minusOne ↔ IsBelow 1 x := by
  cases x with
  | nan => exact ⟨nofun, nofun⟩
  | infinity negative =>
      cases negative with
      | true => exact ⟨fun _ => .infinity, fun _ => .infinity⟩
      | false => exact ⟨nofun, nofun⟩
  | finite negative rank =>
      rw [isBelow_finite_iff, Int.one_mul, minusOne]
      by_cases h : scaled negative rank < unit
      · exact ⟨fun _ => h, fun _ => isBelow_ofScaled (by omega)⟩
      · obtain ⟨d, hd⟩ := Int.eq_ofNat_of_zero_le (a := scaled negative rank - unit) (by omega)
        rw [hd, ofScaled_natCast]
        exact ⟨fun hbelow => absurd hbelow (not_isBelow_ofRank _), fun hbelow => absurd hbelow h⟩

/-- One less than a double is at least a whole number up to `2 ^ 53` exactly if the double is at
least the next one. -/
theorem isAtLeast_minusOne_iff {n : Nat} (hn : n ≤ 2 ^ 53) (x : Double) :
    IsAtLeast n x.minusOne ↔ IsAtLeast (n + 1) x := by
  cases x with
  | nan => exact ⟨nofun, nofun⟩
  | infinity negative =>
      cases negative with
      | true => exact ⟨nofun, nofun⟩
      | false => exact ⟨fun _ => .infinity, fun _ => .infinity⟩
  | finite negative rank =>
      rw [isAtLeast_finite_iff, Int.add_mul, Int.one_mul, minusOne]
      have hnonneg : 0 ≤ (n : Int) * unit :=
        Int.mul_nonneg (Int.natCast_nonneg n) (Int.natCast_nonneg _)
      by_cases h : scaled negative rank < unit
      · have hbelow : IsBelow 0 (ofScaled (scaled negative rank - unit)) :=
          isBelow_ofScaled (by omega)
        exact ⟨fun hleast => absurd hleast (not_isAtLeast_of_isBelow hbelow n), by omega⟩
      · obtain ⟨rfl, hunit⟩ := unit_le_magnitude (Int.not_lt.mp h)
        rw [scaled, if_neg Bool.false_ne_true, ← Int.natCast_sub hunit, ofScaled_natCast,
          isAtLeast_ofRank_iff hn]
        have hle : n * unit ≤ 2 ^ 53 * unit := Nat.mul_le_mul_right _ hn
        obtain ⟨e, he, -⟩ := exists_unit_eq
        rw [he, Nat.pow_eq] at hunit hle ⊢
        -- Above `2 ^ 53` the difference is rounded and both sides hold; up to there it is exact.
        rcases Nat.lt_or_ge (2 ^ 53 * 2 ^ e) (magnitude rank) with hlarge | hsmall
        · have hsub := add_pow_le_magnitude hlarge
          have hround := le_magnitude_nearestRank (Nat.le_sub_of_add_le hsub)
          exact ⟨fun _ => by omega, fun _ => hle.trans hround⟩
        · rw [magnitude_nearestRank_sub hsmall]
          omega

end TreeOffsets.Proofs.Differences
