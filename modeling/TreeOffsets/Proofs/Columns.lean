import Mathlib.Order.Bounds.Basic
import TreeOffsets.Source.Convention

namespace TreeOffsets.Proofs.Columns

open TreeOffsets.CodePoint

theorem width_cons (c : CodePoint) (t : Text) :
    Text.width (c :: t) = CodePoint.width c + Text.width t := by
  simp [Text.width, Text.units]

theorem width_pos (c : CodePoint) : 0 < CodePoint.width c := by
  unfold CodePoint.width
  split <;> decide

theorem width_append (s t : Text) : Text.width (s ++ t) = Text.width s + Text.width t := by
  simp [Text.width, Text.units]

theorem joinTo_of_not_isHigh {c : CodePoint} (h : ¬c.IsHigh) (t : Text) :
    c.joinTo t = c :: t := by
  cases t with
  | nil => rfl
  | cons d t => rw [joinTo, if_neg fun hpair => h hpair.1]

theorem units_narrow {c : CodePoint} (hscalar : ¬c.IsSurrogate) (hnarrow : c.val < 0x10000) :
    ∃ u, c.units = [u] ∧ ∀ us, Text.ofUnits (u :: us) = c :: Text.ofUnits us := by
  refine ⟨⟨c.val, hnarrow⟩, by rw [CodePoint.units, dif_pos hnarrow], ?_⟩
  intro us
  have hhigh : ¬c.IsHigh := fun h => hscalar ((isSurrogate_iff c).mpr (.inl h))
  exact joinTo_of_not_isHigh hhigh _

/-- A code point that takes two units is read back as one, and so is its first half alone. -/
theorem units_wide {c : CodePoint} (hwide : ¬c.val < 0x10000) :
    ∃ u v, c.units = [u, v] ∧ (Text.ofUnits [u]).length = 1
      ∧ ∀ us, (Text.ofUnits (u :: v :: us)).length = (Text.ofUnits us).length + 1 := by
  obtain ⟨high, low, hunits, hhigh, hlow, -⟩ :=
    CodePoint.exists_units_of_wide (Nat.not_lt.mp hwide)
  refine ⟨high, low, hunits, rfl, fun us => ?_⟩
  have htail := joinTo_of_not_isHigh hlow.not_isHigh (Text.ofUnits us)
  simp only [Text.ofUnits, List.foldr_cons] at htail ⊢
  rw [htail, joinTo, if_pos ⟨hhigh, hlow⟩, List.length_cons]

/-- A text cut at a number of units has the length of the least prefix that covers them. -/
theorem length_takeUnits {t : Text} (h : t.IsScalar) (n : Nat) :
    (Text.takeUnits n t).length = Text.cover n t := by
  induction t generalizing n with
  | nil => simp [Text.takeUnits, Text.units, Text.ofUnits, Text.cover]
  | cons c t ih =>
      have hscalar : ¬c.IsSurrogate := h c (by simp)
      have htail : Text.IsScalar t := fun d hd => h d (by simp [hd])
      have hunits : Text.units (c :: t) = c.units ++ Text.units t := by simp [Text.units]
      simp only [Text.takeUnits] at ih
      by_cases hnarrow : c.val < 0x10000
      · obtain ⟨u, hu, hread⟩ := units_narrow hscalar hnarrow
        have hwidth : CodePoint.width c = 1 := by rw [CodePoint.width, if_pos hnarrow]
        cases n with
        | zero => rfl
        | succ n =>
            rw [Text.takeUnits, hunits, hu, List.singleton_append, List.take_succ_cons, hread,
              List.length_cons, ih htail, Text.cover, if_neg (Nat.succ_ne_zero n), hwidth]
            rfl
      · obtain ⟨u, v, huv, hhalf, hread⟩ := units_wide hnarrow
        have hwidth : CodePoint.width c = 2 := by rw [CodePoint.width, if_neg hnarrow]
        match n with
        | 0 => rfl
        | 1 =>
            rw [Text.takeUnits, hunits, huv, Text.cover, if_neg Nat.one_ne_zero, hwidth,
              ← ih htail]
            exact hhalf
        | n + 2 =>
            rw [Text.takeUnits, hunits, huv, List.cons_append, List.singleton_append,
              List.take_succ_cons, List.take_succ_cons, hread, ih htail, Text.cover,
              if_neg (Nat.succ_ne_zero _), hwidth]
            rfl

theorem length_joinTo_le (c : CodePoint) (t : Text) : (c.joinTo t).length ≤ t.length + 1 := by
  cases t with
  | nil => exact Nat.le_refl _
  | cons d t =>
      rw [joinTo]
      split
      · exact Nat.le_succ _
      · exact Nat.le_refl _

/-- Cutting never makes a text longer, even if surrogates of it form pairs when units are read
back. -/
theorem length_takeUnits_le (n : Nat) (t : Text) : (Text.takeUnits n t).length ≤ t.length := by
  induction t generalizing n with
  | nil => simp [Text.takeUnits, Text.units, Text.ofUnits]
  | cons c t ih =>
      have hunits : Text.units (c :: t) = c.units ++ Text.units t := by simp [Text.units]
      simp only [Text.takeUnits] at ih
      by_cases hnarrow : c.val < 0x10000
      · have hc : c.units = [⟨c.val, hnarrow⟩] := dif_pos hnarrow
        cases n with
        | zero => exact Nat.zero_le _
        | succ n =>
            rw [Text.takeUnits, hunits, hc, List.singleton_append, List.take_succ_cons]
            exact (length_joinTo_le _ _).trans (Nat.succ_le_succ (ih n))
      · obtain ⟨u, v, huv, hhalf, hread⟩ := units_wide hnarrow
        match n with
        | 0 => exact Nat.zero_le _
        | 1 =>
            rw [Text.takeUnits, hunits, huv]
            exact hhalf.trans_le (Nat.le_add_left 1 _)
        | n + 2 =>
            rw [Text.takeUnits, hunits, huv, List.cons_append, List.singleton_append,
              List.take_succ_cons, List.take_succ_cons, hread]
            exact Nat.succ_le_succ (ih n)

/-- A prefix is as long as the cover of some units exactly if it covers them or is everything. -/
theorem cover_le_iff (n k : Nat) (t : Text) :
    Text.cover n t ≤ k ↔ n ≤ Text.width (t.take k) ∨ t.length ≤ k := by
  induction t generalizing n k with
  | nil => simp [Text.cover]
  | cons c t ih =>
      have hpos := width_pos c
      rw [Text.cover]
      split
      · next hzero => simp [hzero]
      · next hne =>
          cases k with
          | zero => simp [Text.width, Text.units, hne]
          | succ k =>
              rw [List.take_succ_cons, width_cons, List.length_cons, Nat.add_le_add_iff_right,
                Nat.add_le_add_iff_right, ih, Nat.sub_le_iff_le_add']

theorem cover_le_length (n : Nat) (t : Text) : Text.cover n t ≤ t.length :=
  (cover_le_iff n t.length t).mpr (.inr (Nat.le_refl _))

theorem cover_zero (t : Text) : Text.cover 0 t = 0 := by
  cases t <;> rfl

theorem cover_width_add (s : Text) (n : Nat) (t : Text) :
    Text.cover (Text.width s + n) (s ++ t) = s.length + Text.cover n t := by
  induction s with
  | nil => simp [Text.width, Text.units]
  | cons c s ih =>
      have hpos := width_pos c
      have hrest : CodePoint.width c + Text.width s + n - CodePoint.width c = Text.width s + n := by
        omega
      rw [List.cons_append, Text.cover, width_cons, if_neg (by omega), hrest, ih, List.length_cons]
      omega

theorem cover_width_append (s t : Text) : Text.cover (Text.width s) (s ++ t) = s.length := by
  have hadd := cover_width_add s 0 t
  rwa [Nat.add_zero, cover_zero, Nat.add_zero] at hadd

theorem cover_pair (s : Text) {c : CodePoint} (hc : 0x10000 ≤ c.val) (t : Text) {n : Nat}
    (hpos : 0 < n) (hn : n ≤ 2) : Text.cover (Text.width s + n) (s ++ c :: t) = s.length + 1 := by
  have hwidth : CodePoint.width c = 2 := if_neg (Nat.not_lt.mpr hc)
  rw [cover_width_add, Text.cover, if_neg (Nat.ne_of_gt hpos), hwidth, Nat.sub_eq_zero_of_le hn,
    cover_zero]

/-- The number of code points that a column of a line stands for: a code-point column is moved into
the line, and a UTF-16 column stands for the least prefix that covers it, or for the whole line. -/
def IsNormal (unit : ColumnUnit) (column : Int) (line : Text) (k : Nat) : Prop :=
  match unit with
  | .codePoint => (k : Int) = min (max column 0) line.length
  | .utf16 => IsLeast {j | max column 0 ≤ Text.width (line.take j)} k
      ∨ (∀ j, ¬max column 0 ≤ Text.width (line.take j)) ∧ k = line.length

theorem width_take_le (k : Nat) (t : Text) : Text.width (t.take k) ≤ Text.width t := by
  have happend := width_append (t.take k) (t.drop k)
  rw [List.take_append_drop] at happend
  omega

theorem isLeast_cover {n : Nat} {t : Text} (h : n ≤ Text.width t) :
    IsLeast {j | n ≤ Text.width (t.take j)} (Text.cover n t) := by
  constructor
  · rcases (cover_le_iff n _ t).mp (Nat.le_refl _) with hcover | hlength
    · exact hcover
    · change n ≤ Text.width (t.take (Text.cover n t))
      rw [List.take_of_length_le hlength]
      exact h
  · intro j hj
    exact (cover_le_iff n j t).mpr (.inl hj)

theorem cover_eq_length {n : Nat} {t : Text} (h : Text.width t < n) :
    Text.cover n t = t.length := by
  apply Nat.le_antisymm (cover_le_length n t)
  rcases (cover_le_iff n _ t).mp (Nat.le_refl _) with hcover | hlength
  · have hle := width_take_le (Text.cover n t) t
    omega
  · exact hlength

theorem isNormal_codePoints (unit : ColumnUnit) (column : Int) (line : Text) :
    IsNormal unit column line (unit.codePoints column line) := by
  cases unit with
  | codePoint =>
      simp only [IsNormal, ColumnUnit.codePoints]
      omega
  | utf16 =>
      have hmax : max column 0 = (column.toNat : Int) := by omega
      simp only [IsNormal, ColumnUnit.codePoints, hmax, Int.ofNat_le]
      by_cases h : column.toNat ≤ Text.width line
      · exact .inl (isLeast_cover h)
      · refine .inr ⟨?_, cover_eq_length (by omega)⟩
        intro j hj
        exact h (hj.trans (width_take_le j line))

theorem eq_codePoints_of_isNormal {unit : ColumnUnit} {column : Int} {line : Text} {k : Nat}
    (h : IsNormal unit column line k) : k = unit.codePoints column line := by
  have hother := isNormal_codePoints unit column line
  cases unit with
  | codePoint =>
      simp only [IsNormal] at h hother
      omega
  | utf16 =>
      rcases h with hleast | ⟨hnone, hlength⟩ <;>
        rcases hother with hleast' | ⟨hnone', hlength'⟩
      · exact hleast.unique hleast'
      · exact absurd hleast.1 (hnone' k)
      · exact absurd hleast'.1 (hnone _)
      · exact hlength.trans hlength'.symm

theorem codePoints_le_length (unit : ColumnUnit) (column : Int) (line : Text) :
    unit.codePoints column line ≤ line.length := by
  cases unit with
  | codePoint => exact Nat.min_le_right _ _
  | utf16 => exact cover_le_length _ _

theorem cover_mono {m n : Nat} (h : m ≤ n) (t : Text) : Text.cover m t ≤ Text.cover n t := by
  rw [cover_le_iff]
  exact ((cover_le_iff n _ t).mp (Nat.le_refl _)).imp_left (Nat.le_trans h)

theorem codePoints_mono (unit : ColumnUnit) {column other : Int} (h : column ≤ other)
    (line : Text) : unit.codePoints column line ≤ unit.codePoints other line := by
  have htoNat : column.toNat ≤ other.toNat := Int.toNat_le_toNat h
  cases unit with
  | codePoint =>
      simp only [ColumnUnit.codePoints]
      omega
  | utf16 => exact cover_mono htoNat line

theorem length_before (unit : ColumnUnit) (column : Int) {line : Text} (h : line.IsScalar) :
    (unit.before column.toNat line).length = unit.codePoints column line := by
  cases unit with
  | codePoint => exact List.length_take
  | utf16 => exact length_takeUnits h _

theorem length_before_le (unit : ColumnUnit) (column : Nat) (line : Text) :
    (unit.before column line).length ≤ line.length := by
  cases unit with
  | codePoint => exact List.length_take_le' _ _
  | utf16 => exact length_takeUnits_le _ _

end TreeOffsets.Proofs.Columns
