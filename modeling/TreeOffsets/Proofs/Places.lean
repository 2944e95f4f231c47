import TreeOffsets.Proofs.Columns
import TreeOffsets.Proofs.LineCuts

namespace TreeOffsets.Proofs.Places

open TreeOffsets.Proofs.Columns
open TreeOffsets.Proofs.LineCuts

theorem positionAt_clamp (t : Text) (offset : Int) :
    positionAt t offset = positionAt t (min offset.toNat t.length : Nat) := by
  have htake : t.take (min offset.toNat t.length) = t.take offset.toNat := by
    rw [List.take_eq_take_iff]
    omega
  simp only [positionAt, Int.toNat_natCast, htake]

/-- The place of any offset is in the text, and a table that counts code points finds the offset
again from it. An offset outside the text comes back as the nearest end. -/
theorem locate_positionAt (t : Text) (offset : Int) :
    let table := LineTable.ofText .codePoint t
    let place := positionAt t offset
    1 ≤ place.line ∧ place.line ≤ table.lines.length
      ∧ (∃ line, table.lines[(place.line - 1).toNat]? = some line
        ∧ 0 ≤ place.column ∧ place.column ≤ line.length)
      ∧ table.locate place.line place.column = min (max offset 0) (t.length : Int) := by
  obtain ⟨cut, column, hcolumn, hoffset⟩ :=
    LineCut.exists_of_offset (Nat.min_le_right offset.toNat t.length)
  have hplace : positionAt t offset = ⟨cut.number, column⟩ := by
    rw [positionAt_clamp, ← hoffset, cut.positionAt_eq hcolumn]
  have hline := cut.lines_number .codePoint
  have hlength := (List.getElem?_eq_some_iff.mp hline).1
  have hpos : 1 ≤ cut.number := Nat.le_add_left _ _
  simp only [hplace]
  refine ⟨by omega, by omega, ⟨cut.line, ?_, by omega, by omega⟩, ?_⟩
  · rw [← hline]
    congr 1
    omega
  · rw [cut.locate_number]
    simp only [ColumnUnit.before, List.length_take]
    omega

/-- The place of the offset of a line and a column. On a line that exists the column comes back in
normal form, so it never leaves its line; a line that does not exist means the end of the text. -/
theorem positionAt_locate (unit : ColumnUnit) {t : Text} (h : t.IsScalar) (line column : Int) :
    let table := LineTable.ofText unit t
    let place := positionAt t (table.locate line column)
    (∀ text, 1 ≤ line → table.lines[(line - 1).toNat]? = some text →
        ∃ k : Nat, IsNormal unit column text k ∧ place = ⟨line, k⟩)
      ∧ (line < 1 ∨ table.lines.length < line →
        ∃ last, table.lines.getLast? = some last
          ∧ place = ⟨table.lines.length, last.length⟩) := by
  constructor
  · intro text hline htext
    obtain ⟨cut, hnumber, rfl⟩ := LineCut.exists_of_line htext
    have hcut : line = cut.number := by omega
    have hle := codePoints_le_length unit column cut.line
    refine ⟨unit.codePoints column cut.line, isNormal_codePoints unit column cut.line, ?_⟩
    rw [hcut, cut.locate_number, length_before unit column (cut.isScalar_line h),
      cut.positionAt_eq hle]
  · intro hline
    obtain ⟨cut, hnumber, hafter⟩ := LineCut.exists_last t
    have hlines := cut.lines_number unit
    have hend : cut.before.length + cut.line.length = t.length := by
      simp [← cut.append_eq, hafter]
    refine ⟨cut.line, ?_, ?_⟩
    · rw [List.getLast?_eq_getElem?, length_lines, ← hnumber, hlines]
    · rw [locate_of_no_line unit t column hline, positionAt_clamp, length_lines, ← hnumber,
        ← cut.positionAt_eq (Nat.le_refl _), hend]
      congr 1
      omega

/-- A column inside a pair comes back after the code point of the pair. -/
theorem positionAt_inside_pair :
    (Text.ofString "a😀b").IsScalar
      ∧ positionAt (Text.ofString "a😀b")
        ((LineTable.ofText .utf16 (Text.ofString "a😀b")).locate 1 2) = ⟨1, 2⟩ := by
  have hscalar : (Text.ofString "a😀b").IsScalar := by decide
  have hleast : ∀ k ≤ 2, (2 : Int) ≤ Text.width ((Text.ofString "a😀b").take k) → k = 2 := by
    decide
  obtain ⟨k, hnormal, hplace⟩ := (positionAt_locate .utf16 hscalar 1 2).1
    (Text.ofString "a😀b") (by decide) (by decide)
  refine ⟨hscalar, hplace.trans ?_⟩
  rcases hnormal with ⟨hunits, hbound⟩ | ⟨hnone, -⟩
  · have hle : k ≤ 2 := hbound (by change (2 : Int) ≤ _; decide)
    rw [hleast k hle hunits]
    rfl
  · exact absurd (by decide) (hnone 2)

end TreeOffsets.Proofs.Places
