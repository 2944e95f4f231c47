import TreeOffsets.Proofs.LineSpans

namespace TreeOffsets.Proofs.NarrowLines

open TreeOffsets.Proofs.Columns
open TreeOffsets.Proofs.LineCuts
open TreeOffsets.Proofs.LineSpans

theorem length_le_width (t : Text) : t.length ≤ Text.width t := by
  induction t with
  | nil => exact Nat.zero_le _
  | cons c t ih =>
      have hpos := width_pos c
      rw [width_cons, List.length_cons]
      omega

theorem cover_le_min (n : Nat) (t : Text) : Text.cover n t ≤ min n t.length := by
  rw [cover_le_iff]
  by_cases h : n ≤ t.length
  · left
    have hwidth := length_le_width (t.take n)
    rw [List.length_take, Nat.min_eq_left h] at hwidth
    rwa [Nat.min_eq_left h]
  · exact .inr (by omega)

theorem cover_eq_min {t : Text} (h : ∀ c ∈ t.dropLast, c.val < 0x10000) (n : Nat) :
    Text.cover n t = min n t.length := by
  induction t generalizing n with
  | nil => exact (Nat.min_zero n).symm
  | cons c t ih =>
      rw [Text.cover]
      split
      · next hzero => rw [hzero, Nat.zero_min]
      · next hne =>
          cases t with
          | nil =>
              -- Any column but the first one is past the last code point, however wide that is.
              rw [Text.cover, List.length_singleton]
              omega
          | cons d r =>
              have hwidth : CodePoint.width c = 1 := if_pos (h c List.mem_cons_self)
              rw [hwidth, ih fun e he => h e (List.mem_cons_of_mem c he)]
              simp only [List.length_cons]
              omega

theorem exists_of_mem_dropLast {c : CodePoint} {t : Text} (h : c ∈ t.dropLast) :
    ∃ s r, t = s ++ c :: r ∧ 0 < r.length := by
  have hne : t ≠ [] := by
    rintro rfl
    cases h
  obtain ⟨s, r, hsplit⟩ := List.append_of_mem h
  refine ⟨s, r ++ [t.getLast hne], ?_, by simp⟩
  rw [← List.cons_append, ← List.append_assoc, ← hsplit, List.dropLast_concat_getLast hne]

/-- The column after a pair leads to the next code point in units, and further in code points unless
the line ends there. -/
theorem cover_eq_min_iff {t : Text} :
    (∀ n, Text.cover n t = min n t.length) ↔ ∀ c ∈ t.dropLast, c.val < 0x10000 := by
  constructor
  · intro hagree c hc
    by_contra hwide
    obtain ⟨s, r, rfl, hr⟩ := exists_of_mem_dropLast hc
    have hafter := hagree (Text.width s + 2)
    have hwidth := length_le_width s
    rw [cover_pair s (Nat.not_lt.mp hwide) r (by decide) (by decide), List.length_append,
      List.length_cons] at hafter
    omega
  · exact cover_eq_min

theorem codePoints_utf16_le (column : Int) (line : Text) :
    ColumnUnit.utf16.codePoints column line ≤ ColumnUnit.codePoint.codePoints column line :=
  cover_le_min column.toNat line

theorem codePoints_eq_iff (line : Text) :
    (∀ column : Int,
        ColumnUnit.utf16.codePoints column line = ColumnUnit.codePoint.codePoints column line) ↔
      ∀ c ∈ line.dropLast, c.val < 0x10000 := by
  rw [← cover_eq_min_iff]
  constructor
  · intro h n
    exact h n
  · intro h column
    exact h column.toNat

/-- On a line that exists, a table that counts UTF-16 units never leads further than one that counts
code points, and the two agree at every column of the line exactly if all its code points but the
last one are in the basic plane, where each takes one unit. -/
theorem locate_utf16_le_and_eq_iff {t : Text} (h : t.IsScalar) {line : Int} {text : Text}
    (hline : 1 ≤ line)
    (htext : (LineTable.ofText .codePoint t).lines[(line - 1).toNat]? = some text) :
    let units := LineTable.ofText .utf16 t
    let points := LineTable.ofText .codePoint t
    (∀ column : Int, units.locate line column ≤ points.locate line column)
      ∧ ((∀ column : Int, units.locate line column = points.locate line column) ↔
        ∀ c ∈ text.take (text.length - 1), c.val < 0x10000) := by
  obtain ⟨cut, hnumber, rfl⟩ := LineCut.exists_of_line htext
  have hcut : line = cut.number := by omega
  simp only [locate_cut _ h cut hcut, Nat.add_le_add_iff_left, Nat.add_left_cancel_iff,
    ← List.dropLast_eq_take]
  exact ⟨fun column => codePoints_utf16_le column cut.line, codePoints_eq_iff cut.line⟩

/-- A pair at the end of a line is harmless; one before other code points is not. -/
theorem locate_around_last_pair :
    let t := Text.ofString "é😀\n😀é"
    let units := LineTable.ofText .utf16 t
    let points := LineTable.ofText .codePoint t
    t.IsScalar ∧ points.lines[0]? = some (Text.ofString "é😀")
      ∧ points.lines[1]? = some (Text.ofString "😀é")
      ∧ (∀ column : Int, units.locate 1 column = points.locate 1 column)
      ∧ (∀ column : Int, units.locate 2 column ≤ points.locate 2 column)
      ∧ ¬∀ column : Int, units.locate 2 column = points.locate 2 column := by
  have hscalar : (Text.ofString "é😀\n😀é").IsScalar := by decide
  have hfirst : (LineTable.ofText .codePoint (Text.ofString "é😀\n😀é")).lines[0]? =
      some (Text.ofString "é😀") := by decide
  have hsecond : (LineTable.ofText .codePoint (Text.ofString "é😀\n😀é")).lines[1]? =
      some (Text.ofString "😀é") := by decide
  have hlast := locate_utf16_le_and_eq_iff hscalar (show (1 : Int) ≤ 1 by decide) hfirst
  have hinner := locate_utf16_le_and_eq_iff hscalar (show (1 : Int) ≤ 2 by decide) hsecond
  exact ⟨hscalar, hfirst, hsecond, hlast.2.mpr (by decide), hinner.1,
    fun hagree => absurd (hinner.2.mp hagree) (by decide)⟩

end TreeOffsets.Proofs.NarrowLines
