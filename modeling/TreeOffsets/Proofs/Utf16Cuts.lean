import TreeOffsets.Proofs.LineSpans
import TreeOffsets.Text.Utf8

namespace TreeOffsets.Proofs.Utf16Cuts

open TreeOffsets.Proofs.Columns
open TreeOffsets.Proofs.LineCuts
open TreeOffsets.Proofs.LineSpans

/-- The two bytes of a unit, the low one first. -/
def unitBytes (u : CodeUnit) : Bytes := [UInt8.ofNat (u.val % 0x100), UInt8.ofNat (u.val / 0x100)]

def byteUnit (low high : UInt8) : CodeUnit where
  val := low.toNat + 0x100 * high.toNat
  val_lt := by
    have hlow := low.toNat_lt
    have hhigh := high.toNat_lt
    omega

theorem byteUnit_unitBytes (u : CodeUnit) :
    byteUnit (UInt8.ofNat (u.val % 0x100)) (UInt8.ofNat (u.val / 0x100)) = u := by
  have hlt := u.val_lt
  have hlow : (UInt8.ofNat (u.val % 0x100)).toNat = u.val % 0x100 :=
    UInt8.toNat_ofNat_of_lt' (Nat.mod_lt _ (by decide))
  have hhigh : (UInt8.ofNat (u.val / 0x100)).toNat = u.val / 0x100 :=
    UInt8.toNat_ofNat_of_lt' (Nat.div_lt_of_lt_mul hlt)
  ext
  simp only [byteUnit, hlow, hhigh]
  omega

/-- A text in little-endian UTF-16, in which a surrogate is a unit of its own. -/
def littleEndian (t : Text) : Bytes := t.units.flatMap unitBytes

/-- The text that little-endian UTF-16 spells. A unit that is no half of a pair is a code point, and
a byte that is no half of a unit spells nothing. -/
def ofLittleEndian? : Bytes → Option Text
  | [] => some []
  | [_] => none
  | low :: high :: rest =>
    (ofLittleEndian? rest).map (byteUnit low high).toCodePoint.joinTo

theorem ofLittleEndian?_unitBytes (us : List CodeUnit) :
    ofLittleEndian? (us.flatMap unitBytes) = some (Text.ofUnits us) := by
  induction us with
  | nil => rfl
  | cons u us ih =>
      rw [List.flatMap_cons, unitBytes, List.cons_append, List.singleton_append, ofLittleEndian?,
        ih, byteUnit_unitBytes]
      rfl

theorem take_unitBytes (n : Nat) (us : List CodeUnit) :
    (us.flatMap unitBytes).take (2 * n) = (us.take n).flatMap unitBytes := by
  induction us generalizing n with
  | nil => simp
  | cons u us ih =>
      cases n with
      | zero => rfl
      | succ n =>
          have hdouble : 2 * (n + 1) = 2 * n + 1 + 1 := rfl
          rw [List.take_succ_cons, List.flatMap_cons, List.flatMap_cons, unitBytes, hdouble,
            List.cons_append, List.singleton_append, List.take_succ_cons, List.take_succ_cons, ih,
            List.cons_append, List.singleton_append]

theorem ofLittleEndian?_take (n : Nat) (t : Text) :
    ofLittleEndian? ((littleEndian t).take (2 * n)) = some (t.takeUnits n) := by
  rw [littleEndian, take_unitBytes, ofLittleEndian?_unitBytes, Text.takeUnits]

theorem cover_inside_pair (s : Text) {c : CodePoint} (hc : 0x10000 ≤ c.val) (t : Text) :
    Text.cover (Text.width s + 1) (s ++ c :: t) = s.length + 1 :=
  cover_pair s hc t (by decide) (by decide)

/-- The offset of a column on a line that exists is the start of the line and the number of code
points in which the encoded line, cut at the units of the column, is read back. That number is the
least whose code points take the units of the column, or all of the line if it is narrower: the
column of a code point leads to that code point, and a column inside a pair to the one after it. -/
theorem locate_eq_start_add {t : Text} (h : t.IsScalar) {line : Int} {text : Text}
    (hline : 1 ≤ line)
    (htext : (LineTable.ofText .utf16 t).lines[(line - 1).toNat]? = some text) :
    let table := LineTable.ofText .utf16 t
    ∃ start, table.starts[(line - 1).toNat]? = some start
      ∧ (∀ column : Int, ∃ k, table.locate line column = start + k ∧ IsNormal .utf16 column text k
        ∧ ∃ part, ofLittleEndian? ((littleEndian text).take (2 * (max column 0).toNat)) = some part
          ∧ part.length = k)
      ∧ (∀ k ≤ text.length, table.locate line (Text.width (text.take k)) = start + k)
      ∧ ∀ before c after, text = before ++ c :: after → 0x10000 ≤ c.val →
        table.locate line (Text.width before + 1 : Nat) = start + (before.length + 1) := by
  obtain ⟨cut, hnumber, rfl⟩ := LineCut.exists_of_line htext
  have hcut : line = cut.number := by omega
  have hindex : (line - 1).toNat = cut.number - 1 := by omega
  have hscalar := cut.isScalar_line h
  refine ⟨cut.before.length, ?_, fun column => ?_, fun k hk => ?_,
    fun before c after hsplit hc => ?_⟩
  · rw [hindex, cut.starts_number]
  · have hmax : (max column 0).toNat = column.toNat := by omega
    refine ⟨_, locate_cut .utf16 h cut hcut column, isNormal_codePoints .utf16 column cut.line,
      _, ofLittleEndian?_take _ _, ?_⟩
    rw [hmax, length_takeUnits hscalar]
    rfl
  · have hcover := cover_width_append (cut.line.take k) (cut.line.drop k)
    rw [List.take_append_drop, List.length_take, Nat.min_eq_left hk] at hcover
    rw [locate_cut .utf16 h cut hcut]
    exact congrArg (cut.before.length + ·) hcover
  · rw [locate_cut .utf16 h cut hcut, hsplit]
    exact congrArg (cut.before.length + ·) (cover_inside_pair before hc after)

/-- Columns before, inside and after a pair, and past the end of its line. -/
theorem locate_around_pair :
    let table := LineTable.ofText .utf16 (Text.ofString "x\na😀b")
    (Text.ofString "x\na😀b").IsScalar ∧ (1 : Int) ≤ 2
      ∧ table.lines[1]? = some (Text.ofString "a😀b")
      ∧ table.locate 2 1 = 3 ∧ table.locate 2 2 = 4 ∧ table.locate 2 3 = 4
      ∧ table.locate 2 9 = 5 := by
  have hscalar : (Text.ofString "x\na😀b").IsScalar := by decide
  have htext : (LineTable.ofText .utf16 (Text.ofString "x\na😀b")).lines[1]? =
      some (Text.ofString "a😀b") := by decide
  have hline : (1 : Int) ≤ 2 := by decide
  obtain ⟨start, hstart, hcolumn, hboundary, hinside⟩ := locate_eq_start_add hscalar hline htext
  obtain rfl : 2 = start := Option.some.inj ((by decide : some 2 = _).trans hstart)
  obtain ⟨k, hlocate, hnormal, -⟩ := hcolumn 9
  rw [eq_codePoints_of_isNormal hnormal] at hlocate
  exact ⟨hscalar, hline, htext, hboundary 1 (by decide),
    hinside (Text.ofString "a") (CodePoint.ofChar '😀') (Text.ofString "b") (by decide) (by decide),
    hboundary 2 (by decide), hlocate.trans (by decide)⟩

end TreeOffsets.Proofs.Utf16Cuts
