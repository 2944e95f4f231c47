import TreeOffsets.Proofs.Columns
import TreeOffsets.Proofs.LineCuts

namespace TreeOffsets.Proofs.LineSpans

open TreeOffsets.CodePoint
open TreeOffsets.Proofs.Columns
open TreeOffsets.Proofs.LineCuts

/-- A place comes before another one in a document, or is the same. -/
def NotAfter (p q : Position) : Prop := p.line < q.line ∨ p.line = q.line ∧ p.column ≤ q.column

/-- Lines, each with a line feed after it. -/
def ended (lines : List Text) : Text := lines.flatMap (· ++ [newline])

theorem ended_append (lines more : List Text) : ended (lines ++ more) = ended lines ++ ended more :=
  List.flatMap_append

theorem ended_cons (line : Text) (lines : List Text) :
    ended (line :: lines) = line ++ newline :: ended lines := by
  rw [ended, List.flatMap_cons, List.append_assoc, List.singleton_append, ended]

theorem ended_split (t : Text) : ended (LineTable.split t) = t ++ [newline] := by
  induction t using line_induction with
  | last s hs => rw [split_of_not_mem hs, ended_cons]; rfl
  | more s r hs ih =>
      rw [split_append_newline, split_of_not_mem hs, List.singleton_append, ended_cons, ih,
        List.append_assoc, List.cons_append]

theorem intercalate_concat (first last : Text) (lines : List Text) :
    [newline].intercalate (first :: lines ++ [last]) =
      first ++ newline :: (ended lines ++ last) := by
  induction lines generalizing first with
  | nil => simp [List.intercalate, ended]
  | cons line lines ih =>
      have hlater := ih line
      simp only [List.intercalate] at hlater ⊢
      change (first :: [newline] :: (line :: lines ++ [last]).intersperse [newline]).flatten = _
      rw [List.flatten_cons, List.flatten_cons, hlater, ended_cons, List.singleton_append,
        List.append_assoc, List.cons_append]

theorem lines_number_eq (start : Nat) (lines : List Text) :
    (Line.number start lines).map Line.text = lines := by
  induction lines generalizing start with
  | nil => rfl
  | cons line lines ih => rw [Line.number, List.map_cons, ih]

theorem lines_ofText (unit : ColumnUnit) (t : Text) :
    (LineTable.ofText unit t).lines = LineTable.split t :=
  lines_number_eq 0 _

variable {t : Text}

theorem before_eq_ended (cut : LineCut t) :
    cut.before = ended ((LineTable.split t).take (cut.number - 1)) := by
  rcases cut.opens with h | ⟨s, h⟩
  · rw [LineCut.number, h]
    rfl
  · -- The text before the line without the line feed at its end is a text of whole lines.
    have hsplit : LineTable.split t =
        LineTable.split s ++ LineTable.split (cut.line ++ cut.after) := by
      have ht : s ++ newline :: (cut.line ++ cut.after) = t := by
        simpa [h] using cut.append_eq
      rw [← split_append_newline, ht]
    have hnumber : cut.number - 1 = (LineTable.split s).length := by
      rw [LineCut.number, h, length_split, List.count_append, List.count_singleton_self,
        Nat.add_sub_cancel]
    rw [hnumber, hsplit, List.take_left, ended_split, h]

theorem split_number (cut : LineCut t) :
    (LineTable.split t)[cut.number - 1]? = some cut.line := by
  rw [← lines_ofText .utf16]
  exact cut.lines_number .utf16

/-- The text before a line is the text before an earlier line, that line, and those between. -/
theorem before_eq_of_number_lt {first last : LineCut t} (h : first.number < last.number) :
    last.before = first.before ++ (first.line ++ newline ::
      ended (((LineTable.split t).take (last.number - 1)).drop first.number)) := by
  have hpos : first.number - 1 + 1 = first.number := rfl
  have hlines : (LineTable.split t).take first.number =
      (LineTable.split t).take (first.number - 1) ++ [first.line] := by
    rw [← hpos, List.take_add_one, split_number]
    rfl
  have htake : ((LineTable.split t).take (last.number - 1)).take first.number =
      (LineTable.split t).take first.number := by
    rw [List.take_take, Nat.min_eq_left (by omega)]
  calc
    last.before = ended ((LineTable.split t).take (last.number - 1)) := before_eq_ended last
    _ = ended ((LineTable.split t).take (first.number - 1) ++ [first.line] ++
          ((LineTable.split t).take (last.number - 1)).drop first.number) := by
      rw [← hlines, ← htake, List.take_append_drop]
    _ = first.before ++ (first.line ++ newline ::
          ended (((LineTable.split t).take (last.number - 1)).drop first.number)) := by
      rw [List.append_assoc, ended_append, ← before_eq_ended, List.singleton_append, ended_cons]

theorem end_lt_of_number_lt {first last : LineCut t} (h : first.number < last.number) :
    first.before.length + first.line.length < last.before.length := by
  rw [before_eq_of_number_lt h, List.length_append, List.length_append, List.length_cons]
  omega

theorem end_le_length (cut : LineCut t) : cut.before.length + cut.line.length ≤ t.length := by
  have hlength := congrArg List.length cut.append_eq
  rw [List.length_append, List.length_append] at hlength
  omega

theorem exists_cut (unit : ColumnUnit) {line : Int} (hfirst : 1 ≤ line)
    (hlast : line ≤ (LineTable.ofText unit t).lines.length) :
    ∃ cut : LineCut t, line = cut.number := by
  rw [length_lines] at hlast
  have hcount : (line - 1).toNat ≤ t.count newline := by omega
  obtain ⟨cut, hcut⟩ := LineCut.exists_number_eq hcount
  exact ⟨cut, by omega⟩

theorem locate_cut (unit : ColumnUnit) (h : t.IsScalar) (cut : LineCut t) {line : Int}
    (hline : line = cut.number) (column : Int) :
    (LineTable.ofText unit t).locate line column =
      cut.before.length + unit.codePoints column cut.line := by
  rw [hline, cut.locate_number, length_before unit column (cut.isScalar_line h)]

def slice (t : Text) (first last : Nat) : Text := (t.take last).drop first

theorem slice_on_line (cut : LineCut t) {k j : Nat} (hj : j ≤ cut.line.length) :
    slice t (cut.before.length + k) (cut.before.length + j) = (cut.line.take j).drop k := by
  rw [slice, cut.take_eq hj, List.drop_length_add_append]

theorem slice_across_lines {first last : LineCut t} (h : first.number < last.number) {k j : Nat}
    (hk : k ≤ first.line.length) (hj : j ≤ last.line.length) :
    slice t (first.before.length + k) (last.before.length + j) =
      [newline].intercalate (first.line.drop k ::
        ((LineTable.split t).take (last.number - 1)).drop first.number ++ [last.line.take j]) := by
  rw [slice, last.take_eq hj, before_eq_of_number_lt h, List.append_assoc,
    List.drop_length_add_append, List.append_assoc, List.drop_append_of_le_length hk,
    intercalate_concat, List.cons_append]

/-- The text from one place to a later one is what the lines say stands between them: a part of one
line, or the end of the first line, the lines between and the start of the last line, with a line
feed between any two. A place on no line stands after all of the text. -/
theorem slice_eq_lines (unit : ColumnUnit) {t : Text} (h : t.IsScalar) {p q : Position}
    (horder : NotAfter p q) {first : Text} (hline : 1 ≤ p.line)
    (hfirst : (LineTable.ofText unit t).lines[(p.line - 1).toNat]? = some first) :
    let table := LineTable.ofText unit t
    let between := slice t (table.locate p.line p.column) (table.locate q.line q.column)
    (∀ last, table.lines[(q.line - 1).toNat]? = some last →
        ∃ k j, IsNormal unit p.column first k ∧ IsNormal unit q.column last j
          ∧ (p.line = q.line → between = (first.take j).drop k)
          ∧ (p.line < q.line → between = [newline].intercalate (first.drop k ::
            (table.lines.take (q.line - 1).toNat).drop p.line.toNat ++ [last.take j])))
      ∧ (table.lines.length < q.line → between = t.drop (table.locate p.line p.column)) := by
  obtain ⟨cut, hnumber, rfl⟩ := LineCut.exists_of_line hfirst
  have hp : p.line = cut.number := by omega
  constructor
  · intro last hlast
    obtain ⟨other, hother, rfl⟩ := LineCut.exists_of_line hlast
    have hle : p.line ≤ q.line := by
      rcases horder with hlt | ⟨heq, -⟩
      · exact Int.le_of_lt hlt
      · exact Int.le_of_eq heq
    have hq : q.line = other.number := by omega
    refine ⟨_, _, isNormal_codePoints unit p.column cut.line,
      isNormal_codePoints unit q.column other.line, fun heq => ?_, fun hlt => ?_⟩
    · have hsame : other.line = cut.line := by
        rw [heq] at hfirst
        exact Option.some.inj (hlast.symm.trans hfirst)
      rw [locate_cut unit h cut hp, locate_cut unit h cut (heq.symm.trans hp), hsame,
        slice_on_line cut (codePoints_le_length unit q.column cut.line)]
    · have hnumbers : cut.number < other.number := by omega
      have hindex : ((other.number : Int) - 1).toNat = other.number - 1 := by omega
      rw [locate_cut unit h cut hp, locate_cut unit h other hq,
        slice_across_lines hnumbers (codePoints_le_length unit p.column cut.line)
          (codePoints_le_length unit q.column other.line), lines_ofText, hp, hq, hindex,
        Int.toNat_natCast]
  · intro hlength
    have htake : t.take (t.length + 1) = t := List.take_of_length_le (Nat.le_succ _)
    rw [locate_of_no_line unit t q.column (.inr hlength), slice, htake]

/-- A text from inside a pair, over an empty line, to past the end of a line. -/
theorem slice_from_pair :
    let t := Text.ofString "a😀b\n\nc"
    let table := LineTable.ofText .utf16 t
    t.IsScalar ∧ NotAfter ⟨1, 2⟩ ⟨3, 9⟩ ∧ table.lines[0]? = some (Text.ofString "a😀b")
      ∧ slice t (table.locate 1 2) (table.locate 3 9) = Text.ofString "b\n\nc" := by
  have hscalar : (Text.ofString "a😀b\n\nc").IsScalar := by decide
  have horder : NotAfter ⟨1, 2⟩ ⟨3, 9⟩ := .inl (by decide)
  have hfirst : (LineTable.ofText .utf16 (Text.ofString "a😀b\n\nc")).lines[0]? =
      some (Text.ofString "a😀b") := by decide
  obtain ⟨k, j, hk, hj, -, hacross⟩ := (slice_eq_lines .utf16 hscalar horder (by decide)
    hfirst).1 (Text.ofString "c") (by decide)
  refine ⟨hscalar, horder, hfirst, (hacross (by decide)).trans ?_⟩
  rw [eq_codePoints_of_isNormal hk, eq_codePoints_of_isNormal hj]
  decide

end TreeOffsets.Proofs.LineSpans
