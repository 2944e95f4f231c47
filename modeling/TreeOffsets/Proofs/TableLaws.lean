import TreeOffsets.Proofs.LineSpans

namespace TreeOffsets.Proofs.TableLaws

open TreeOffsets.CodePoint
open TreeOffsets.Proofs.LineCuts
open TreeOffsets.Proofs.LineSpans

structure IsTableOf (t : Text) (table : LineTable) : Prop where
  lines_ne_nil : table.lines ≠ []
  unbroken : ∀ line ∈ table.lines, newline ∉ line
  joined : [newline].intercalate table.lines = t
  length_starts : table.starts.length = table.lines.length
  first_start : table.starts[0]? = some 0
  next_start : ∀ (i : Nat) start line, table.starts[i]? = some start →
    table.lines[i]? = some line → i + 1 < table.lines.length →
    table.starts[i + 1]? = some (start + line.length + 1)
  increasing : table.starts.Pairwise (· < ·)
  slice_eq_line : ∀ (i : Nat) start line, table.starts[i]? = some start →
    table.lines[i]? = some line → slice t start (start + line.length) = line
  /-- Before the start of a line that is not the first one stands the line feed of that number. -/
  newline_before : ∀ (i : Nat) start, table.starts[i + 1]? = some start →
    1 ≤ start ∧ t[start - 1]? = some newline ∧ (t.take (start - 1)).count newline = i
  total_eq : table.total = t.length + 1
  /-- The starts and the total are the sums of the lengths of the lines, each with a line feed. -/
  sums : table.starts ++ [table.total] =
    table.lines.scanl (fun start line => start + (line.length + 1)) 0

variable {t : Text}

/-- A text has one table at most: its lines are where it is cut, and each start gives the next. -/
theorem IsTableOf.unique {table other : LineTable} (h : IsTableOf t table)
    (hother : IsTableOf t other) :
    table.lines = other.lines ∧ table.starts = other.starts ∧ table.total = other.total := by
  have hlines : table.lines = other.lines := by
    rw [← List.splitOn_intercalate newline h.unbroken h.lines_ne_nil, h.joined, ← hother.joined,
      List.splitOn_intercalate newline hother.unbroken hother.lines_ne_nil]
  have hstarts : ∀ i < table.lines.length, table.starts[i]? = other.starts[i]? := by
    intro i
    induction i with
    | zero => exact fun _ => h.first_start.trans hother.first_start.symm
    | succ i ih =>
        intro hi
        have hlt : i < table.lines.length := Nat.lt_of_succ_lt hi
        have hstart := List.getElem?_eq_getElem (h.length_starts ▸ hlt)
        have hline := List.getElem?_eq_getElem hlt
        have hnext := h.next_start i _ _ hstart hline hi
        rw [ih hlt] at hstart
        rw [hlines] at hi
        exact hnext.trans (hother.next_start i _ _ hstart (hlines ▸ hline) hi).symm
  refine ⟨hlines, List.ext_getElem? fun i => ?_, h.total_eq.trans hother.total_eq.symm⟩
  by_cases hi : i < table.lines.length
  · exact hstarts i hi
  · rw [List.getElem?_eq_none (by rw [h.length_starts]; omega),
      List.getElem?_eq_none (by rw [hother.length_starts, ← hlines]; omega)]

theorem line_eq_of_number {unit : ColumnUnit} {i : Nat} {line : Text} {cut : LineCut t}
    (hcut : cut.number = i + 1) (h : (LineTable.ofText unit t).lines[i]? = some line) :
    cut.line = line := by
  have hline := cut.lines_number unit
  rw [hcut, Nat.add_sub_cancel, h] at hline
  exact (Option.some.inj hline).symm

theorem length_before_succ {first next : LineCut t} (h : next.number = first.number + 1) :
    next.before.length = first.before.length + first.line.length + 1 := by
  have hlt : first.number < next.number := by omega
  have hnone : ((LineTable.split t).take (next.number - 1)).drop first.number = [] := by
    rw [h, Nat.add_sub_cancel, List.drop_eq_nil_iff]
    exact List.length_take_le _ _
  rw [before_eq_of_number_lt hlt, hnone]
  simp only [ended, List.flatMap_nil, List.length_append, List.length_cons, List.length_nil]
  omega

/-- A line that is not the first one begins behind a line feed, with the line feeds of the lines
before it in front of that. -/
theorem newline_before_cut {cut : LineCut t} (h : 1 < cut.number) :
    1 ≤ cut.before.length ∧ t[cut.before.length - 1]? = some newline
      ∧ (t.take (cut.before.length - 1)).count newline = cut.number - 2 := by
  rcases cut.opens with hnil | ⟨s, hs⟩
  · rw [LineCut.number, hnil] at h
    exact absurd h (by simp)
  · have ht : t = s ++ newline :: (cut.line ++ cut.after) := by
      simpa [hs] using cut.append_eq.symm
    have hlength : cut.before.length = s.length + 1 := by simp [hs]
    have hnumber : cut.number = s.count newline + 2 := by simp [LineCut.number, hs]
    rw [hlength, hnumber, Nat.add_sub_cancel, Nat.add_sub_cancel]
    refine ⟨Nat.le_add_left 1 _, ?_, ?_⟩
    · rw [ht, List.getElem?_append_right (Nat.le_refl _), Nat.sub_self]
      rfl
    · rw [ht, List.take_left]

theorem starts_append_after (start : Nat) (lines : List Text) :
    (Line.number start lines).map Line.start ++ [Line.after start lines] =
      lines.scanl (fun start line => start + (line.length + 1)) start := by
  induction lines generalizing start with
  | nil => rfl
  | cons line rest ih =>
      rw [Line.number, Line.after, List.map_cons, List.cons_append, ih, List.scanl_cons]

theorem isTableOf_of_unit (unit : ColumnUnit) (t : Text) :
    IsTableOf t (LineTable.ofText unit t) where
  lines_ne_nil := by
    rw [lines_ofText]
    exact List.splitOn_ne_nil _ _
  unbroken := by
    intro line hline
    obtain ⟨i, hi⟩ := List.mem_iff_getElem?.mp hline
    obtain ⟨cut, -, rfl⟩ := LineCut.exists_of_line hi
    exact cut.unbroken
  joined := by
    rw [lines_ofText]
    exact List.intercalate_splitOn newline
  length_starts := by rw [LineTable.starts, LineTable.lines, List.length_map, List.length_map]
  first_start := by
    change ((Line.number 0 (LineTable.split t)).map Line.start)[0]? = some 0
    cases hsplit : LineTable.split t with
    | nil => exact absurd hsplit (List.splitOn_ne_nil _ _)
    | cons line rest => rfl
  next_start := by
    intro i start line hstart hline hi
    obtain ⟨first, hfirst, rfl⟩ := LineCut.exists_of_start hstart
    obtain rfl := line_eq_of_number hfirst hline
    rw [length_lines] at hi
    obtain ⟨next, hnext⟩ := LineCut.exists_number_eq (t := t) (Nat.le_of_lt_succ hi)
    rw [← length_before_succ (hnext.trans (by rw [hfirst]))]
    have hrow := next.starts_number unit
    rwa [hnext, Nat.add_sub_cancel] at hrow
  increasing := by
    rw [List.pairwise_iff_getElem]
    intro i j hi hj hij
    obtain ⟨first, hfirst, hstart⟩ := LineCut.exists_of_start (List.getElem?_eq_getElem hi)
    obtain ⟨last, hlast, hend⟩ := LineCut.exists_of_start (List.getElem?_eq_getElem hj)
    have hlt := end_lt_of_number_lt (show first.number < last.number by omega)
    omega
  slice_eq_line := by
    intro i start line hstart hline
    obtain ⟨cut, hcut, rfl⟩ := LineCut.exists_of_start hstart
    obtain rfl := line_eq_of_number hcut hline
    have hslice := slice_on_line cut (k := 0) (Nat.le_refl _)
    rwa [Nat.add_zero, List.drop_zero, List.take_length] at hslice
  newline_before := by
    intro i start hstart
    obtain ⟨cut, hcut, rfl⟩ := LineCut.exists_of_start hstart
    have hbefore := newline_before_cut (show 1 < cut.number by omega)
    rwa [hcut] at hbefore
  total_eq := total_ofText unit t
  sums := by
    rw [lines_ofText]
    exact starts_append_after 0 (LineTable.split t)

/-- The table of every text obeys the laws, and its lines, their starts and the total are the same
in both units. -/
theorem isTableOf_ofText (t : Text) :
    (∀ unit, IsTableOf t (LineTable.ofText unit t))
      ∧ ∀ unit other, (LineTable.ofText unit t).lines = (LineTable.ofText other t).lines
        ∧ (LineTable.ofText unit t).starts = (LineTable.ofText other t).starts
        ∧ (LineTable.ofText unit t).total = (LineTable.ofText other t).total :=
  ⟨fun unit => isTableOf_of_unit unit t,
    fun unit other => (isTableOf_of_unit unit t).unique (isTableOf_of_unit other t)⟩

end TreeOffsets.Proofs.TableLaws
