import TreeOffsets.Source.LineTable

namespace TreeOffsets.Proofs.LineCuts

open TreeOffsets.CodePoint

/-- A text cut around one of its lines: the line begins at the start of the text or after a line
feed, and it ends before a line feed or at the end of the text. -/
structure LineCut (t : Text) where
  before : Text
  line : Text
  after : Text
  append_eq : before ++ line ++ after = t
  opens : before = [] ∨ ∃ s, before = s ++ [newline]
  unbroken : newline ∉ line
  closes : after = [] ∨ ∃ s, after = newline :: s

namespace LineCut

variable {t : Text}

def number (cut : LineCut t) : Nat := cut.before.count newline + 1

def row (cut : LineCut t) : Line := ⟨cut.before.length, cut.line⟩

end LineCut

theorem split_append_newline (s r : Text) :
    LineTable.split (s ++ newline :: r) = LineTable.split s ++ LineTable.split r :=
  List.splitOnP_append_cons s r (by simp)

theorem split_of_not_mem {s : Text} (h : newline ∉ s) : LineTable.split s = [s] := by
  apply List.splitOnP_eq_singleton
  intro c hc
  rw [beq_eq_false_iff_ne]
  rintro rfl
  exact h hc

theorem number_append (start : Nat) (lines more : List Text) :
    Line.number start (lines ++ more) =
      Line.number start lines ++ Line.number (Line.after start lines) more := by
  induction lines generalizing start with
  | nil => rfl
  | cons line lines ih => simp only [List.cons_append, Line.number, Line.after, ih]

theorem after_append (start : Nat) (lines more : List Text) :
    Line.after start (lines ++ more) = Line.after (Line.after start lines) more := by
  induction lines generalizing start with
  | nil => rfl
  | cons line lines ih => simp only [List.cons_append, Line.after, ih]

@[simp] theorem length_number (start : Nat) (lines : List Text) :
    (Line.number start lines).length = lines.length := by
  induction lines generalizing start with
  | nil => rfl
  | cons line lines ih => simp only [Line.number, List.length_cons, ih]

theorem line_induction {motive : Text → Prop} (last : ∀ s, newline ∉ s → motive s)
    (more : ∀ s r, newline ∉ s → motive r → motive (s ++ newline :: r)) (t : Text) :
    motive t := by
  by_cases h : newline ∈ t
  · obtain ⟨s, r, ht, hs⟩ := List.eq_append_cons_of_mem h
    subst ht
    exact more s r hs (line_induction last more r)
  · exact last t h
termination_by t.length
decreasing_by
  rw [ht, List.length_append, List.length_cons]
  omega

theorem length_split (t : Text) : (LineTable.split t).length = t.count newline + 1 := by
  induction t using line_induction with
  | last s hs => rw [split_of_not_mem hs, List.count_eq_zero_of_not_mem hs]; rfl
  | more s r hs ih =>
      rw [split_append_newline, split_of_not_mem hs, List.length_append, ih, List.count_append,
        List.count_eq_zero_of_not_mem hs, List.count_cons_self, List.length_singleton]
      omega

/-- Every line is followed by a line feed in the running total, the last line too. -/
theorem after_split (start : Nat) (t : Text) :
    Line.after start (LineTable.split t) = start + t.length + 1 := by
  induction t using line_induction generalizing start with
  | last s hs => rw [split_of_not_mem hs]; rfl
  | more s r hs ih =>
      rw [split_append_newline, split_of_not_mem hs, after_append, ih]
      simp only [Line.after, List.length_append, List.length_cons]
      omega

theorem total_ofText (unit : ColumnUnit) (t : Text) :
    (LineTable.ofText unit t).total = t.length + 1 := by
  simp only [LineTable.ofText, after_split, Nat.zero_add]

theorem length_rows (unit : ColumnUnit) (t : Text) :
    (LineTable.ofText unit t).rows.length = t.count newline + 1 := by
  simp only [LineTable.ofText, length_number, length_split]

theorem length_lines (unit : ColumnUnit) (t : Text) :
    (LineTable.ofText unit t).lines.length = t.count newline + 1 := by
  rw [LineTable.lines, List.length_map, length_rows]

/-- A line that does not exist is found one past the end of the text. -/
theorem locate_of_no_line (unit : ColumnUnit) (t : Text) {line : Int} (column : Int)
    (h : line < 1 ∨ (LineTable.ofText unit t).lines.length < line) :
    (LineTable.ofText unit t).locate line column = t.length + 1 := by
  have hrow : (LineTable.ofText unit t).row? line = none := by
    rw [LineTable.row?]
    split
    · rfl
    · rw [length_lines] at h
      rw [List.getElem?_eq_none_iff, length_rows]
      omega
  rw [LineTable.locate, hrow]
  exact total_ofText unit t

namespace LineCut

variable {t : Text}

def ofLine (s : Text) (h : newline ∉ s) : LineCut s where
  before := []
  line := s
  after := []
  append_eq := by simp
  opens := .inl rfl
  unbroken := h
  closes := .inl rfl

def first (s r : Text) (h : newline ∉ s) : LineCut (s ++ newline :: r) where
  before := []
  line := s
  after := newline :: r
  append_eq := by simp
  opens := .inl rfl
  unbroken := h
  closes := .inr ⟨r, rfl⟩

def later {r : Text} (s : Text) (cut : LineCut r) : LineCut (s ++ newline :: r) where
  before := s ++ newline :: cut.before
  line := cut.line
  after := cut.after
  append_eq := by simp [← cut.append_eq]
  opens := by
    rcases cut.opens with h | ⟨s', h⟩
    · exact .inr ⟨s, by rw [h]⟩
    · exact .inr ⟨s ++ newline :: s', by simp [h]⟩
  unbroken := cut.unbroken
  closes := cut.closes

/-- The lines of a text are those before a cut, its own line and those after it. -/
theorem exists_split_eq (cut : LineCut t) :
    ∃ lines more, LineTable.split t = lines ++ cut.line :: more
      ∧ lines.length = cut.before.count newline ∧ Line.after 0 lines = cut.before.length := by
  have htail : ∃ more, LineTable.split (cut.line ++ cut.after) = cut.line :: more := by
    rcases cut.closes with h | ⟨r, h⟩
    · exact ⟨[], by rw [h, List.append_nil, split_of_not_mem cut.unbroken]⟩
    · exact ⟨LineTable.split r, by
        rw [h, split_append_newline, split_of_not_mem cut.unbroken]; rfl⟩
  obtain ⟨more, hmore⟩ := htail
  rcases cut.opens with h | ⟨s, h⟩
  · have ht : cut.line ++ cut.after = t := by
      simpa only [h, List.nil_append] using cut.append_eq
    exact ⟨[], more, by rw [List.nil_append, ← hmore, ht], by simp [h], by simp [h, Line.after]⟩
  · have ht : s ++ newline :: (cut.line ++ cut.after) = t := by
      simpa [h] using cut.append_eq
    exact ⟨LineTable.split s, more, by rw [← hmore, ← split_append_newline, ht],
      by simp [h, length_split], by simp [h, after_split]⟩

theorem row?_number (unit : ColumnUnit) (cut : LineCut t) :
    (LineTable.ofText unit t).row? cut.number = some cut.row := by
  obtain ⟨lines, more, hsplit, hlength, hafter⟩ := cut.exists_split_eq
  have hrows : (LineTable.ofText unit t).rows =
      Line.number 0 lines ++ cut.row :: Line.number (cut.before.length + (cut.line.length + 1))
        more := by
    simp only [LineTable.ofText, hsplit, number_append, hafter, Line.number, row]
  have hindex : ((cut.number : Int) - 1).toNat = (Line.number 0 lines).length := by
    rw [length_number, hlength, number]
    omega
  rw [LineTable.row?, if_neg (by rw [number]; omega), hrows, hindex]
  simp

theorem rows_number (unit : ColumnUnit) (cut : LineCut t) :
    (LineTable.ofText unit t).rows[cut.number - 1]? = some cut.row := by
  have hrow := cut.row?_number unit
  rw [LineTable.row?, if_neg (by rw [number]; omega)] at hrow
  have hindex : ((cut.number : Int) - 1).toNat = cut.number - 1 := by omega
  rwa [hindex] at hrow

theorem lines_number (unit : ColumnUnit) (cut : LineCut t) :
    (LineTable.ofText unit t).lines[cut.number - 1]? = some cut.line := by
  rw [LineTable.lines, List.getElem?_map, cut.rows_number unit]
  rfl

theorem starts_number (unit : ColumnUnit) (cut : LineCut t) :
    (LineTable.ofText unit t).starts[cut.number - 1]? = some cut.before.length := by
  rw [LineTable.starts, List.getElem?_map, cut.rows_number unit]
  rfl

theorem exists_number_eq {n : Nat} (h : n ≤ t.count newline) :
    ∃ cut : LineCut t, cut.number = n + 1 := by
  induction t using line_induction generalizing n with
  | last s hs =>
      rw [List.count_eq_zero_of_not_mem hs] at h
      exact ⟨ofLine s hs, by simp [number, ofLine]; omega⟩
  | more s r hs ih =>
      match n with
      | 0 => exact ⟨first s r hs, by simp [number, first]⟩
      | n + 1 =>
          simp only [List.count_append, List.count_cons_self,
            List.count_eq_zero_of_not_mem hs] at h
          obtain ⟨cut, hcut⟩ := ih (n := n) (by omega)
          refine ⟨later s cut, ?_⟩
          simp only [number, later, List.count_append, List.count_cons_self,
            List.count_eq_zero_of_not_mem hs] at hcut ⊢
          omega

theorem exists_last (t : Text) :
    ∃ cut : LineCut t, cut.number = t.count newline + 1 ∧ cut.after = [] := by
  obtain ⟨cut, hcut⟩ := exists_number_eq (t := t) (Nat.le_refl _)
  refine ⟨cut, hcut, ?_⟩
  rcases cut.closes with hnil | ⟨s, hs⟩
  · exact hnil
  · have hcount : (cut.before ++ cut.line ++ cut.after).count newline = t.count newline := by
      rw [cut.append_eq]
    simp only [List.count_append, hs, List.count_cons_self, number] at hcount hcut
    omega

theorem exists_of_row {unit : ColumnUnit} {n : Nat} {row : Line}
    (h : (LineTable.ofText unit t).rows[n]? = some row) :
    ∃ cut : LineCut t, cut.number = n + 1 ∧ cut.row = row := by
  have hlt := (List.getElem?_eq_some_iff.mp h).1
  rw [length_rows] at hlt
  obtain ⟨cut, hcut⟩ := exists_number_eq (t := t) (Nat.le_of_lt_succ hlt)
  refine ⟨cut, hcut, ?_⟩
  have hrow := cut.rows_number unit
  rw [hcut, Nat.add_sub_cancel, h] at hrow
  exact (Option.some.inj hrow).symm

theorem exists_of_line {unit : ColumnUnit} {n : Nat} {text : Text}
    (h : (LineTable.ofText unit t).lines[n]? = some text) :
    ∃ cut : LineCut t, cut.number = n + 1 ∧ cut.line = text := by
  rw [LineTable.lines, List.getElem?_map, Option.map_eq_some_iff] at h
  obtain ⟨row, hrow, rfl⟩ := h
  obtain ⟨cut, hcut, rfl⟩ := exists_of_row hrow
  exact ⟨cut, hcut, rfl⟩

theorem exists_of_start {unit : ColumnUnit} {n start : Nat}
    (h : (LineTable.ofText unit t).starts[n]? = some start) :
    ∃ cut : LineCut t, cut.number = n + 1 ∧ cut.before.length = start := by
  rw [LineTable.starts, List.getElem?_map, Option.map_eq_some_iff] at h
  obtain ⟨row, hrow, rfl⟩ := h
  obtain ⟨cut, hcut, rfl⟩ := exists_of_row hrow
  exact ⟨cut, hcut, rfl⟩

theorem exists_of_offset {offset : Nat} (h : offset ≤ t.length) :
    ∃ (cut : LineCut t) (column : Nat), column ≤ cut.line.length
      ∧ cut.before.length + column = offset := by
  induction t using line_induction generalizing offset with
  | last s hs => exact ⟨ofLine s hs, offset, h, by simp [ofLine]⟩
  | more s r hs ih =>
      by_cases hoffset : offset ≤ s.length
      · exact ⟨first s r hs, offset, hoffset, by simp [first]⟩
      · simp only [List.length_append, List.length_cons] at h
        have hrest : offset - (s.length + 1) ≤ r.length := by omega
        obtain ⟨cut, column, hcolumn, hcut⟩ := ih hrest
        refine ⟨later s cut, column, hcolumn, ?_⟩
        simp only [later, List.length_append, List.length_cons]
        omega

theorem take_eq (cut : LineCut t) {column : Nat} (h : column ≤ cut.line.length) :
    t.take (cut.before.length + column) = cut.before ++ cut.line.take column := by
  calc
    t.take (cut.before.length + column) =
        (cut.before ++ (cut.line ++ cut.after)).take (cut.before.length + column) := by
      rw [← List.append_assoc, cut.append_eq]
    _ = cut.before ++ (cut.line ++ cut.after).take column := List.take_length_add_append column
    _ = cut.before ++ cut.line.take column := by rw [List.take_append_of_le_length h]

theorem lastLine_take (cut : LineCut t) {column : Nat} (h : column ≤ cut.line.length) :
    Text.lastLine (t.take (cut.before.length + column)) = cut.number := by
  have hcount : (cut.line.take column).count newline = 0 :=
    List.count_eq_zero_of_not_mem fun hmem => cut.unbroken (List.mem_of_mem_take hmem)
  rw [Text.lastLine, cut.take_eq h, List.count_append, hcount, number, Nat.add_zero]

theorem lastColumn_take (cut : LineCut t) {column : Nat} (h : column ≤ cut.line.length) :
    Text.lastColumn (t.take (cut.before.length + column)) = column := by
  have hplain : ∀ c ∈ (cut.line.take column).reverse, (c != newline) = true := by
    intro c hc
    rw [bne_iff_ne]
    rintro rfl
    exact cut.unbroken (List.mem_of_mem_take (List.mem_reverse.mp hc))
  have hstart : cut.before.reverse.takeWhile (fun c => c != newline) = [] := by
    rcases cut.opens with hnil | ⟨s, hs⟩
    · rw [hnil]; rfl
    · simp [hs]
  rw [Text.lastColumn, cut.take_eq h, List.reverse_append,
    List.takeWhile_append_of_pos hplain, hstart]
  simp [h]

theorem isScalar_line (cut : LineCut t) (h : t.IsScalar) : cut.line.IsScalar := by
  intro c hc
  apply h c
  rw [← cut.append_eq]
  simp [hc]

theorem positionAt_eq (cut : LineCut t) {column : Nat} (h : column ≤ cut.line.length) :
    positionAt t (cut.before.length + column : Nat) = ⟨cut.number, column⟩ := by
  simp only [positionAt, Int.toNat_natCast, cut.lastLine_take h, cut.lastColumn_take h]

theorem locate_number (unit : ColumnUnit) (cut : LineCut t) (column : Int) :
    (LineTable.ofText unit t).locate cut.number column =
      cut.before.length + (unit.before column.toNat cut.line).length := by
  simp only [LineTable.locate, row?_number]
  rfl

end LineCut

end TreeOffsets.Proofs.LineCuts
