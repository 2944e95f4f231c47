import TreeOffsets.Source.Lookup
import TreeOffsets.Proofs.Differences
import TreeOffsets.Proofs.LineSpans

namespace TreeOffsets.Proofs.Lookups

open TreeOffsets.Proofs.Columns
open TreeOffsets.Proofs.Differences
open TreeOffsets.Proofs.LineCuts
open TreeOffsets.Proofs.LineSpans

/-- The whole number that a value counts as. -/
inductive CountsAs : Json → Int → Prop where
  | int (n : Int) : CountsAs (.int n) n
  | one : CountsAs (.bool true) 1
  | zero : CountsAs (.bool false) 0

inductive IsNumber : Json → Prop where
  | whole {v : Json} {n : Int} (h : CountsAs v n) : IsNumber v
  | double (x : Double) : IsNumber (.float x)

/-- The column that a value stands for. A double below zero stands for the start of the line, and
no other double for a column. -/
inductive IsColumn : Json → Int → Prop where
  | whole {v : Json} {n : Int} (h : CountsAs v n) : IsColumn v n
  | negative {x : Double} (h : IsBelow 0 x) : IsColumn (.float x) 0

/-- A number that is the number of no line. The index of a line is one less than its number, rounded
if that is a double; here it is below zero, or no less than the number of lines. -/
inductive IsOutside (count : Nat) : Json → Prop where
  | whole {v : Json} {n : Int} (hv : CountsAs v n) (h : n - 1 < 0 ∨ (count : Int) ≤ n - 1) :
    IsOutside count v
  | double {x : Double} (h : IsBelow 0 x.minusOne ∨ IsAtLeast count x.minusOne) :
    IsOutside count (.float x)

theorem CountsAs.unique {v : Json} {n m : Int} (hn : CountsAs v n) (hm : CountsAs v m) : n = m := by
  cases hn <;> cases hm <;> rfl

theorem numeral_of_countsAs {v : Json} {n : Int} (h : CountsAs v n) :
    ∃ w : Whole, v.numeral = .whole w ∧ w.toInt = n := by
  cases h <;> exact ⟨_, rfl, rfl⟩

theorem numeral_of_not_isNumber {v : Json} (h : ¬IsNumber v) : v.numeral = .other v.kind := by
  cases v with
  | int n => exact absurd (.whole (.int n)) h
  | bool b =>
      cases b with
      | true => exact absurd (.whole .one) h
      | false => exact absurd (.whole .zero) h
  | float x => exact absurd (.double x) h
  | _ => rfl

theorem isOutside_iff_of_countsAs {count : Nat} {v : Json} {n : Int} (hv : CountsAs v n) :
    IsOutside count v ↔ n - 1 < 0 ∨ (count : Int) ≤ n - 1 := by
  constructor
  · intro h
    cases h with
    | whole hw h => rwa [hv.unique hw]
    | double => cases hv
  · exact .whole hv

theorem isOutside_float_iff {count : Nat} {x : Double} :
    IsOutside count (.float x) ↔ IsBelow 0 x.minusOne ∨ IsAtLeast count x.minusOne := by
  constructor
  · intro h
    cases h with
    | whole hv => cases hv
    | double h => exact h
  · exact .double

/-- With no more than `2 ^ 53` lines, rounding makes no difference. -/
theorem isOutside_float_iff_of_le {count : Nat} (h : count ≤ 2 ^ 53) (x : Double) :
    IsOutside count (.float x) ↔ IsBelow 1 x ∨ IsAtLeast (count + 1) x := by
  rw [isOutside_float_iff, isBelow_minusOne_iff, isAtLeast_minusOne_iff h]

theorem column_of_isColumn {v : Json} {m : Int} (h : IsColumn v m) :
    LineTable.column v = .ok m := by
  cases h with
  | whole h =>
      obtain ⟨w, hw, rfl⟩ := numeral_of_countsAs h
      rw [LineTable.column, hw]
  | negative h =>
      change (if _ then _ else _) = _
      rw [if_pos (compareInt_eq_lt_iff.mpr h)]

theorem column_of_not_isNumber {v : Json} (h : ¬IsNumber v) :
    LineTable.column v = .error (.notANumber v.kind) := by
  rw [LineTable.column, numeral_of_not_isNumber h]

theorem column_of_not_isBelow {x : Double} (h : ¬IsBelow 0 x) :
    LineTable.column (.float x) = .error .notWhole := by
  change (if _ then _ else _) = _
  rw [if_neg (mt compareInt_eq_lt_iff.mp h)]

theorem isNumber_cases {v : Json} (h : IsNumber v) :
    (∃ m, IsColumn v m) ∨ ∃ x, v = .float x ∧ ¬IsBelow 0 x := by
  cases h with
  | whole h => exact .inl ⟨_, .whole h⟩
  | double x =>
      by_cases hx : IsBelow 0 x
      · exact .inl ⟨0, .negative hx⟩
      · exact .inr ⟨x, rfl, hx⟩

section

variable {table : LineTable}

theorem row?_eq_none_iff {n : Int} :
    table.row? n = none ↔ n - 1 < 0 ∨ (table.lines.length : Int) ≤ n - 1 := by
  rw [LineTable.row?, LineTable.lines, List.length_map]
  split
  · exact ⟨fun _ => .inl (by omega), fun _ => rfl⟩
  · rw [List.getElem?_eq_none_iff]
    omega

theorem locateValues_of_countsAs {line : Json} {n : Int} (h : CountsAs line n) (column : Json) :
    table.locateValues line column = table.locateOn n column := by
  obtain ⟨w, hw, rfl⟩ := numeral_of_countsAs h
  rw [LineTable.locateValues, hw]

theorem locateValues_float {x : Double} (column : Json) :
    table.locateValues (.float x) column =
      if x.minusOne.compareInt 0 = some .lt
          ∨ (x.minusOne.compareInt table.rows.length).any (fun order => order != .lt) = true then
        .ok table.total
      else .error .lineNotWhole := rfl

theorem locateValues_of_not_isNumber {line : Json} (h : ¬IsNumber line) (column : Json) :
    table.locateValues line column = .error (.lineNotANumber line.kind) := by
  rw [LineTable.locateValues, numeral_of_not_isNumber h]

theorem locateValues_of_isOutside {line : Json} (h : IsOutside table.lines.length line)
    (column : Json) : table.locateValues line column = .ok table.total := by
  cases h with
  | whole hv h => rw [locateValues_of_countsAs hv, LineTable.locateOn, row?_eq_none_iff.mpr h]
  | double h =>
      rw [LineTable.lines, List.length_map, ← compareInt_eq_lt_iff, ← any_compareInt_iff] at h
      rw [locateValues_float, if_pos h]

theorem locateValues_of_not_isOutside {x : Double} (h : ¬IsOutside table.lines.length (.float x))
    (column : Json) : table.locateValues (.float x) column = .error .lineNotWhole := by
  rw [isOutside_float_iff, LineTable.lines, List.length_map, ← compareInt_eq_lt_iff,
    ← any_compareInt_iff] at h
  rw [locateValues_float, if_neg h]

theorem locateValues_of_row {line : Json} {n : Int} (hline : CountsAs line n)
    (h : ¬IsOutside table.lines.length line) (column : Json) :
    table.locateValues line column =
      (LineTable.column column).map (table.locate n) := by
  rw [isOutside_iff_of_countsAs hline, ← row?_eq_none_iff] at h
  obtain ⟨row, hrow⟩ := Option.ne_none_iff_exists'.mp h
  have hlocate : table.locate n = table.offsetOn row := by
    funext m
    rw [LineTable.locate, hrow]
  rw [locateValues_of_countsAs hline, LineTable.locateOn, hrow, hlocate]

end

theorem locate_le_length (unit : ColumnUnit) (t : Text) {n : Int}
    (h : ¬(n - 1 < 0 ∨ ((LineTable.ofText unit t).lines.length : Int) ≤ n - 1)) (column : Int) :
    (LineTable.ofText unit t).locate n column ≤ t.length := by
  obtain ⟨cut, rfl⟩ := exists_cut unit (show 1 ≤ n by omega)
    (show n ≤ (LineTable.ofText unit t).lines.length by omega)
  have hbefore := length_before_le unit column.toNat cut.line
  have hend := end_le_length cut
  rw [cut.locate_number]
  omega

/-- The fault of a value whose type cannot be used where the value stands. The one other fault is to
ask a value for its line that has none. -/
def IsTypeFault (fault : LookupFault) : Prop := ∀ kind, fault ≠ .notAPosition kind

/-- What is wrong with a line and a column that lead to no offset. The column is looked at last, and
only on a line that exists. -/
inductive Refused (count : Nat) : Json → Json → LookupFault → Prop where
  | lineNotANumber {line column : Json} (h : ¬IsNumber line) :
    Refused count line column (.lineNotANumber line.kind)
  | lineNotWhole {x : Double} {column : Json} (h : ¬IsOutside count (.float x)) :
    Refused count (.float x) column .lineNotWhole
  | notANumber {line column : Json} {n : Int} (hline : CountsAs line n)
    (hinside : ¬IsOutside count line) (h : ¬IsNumber column) :
    Refused count line column (.notANumber column.kind)
  | notWhole {line : Json} {n : Int} {x : Double} (hline : CountsAs line n)
    (hinside : ¬IsOutside count line) (h : ¬IsBelow 0 x) : Refused count line (.float x) .notWhole

theorem isTypeFault_of_refused {count : Nat} {line column : Json} {fault : LookupFault}
    (h : Refused count line column fault) : IsTypeFault fault := by
  cases h <;> nofun

def AreWhole (line column : Json) : Prop :=
  (∃ n, CountsAs line n) ∧ ∃ m, IsColumn column m

/-- What a table answers for a line and a column in a text of some length. -/
structure Answers (table : LineTable) (length : Nat) (line column : Json)
    (answer : Except LookupFault Nat) : Prop where
  outside : IsOutside table.lines.length line → answer = .ok table.total
  exists_offset_iff : ¬IsOutside table.lines.length line →
    ((∃ offset, answer = .ok offset) ↔ AreWhole line column)
  offset : ¬IsOutside table.lines.length line → ∀ n m, CountsAs line n → IsColumn column m →
    answer = .ok (table.locate n m) ∧ table.locate n m ≤ length
  refused : ¬IsOutside table.lines.length line → ¬AreWhole line column →
    ∃ fault, answer = .error fault ∧ IsTypeFault fault
      ∧ Refused table.lines.length line column fault

section

variable {table : LineTable}

theorem locateValues_of_areWhole {line column : Json} {n m : Int}
    (h : ¬IsOutside table.lines.length line) (hline : CountsAs line n)
    (hcolumn : IsColumn column m) :
    table.locateValues line column = .ok (table.locate n m) := by
  rw [locateValues_of_row hline h, column_of_isColumn hcolumn]
  rfl

theorem exists_refused {line column : Json} (h : ¬IsOutside table.lines.length line)
    (hwhole : ¬AreWhole line column) :
    ∃ fault, table.locateValues line column = .error fault
      ∧ Refused table.lines.length line column fault := by
  by_cases hline : IsNumber line
  · cases hline with
    | double x => exact ⟨_, locateValues_of_not_isOutside h column, .lineNotWhole h⟩
    | whole hline =>
        rw [locateValues_of_row hline h]
        by_cases hcolumn : IsNumber column
        · rcases isNumber_cases hcolumn with hm | ⟨x, rfl, hx⟩
          · exact absurd ⟨⟨_, hline⟩, hm⟩ hwhole
          · exact ⟨_, by rw [column_of_not_isBelow hx]; rfl, .notWhole hline h hx⟩
        · exact ⟨_, by rw [column_of_not_isNumber hcolumn]; rfl, .notANumber hline h hcolumn⟩
  · exact ⟨_, locateValues_of_not_isNumber hline column, .lineNotANumber hline⟩

/-- A lookup has a fault exactly if the line and the column are refused with it. -/
theorem locateValues_eq_error_iff {line column : Json} {fault : LookupFault} :
    table.locateValues line column = .error fault ↔
      Refused table.lines.length line column fault := by
  constructor
  · intro hfault
    by_cases h : IsOutside table.lines.length line
    · cases hfault.symm.trans (locateValues_of_isOutside h column)
    · by_cases hwhole : AreWhole line column
      · obtain ⟨⟨n, hline⟩, m, hcolumn⟩ := hwhole
        cases hfault.symm.trans (locateValues_of_areWhole h hline hcolumn)
      · obtain ⟨other, hother, hrefused⟩ := exists_refused h hwhole
        cases hfault.symm.trans hother
        exact hrefused
  · intro hrefused
    cases hrefused with
    | lineNotANumber h => exact locateValues_of_not_isNumber h column
    | lineNotWhole h => exact locateValues_of_not_isOutside h column
    | notANumber hline hinside h =>
        rw [locateValues_of_row hline hinside, column_of_not_isNumber h]
        rfl
    | notWhole hline hinside h =>
        rw [locateValues_of_row hline hinside, column_of_not_isBelow h]
        rfl

end

theorem answers_locateValues (unit : ColumnUnit) (t : Text) (line column : Json) :
    Answers (LineTable.ofText unit t) t.length line column
      ((LineTable.ofText unit t).locateValues line column) where
  outside := fun h => locateValues_of_isOutside h column
  exists_offset_iff := by
    intro h
    constructor
    · rintro ⟨offset, hoffset⟩
      by_contra hwhole
      obtain ⟨fault, hfault, -⟩ := exists_refused h hwhole
      cases hoffset.symm.trans hfault
    · rintro ⟨⟨n, hline⟩, m, hcolumn⟩
      exact ⟨_, locateValues_of_areWhole h hline hcolumn⟩
  offset := by
    intro h n m hline hcolumn
    refine ⟨locateValues_of_areWhole h hline hcolumn, locate_le_length unit t ?_ m⟩
    rwa [isOutside_iff_of_countsAs hline] at h
  refused := by
    intro h hwhole
    obtain ⟨fault, hfault, hrefused⟩ := exists_refused h hwhole
    exact ⟨fault, hfault, isTypeFault_of_refused hrefused, hrefused⟩

def memberOrNull (fields : Fields) (name : String) : Json :=
  (Fields.value? fields (Text.ofString name)).getD .null

/-- Any line and any column are answered, given as they are or as members of an object. Both units
have the same faults for the same lines and columns, and whole numbers have none. In a text of up to
`2 ^ 53` lines a double is outside exactly if it is below 1 or past the last line. -/
theorem locateValues_answers (unit : ColumnUnit) (t : Text) :
    let table := LineTable.ofText unit t
    (∀ line column, Answers table t.length line column (table.locateValues line column))
      ∧ (∀ fields, table.locateValue (.obj fields) =
        table.locateValues (memberOrNull fields "line") (memberOrNull fields "column"))
      ∧ (∀ other line column fault, table.locateValues line column = .error fault ↔
        (LineTable.ofText other t).locateValues line column = .error fault)
      ∧ (∀ n m : Int, table.locateValues (.int n) (.int m) = .ok (table.locate n m))
      ∧ (table.lines.length ≤ 2 ^ 53 → ∀ x, IsOutside table.lines.length (.float x) ↔
        IsBelow 1 x ∨ IsAtLeast (table.lines.length + 1) x) := by
  refine ⟨answers_locateValues unit t, fun _ => rfl, ?_, ?_, isOutside_float_iff_of_le⟩
  · intro other line column fault
    rw [locateValues_eq_error_iff, locateValues_eq_error_iff, lines_ofText, lines_ofText]
  · intro n m
    by_cases h : IsOutside (LineTable.ofText unit t).lines.length (.int n)
    · rw [locateValues_of_isOutside h, LineTable.locate,
        row?_eq_none_iff.mpr ((isOutside_iff_of_countsAs (.int n)).mp h)]
    · exact locateValues_of_areWhole h (.int n) (.whole (.int m))

/-- On two lines 7.5 is the number of no line, -0.5 is the start of a line, and a missing column
stands for none. -/
theorem locateValues_of_mixed_types :
    let table := LineTable.ofText .utf16 (Text.ofString "a\n😀b")
    let large := Double.finite false ⟨1025 * Double.block + 7 * 2 ^ 49, by decide⟩
    let small := Double.finite true ⟨1022 * Double.block, by decide⟩
    IsOutside 2 (.float large) ∧ IsColumn (.float small) 0
      ∧ table.locateValues (.float large) .null = .ok 5
      ∧ table.locateValues (.bool true) (.float small) = .ok 0
      ∧ ∃ fault, table.locateValue (.obj [(Text.ofString "line", .int 2)]) = .error fault
        ∧ IsTypeFault fault := by
  intro table large small
  obtain ⟨hanswers, hobject, -, -, houtside⟩ :=
    locateValues_answers .utf16 (Text.ofString "a\n😀b")
  have hlines : table.lines.length = 2 := by decide
  have hlarge : IsOutside table.lines.length (.float large) := by
    refine (houtside (by decide) large).mpr (.inr (.finite ?_))
    decide +kernel
  have hsmall : IsColumn (.float small) 0 := .negative (.finite (by decide +kernel))
  have hfirst : ¬IsOutside table.lines.length (.bool true) := by
    rw [isOutside_iff_of_countsAs .one, hlines]
    decide
  have hsecond : ¬IsOutside table.lines.length (.int 2) := by
    rw [isOutside_iff_of_countsAs (.int 2), hlines]
    decide
  have hmissing : ¬AreWhole (.int 2) .null := by
    rintro ⟨-, m, hm⟩
    cases hm with
    | whole h => cases h
  obtain ⟨fault, hfault, htype, -⟩ := (hanswers (.int 2) .null).refused hsecond hmissing
  exact ⟨hlines ▸ hlarge, hsmall, (hanswers _ .null).outside hlarge,
    ((hanswers _ _).offset hfirst 1 0 .one hsmall).1, fault, (hobject _).trans hfault, htype⟩

end TreeOffsets.Proofs.Lookups
