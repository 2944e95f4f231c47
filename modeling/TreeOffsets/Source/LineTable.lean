import TreeOffsets.Text.Utf16

/-!
The line table of a text turns a line and a column into an offset from the start of the text.
Offsets count code points; columns count code points or UTF-16 units. A column past the end of its
line means the end of the line, a negative one its start, and a UTF-16 column inside a pair the end
of the code point. A line that does not exist means one past the end of the text.

In the other direction an offset becomes the line and the column of its place.
-/

namespace TreeOffsets

/-- A line, from 1, and a column on it, from 0. -/
@[ext] structure Position where
  line : Int
  column : Int
  deriving DecidableEq

inductive ColumnUnit where
  | codePoint
  | utf16
  deriving DecidableEq

namespace ColumnUnit

def name : ColumnUnit → String
  | codePoint => "code-point"
  | utf16 => "utf-16"

def ofName? (name : Text) : Option ColumnUnit :=
  [codePoint, utf16].find? fun unit => Text.ofString unit.name == name

/-- The part of a line before a column. -/
def before (unit : ColumnUnit) (column : Nat) (line : Text) : Text :=
  match unit with
  | codePoint => line.take column
  | utf16 => Text.takeUnits column line

end ColumnUnit

structure Line where
  start : Nat
  /-- The line without the line feed at its end. -/
  text : Text
  deriving DecidableEq

structure LineTable where
  unit : ColumnUnit
  rows : List Line
  /-- The offset for lines that do not exist: the length of the text, and one for a line feed after
  the last line. -/
  total : Nat
  deriving DecidableEq

/-- Lines in their order, of which the first begins at an offset. -/
def Line.number (start : Nat) : List Text → List Line
  | [] => []
  | line :: rest => ⟨start, line⟩ :: number (start + (line.length + 1)) rest

/-- The offset after lines of which the first begins at an offset, with a line feed after each. -/
def Line.after (start : Nat) : List Text → Nat
  | [] => start
  | line :: rest => after (start + (line.length + 1)) rest

namespace LineTable

/-- The lines of a text, which only line feeds separate. -/
def split (t : Text) : List Text := t.splitOn CodePoint.newline

def ofText (unit : ColumnUnit) (t : Text) : LineTable where
  unit := unit
  rows := Line.number 0 (split t)
  total := Line.after 0 (split t)

def lines (table : LineTable) : List Text := table.rows.map Line.text

def starts (table : LineTable) : List Nat := table.rows.map Line.start

def row? (table : LineTable) (line : Int) : Option Line :=
  if line < 1 then none else table.rows[(line - 1).toNat]?

def offsetOn (table : LineTable) (row : Line) (column : Int) : Nat :=
  row.start + (table.unit.before column.toNat row.text).length

def locate (table : LineTable) (line column : Int) : Nat :=
  match table.row? line with
  | none => table.total
  | some row => table.offsetOn row column

end LineTable

/-- The place of an offset, which is first moved to the nearest end if it is outside the text. -/
def positionAt (t : Text) (offset : Int) : Position :=
  let before := t.take offset.toNat
  ⟨Text.lastLine before, Text.lastColumn before⟩

end TreeOffsets
