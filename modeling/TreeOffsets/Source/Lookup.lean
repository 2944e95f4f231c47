import TreeOffsets.Source.LineTable
import TreeOffsets.Json.Basic

namespace TreeOffsets

/-- A JSON value that counts as a whole number. -/
inductive Whole where
  | int (n : Int)
  | bool (b : Bool)
  deriving DecidableEq

namespace Whole

def toInt : Whole → Int
  | int n => n
  | bool b => if b then 1 else 0

def toJson : Whole → Json
  | int n => .int n
  | bool b => .bool b

end Whole

/-- What a JSON value is as a number. -/
inductive Numeral where
  | whole (n : Whole)
  | double (x : Double)
  | other (kind : Json.Kind)

namespace Json

def numeral : Json → Numeral
  | int n => .whole (.int n)
  | bool b => .whole (.bool b)
  | float x => .double x
  | v => .other v.kind

def whole? : Json → Option Whole
  | int n => some (.int n)
  | bool b => some (.bool b)
  | _ => none

end Json

inductive LookupFault where
  | notAPosition (kind : Json.Kind)
  | lineNotANumber (kind : Json.Kind)
  | lineNotWhole
  /-- A column or an offset is no number. -/
  | notANumber (kind : Json.Kind)
  /-- A column or an offset is a double. -/
  | notWhole
  deriving DecidableEq

namespace LookupFault

def message : LookupFault → String
  | notAPosition kind => "'" ++ kind.name ++ "' object has no attribute 'line'"
  | lineNotANumber kind =>
    "unsupported operand type(s) for -: '" ++ kind.name ++ "' and 'int'"
  | lineNotWhole => "tuple indices must be integers or slices, not float"
  | notANumber kind => "'>' not supported between instances of 'int' and '" ++ kind.name ++ "'"
  | notWhole => "slice indices must be integers or None or have an __index__ method"

end LookupFault

namespace LineTable

/-- The column of a value. A double is no place to cut a line at, whatever the unit. -/
def column (v : Json) : Except LookupFault Int :=
  match v.numeral with
  | .whole n => .ok n.toInt
  | .double x => if x.compareInt 0 = some .lt then .ok 0 else .error .notWhole
  | .other kind => .error (.notANumber kind)

/-- The offset of a line, given as a number, and a column. The column of a line that does not exist
is not looked at. -/
def locateOn (table : LineTable) (line : Int) (column : Json) : Except LookupFault Nat :=
  match table.row? line with
  | none => .ok table.total
  | some row => (LineTable.column column).map (table.offsetOn row)

def locateValues (table : LineTable) (line column : Json) : Except LookupFault Nat :=
  match line.numeral with
  | .whole n => table.locateOn n.toInt column
  | .double x =>
    let index := x.minusOne
    if index.compareInt 0 = some .lt
        ∨ (index.compareInt table.rows.length).any (fun order => order != .lt) = true then
      .ok table.total
    else .error .lineNotWhole
  | .other kind => .error (.lineNotANumber kind)

/-- The offset of an object with a line and a column. One that is missing is null. -/
def locateValue (table : LineTable) : Json → Except LookupFault Nat
  | .obj fields =>
    table.locateValues ((Fields.value? fields (Text.ofString "line")).getD .null)
      ((Fields.value? fields (Text.ofString "column")).getD .null)
  | v => .error (.notAPosition v.kind)

end LineTable

def positionAtValue (t : Text) (offset : Json) : Except LookupFault Position :=
  match offset.numeral with
  | .whole n => .ok (positionAt t n.toInt)
  | .double x =>
    if x.compareInt 0 = some .lt then .ok (positionAt t 0)
    else if x.compareInt t.length = some .gt then .ok (positionAt t t.length)
    else .error .notWhole
  | .other kind => .error (.notANumber kind)

end TreeOffsets
