import TreeOffsets.Json.Shape
import TreeOffsets.Source.Lookup

namespace TreeOffsets

/-- A place as a parser gives it: the values stand for a line from 1 and a column from 0. -/
structure Mark where
  line : Whole
  column : Whole
  deriving DecidableEq

structure Span where
  first : Mark
  last : Mark
  deriving DecidableEq

namespace Json

/-- The place that a value gives: an object whose line and column count as whole numbers. -/
def mark? : Json → Option Mark
  | obj fields => do
    let line ← (Fields.value? fields (Text.ofString "line")).bind whole?
    let column ← (Fields.value? fields (Text.ofString "column")).bind whole?
    return ⟨line, column⟩
  | _ => none

def span? : Json → Option Span
  | obj fields => do
    let first ← (Fields.value? fields (Text.ofString "start")).bind mark?
    let last ← (Fields.value? fields (Text.ofString "end")).bind mark?
    return ⟨first, last⟩
  | _ => none

end Json

structure Node where
  /-- What the node is. This is settled when the node is made, also if its fields change later. -/
  tag : Text
  fields : Fields

namespace Node

def spanField : Text := Text.ofString "loc"

/-- The names of the fields that hold the offsets. -/
def startField : Text := Text.ofString "start"

@[inherit_doc startField]
def endField : Text := Text.ofString "end"

/-- What an object is as a node. A token describes its type with an object of its own. -/
def tagOf (fields : Fields) : Text :=
  match Fields.value? fields (Text.ofString "type") with
  | some (.str name) => name
  | some (.obj _) => Text.ofString "Token"
  | _ => Text.ofString "Unknown"

def spanOf? (fields : Fields) : Option Span := (Fields.value? fields spanField).bind Json.span?

def ofFields (fields : Fields) : Node := ⟨tagOf fields, fields⟩

def span? (node : Node) : Option Span := spanOf? node.fields

def shown (node : Node) : Text :=
  Text.ofString "ASTNode(" ++ node.tag ++ Text.ofString ")"

def item (node : Node) (name : Text) : Except ShapeFault Json := (Json.obj node.fields).member name

def put (node : Node) (name : Text) (v : Json) : Node :=
  { node with fields := Fields.put name v node.fields }

def offset (table : LineTable) (mark : Mark) : Nat :=
  table.locate mark.line.toInt mark.column.toInt

/-- Gives an object the offsets of two places, the start first. -/
def putOffsets (table : LineTable) (span : Span) (fields : Fields) : Fields :=
  Fields.put endField (.int (offset table span.last))
    (Fields.put startField (.int (offset table span.first)) fields)

def locate (table : LineTable) (fields : Fields) : Fields :=
  match spanOf? fields with
  | some span => putOffsets table span fields
  | none => fields

/-- A field whose value is a part of the tree under its object: a list or an object, except for the
places of the object itself. -/
def isChild (field : Text × Json) : Bool := field.1 != spanField && field.2.isContainer

end Node

end TreeOffsets
