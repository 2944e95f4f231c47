import TreeOffsets.Text.Printable
import TreeOffsets.Json.Basic
import TreeOffsets.Double.Layout

namespace TreeOffsets

/-- A value does not have what was asked of it. -/
inductive ShapeFault where
  | noFields (kind : Text)
  | noField (name : Text)
  | notSearched (kind : Json.Kind)
  | noNames (kind : Json.Kind)
  | noElements (kind : Json.Kind)
  | noOrder (kind : Json.Kind)
  | noLength (kind : Json.Kind)
  deriving DecidableEq

namespace ShapeFault

def message : ShapeFault → Text
  | noFields kind => Text.ofString "'" ++ kind ++ Text.ofString "' object has no attribute 'get'"
  | noField name => name.quoted
  | notSearched kind =>
    Text.ofString ("argument of type '" ++ kind.name ++ "' is not iterable")
  | noNames .arr => Text.ofString "list indices must be integers or slices, not str"
  | noNames .str => Text.ofString "string indices must be integers, not 'str'"
  | noNames kind => Text.ofString ("'" ++ kind.name ++ "' object is not subscriptable")
  | noElements kind => Text.ofString ("'" ++ kind.name ++ "' object is not iterable")
  | noOrder kind => Text.ofString ("'" ++ kind.name ++ "' object is not reversible")
  | noLength kind => Text.ofString ("object of type '" ++ kind.name ++ "' has no len()")

end ShapeFault

namespace Json

def fields : Json → Except ShapeFault Fields
  | obj fields => .ok fields
  | v => .error (.noFields (Text.ofString v.kind.name))

def contains (piece : Text) : Text → Bool
  | [] => piece.isEmpty
  | c :: t => piece.isPrefixOf (c :: t) || contains piece t

/-- A name is mentioned: as a field of an object, as an item of a list, or inside a string. -/
def mentions (name : Text) : Json → Except ShapeFault Bool
  | obj fields => .ok (Fields.has fields name)
  | arr items => .ok (items.any fun item => match item with
    | str t => t == name
    | _ => false)
  | str t => .ok (contains name t)
  | v => .error (.notSearched v.kind)

def member (name : Text) : Json → Except ShapeFault Json
  | obj fields =>
    match Fields.value? fields name with
    | some v => .ok v
    | none => .error (.noField name)
  | v => .error (.noNames v.kind)

/-- The elements: the items of a list, the code points of a string, the names of an object. -/
def elements : Json → Except ShapeFault (List Json)
  | arr items => .ok items
  | str t => .ok (t.map fun c => .str [c])
  | obj fields => .ok (fields.map fun field => .str field.1)
  | v => .error (.noElements v.kind)

def length : Json → Except ShapeFault Nat
  | arr items => .ok items.length
  | str t => .ok t.length
  | obj fields => .ok fields.length
  | v => .error (.noLength v.kind)

/-- The words for the doubles that are not finite, in messages. -/
def shownDoubleNames : Double.Names := ⟨"nan", "inf", "-inf"⟩

/-- A value with its structure. -/
def shownInside : Json → Text
  | null => Text.ofString "None"
  | bool true => Text.ofString "True"
  | bool false => Text.ofString "False"
  | int n => Text.ofInt n
  | float x => x.toText shownDoubleNames
  | str t => t.quoted
  | arr items =>
    Text.ofString "[" ++ (Text.ofString ", ").intercalate (items.map fun v => shownInside v)
      ++ Text.ofString "]"
  | obj fields =>
    Text.ofString "\x7b"
      ++ (Text.ofString ", ").intercalate
        (fields.map fun field => field.1.quoted ++ Text.ofString ": " ++ shownInside field.2)
      ++ Text.ofString "\x7d"
termination_by v => v
decreasing_by
  · have := List.sizeOf_lt_of_mem ‹v ∈ items›
    simp
    omega
  · have := Fields.sizeOf_snd_lt ‹field ∈ fields›
    simp
    omega

def shown : Json → Text
  | str t => t
  | v => shownInside v

end Json

end TreeOffsets
