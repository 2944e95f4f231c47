import TreeOffsets.Tree.Weight

namespace TreeOffsets

def Node.isLeaf (fields : Fields) : Bool := Visitor.leafTags.contains (Node.tagOf fields)

mutual

/-- A value in which every node has its offsets. -/
def Json.located (table : LineTable) : Json → Json
  | .arr items => .arr (locatedItems table items)
  | .obj fields =>
    .obj (if Node.isLeaf fields then Node.locate table fields
      else locatedFields table (Node.locate table fields))
  | v => v
termination_by v => 2 * v.weight
decreasing_by
  · simp only [Json.weight]
    omega
  · have := Node.weight_locate_le table fields
    simp only [Json.weight]
    omega

def locatedItems (table : LineTable) : List Json → List Json
  | [] => []
  | v :: rest => v.located table :: locatedItems table rest
termination_by items => 2 * itemsWeight items + 1
decreasing_by
  · simp only [itemsWeight]
    omega
  · have := v.weight_pos
    simp only [itemsWeight]
    omega

def locatedFields (table : LineTable) : Fields → Fields
  | [] => []
  | (name, v) :: rest =>
    (name, if Node.isChild (name, v) then v.located table else v) :: locatedFields table rest
termination_by fields => 2 * fieldsWeight fields + 1
decreasing_by
  · simp only [fieldsWeight]
    omega
  · have := v.weight_pos
    simp only [fieldsWeight]
    omega

end

mutual

/-- The nodes of a value, as they are before they are given offsets, in the order in which they are
visited. -/
def Json.nodes (table : LineTable) : Json → List Fields
  | .arr items => itemsNodes table items
  | .obj fields =>
    fields :: if Node.isLeaf fields then [] else fieldsNodes table (Node.locate table fields)
  | _ => []
termination_by v => 2 * v.weight
decreasing_by
  · simp only [Json.weight]
    omega
  · have := Node.weight_locate_le table fields
    simp only [Json.weight]
    omega

def itemsNodes (table : LineTable) : List Json → List Fields
  | [] => []
  | v :: rest => v.nodes table ++ itemsNodes table rest
termination_by items => 2 * itemsWeight items + 1
decreasing_by
  · simp only [itemsWeight]
    omega
  · have := v.weight_pos
    simp only [itemsWeight]
    omega

def fieldsNodes (table : LineTable) : Fields → List Fields
  | [] => []
  | (name, v) :: rest =>
    (if Node.isChild (name, v) then v.nodes table else []) ++ fieldsNodes table rest
termination_by fields => 2 * fieldsWeight fields + 1
decreasing_by
  · simp only [fieldsWeight]
    omega
  · have := v.weight_pos
    simp only [fieldsWeight]
    omega

end

/-- How many nodes of a list are given offsets. -/
def countLocated (nodes : List Fields) : Nat :=
  nodes.countP fun fields => (Node.spanOf? fields).isSome

end TreeOffsets
