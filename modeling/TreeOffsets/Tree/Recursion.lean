import TreeOffsets.Tree.Weight

/-!
The same walk without frames: a container is walked by walking its parts one after the other, and
what has been found so far is handed on from part to part. This is the form to reason about; the
frames of `Walk` are the form to run.
-/

namespace TreeOffsets

@[ext] structure Progress where
  count : Nat
  nodes : List Fields
  /-- What was still to be walked, if the walk has been stopped. -/
  rest? : Option (List Json)

namespace Progress

def start : Progress := ⟨0, [], none⟩

def visited (p : Progress) (fields : Fields) (visit : Visit) : Progress where
  count := if visit.locates && (Node.spanOf? fields).isSome then p.count + 1 else p.count
  nodes := p.nodes ++ [fields]
  rest? := p.rest?

def stopped (p : Progress) (fields : Fields) : Progress where
  count := p.count
  nodes := p.nodes ++ [fields]
  rest? := some []

end Progress

def Visit.fields (visit : Visit) (table : LineTable) (fields : Fields) : Fields :=
  if visit.locates then Node.locate table fields else fields

theorem Visit.weight_fields_le (visit : Visit) (table : LineTable) (fields : Fields) :
    fieldsWeight (visit.fields table fields) ≤ fieldsWeight fields + 2 := by
  unfold Visit.fields
  split
  · exact Node.weight_locate_le table fields
  · exact Nat.le_add_right _ _

mutual

/-- Walks a value. After a stop the value is a part of the rest. -/
def walkValue (table : LineTable) (visitor : Visitor) (p : Progress) (v : Json) :
    Json × Progress :=
  match p.rest? with
  | some rest => (v, { p with rest? := some (rest ++ [v]) })
  | none =>
    match v with
    | .arr items =>
      let (items, p) := walkItems table visitor p items
      (.arr items, p)
    | .obj fields =>
      match visitor (Node.tagOf fields) with
      | .stop => (.obj fields, p.stopped fields)
      | visit =>
        if visit.descends then
          let (fields, p) := walkFields table visitor (p.visited fields visit)
            (visit.fields table fields)
          (.obj fields, p)
        else (.obj (visit.fields table fields), p.visited fields visit)
    | v => (v, p)
termination_by 2 * v.weight
decreasing_by
  · simp only [Json.weight]
    omega
  · have := visit.weight_fields_le table fields
    simp only [Json.weight]
    omega

def walkItems (table : LineTable) (visitor : Visitor) (p : Progress) :
    List Json → List Json × Progress
  | [] => ([], p)
  | v :: rest =>
    let (v', p) := walkValue table visitor p v
    let (rest', p) := walkItems table visitor p rest
    (v' :: rest', p)
termination_by items => 2 * itemsWeight items + 1
decreasing_by
  · simp only [itemsWeight]
    omega
  · have := v.weight_pos
    simp only [itemsWeight]
    omega

def walkFields (table : LineTable) (visitor : Visitor) (p : Progress) : Fields → Fields × Progress
  | [] => ([], p)
  | (name, v) :: rest =>
    let (v', p) := if Node.isChild (name, v) then walkValue table visitor p v else (v, p)
    let (rest', p) := walkFields table visitor p rest
    ((name, v') :: rest', p)
termination_by fields => 2 * fieldsWeight fields + 1
decreasing_by
  · simp only [fieldsWeight]
    omega
  · have := v.weight_pos
    simp only [fieldsWeight]
    omega

end

end TreeOffsets
