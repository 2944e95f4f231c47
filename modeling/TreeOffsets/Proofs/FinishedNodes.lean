import TreeOffsets.Proofs.LocatedTree

namespace TreeOffsets.Proofs.FinishedNodes

open TreeOffsets.Proofs.LocatedTree
open TreeOffsets.Proofs.TreeInduction

/-- A node as a walk leaves it. -/
def finished (table : LineTable) (node : Fields) : Fields :=
  if Node.isLeaf node then Node.locate table node
  else locatedFields table (Node.locate table node)

section

variable {table : LineTable}

theorem located_obj (node : Fields) :
    (Json.obj node).located table = .obj (finished table node) := by
  rw [Json.located, finished]

theorem isContainer_located (v : Json) : (v.located table).isContainer = v.isContainer := by
  cases v <;> simp only [Json.located, Json.isContainer]

theorem isChild_located (name : Text) (v : Json) :
    Node.isChild (name, v.located table) = Node.isChild (name, v) := by
  simp only [Node.isChild, isContainer_located]

theorem value?_locatedFields (fields : Fields) (name : Text) :
    Fields.value? (locatedFields table fields) name =
      (Fields.value? fields name).map fun v =>
        if Node.isChild (name, v) then v.located table else v := by
  induction fields with
  | nil => rw [locatedFields]; rfl
  | cons field fields ih =>
      obtain ⟨other, v⟩ := field
      rw [locatedFields]
      simp only [Fields.value?, List.lookup_cons] at ih ⊢
      by_cases hname : name = other
      · subst hname
        simp
      · have hbeq : (name == other) = false := beq_eq_false_iff_ne.mpr hname
        simp only [hbeq]
        exact ih

theorem value?_locate (node : Fields) {name : Text} (hstart : name ≠ Node.startField)
    (hend : name ≠ Node.endField) :
    Fields.value? (Node.locate table node) name = Fields.value? node name := by
  cases hspan : Node.spanOf? node with
  | none => rw [locate_of_no_span hspan]
  | some span =>
      rw [Node.locate, hspan]
      exact (carriesOffsets_putOffsets table span node).others name hstart hend

theorem spanOf?_locate (node : Fields) :
    Node.spanOf? (Node.locate table node) = Node.spanOf? node := by
  rw [Node.spanOf?, value?_locate node (by decide) (by decide), Node.spanOf?]

theorem tagOf_locate (node : Fields) : Node.tagOf (Node.locate table node) = Node.tagOf node := by
  rw [Node.tagOf, value?_locate node (by decide) (by decide), Node.tagOf]

theorem spanOf?_locatedFields (fields : Fields) :
    Node.spanOf? (locatedFields table fields) = Node.spanOf? fields := by
  rw [Node.spanOf?, value?_locatedFields, Node.spanOf?]
  simp [Node.isChild]

theorem tagOf_locatedFields (fields : Fields) :
    Node.tagOf (locatedFields table fields) = Node.tagOf fields := by
  rw [Node.tagOf, value?_locatedFields, Node.tagOf]
  cases Fields.value? fields (Text.ofString "type") with
  | none => rfl
  | some v =>
      by_cases hchild : Node.isChild (Text.ofString "type", v) = true
      · simp only [Option.map_some, if_pos hchild]
        cases v <;> simp only [Json.located]
      · simp only [Option.map_some, if_neg hchild]

theorem isLeaf_locatedFields (fields : Fields) :
    Node.isLeaf (locatedFields table fields) = Node.isLeaf fields := by
  rw [Node.isLeaf, tagOf_locatedFields, Node.isLeaf]

theorem spanOf?_finished (node : Fields) :
    Node.spanOf? (finished table node) = Node.spanOf? node := by
  rw [finished]
  split
  · exact spanOf?_locate node
  · exact (spanOf?_locatedFields _).trans (spanOf?_locate node)

theorem tagOf_finished (node : Fields) :
    Node.tagOf (finished table node) = Node.tagOf node := by
  rw [finished]
  split
  · exact tagOf_locate node
  · exact (tagOf_locatedFields _).trans (tagOf_locate node)

theorem isLeaf_finished (node : Fields) :
    Node.isLeaf (finished table node) = Node.isLeaf node := by
  rw [Node.isLeaf, tagOf_finished, Node.isLeaf]

theorem offsets_finished {node : Fields} {span : Span} (h : Node.spanOf? node = some span) :
    Fields.value? (finished table node) Node.startField =
        some (.int (Node.offset table span.first))
      ∧ Fields.value? (finished table node) Node.endField =
        some (.int (Node.offset table span.last)) := by
  have hlocate : Node.locate table node = Node.putOffsets table span node := by
    rw [Node.locate, h]
  have hcarries := carriesOffsets_putOffsets table span node
  rw [finished, hlocate]
  split
  · exact ⟨hcarries.first, hcarries.last⟩
  · rw [value?_locatedFields, value?_locatedFields, hcarries.first, hcarries.last]
    exact ⟨rfl, rfl⟩

theorem fieldsNodes_put {name : Text} {v w : Json} (hv : v.isContainer = false)
    (hw : w.isContainer = false) {fields : Fields} (h : Fields.value? fields name = some w) :
    fieldsNodes table (Fields.put name v fields) = fieldsNodes table fields := by
  induction fields with
  | nil => cases h
  | cons field fields ih =>
      obtain ⟨other, u⟩ := field
      rw [Fields.put]
      split
      · next hname =>
          subst hname
          have hu : u = w := by simpa [Fields.value?] using h
          subst hu
          simp [fieldsNodes, Node.isChild, hv, hw]
      · next hname =>
          have hbeq : (name == other) = false := beq_eq_false_iff_ne.mpr (Ne.symm hname)
          simp only [Fields.value?, List.lookup_cons, hbeq] at h
          rw [fieldsNodes, fieldsNodes, ih h]

theorem fieldsNodes_locate_finished {other : LineTable} {node : Fields} :
    fieldsNodes other (Node.locate other (finished table node)) =
      fieldsNodes other (finished table node) := by
  cases hspan : Node.spanOf? node with
  | none =>
      rw [locate_of_no_span (by rw [spanOf?_finished, hspan])]
  | some span =>
      obtain ⟨hfirst, hlast⟩ := @offsets_finished table node span hspan
      rw [Node.locate, spanOf?_finished, hspan]
      simp only [Node.putOffsets]
      rw [fieldsNodes_put rfl rfl (by
          rw [Fields.value?_put_of_ne startField_ne_endField.symm, hlast]),
        fieldsNodes_put rfl rfl hfirst]

/-- A second walk comes to the nodes of the first as that has left them. -/
theorem finished_cases (other : LineTable) : TreeCases
    (fun v => (v.located table).nodes other = (v.nodes table).map (finished table))
    (fun items => itemsNodes other (locatedItems table items) =
      (itemsNodes table items).map (finished table))
    (fun fields => fieldsNodes other (locatedFields table fields) =
      (fieldsNodes table fields).map (finished table)) where
  scalar := by
    intro v hv
    cases v <;> simp_all [Json.located, Json.nodes, Json.isContainer]
  arr := by
    intro items hitems
    rw [Json.located, Json.nodes, Json.nodes, hitems]
  obj := by
    intro node hfields
    have hchildren := hfields _ (Node.weight_locate_le table node)
    rw [located_obj, Json.nodes, Json.nodes, isLeaf_finished, fieldsNodes_locate_finished,
      List.map_cons]
    cases hleaf : Node.isLeaf node with
    | true => rfl
    | false =>
        rw [if_neg Bool.false_ne_true, if_neg Bool.false_ne_true, ← hchildren, finished, hleaf,
          if_neg Bool.false_ne_true]
  noItems := by rw [locatedItems, itemsNodes, itemsNodes, List.map_nil]
  item := by
    intro v rest hv hrest
    rw [locatedItems, itemsNodes, itemsNodes, List.map_append, hv, hrest]
  noFields := by rw [locatedFields, fieldsNodes, fieldsNodes, List.map_nil]
  field := by
    intro name v rest hv hrest
    rw [locatedFields, fieldsNodes, fieldsNodes, List.map_append, hrest]
    by_cases hchild : Node.isChild (name, v) = true
    · have hlocated : Node.isChild (name, v.located table) = true := by
        rw [isChild_located, hchild]
      simp only [if_pos hchild, if_pos hlocated, hv]
    · simp only [if_neg hchild, List.map_nil]

/-- The nodes of a tree that has its offsets are its own nodes as the walk leaves them. -/
theorem nodes_located (other : LineTable) (v : Json) :
    (v.located table).nodes other = (v.nodes table).map (finished table) :=
  (finished_cases other).value_of v

end

end TreeOffsets.Proofs.FinishedNodes
