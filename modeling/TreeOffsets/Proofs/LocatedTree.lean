import TreeOffsets.Tree.Located
import TreeOffsets.Proofs.WalkRecursion

namespace TreeOffsets.Proofs.LocatedTree

open TreeOffsets.Proofs.TreeInduction
open TreeOffsets.Proofs.WalkRecursion

theorem names_put (name : Text) (v : Json) (fields : Fields) :
    Fields.names (Fields.put name v fields) =
      Fields.names fields ++ [name].filter fun name => name ∉ Fields.names fields := by
  by_cases h : name ∈ Fields.names fields
  · simp [Fields.names_put_of_mem v h, h]
  · simp [Fields.names_put_of_not_mem v h, h]

/-- What the fields of a node are like once it has been given the offsets of a span: names keep
their places, new ones come last with the start before the end, and no other value changes. -/
structure CarriesOffsets (table : LineTable) (span : Span) (node located : Fields) : Prop where
  names : Fields.names located = Fields.names node ++
    [Node.startField, Node.endField].filter fun name => name ∉ Fields.names node
  first : Fields.value? located Node.startField =
    some (.int (table.locate span.first.line.toInt span.first.column.toInt))
  last : Fields.value? located Node.endField =
    some (.int (table.locate span.last.line.toInt span.last.column.toInt))
  others : ∀ name, name ≠ Node.startField → name ≠ Node.endField →
    Fields.value? located name = Fields.value? node name

theorem startField_ne_endField : Node.startField ≠ Node.endField := by decide

theorem carriesOffsets_putOffsets (table : LineTable) (span : Span) (node : Fields) :
    CarriesOffsets table span node (Node.putOffsets table span node) where
  names := by
    have hne : Node.endField ≠ Node.startField := startField_ne_endField.symm
    rw [Node.putOffsets, names_put, names_put]
    by_cases hfirst : Node.startField ∈ Fields.names node <;>
      by_cases hlast : Node.endField ∈ Fields.names node <;>
        simp [hfirst, hlast, hne]
  first := by
    rw [Node.putOffsets, Fields.value?_put_of_ne startField_ne_endField, Fields.value?_put_self,
      Node.offset]
  last := by rw [Node.putOffsets, Fields.value?_put_self, Node.offset]
  others := by
    intro name hstart hend
    rw [Node.putOffsets, Fields.value?_put_of_ne hend, Fields.value?_put_of_ne hstart]

theorem locate_of_no_span {table : LineTable} {node : Fields} (h : Node.spanOf? node = none) :
    Node.locate table node = node := by
  rw [Node.locate, h]

/-- A value is the place of a mark: an object that holds its line and its column. -/
def IsPlace (v : Json) (mark : Mark) : Prop :=
  ∃ fields, v = .obj fields
    ∧ Fields.value? fields (Text.ofString "line") = some mark.line.toJson
    ∧ Fields.value? fields (Text.ofString "column") = some mark.column.toJson

/-- The `loc` of a node is an object with the two places of a span. -/
def Spans (node : Fields) (span : Span) : Prop :=
  ∃ loc first last, Fields.value? node (Text.ofString "loc") = some (.obj loc)
    ∧ Fields.value? loc (Text.ofString "start") = some first ∧ IsPlace first span.first
    ∧ Fields.value? loc (Text.ofString "end") = some last ∧ IsPlace last span.last

/-- The `type` of a node is an object, or the name of a kind of node without children. -/
def HasLeafType (node : Fields) : Prop :=
  (∃ descriptor, Fields.value? node (Text.ofString "type") = some (.obj descriptor))
    ∨ ∃ name ∈ ["Token", "CommentLine", "CommentBlock"],
      Fields.value? node (Text.ofString "type") = some (.ofString name)

theorem whole?_eq_some_iff (v : Json) (n : Whole) : v.whole? = some n ↔ v = n.toJson := by
  cases v <;> cases n <;> simp [Json.whole?, Whole.toJson]

theorem mark?_eq_some_iff (v : Json) (mark : Mark) : v.mark? = some mark ↔ IsPlace v mark := by
  obtain ⟨line, column⟩ := mark
  constructor
  · intro h
    cases v with
    | obj fields =>
        simp only [Json.mark?, Option.bind_eq_bind, Option.bind_eq_some_iff,
          Option.pure_def, Option.some.injEq, Mark.mk.injEq] at h
        obtain ⟨line', ⟨l, hl, hline⟩, column', ⟨c, hc, hcolumn⟩, rfl, rfl⟩ := h
        rw [whole?_eq_some_iff] at hline hcolumn
        exact ⟨fields, rfl, by rw [hl, hline], by rw [hc, hcolumn]⟩
    | _ => simp [Json.mark?] at h
  · rintro ⟨fields, rfl, hline, hcolumn⟩
    have hl := (whole?_eq_some_iff line.toJson line).mpr rfl
    have hc := (whole?_eq_some_iff column.toJson column).mpr rfl
    simp [Json.mark?, hline, hcolumn, hl, hc]

theorem spanOf?_eq_some_iff (node : Fields) (span : Span) :
    Node.spanOf? node = some span ↔ Spans node span := by
  obtain ⟨first, last⟩ := span
  constructor
  · intro h
    obtain ⟨value, hvalue, hspan⟩ := Option.bind_eq_some_iff.mp h
    cases value with
    | obj loc =>
        simp only [Json.span?, Option.bind_eq_bind, Option.bind_eq_some_iff,
          Option.pure_def, Option.some.injEq, Span.mk.injEq] at hspan
        obtain ⟨first', ⟨v, hv, hfirst⟩, last', ⟨w, hw, hlast⟩, rfl, rfl⟩ := hspan
        rw [mark?_eq_some_iff] at hfirst hlast
        exact ⟨loc, v, w, hvalue, hv, hfirst, hw, hlast⟩
    | _ => simp [Json.span?] at hspan
  · rintro ⟨loc, v, w, hvalue, hv, hfirst, hw, hlast⟩
    rw [← mark?_eq_some_iff] at hfirst hlast
    refine Option.bind_eq_some_iff.mpr ⟨.obj loc, hvalue, ?_⟩
    simp [Json.span?, hv, hw, hfirst, hlast]

theorem isLeaf_iff_hasLeafType (node : Fields) :
    Node.isLeaf node = true ↔ HasLeafType node := by
  have htoken : Text.ofString "Token" ∈ Visitor.leafTags := by decide
  have hunknown : Text.ofString "Unknown" ∉ Visitor.leafTags := by decide
  simp only [Node.isLeaf, Node.tagOf, HasLeafType, List.contains_iff_mem]
  cases htype : Fields.value? node (Text.ofString "type") with
  | none => simp [hunknown]
  | some v =>
      cases v with
      | obj descriptor => simp [htoken]
      | str name => simp [Visitor.leafTags, Json.ofString]
      | _ => simp [hunknown, Json.ofString]

/-- A field is under its node in the tree: it is not the `loc`, and its value is a list or an
object. -/
def IsUnder (field : Text × Json) : Prop :=
  field.1 ≠ Text.ofString "loc"
    ∧ ((∃ items, field.2 = .arr items) ∨ ∃ fields, field.2 = .obj fields)

theorem isChild_iff_isUnder (field : Text × Json) : Node.isChild field = true ↔ IsUnder field := by
  obtain ⟨name, v⟩ := field
  rw [Node.isChild, Bool.and_eq_true, bne_iff_ne, IsUnder]
  refine and_congr_right fun _ => ?_
  cases v <;> simp [Json.isContainer]

/-- The rule for one node: its span, its type and its children are read from its fields, and it is
given the offsets of its span or stays as it is. -/
structure FollowsRule (table : LineTable) (node : Fields) : Prop where
  located : ∀ span, Spans node span → Node.spanOf? node = some span
    ∧ CarriesOffsets table span node (Node.locate table node)
  unchanged : (∀ span, ¬Spans node span) →
    Node.spanOf? node = none ∧ Node.locate table node = node
  leaf : Node.isLeaf node = true ↔ HasLeafType node
  children : ∀ field ∈ Node.locate table node, Node.isChild field = true ↔ IsUnder field

theorem followsRule (table : LineTable) (node : Fields) : FollowsRule table node where
  located := by
    intro span hspan
    have h := (spanOf?_eq_some_iff node span).mpr hspan
    rw [Node.locate, h]
    exact ⟨rfl, carriesOffsets_putOffsets table span node⟩
  unchanged := by
    intro hnone
    have h : Node.spanOf? node = none := by
      rw [Option.eq_none_iff_forall_ne_some]
      intro span hspan
      exact hnone span ((spanOf?_eq_some_iff node span).mp hspan)
    exact ⟨h, locate_of_no_span h⟩
  leaf := isLeaf_iff_hasLeafType node
  children := fun field _ => isChild_iff_isUnder field

def found (p : Progress) (nodes : List Fields) : Progress :=
  { p with count := p.count + countLocated nodes, nodes := p.nodes ++ nodes }

theorem found_nil (p : Progress) : found p [] = p := by
  simp [found, countLocated]

theorem found_found (p : Progress) (nodes more : List Fields) :
    found (found p nodes) more = found p (nodes ++ more) := by
  simp [found, countLocated, Nat.add_assoc]

theorem visited_eq_found (p : Progress) (node : Fields) {visit : Visit}
    (h : visit.locates = true) : p.visited node visit = found p [node] := by
  cases hspan : Node.spanOf? node <;>
    simp [Progress.visited, found, countLocated, h, hspan]

section

variable {table : LineTable}

theorem walkValue_standard_obj {p : Progress} (hp : p.rest? = none) (node : Fields) :
    walkValue table Visitor.standard p (.obj node) =
      if Node.isLeaf node then (.obj (Node.locate table node), found p [node])
      else (.obj (walkFields table Visitor.standard (found p [node])
          (Node.locate table node)).1,
        (walkFields table Visitor.standard (found p [node]) (Node.locate table node)).2) := by
  have hvisit : Visitor.standard (Node.tagOf node) =
      if Node.isLeaf node then .leaf else .full := by
    simp [Visitor.standard, Node.isLeaf]
  cases hleaf : Node.isLeaf node with
  | true =>
      rw [hleaf, if_pos rfl] at hvisit
      rw [walkValue_obj hp hvisit (by decide), visited_eq_found p node rfl]
      rfl
  | false =>
      rw [hleaf, if_neg Bool.false_ne_true] at hvisit
      rw [walkValue_obj hp hvisit (by decide), visited_eq_found p node rfl]
      rfl

theorem standard_cases : TreeCases
    (fun v => ∀ p : Progress, p.rest? = none →
      walkValue table Visitor.standard p v = (v.located table, found p (v.nodes table)))
    (fun items => ∀ p : Progress, p.rest? = none →
      walkItems table Visitor.standard p items =
        (locatedItems table items, found p (itemsNodes table items)))
    (fun fields => ∀ p : Progress, p.rest? = none →
      walkFields table Visitor.standard p fields =
        (locatedFields table fields, found p (fieldsNodes table fields))) where
  scalar := by
    intro v hv p hp
    cases v <;>
      simp_all [walkValue, Json.located, Json.nodes, found_nil, Json.isContainer]
  arr := by
    intro items hitems p hp
    rw [walkValue_arr hp, hitems p hp, Json.located, Json.nodes]
  obj := by
    intro node hfields p hp
    have hchildren := hfields _ (Node.weight_locate_le table node) (found p [node]) hp
    rw [walkValue_standard_obj hp, hchildren, found_found, Json.located, Json.nodes]
    cases Node.isLeaf node <;> rfl
  noItems := by
    intro p hp
    rw [walkItems, locatedItems, itemsNodes, found_nil]
  item := by
    intro v rest hv hrest p hp
    rw [walkItems, hv p hp]
    simp only
    rw [hrest (found p (v.nodes table)) hp, found_found, locatedItems, itemsNodes]
  noFields := by
    intro p hp
    rw [walkFields, locatedFields, fieldsNodes, found_nil]
  field := by
    intro name v rest hv hrest p hp
    rw [walkFields, locatedFields, fieldsNodes]
    by_cases hchild : Node.isChild (name, v) = true
    · rw [if_pos hchild, if_pos hchild, if_pos hchild, hv p hp]
      simp only
      rw [hrest (found p (v.nodes table)) hp, found_found]
    · rw [if_neg hchild, if_neg hchild, if_neg hchild, List.nil_append]
      simp only
      rw [hrest p hp]

theorem locatedItems_eq_map (items : List Json) :
    locatedItems table items = items.map (Json.located table) := by
  induction items with
  | nil => rw [locatedItems, List.map_nil]
  | cons v rest ih => rw [locatedItems, ih, List.map_cons]

theorem names_locatedFields (fields : Fields) :
    Fields.names (locatedFields table fields) = Fields.names fields := by
  induction fields with
  | nil => rw [locatedFields]
  | cons field fields ih =>
      obtain ⟨name, v⟩ := field
      rw [locatedFields, Fields.names_cons, Fields.names_cons, ih]

/-- The values of a token list. Tokens that are no list bring none. -/
def listed : Json → List Json
  | .arr items => items
  | _ => []

theorem listed_located (tokens : Json) :
    listed (tokens.located table) = locatedItems table (listed tokens) := by
  cases tokens <;> simp [Json.located, listed, locatedItems]

theorem tokenItems_eq_listed {tokens : Json}
    (h : tokens.isTruthy = false ∨ ∃ items, tokens = .arr items) :
    Annotator.tokenItems tokens = .ok (listed tokens) := by
  rcases h with hfalsy | ⟨items, rfl⟩
  · cases tokens <;> simp_all [Annotator.tokenItems, listed, Json.isTruthy]
  · cases items <;> rfl

theorem located_of_listed {tokens : Json}
    (h : tokens.isTruthy = false ∨ ∃ items, tokens = .arr items) :
    tokens.located table =
      match tokens with
      | .arr _ => .arr (locatedItems table (listed tokens))
      | v => v := by
  rcases h with hfalsy | ⟨items, rfl⟩
  · cases tokens with
    | arr items => rw [Json.located, listed]
    | obj node =>
        have hnil : node = [] := by simpa [Json.isTruthy] using hfalsy
        subst hnil
        have hlocate : Node.locate table [] = [] := locate_of_no_span rfl
        simp [Json.located, hlocate, locatedFields]
    | _ => rw [Json.located] <;> simp
  · rw [Json.located, listed]

theorem annotate_standard (tree : Json) {tokens : Json}
    (h : tokens.isTruthy = false ∨ ∃ items, tokens = .arr items) :
    Annotator.annotate { table } tree tokens =
      (⟨tree.located table, tokens.located table,
        countLocated (itemsNodes table (tree :: listed tokens)),
        itemsNodes table (tree :: listed tokens), none⟩, { table }) := by
  rw [located_of_listed h, Annotator.annotate, tokenItems_eq_listed h]
  simp only [List.append_nil]
  rw [walkAll_eq_walkItems, standard_cases.items_of _ _ rfl, locatedItems]
  cases tokens <;> simp [found, Progress.start, listed, locatedItems_eq_map, List.take_of_length_le]

/-- Annotating gives every node of a tree and of its tokens the offsets of its span, whatever the
values are: it never fails, it visits each node before those under it, from left to right, and it
counts the nodes that have a span. -/
theorem annotate_eq_located (table : LineTable) (tree tokens : Json)
    (htokens : tokens.isTruthy = false ∨ ∃ items, tokens = .arr items) :
    let run := Annotator.annotate { table } tree tokens
    let nodes := tree.nodes table ++ itemsNodes table (listed tokens)
    run.1.fault? = none ∧ run.2.pending = []
      ∧ run.1.tree = tree.located table ∧ run.1.tokens = tokens.located table
      ∧ run.1.count = countLocated nodes ∧ run.1.nodes = nodes
      ∧ ∀ node, FollowsRule table node := by
  rw [annotate_standard tree htokens, itemsNodes]
  exact ⟨rfl, rfl, rfl, rfl, rfl, rfl, followsRule table⟩

end

def firstPoint : Json :=
  let mark (column : Int) : Json :=
    .obj [(Text.ofString "line", .int 1), (Text.ofString "column", .int column)]
  .obj [(Text.ofString "start", mark 0), (Text.ofString "end", mark 1)]

/-- A node that stands at the first code point of a text and has a node where its offsets go. -/
def coveredNode : Fields := [(Node.spanField, firstPoint), (Node.endField, .obj [])]

theorem locate_coveredNode :
    Node.locate (LineTable.ofText .utf16 (Text.ofString "a")) coveredNode =
      [(Node.spanField, firstPoint), (Node.endField, .int 1), (Node.startField, .int 0)] := rfl

theorem nodes_annotate_coveredNode :
    (∃ items, Json.arr [.obj coveredNode] = .arr items)
      ∧ (Annotator.annotate { table := LineTable.ofText .utf16 (Text.ofString "a") }
        (.obj coveredNode) (.arr [.obj coveredNode])).1.nodes = [coveredNode, coveredNode] := by
  obtain ⟨-, -, -, -, -, hnodes, -⟩ :=
    annotate_eq_located (LineTable.ofText .utf16 (Text.ofString "a")) (.obj coveredNode)
      (.arr [.obj coveredNode]) (.inr ⟨_, rfl⟩)
  refine ⟨⟨_, rfl⟩, hnodes.trans ?_⟩
  simp [listed, itemsNodes, Json.nodes, locate_coveredNode, fieldsNodes, Node.isChild,
    Json.isContainer]

end TreeOffsets.Proofs.LocatedTree
