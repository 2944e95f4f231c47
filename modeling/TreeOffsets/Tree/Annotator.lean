import TreeOffsets.Tree.Weight

namespace TreeOffsets

inductive AnnotationFault where
  | tokens (fault : ShapeFault)
  | stopped
  deriving DecidableEq

def AnnotationFault.message : AnnotationFault → Text
  | tokens fault => fault.message
  | stopped => Text.ofString "visitor failed"

structure Annotated where
  tree : Json
  /-- The tokens outside the tree; null if there are none. -/
  tokens : Json
  count : Nat
  /-- The nodes that have been visited, as the walk has found them, in their order. -/
  nodes : List Fields
  fault? : Option AnnotationFault

def Annotated.trace (run : Annotated) : List Text := run.nodes.map Node.tagOf

/-- A line table, a visitor, and the values that a stopped run has left. -/
structure Annotator where
  table : LineTable
  visitor : Visitor := Visitor.standard
  pending : List Json := []

namespace Annotator

/-- Which values tokens bring to a walk. Tokens that count as absent bring none, and neither do the
code points of a string and the names of an object, which are no nodes. -/
def tokenItems (tokens : Json) : Except ShapeFault (List Json) :=
  if tokens.isTruthy then
    match tokens with
    | .arr items => .ok items
    | .str _ => .ok []
    | .obj _ => .ok []
    | v => .error (.noOrder v.kind)
  else .ok []

def walkAll (annotator : Annotator) (values : List Json) : List Json × Walked :=
  let walked := (Walk.start (.arr values)).run annotator.table annotator.visitor
  match walked.value with
  | .arr items => (items, walked)
  | _ => (values, walked)

/-- Annotates a tree, tokens outside it, and what an earlier run has left. -/
def annotate (annotator : Annotator) (tree tokens : Json) : Annotated × Annotator :=
  match tokenItems tokens with
  | .error fault => (⟨tree, tokens, 0, [], some (.tokens fault)⟩, annotator)
  | .ok items =>
    let (values, walked) := annotator.walkAll (tree :: items ++ annotator.pending)
    let tokens := match tokens with
      | .arr _ => .arr ((values.drop 1).take items.length)
      | v => v
    (⟨values.headD tree, tokens, walked.count, walked.nodes, walked.rest?.map fun _ => .stopped⟩,
      { annotator with pending := walked.rest?.getD [] })

end Annotator

def annotateTree (table : LineTable) (tree : Json) : Json × Nat :=
  let run := (Annotator.annotate { table } tree .null).1
  (run.tree, run.count)

end TreeOffsets
