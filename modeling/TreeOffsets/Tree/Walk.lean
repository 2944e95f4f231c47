import TreeOffsets.Tree.Node

/-!
A walk goes through a JSON value from left to right and gives its nodes their offsets. It needs no
recursion: the lists and objects around the value in focus are kept as frames, innermost first, so
the depth of a tree does not matter. The fields that are walked are those a node has once its
offsets are there.

A walk that a visitor stops leaves the rest of the tree as it is, and what was still to be walked
is its rest. The node at which it stops is not a part of that rest.
-/

namespace TreeOffsets

inductive Visit where
  /-- The node is given its offsets and its children are walked. -/
  | full
  /-- The node is given its offsets. -/
  | leaf
  /-- The children of the node are walked. -/
  | children
  /-- Nothing happens. -/
  | skip
  /-- The walk stops before anything happens. -/
  | stop
  deriving DecidableEq

namespace Visit

def locates : Visit → Bool
  | full => true
  | leaf => true
  | _ => false

def descends : Visit → Bool
  | full => true
  | children => true
  | _ => false

end Visit

abbrev Visitor := Text → Visit

namespace Visitor

/-- The tags of nodes that have no children of their own. -/
def leafTags : List Text :=
  [Text.ofString "Token", Text.ofString "CommentLine", Text.ofString "CommentBlock"]

def standard : Visitor := fun tag => if tag ∈ leafTags then .leaf else .full

/-- A visitor that does something else for one tag. -/
def override (visitor : Visitor) (tag : Text) (visit : Visit) : Visitor :=
  fun other => if other = tag then visit else visitor other

end Visitor

/-- A list or an object around the value in focus. -/
inductive Surround where
  /-- A list: the items before the focus, last one first, and the items after it. -/
  | items (before : List Json) (after : List Json)
  /-- An object: the fields before the focus, last one first, the name of the focus, and the fields
  after it. -/
  | fields (before : Fields) (name : Text) (after : Fields)

namespace Surround

def plug (v : Json) : Surround → Json
  | items before after => .arr (before.reverseAux (v :: after))
  | fields before name after => .obj (before.reverseAux ((name, v) :: after))

/-- The values after the focus that are walked. -/
def rest : Surround → List Json
  | items _ after => after
  | fields _ _ after => (after.filter Node.isChild).map Prod.snd

end Surround

structure Walk where
  focus : Json
  /-- The focus has been walked. -/
  finished : Bool
  around : List Surround
  count : Nat
  /-- The nodes that have been visited, as the walk has found them, last one first. -/
  visited : List Fields

structure Walked where
  value : Json
  count : Nat
  nodes : List Fields
  /-- What was still to be walked, if the walk was stopped. -/
  rest? : Option (List Json)

namespace Walk

def start (v : Json) : Walk := ⟨v, false, [], 0, []⟩

def whole (w : Walk) : Json := w.around.foldl Surround.plug w.focus

def ended (w : Walk) (rest? : Option (List Json)) : Walked :=
  ⟨w.whole, w.count, w.visited.reverse, rest?⟩

/-- The focus moves to the first item of a list that has just been reached. -/
def enterItems (w : Walk) : List Json → Walk
  | [] => { w with focus := .arr [], finished := true }
  | v :: after => { w with focus := v, finished := false, around := .items [] after :: w.around }

def enterFields (w : Walk) : Fields → Walk
  | [] => { w with focus := .obj [], finished := true }
  | (name, v) :: after =>
    { w with
      focus := v
      finished := !Node.isChild (name, v)
      around := .fields [] name after :: w.around }

/-- A node in focus is visited. -/
def visit (table : LineTable) (w : Walk) (node : Fields) (visit : Visit) : Walk :=
  let located := if visit.locates then Node.locate table node else node
  let counted := if visit.locates && (Node.spanOf? node).isSome then w.count + 1 else w.count
  let w := { w with count := counted, visited := node :: w.visited }
  if visit.descends then w.enterFields located
  else { w with focus := .obj located, finished := true }

/-- The focus, which has been walked, moves on to what comes after it, or out if nothing does. -/
def advance (w : Walk) (around : List Surround) : Surround → Walk
  | .items before [] => { w with focus := .arr (w.focus :: before).reverse, around := around }
  | .items before (v :: after) =>
    { w with
      focus := v
      finished := false
      around := .items (w.focus :: before) after :: around }
  | .fields before name [] =>
    { w with focus := .obj ((name, w.focus) :: before).reverse, around := around }
  | .fields before name ((next, v) :: after) =>
    { w with
      focus := v
      finished := !Node.isChild (next, v)
      around := .fields ((name, w.focus) :: before) next after :: around }

/-- One step of a walk, or its end. -/
def step (table : LineTable) (visitor : Visitor) (w : Walk) : Walk ⊕ Walked :=
  if w.finished then
    match w.around with
    | [] => .inr (w.ended none)
    | surround :: around => .inl (w.advance around surround)
  else
    match w.focus with
    | .arr items => .inl (w.enterItems items)
    | .obj node =>
      match visitor (Node.tagOf node) with
      | .stop =>
        .inr ({ w with visited := node :: w.visited }.ended
          (some (w.around.flatMap Surround.rest)))
      | other => .inl (w.visit table node other)
    | _ => .inl { w with finished := true }

end Walk

end TreeOffsets
