import Mathlib.Logic.Relation
import TreeOffsets.Proofs.WalkRecursion

/-!
A walk as a stack of values, of which the first is popped: a list gives way to its items and a node
to its children, so the nodes come in preorder. When the visitor stops, what has not been popped is
left, and going on with it later visits the rest of the same preorder.
-/

namespace TreeOffsets.Proofs.StackOrder

open TreeOffsets.Proofs.TreeInduction
open TreeOffsets.Proofs.WalkRecursion

def halts (visitor : Visitor) (node : Fields) : Bool := visitor (Node.tagOf node) == .stop

/-- The visitor gives a node offsets, and the node says where it stands. -/
def gains (visitor : Visitor) (node : Fields) : Bool :=
  (visitor (Node.tagOf node)).locates && (Node.spanOf? node).isSome

/-- The values of an object that are parts of the tree under it. -/
def children (fields : Fields) : List Json := (fields.filter Node.isChild).map Prod.snd

/-- An object once its node has been visited. -/
def settled (table : LineTable) (visitor : Visitor) (node : Fields) : Fields :=
  (visitor (Node.tagOf node)).fields table node

/-- What is walked under a node: the children that it has once it has been visited. -/
def scheduled (table : LineTable) (visitor : Visitor) (node : Fields) : List Json :=
  if (visitor (Node.tagOf node)).descends then children (settled table visitor node) else []

theorem scheduled_of_halts {table : LineTable} {visitor : Visitor} {node : Fields}
    (h : halts visitor node = true) : scheduled table visitor node = [] := by
  rw [scheduled, beq_iff_eq.mp h]
  rfl

theorem gains_of_halts {visitor : Visitor} {node : Fields} (h : halts visitor node = true) :
    gains visitor node = false := by
  rw [gains, beq_iff_eq.mp h]
  rfl

theorem children_cons_of_child {field : Text × Json} (h : Node.isChild field = true)
    (fields : Fields) : children (field :: fields) = field.2 :: children fields := by
  rw [children, List.filter_cons_of_pos h, List.map_cons, children]

theorem children_cons_of_not_child {field : Text × Json} (h : ¬Node.isChild field = true)
    (fields : Fields) : children (field :: fields) = children fields := by
  rw [children, List.filter_cons_of_neg h, children]

theorem itemsWeight_lt_cons (v : Json) (rest : List Json) :
    itemsWeight rest < itemsWeight (v :: rest) := by
  have hpos := v.weight_pos
  rw [itemsWeight]
  omega

theorem itemsWeight_append (values more : List Json) :
    itemsWeight (values ++ more) = itemsWeight values + itemsWeight more := by
  induction values with
  | nil => simp only [List.nil_append, itemsWeight, Nat.zero_add]
  | cons v values ih => simp only [List.cons_append, itemsWeight, ih, Nat.add_assoc]

theorem itemsWeight_children_le (fields : Fields) :
    itemsWeight (children fields) ≤ fieldsWeight fields := by
  induction fields with
  | nil => exact Nat.le_refl 0
  | cons field fields ih =>
      obtain ⟨name, v⟩ := field
      rw [fieldsWeight]
      by_cases hchild : Node.isChild (name, v) = true
      · rw [children_cons_of_child hchild, itemsWeight]
        exact Nat.add_le_add_left ih _
      · rw [children_cons_of_not_child hchild]
        exact Nat.le_trans ih (Nat.le_add_left _ _)

theorem itemsWeight_scheduled_le (table : LineTable) (visitor : Visitor) (node : Fields) :
    itemsWeight (scheduled table visitor node) ≤ fieldsWeight node + 2 := by
  rw [scheduled]
  split
  · exact Nat.le_trans (itemsWeight_children_le _) (Visit.weight_fields_le _ table node)
  · exact Nat.zero_le _

/-- The nodes of values in preorder, from left to right: each before those under it. -/
def preorder (table : LineTable) (visitor : Visitor) : List Json → List Fields
  | [] => []
  | .arr items :: rest => preorder table visitor items ++ preorder table visitor rest
  | .obj node :: rest =>
    node :: preorder table visitor (scheduled table visitor node) ++ preorder table visitor rest
  | _ :: rest => preorder table visitor rest
termination_by values => itemsWeight values
decreasing_by
  · simp only [itemsWeight, Json.weight]
    omega
  · simp only [itemsWeight, Json.weight]
    omega
  · have := itemsWeight_scheduled_le table visitor node
    simp only [itemsWeight, Json.weight]
    omega
  · simp only [itemsWeight, Json.weight]
    omega
  · exact itemsWeight_lt_cons _ rest

structure Popped where
  nodes : List Fields
  /-- The values that have not been popped, the next one first. -/
  left : List Json

/-- Pops a stack, the next value first, until it is empty or the visitor stops. -/
def pops (table : LineTable) (visitor : Visitor) : List Json → Popped
  | [] => ⟨[], []⟩
  | .arr items :: rest => pops table visitor (items ++ rest)
  | .obj node :: rest =>
    if halts visitor node then ⟨[node], rest⟩
    else
      let popped := pops table visitor (scheduled table visitor node ++ rest)
      { popped with nodes := node :: popped.nodes }
  | _ :: rest => pops table visitor rest
termination_by stack => itemsWeight stack
decreasing_by
  · simp only [itemsWeight_append, itemsWeight, Json.weight]
    omega
  · have := itemsWeight_scheduled_le table visitor node
    simp only [itemsWeight_append, itemsWeight, Json.weight]
    omega
  · exact itemsWeight_lt_cons _ rest

/-- The first nodes of a list, up to one at which the visitor stops. -/
def upToStop (visitor : Visitor) : List Fields → List Fields
  | [] => []
  | node :: rest => if halts visitor node then [node] else node :: upToStop visitor rest

/-- A walk through values comes to a node at which the visitor stops. -/
def raises (table : LineTable) (visitor : Visitor) (values : List Json) : Bool :=
  (preorder table visitor values).any (halts visitor)

section

variable {table : LineTable} {visitor : Visitor}

/-- The cases of an induction on what a stack is popped for. -/
@[elab_as_elim]
theorem stack_induction {motive : List Json → Prop} (empty : motive [])
    (list : ∀ items rest, motive (items ++ rest) → motive (.arr items :: rest))
    (stop : ∀ node rest, halts visitor node = true → motive (.obj node :: rest))
    (node : ∀ node rest, halts visitor node = false →
      motive (scheduled table visitor node ++ rest) → motive (.obj node :: rest))
    (scalar : ∀ v rest, v.isContainer = false → motive rest → motive (v :: rest))
    (stack : List Json) : motive stack := by
  induction stack using pops.induct table visitor with
  | case1 => exact empty
  | case2 items rest ih => exact list items rest ih
  | case3 fields rest hhalts => exact stop fields rest hhalts
  | case4 fields rest hhalts ih => exact node fields rest (Bool.eq_false_iff.mpr hhalts) ih
  | case5 v rest harr hobj ih =>
      refine scalar v rest ?_ ih
      cases v with
      | arr items => exact absurd rfl (harr items)
      | obj fields => exact absurd rfl (hobj fields)
      | _ => rfl

theorem preorder_nil : preorder table visitor [] = [] := by
  rw [preorder]

theorem preorder_arr (items rest : List Json) :
    preorder table visitor (.arr items :: rest) =
      preorder table visitor items ++ preorder table visitor rest := by
  rw [preorder]

theorem preorder_obj (node : Fields) (rest : List Json) :
    preorder table visitor (.obj node :: rest) =
      node :: (preorder table visitor (scheduled table visitor node) ++
        preorder table visitor rest) := by
  rw [preorder, List.cons_append]

theorem preorder_scalar {v : Json} (h : v.isContainer = false) (rest : List Json) :
    preorder table visitor (v :: rest) = preorder table visitor rest := by
  cases v <;> simp_all [preorder, Json.isContainer]

theorem preorder_append (values more : List Json) :
    preorder table visitor (values ++ more) =
      preorder table visitor values ++ preorder table visitor more := by
  induction values with
  | nil => rw [preorder_nil, List.nil_append, List.nil_append]
  | cons v values ih =>
      rw [List.cons_append]
      cases v with
      | arr items => rw [preorder_arr, preorder_arr, ih, List.append_assoc]
      | obj node => rw [preorder_obj, preorder_obj, ih, List.cons_append, List.append_assoc]
      | _ => rw [preorder_scalar rfl, preorder_scalar rfl, ih]

theorem raises_nil : raises table visitor [] = false := by
  rw [raises, preorder_nil, List.any_nil]

theorem raises_append (values more : List Json) :
    raises table visitor (values ++ more) =
      (raises table visitor values || raises table visitor more) := by
  rw [raises, preorder_append, List.any_append, raises, raises]

theorem raises_arr (items rest : List Json) :
    raises table visitor (.arr items :: rest) = raises table visitor (items ++ rest) := by
  rw [raises, preorder_arr, raises, preorder_append]

theorem raises_of_halts {node : Fields} (h : halts visitor node = true) (rest : List Json) :
    raises table visitor (.obj node :: rest) = true := by
  rw [raises, preorder_obj, List.any_cons, h, Bool.true_or]

theorem raises_obj {node : Fields} (h : halts visitor node = false) (rest : List Json) :
    raises table visitor (.obj node :: rest) =
      raises table visitor (scheduled table visitor node ++ rest) := by
  rw [raises, preorder_obj, raises, preorder_append, List.any_cons, h, Bool.false_or]

theorem raises_scalar {v : Json} (h : v.isContainer = false) (rest : List Json) :
    raises table visitor (v :: rest) = raises table visitor rest := by
  rw [raises, preorder_scalar h, raises]

theorem pops_nil : pops table visitor [] = ⟨[], []⟩ := by
  rw [pops]

theorem pops_arr (items rest : List Json) :
    pops table visitor (.arr items :: rest) = pops table visitor (items ++ rest) := by
  rw [pops]

theorem pops_of_halts {node : Fields} (h : halts visitor node = true) (rest : List Json) :
    pops table visitor (.obj node :: rest) = ⟨[node], rest⟩ := by
  rw [pops, if_pos h]

theorem pops_obj {node : Fields} (h : halts visitor node = false) (rest : List Json) :
    pops table visitor (.obj node :: rest) =
      ⟨node :: (pops table visitor (scheduled table visitor node ++ rest)).nodes,
        (pops table visitor (scheduled table visitor node ++ rest)).left⟩ := by
  rw [pops, if_neg (Bool.eq_false_iff.mp h)]

theorem pops_scalar {v : Json} (h : v.isContainer = false) (rest : List Json) :
    pops table visitor (v :: rest) = pops table visitor rest := by
  cases v <;> simp_all [pops, Json.isContainer]

theorem pops_append_of_raises {values : List Json} (h : raises table visitor values = true)
    (rest : List Json) :
    pops table visitor (values ++ rest) =
      ⟨(pops table visitor values).nodes, (pops table visitor values).left ++ rest⟩ := by
  -- Not on the list: the children of a node come to stand before its siblings, so the induction
  -- is on the stack that is popped.
  induction values using stack_induction with
  | empty =>
      rw [raises_nil] at h
      cases h
  | list items values ih =>
      rw [raises_arr] at h
      rw [List.cons_append, pops_arr, pops_arr, ← List.append_assoc, ih h]
  | stop node values hhalts =>
      rw [List.cons_append, pops_of_halts hhalts, pops_of_halts hhalts]
  | node node values hhalts ih =>
      rw [raises_obj hhalts] at h
      rw [List.cons_append, pops_obj hhalts, pops_obj hhalts, ← List.append_assoc, ih h]
  | scalar v values hv ih =>
      rw [raises_scalar hv] at h
      rw [List.cons_append, pops_scalar hv, pops_scalar hv, ih h]

theorem pops_append {values : List Json} (h : raises table visitor values = false)
    (rest : List Json) :
    pops table visitor (values ++ rest) =
      ⟨(pops table visitor values).nodes ++ (pops table visitor rest).nodes,
        (pops table visitor rest).left⟩ := by
  induction values using stack_induction with
  | empty => rw [pops_nil, List.nil_append, List.nil_append]
  | list items values ih =>
      rw [raises_arr] at h
      rw [List.cons_append, pops_arr, pops_arr, ← List.append_assoc, ih h]
  | stop node values hhalts =>
      rw [raises_of_halts hhalts] at h
      cases h
  | node node values hhalts ih =>
      rw [raises_obj hhalts] at h
      rw [List.cons_append, pops_obj hhalts, pops_obj hhalts, ← List.append_assoc, ih h,
        List.cons_append]
  | scalar v values hv ih =>
      rw [raises_scalar hv] at h
      rw [List.cons_append, pops_scalar hv, pops_scalar hv, ih h]

theorem nodes_pops (stack : List Json) :
    (pops table visitor stack).nodes = upToStop visitor (preorder table visitor stack) := by
  induction stack using stack_induction with
  | empty => rw [pops_nil, preorder_nil, upToStop]
  | list items rest ih => rw [pops_arr, ih, preorder_arr, preorder_append]
  | stop node rest hhalts =>
      rw [pops_of_halts hhalts, preorder_obj, upToStop, if_pos hhalts]
  | node node rest hhalts ih =>
      rw [pops_obj hhalts, ih, preorder_obj, upToStop, if_neg (Bool.eq_false_iff.mp hhalts),
        preorder_append]
  | scalar v rest hv ih => rw [pops_scalar hv, preorder_scalar hv, ih]

/-- What is visited and what is left make up the preorder, so no node is lost and none is visited
again; what stands under the node at which the visitor stops is in neither. -/
theorem preorder_eq_append_left (stack : List Json) :
    preorder table visitor stack =
      (pops table visitor stack).nodes ++
        preorder table visitor (pops table visitor stack).left := by
  induction stack using stack_induction with
  | empty => rw [pops_nil, preorder_nil, List.nil_append]
  | list items rest ih => rw [pops_arr, ← ih, preorder_arr, preorder_append]
  | stop node rest hhalts =>
      rw [pops_of_halts hhalts, preorder_obj, scheduled_of_halts hhalts, preorder_nil]
      rfl
  | node node rest hhalts ih =>
      rw [pops_obj hhalts, List.cons_append, ← ih, preorder_obj, preorder_append]
  | scalar v rest hv ih => rw [pops_scalar hv, preorder_scalar hv, ← ih]

theorem left_pops {stack : List Json} (h : raises table visitor stack = false) :
    (pops table visitor stack).left = [] := by
  have happend := pops_append h []
  rw [List.append_nil] at happend
  rw [happend, pops_nil]

end

/-- A loop over a list of values, of which the last one is popped. -/
structure Loop where
  stack : List Json
  nodes : List Fields := []
  count : Nat := 0
  stopped : Bool := false

namespace Loop

/-- One turn. The items of a list and the children of a node are put on the stack in reverse, so
that the first of them is popped next. -/
def turn (table : LineTable) (visitor : Visitor) (loop : Loop) : Option Loop :=
  if loop.stopped then none
  else match loop.stack.getLast? with
    | none => none
    | some (.arr items) => some { loop with stack := loop.stack.dropLast ++ items.reverse }
    | some (.obj node) =>
      if halts visitor node then
        some { loop with
          stack := loop.stack.dropLast
          nodes := loop.nodes ++ [node]
          stopped := true }
      else
        some { loop with
          stack := loop.stack.dropLast ++ (scheduled table visitor node).reverse
          nodes := loop.nodes ++ [node]
          count := if gains visitor node then loop.count + 1 else loop.count }
    | some _ => some { loop with stack := loop.stack.dropLast }

def Runs (table : LineTable) (visitor : Visitor) : Loop → Loop → Prop :=
  Relation.ReflTransGen fun loop next => loop.turn table visitor = some next

variable {table : LineTable} {visitor : Visitor} {nodes : List Fields} {count : Nat}

theorem turn_arr (items rest : List Json) :
    turn table visitor ⟨(.arr items :: rest).reverse, nodes, count, false⟩ =
      some ⟨(items ++ rest).reverse, nodes, count, false⟩ := by
  simp [turn]

theorem turn_of_halts {node : Fields} (h : halts visitor node = true) (rest : List Json) :
    turn table visitor ⟨(.obj node :: rest).reverse, nodes, count, false⟩ =
      some ⟨rest.reverse, nodes ++ [node], count, true⟩ := by
  simp [turn, h]

theorem turn_obj {node : Fields} (h : halts visitor node = false) (rest : List Json) :
    turn table visitor ⟨(.obj node :: rest).reverse, nodes, count, false⟩ =
      some ⟨(scheduled table visitor node ++ rest).reverse, nodes ++ [node],
        count + [node].countP (gains visitor), false⟩ := by
  cases hgains : gains visitor node <;> simp [turn, h, hgains]

theorem turn_scalar {v : Json} (h : v.isContainer = false) (rest : List Json) :
    turn table visitor ⟨(v :: rest).reverse, nodes, count, false⟩ =
      some ⟨rest.reverse, nodes, count, false⟩ := by
  cases v <;> simp_all [turn, Json.isContainer]

/-- The loop pops what the stack with the next value first pops, and leaves what that leaves. -/
theorem runs_pops (stack : List Json) :
    Runs table visitor ⟨stack.reverse, nodes, count, false⟩
      ⟨(pops table visitor stack).left.reverse, nodes ++ (pops table visitor stack).nodes,
        count + (pops table visitor stack).nodes.countP (gains visitor),
        raises table visitor stack⟩ := by
  induction stack using stack_induction generalizing nodes count with
  | empty =>
      rw [pops_nil, raises_nil, List.append_nil]
      exact .refl
  | list items rest ih =>
      rw [pops_arr, raises_arr]
      exact .head (turn_arr items rest) ih
  | stop node rest hhalts =>
      rw [pops_of_halts hhalts, raises_of_halts hhalts, List.countP_singleton,
        gains_of_halts hhalts]
      exact .single (turn_of_halts hhalts rest)
  | node node rest hhalts ih =>
      have hnext := @ih (nodes ++ [node]) (count + [node].countP (gains visitor))
      rw [List.append_assoc, Nat.add_assoc, ← List.countP_append] at hnext
      rw [pops_obj hhalts, raises_obj hhalts]
      exact .head (turn_obj hhalts rest) hnext
  | scalar v rest hv ih =>
      rw [pops_scalar hv, raises_scalar hv]
      exact .head (turn_scalar hv rest) ih

theorem turn_pops (stack : List Json) :
    turn table visitor ⟨(pops table visitor stack).left.reverse, nodes, count,
      raises table visitor stack⟩ = none := by
  cases h : raises table visitor stack with
  | true => rfl
  | false =>
      rw [left_pops h]
      rfl

end Loop

end TreeOffsets.Proofs.StackOrder
