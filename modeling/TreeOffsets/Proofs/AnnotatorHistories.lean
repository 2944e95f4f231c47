import Mathlib.Data.List.Chain
import TreeOffsets.Proofs.LocatedTree
import TreeOffsets.Proofs.StackOrder

namespace TreeOffsets.Proofs.AnnotatorHistories

open TreeOffsets.Proofs.LocatedTree
open TreeOffsets.Proofs.StackOrder
open TreeOffsets.Proofs.TreeInduction
open TreeOffsets.Proofs.WalkRecursion

mutual

/-- A value as a walk leaves it. What comes after the node at which the visitor stops stays as it
is. -/
def handled (table : LineTable) (visitor : Visitor) : Json → Json
  | .arr items => .arr (handledItems table visitor items)
  | .obj node =>
    .obj (if (visitor (Node.tagOf node)).descends then
        handledFields table visitor (settled table visitor node)
      else settled table visitor node)
  | v => v
termination_by v => 2 * v.weight
decreasing_by
  · simp only [Json.weight]
    omega
  · have := Visit.weight_fields_le (visitor (Node.tagOf node)) table node
    simp only [Json.weight, settled]
    omega

def handledItems (table : LineTable) (visitor : Visitor) : List Json → List Json
  | [] => []
  | v :: rest =>
    handled table visitor v ::
      if raises table visitor [v] then rest else handledItems table visitor rest
termination_by items => 2 * itemsWeight items + 1
decreasing_by
  · simp only [itemsWeight]
    omega
  · have := v.weight_pos
    simp only [itemsWeight]
    omega

def handledFields (table : LineTable) (visitor : Visitor) : Fields → Fields
  | [] => []
  | (name, v) :: rest =>
    if Node.isChild (name, v) then
      (name, handled table visitor v) ::
        if raises table visitor [v] then rest else handledFields table visitor rest
    else (name, v) :: handledFields table visitor rest
termination_by fields => 2 * fieldsWeight fields + 1
decreasing_by
  · simp only [fieldsWeight]
    omega
  · have := v.weight_pos
    simp only [fieldsWeight]
    omega
  · have := v.weight_pos
    simp only [fieldsWeight]
    omega

end

/-- What a walk has found when it has popped some more values. -/
def reached (table : LineTable) (visitor : Visitor) (p : Progress) (values : List Json) :
    Progress where
  count := p.count + (pops table visitor values).nodes.countP (gains visitor)
  nodes := p.nodes ++ (pops table visitor values).nodes
  rest? := if raises table visitor values then some (pops table visitor values).left else none

section

variable {table : LineTable} {visitor : Visitor}

theorem reached_nil {p : Progress} (hp : p.rest? = none) : reached table visitor p [] = p := by
  rw [reached, pops_nil, raises_nil]
  exact Progress.ext (Nat.add_zero _) (List.append_nil _) hp.symm

theorem reached_scalar {p : Progress} {v : Json} (hv : v.isContainer = false)
    (rest : List Json) :
    reached table visitor p (v :: rest) = reached table visitor p rest := by
  rw [reached, pops_scalar hv, raises_scalar hv, reached]

theorem reached_arr (p : Progress) (items : List Json) :
    reached table visitor p [.arr items] = reached table visitor p items := by
  rw [reached, pops_arr, raises_arr, List.append_nil, reached]

theorem reached_of_halts (p : Progress) {node : Fields} (h : halts visitor node = true) :
    reached table visitor p [.obj node] = p.stopped node := by
  rw [reached, pops_of_halts h, raises_of_halts h, List.countP_singleton, gains_of_halts h]
  rfl

theorem count_visited (p : Progress) (node : Fields) :
    (p.visited node (visitor (Node.tagOf node))).count =
      p.count + if gains visitor node then 1 else 0 := by
  rw [Progress.visited, gains]
  dsimp only
  split
  · rfl
  · rfl

theorem reached_obj (p : Progress) {node : Fields} (h : halts visitor node = false) :
    reached table visitor p [.obj node] =
      reached table visitor (p.visited node (visitor (Node.tagOf node)))
        (scheduled table visitor node) := by
  rw [reached, pops_obj h, raises_obj h, List.append_nil, reached, List.countP_cons,
    count_visited]
  refine Progress.ext ?_ ?_ rfl
  · dsimp only
    omega
  · simp only [Progress.visited, List.append_assoc, List.singleton_append]

theorem rest?_reached_of_raises (p : Progress) {values : List Json}
    (h : raises table visitor values = true) :
    (reached table visitor p values).rest? = some (pops table visitor values).left := by
  rw [reached, h]
  rfl

theorem rest?_reached (p : Progress) {values : List Json}
    (h : raises table visitor values = false) :
    (reached table visitor p values).rest? = none := by
  rw [reached, h]
  rfl

theorem reached_append_of_raises (p : Progress) {values : List Json}
    (h : raises table visitor values = true) (rest : List Json) :
    reached table visitor p (values ++ rest) =
      { reached table visitor p values with
        rest? := some ((pops table visitor values).left ++ rest) } := by
  rw [reached, pops_append_of_raises h, raises_append, h]
  rfl

theorem reached_append (p : Progress) {values : List Json}
    (h : raises table visitor values = false) (rest : List Json) :
    reached table visitor p (values ++ rest) =
      reached table visitor (reached table visitor p values) rest := by
  rw [reached, pops_append h, raises_append, h, List.countP_append]
  simp only [reached, Nat.add_assoc, List.append_assoc, Bool.false_or]

theorem walkValue_handled {p : Progress} (hp : p.rest? = none) {node : Fields}
    (hfields : ∀ q : Progress, q.rest? = none →
      walkFields table visitor q (settled table visitor node) =
        (handledFields table visitor (settled table visitor node),
          reached table visitor q (children (settled table visitor node)))) :
    walkValue table visitor p (.obj node) =
      (handled table visitor (.obj node), reached table visitor p [.obj node]) := by
  cases hhalts : halts visitor node with
  | true =>
      have hstop : visitor (Node.tagOf node) = .stop := beq_iff_eq.mp hhalts
      rw [walkValue_of_stop hp hstop, reached_of_halts p hhalts, handled, settled, hstop]
      rfl
  | false =>
      have hstop : visitor (Node.tagOf node) ≠ .stop := beq_eq_false_iff_ne.mp hhalts
      have hvisited : (p.visited node (visitor (Node.tagOf node))).rest? = none := hp
      rw [walkValue_obj hp rfl hstop, reached_obj p hhalts, handled, scheduled, ← settled]
      cases hdescends : (visitor (Node.tagOf node)).descends with
      | true =>
          rw [hfields _ hvisited]
          rfl
      | false =>
          simp only [Bool.false_eq_true, if_false]
          rw [reached_nil hvisited]

theorem handled_cases : TreeCases
    (fun v => ∀ p : Progress, p.rest? = none →
      walkValue table visitor p v =
        (handled table visitor v, reached table visitor p [v]))
    (fun items => ∀ p : Progress, p.rest? = none →
      walkItems table visitor p items =
        (handledItems table visitor items, reached table visitor p items))
    (fun fields => ∀ p : Progress, p.rest? = none →
      walkFields table visitor p fields =
        (handledFields table visitor fields, reached table visitor p (children fields))) where
  scalar := by
    intro v hv p hp
    rw [reached_scalar hv, reached_nil hp]
    cases v <;> simp_all [walkValue, handled, Json.isContainer]
  arr := by
    intro items hitems p hp
    rw [walkValue_arr hp, hitems p hp, handled, reached_arr]
  obj := by
    intro node hfields p hp
    exact walkValue_handled hp (hfields _ (Visit.weight_fields_le _ table node))
  noItems := by
    intro p hp
    rw [walkItems, handledItems, reached_nil hp]
  item := by
    intro v rest hv hrest p hp
    rw [walkItems, hv p hp, handledItems]
    dsimp only
    -- A stop in the first item leaves the others as they are, after what it has not popped itself.
    cases hraises : raises table visitor [v] with
    | true =>
        rw [walkItems_of_some (rest?_reached_of_raises p hraises),
          ← reached_append_of_raises p hraises]
        rfl
    | false =>
        rw [hrest _ (rest?_reached p hraises), ← reached_append p hraises]
        rfl
  noFields := by
    intro p hp
    rw [walkFields, handledFields, children, List.filter_nil, List.map_nil, reached_nil hp]
  field := by
    intro name v rest hv hrest p hp
    rw [walkFields, handledFields]
    by_cases hchild : Node.isChild (name, v) = true
    · rw [if_pos hchild, if_pos hchild, children_cons_of_child hchild, hv p hp]
      dsimp only
      cases hraises : raises table visitor [v] with
      | true =>
          rw [walkFields_of_some (rest?_reached_of_raises p hraises), ← children,
            ← reached_append_of_raises p hraises]
          rfl
      | false =>
          rw [hrest _ (rest?_reached p hraises), ← reached_append p hraises]
          rfl
    · rw [if_neg hchild, if_neg hchild, children_cons_of_not_child hchild]
      dsimp only
      rw [hrest p hp]

theorem handledItems_append (values more : List Json) :
    handledItems table visitor (values ++ more) =
      handledItems table visitor values ++
        if raises table visitor values then more else handledItems table visitor more := by
  induction values with
  | nil =>
      rw [handledItems, raises_nil]
      rfl
  | cons v values ih =>
      have hcons : raises table visitor (v :: values) =
          (raises table visitor [v] || raises table visitor values) := raises_append [v] values
      rw [List.cons_append, handledItems, handledItems, ih, hcons, List.cons_append]
      cases raises table visitor [v] <;> simp

theorem length_handledItems (values : List Json) :
    (handledItems table visitor values).length = values.length := by
  induction values with
  | nil => rw [handledItems]
  | cons v values ih =>
      rw [handledItems]
      split
      · rfl
      · rw [List.length_cons, ih, List.length_cons]

theorem walkAll_eq_popped (annotator : Annotator) (values : List Json) :
    annotator.walkAll values =
      let popped := pops annotator.table annotator.visitor values
      let items := handledItems annotator.table annotator.visitor values
      (items, ⟨.arr items, popped.nodes.countP (gains annotator.visitor), popped.nodes,
        if raises annotator.table annotator.visitor values then some popped.left else none⟩) := by
  rw [walkAll_eq_walkItems, handled_cases.items_of values _ rfl]
  simp only [reached, Progress.start, Nat.zero_add, List.nil_append]

end

structure Request where
  tree : Json
  tokens : Json

structure Pass where
  before : Annotator
  request : Request

namespace Pass

def run (pass : Pass) : Annotated :=
  (pass.before.annotate pass.request.tree pass.request.tokens).1

def after (pass : Pass) : Annotator :=
  (pass.before.annotate pass.request.tree pass.request.tokens).2

/-- What a run has to walk: its own tree, its own tokens, and what the runs before it have left. -/
def stack (pass : Pass) : List Json :=
  pass.request.tree :: listed pass.request.tokens ++ pass.before.pending

end Pass

/-- Runs one after the other, each with the annotator that the one before it has left. -/
def history (annotator : Annotator) : List Request → List Pass
  | [] => []
  | request :: rest =>
    ⟨annotator, request⟩ :: history (Pass.after ⟨annotator, request⟩) rest

/-- What a visit makes of a node. It counts exactly if the visitor gives the node offsets and the
node says where it stands; then the node carries the offsets of that span, and else it stays as it
is. -/
structure IsSettled (table : LineTable) (visitor : Visitor) (node : Fields) : Prop where
  gains_iff : gains visitor node = true ↔
    (visitor (Node.tagOf node)).locates = true ∧ ∃ span, Spans node span
  gained : gains visitor node = true → ∀ span, Spans node span →
    CarriesOffsets table span node (settled table visitor node)
  kept : gains visitor node = false → settled table visitor node = node
  children : ∀ field ∈ settled table visitor node, Node.isChild field = true ↔ IsUnder field

theorem isSettled (table : LineTable) (visitor : Visitor) (node : Fields) :
    IsSettled table visitor node where
  gains_iff := by
    rw [gains, Bool.and_eq_true, Option.isSome_iff_exists]
    simp only [spanOf?_eq_some_iff]
  gained := by
    intro hgains span hspan
    rw [gains, Bool.and_eq_true] at hgains
    rw [settled, Visit.fields, if_pos hgains.1]
    exact ((followsRule table node).located span hspan).2
  kept := by
    intro hgains
    rw [gains, Bool.and_eq_false_iff, Option.isSome_eq_false_iff, Option.isNone_iff_eq_none]
      at hgains
    rw [settled, Visit.fields]
    rcases hgains with hlocates | hspan
    · rw [hlocates]
      rfl
    · rw [locate_of_no_span hspan, ite_self]
  children := fun field _ => isChild_iff_isUnder field

/-- A run visits the nodes of its stack in preorder, up to one at which the visitor stops. What it
has not popped then is left to the next run, which goes on in the same preorder; the run counts the
nodes that it has given offsets, and changes no others. A loop that begins with the leftovers, puts
the tokens on them in reverse and the tree on top ends in the same way. -/
structure VisitsInOrder (table : LineTable) (visitor : Visitor) (pass : Pass) : Prop where
  nodes : pass.run.nodes = upToStop visitor (preorder table visitor pass.stack)
  popped : pops table visitor pass.stack = ⟨pass.run.nodes, pass.after.pending⟩
  others : preorder table visitor pass.stack =
    pass.run.nodes ++ preorder table visitor pass.after.pending
  fault : pass.run.fault? = if raises table visitor pass.stack then some .stopped else none
  count : pass.run.count = pass.run.nodes.countP (gains visitor)
  settled : ∀ node ∈ pass.run.nodes, IsSettled table visitor node
  values : pass.run.tree :: listed pass.run.tokens =
    handledItems table visitor (pass.request.tree :: listed pass.request.tokens)
  loops : Loop.Runs table visitor
    { stack := pass.before.pending.reverse ++ (listed pass.request.tokens).reverse
        ++ [pass.request.tree] }
    ⟨pass.after.pending.reverse, pass.run.nodes, pass.run.count, pass.run.fault?.isSome⟩
  ends : Loop.turn table visitor
    ⟨pass.after.pending.reverse, pass.run.nodes, pass.run.count, pass.run.fault?.isSome⟩ = none
  after : pass.after.table = table ∧ pass.after.visitor = visitor

/-- Tokens that are absent or a list. -/
def Request.HasListedTokens (request : Request) : Prop :=
  request.tokens.isTruthy = false ∨ ∃ items, request.tokens = .arr items

def tokensIn (values : List Json) : Json → Json
  | .arr items => .arr ((values.drop 1).take items.length)
  | v => v

theorem taken_handledItems {table : LineTable} {visitor : Visitor} (tree tokens : Json)
    (pending : List Json) :
    let values := handledItems table visitor (tree :: listed tokens ++ pending)
    values.headD tree :: listed (tokensIn values tokens) =
      handledItems table visitor (tree :: listed tokens) := by
  obtain ⟨first, others, hitems⟩ : ∃ first others,
      handledItems table visitor (tree :: listed tokens) = first :: others := by
    rw [handledItems]
    exact ⟨_, _, rfl⟩
  have hlength := @length_handledItems table visitor (tree :: listed tokens)
  rw [hitems, List.length_cons, List.length_cons, Nat.add_right_cancel_iff] at hlength
  dsimp only
  rw [handledItems_append, hitems, List.cons_append, List.headD_cons]
  cases tokens with
  | arr items =>
      have hitems : others.length = items.length := hlength
      rw [tokensIn, List.drop_succ_cons, List.drop_zero, ← hitems, List.take_left]
      rfl
  | _ =>
      rw [List.eq_nil_of_length_eq_zero hlength]
      rfl

theorem annotate_of_listed (annotator : Annotator) (tree : Json) {tokens : Json}
    (h : tokens.isTruthy = false ∨ ∃ items, tokens = .arr items) :
    let stack := tree :: listed tokens ++ annotator.pending
    let popped := pops annotator.table annotator.visitor stack
    let values := handledItems annotator.table annotator.visitor stack
    annotator.annotate tree tokens =
      (⟨values.headD tree, tokensIn values tokens, popped.nodes.countP (gains annotator.visitor),
          popped.nodes,
          if raises annotator.table annotator.visitor stack then some .stopped else none⟩,
        { annotator with pending := popped.left }) := by
  rw [Annotator.annotate, tokenItems_eq_listed h]
  simp only [walkAll_eq_popped]
  cases hraises : raises annotator.table annotator.visitor
      (tree :: listed tokens ++ annotator.pending) with
  | true => cases tokens <;> rfl
  | false =>
      rw [left_pops hraises]
      cases tokens <;> rfl

theorem visitsInOrder {pass : Pass} (h : pass.request.HasListedTokens) :
    VisitsInOrder pass.before.table pass.before.visitor pass := by
  have hannotate := annotate_of_listed pass.before pass.request.tree h
  have hrun := congrArg Prod.fst hannotate
  have hafter := congrArg Prod.snd hannotate
  rw [← Pass.run] at hrun
  rw [← Pass.after] at hafter
  have hfault : pass.run.fault?.isSome =
      raises pass.before.table pass.before.visitor pass.stack := by
    rw [hrun, Pass.stack]
    dsimp only
    split
    · next hraises => exact hraises.symm
    · next hraises => exact (Bool.eq_false_iff.mpr hraises).symm
  have hloops := @Loop.runs_pops pass.before.table pass.before.visitor [] 0 pass.stack
  have hends := @Loop.turn_pops pass.before.table pass.before.visitor pass.run.nodes
    pass.run.count pass.stack
  have hstack : pass.stack.reverse = pass.before.pending.reverse
      ++ (listed pass.request.tokens).reverse ++ [pass.request.tree] := by
    rw [Pass.stack, List.cons_append, List.reverse_cons, List.reverse_append]
  rw [hstack, List.nil_append, Nat.zero_add, ← hfault] at hloops
  rw [← hfault] at hends
  exact {
    nodes := by rw [hrun]; exact nodes_pops _
    popped := by rw [hrun, hafter]; rfl
    others := by rw [hrun, hafter]; exact preorder_eq_append_left _
    fault := by rw [hrun]; rfl
    count := by rw [hrun]
    settled := fun node _ => isSettled _ _ node
    values := by rw [hrun]; exact taken_handledItems _ _ _
    loops := by rw [hrun, hafter] at *; exact hloops
    ends := by rw [hafter]; exact hends
    after := by rw [hafter]; exact ⟨rfl, rfl⟩ }

/-- A run that nothing stops leaves an annotator that is as good as new. -/
theorem after_of_no_fault {pass : Pass} (h : pass.request.HasListedTokens)
    (hfault : pass.run.fault? = none) :
    pass.after = { table := pass.before.table, visitor := pass.before.visitor } := by
  have hvisits := visitsInOrder h
  have hraises : raises pass.before.table pass.before.visitor pass.stack = false := by
    rw [← Bool.not_eq_true]
    intro hstop
    have hstopped := hvisits.fault
    rw [hfault, if_pos hstop] at hstopped
    cases hstopped
  have hpending : pass.after.pending = [] := by
    have hleft := congrArg Popped.left hvisits.popped
    rw [left_pops hraises] at hleft
    exact hleft.symm
  obtain ⟨htable, hvisitor⟩ := hvisits.after
  cases hafter : pass.after with
  | mk table visitor pending =>
      rw [hafter] at hpending htable hvisitor
      rw [← htable, ← hvisitor, ← hpending]

theorem mem_history {annotator : Annotator} {requests : List Request}
    (h : ∀ request ∈ requests, request.HasListedTokens) :
    ∀ pass ∈ history annotator requests, pass.request.HasListedTokens
      ∧ pass.before.table = annotator.table ∧ pass.before.visitor = annotator.visitor := by
  induction requests generalizing annotator with
  | nil => exact fun _ hpass => absurd hpass List.not_mem_nil
  | cons request rest ih =>
      obtain ⟨hfirst, hrest⟩ := List.forall_mem_cons.mp h
      obtain ⟨htable, hvisitor⟩ := (@visitsInOrder ⟨annotator, request⟩ hfirst).after
      refine List.forall_mem_cons.mpr ⟨⟨hfirst, rfl, rfl⟩, fun pass hpass => ?_⟩
      obtain ⟨hlisted, hbefore⟩ := ih hrest pass hpass
      rw [htable, hvisitor] at hbefore
      exact ⟨hlisted, hbefore⟩

structure Follows (table : LineTable) (visitor : Visitor) (earlier later : Pass) : Prop where
  goesOn : later.before = earlier.after
  asNew : earlier.run.fault? = none → later.before = { table, visitor }

theorem isChain_history {annotator : Annotator} {requests : List Request}
    (h : ∀ request ∈ requests, request.HasListedTokens) :
    (history annotator requests).IsChain (Follows annotator.table annotator.visitor) := by
  induction requests generalizing annotator with
  | nil => exact .nil
  | cons request rest ih =>
      obtain ⟨hfirst, hrest⟩ := List.forall_mem_cons.mp h
      obtain ⟨htable, hvisitor⟩ := (@visitsInOrder ⟨annotator, request⟩ hfirst).after
      have hlater := @ih (Pass.after ⟨annotator, request⟩) hrest
      rw [htable, hvisitor] at hlater
      cases rest with
      | nil => exact .singleton _
      | cons next rest => exact .cons_cons ⟨rfl, after_of_no_fault hfirst⟩ hlater

/-- Runs of one annotator, stopped ones among them, each visit what they are given and then what the
run before has left, in preorder and up to the node at which the visitor stops. A run that follows
one that nothing has stopped begins with an annotator as good as new. -/
theorem history_visitsInOrder (table : LineTable) (visitor : Visitor) (requests : List Request)
    (h : ∀ request ∈ requests, request.HasListedTokens) :
    (∀ pass ∈ history { table, visitor } requests, VisitsInOrder table visitor pass)
      ∧ (history { table, visitor } requests).IsChain (Follows table visitor) := by
  refine ⟨fun pass hpass => ?_, @isChain_history { table, visitor } requests h⟩
  obtain ⟨hlisted, htable, hvisitor⟩ := mem_history h pass hpass
  have hvisits := visitsInOrder hlisted
  rw [htable, hvisitor] at hvisits
  exact hvisits

def bareNode (tag : String) : Fields := [(Text.ofString "type", .ofString tag)]

def refusing : Visitor := Visitor.standard.override (Text.ofString "Bad") .stop

def refused : Request where
  tree := .arr [.obj (bareNode "Bad"), .obj (bareNode "Rest")]
  tokens := .null

/-- A node with a span and, before and after it, two nodes under it. -/
def ownNode : Fields :=
  [(Text.ofString "head", .arr [.obj (bareNode "Left")]), (Node.spanField, firstPoint),
    (Text.ofString "tail", .obj (bareNode "Right"))]

def plain : Request where
  tree := .obj ownNode
  tokens := .arr [.obj (bareNode "Token")]

def letterTable : LineTable := LineTable.ofText .utf16 (Text.ofString "a")

theorem settled_ownNode : settled letterTable refusing ownNode =
    ownNode ++ [(Node.startField, .int 0), (Node.endField, .int 1)] := rfl

theorem pops_bareNode {table : LineTable} {tag : String}
    (h : halts refusing (bareNode tag) = false)
    (hscheduled : scheduled table refusing (bareNode tag) = []) (rest : List Json) :
    pops table refusing (.obj (bareNode tag) :: rest) =
      ⟨bareNode tag :: (pops table refusing rest).nodes, (pops table refusing rest).left⟩ := by
  rw [pops_obj h, hscheduled, List.nil_append]

theorem pops_ownNode (rest : List Json) :
    pops letterTable refusing (.obj ownNode :: rest) =
      ⟨ownNode :: bareNode "Left" :: bareNode "Right" :: (pops letterTable refusing rest).nodes,
        (pops letterTable refusing rest).left⟩ := by
  have hscheduled : scheduled letterTable refusing ownNode =
      [.arr [.obj (bareNode "Left")], .obj (bareNode "Right")] := rfl
  rw [pops_obj (by decide), hscheduled, List.cons_append, pops_arr, List.singleton_append,
    pops_bareNode (by decide) rfl, List.singleton_append, pops_bareNode (by decide) rfl]

/-- After a stop the next run walks its own tree and tokens first, and counts its one node that has
a span. -/
theorem nodes_history_plain :
    (∀ request ∈ [refused, plain], request.HasListedTokens)
      ∧ (history { table := letterTable, visitor := refusing } [refused, plain]).map
          (fun pass => (pass.run.nodes, pass.run.count)) =
        [([bareNode "Bad"], 0),
          ([ownNode, bareNode "Left", bareNode "Right", bareNode "Token", bareNode "Rest"], 1)]
      ∧ CarriesOffsets letterTable ⟨⟨.int 1, .int 0⟩, ⟨.int 1, .int 1⟩⟩ ownNode
        (ownNode ++ [(Node.startField, .int 0), (Node.endField, .int 1)]) := by
  have hlisted : ∀ request ∈ [refused, plain], request.HasListedTokens := by
    intro request hrequest
    rcases List.mem_pair.mp hrequest with rfl | rfl
    · exact .inl rfl
    · exact .inr ⟨_, rfl⟩
  obtain ⟨hvisits, -⟩ := history_visitsInOrder letterTable refusing [refused, plain] hlisted
  obtain ⟨hfirst, hrest⟩ := List.forall_mem_cons.mp hvisits
  have hsecond := (List.forall_mem_cons.mp hrest).1
  have hstopped : pops letterTable refusing
        (Pass.stack ⟨{ table := letterTable, visitor := refusing }, refused⟩) =
      ⟨[bareNode "Bad"], [.obj (bareNode "Rest")]⟩ := by
    change pops letterTable refusing [.arr [.obj (bareNode "Bad"), .obj (bareNode "Rest")]] = _
    rw [pops_arr, List.append_nil, pops_of_halts (by decide)]
  obtain ⟨hnodes, hpending⟩ := Popped.mk.inj (hfirst.popped.symm.trans hstopped)
  have hwent : pops letterTable refusing
        (Pass.stack ⟨Pass.after ⟨{ table := letterTable, visitor := refusing }, refused⟩, plain⟩) =
      ⟨[ownNode, bareNode "Left", bareNode "Right", bareNode "Token", bareNode "Rest"], []⟩ := by
    rw [Pass.stack, hpending]
    change pops letterTable refusing [.obj ownNode, .obj (bareNode "Token"),
      .obj (bareNode "Rest")] = _
    rw [pops_ownNode, pops_bareNode (by decide) rfl, pops_bareNode (by decide) rfl, pops_nil]
  have hothers := (Popped.mk.inj (hsecond.popped.symm.trans hwent)).1
  have hcounts := And.intro hfirst.count hsecond.count
  rw [hnodes, hothers] at hcounts
  have hown := hsecond.settled ownNode (by rw [hothers]; exact List.mem_cons_self)
  refine ⟨hlisted, ?_, ?_⟩
  · simp only [history, List.map_cons, List.map_nil, hnodes, hothers, hcounts.1, hcounts.2]
    rfl
  · rw [← settled_ownNode]
    exact hown.gained rfl _ ((spanOf?_eq_some_iff _ _).mp rfl)

end TreeOffsets.Proofs.AnnotatorHistories
