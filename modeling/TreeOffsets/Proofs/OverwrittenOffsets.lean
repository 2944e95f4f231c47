import Mathlib.Logic.Relation
import TreeOffsets.Proofs.FinishedNodes

/-!
The offsets that a tree is given do not depend on those that it has. They take the place of what
stood in their fields, so a tree that has been annotated before, with any table, comes out like the
tree that it was made from.
-/

namespace TreeOffsets.Proofs.OverwrittenOffsets

open TreeOffsets.Proofs.FinishedNodes
open TreeOffsets.Proofs.LocatedTree
open TreeOffsets.Proofs.TreeInduction

section

variable {name other : Text} {fields : Fields}

theorem put_put (v w : Json) : Fields.put name v (Fields.put name w fields) =
    Fields.put name v fields := by
  induction fields with
  | nil => simp [Fields.put]
  | cons field fields ih =>
      obtain ⟨key, u⟩ := field
      by_cases hkey : key = name <;> simp [Fields.put, hkey, ih]

theorem put_comm_of_mem (hne : name ≠ other) (hmem : name ∈ Fields.names fields) (v w : Json) :
    Fields.put name v (Fields.put other w fields) =
      Fields.put other w (Fields.put name v fields) := by
  induction fields with
  | nil => cases hmem
  | cons field fields ih =>
      obtain ⟨key, u⟩ := field
      rw [Fields.names_cons, List.mem_cons] at hmem
      by_cases hname : key = name
      · subst hname
        simp [Fields.put, hne]
      · have hrest := ih (hmem.resolve_left (Ne.symm hname))
        by_cases hother : key = other
        · subst hother
          simp [Fields.put, hname]
        · simp [Fields.put, hname, hother, hrest]

theorem mem_names_put_self (v : Json) : name ∈ Fields.names (Fields.put name v fields) := by
  by_cases hname : name ∈ Fields.names fields
  · rwa [Fields.names_put_of_mem v hname]
  · rw [Fields.names_put_of_not_mem v hname]
    exact List.mem_append_right _ List.mem_cons_self

end

/-- Fields with values where the offsets go. -/
def stamped (first last : Json) (fields : Fields) : Fields :=
  Fields.put Node.endField last (Fields.put Node.startField first fields)

theorem stamped_stamped (first last first' last' : Json) (fields : Fields) :
    stamped first last (stamped first' last' fields) = stamped first last fields := by
  unfold stamped
  rw [put_comm_of_mem startField_ne_endField (mem_names_put_self first'), put_put, put_put]

section

variable {table : LineTable} {node : Fields} {span : Span}

theorem value?_stamped (first last : Json) {name : Text} (hstart : name ≠ Node.startField)
    (hend : name ≠ Node.endField) :
    Fields.value? (stamped first last node) name = Fields.value? node name := by
  rw [stamped, Fields.value?_put_of_ne hend, Fields.value?_put_of_ne hstart]

theorem spanOf?_stamped (first last : Json) :
    Node.spanOf? (stamped first last node) = Node.spanOf? node := by
  rw [Node.spanOf?, value?_stamped first last (by decide) (by decide), Node.spanOf?]

theorem locate_of_span (h : Node.spanOf? node = some span) :
    Node.locate table node = stamped (.int (Node.offset table span.first))
      (.int (Node.offset table span.last)) node := by
  rw [Node.locate, h]
  rfl

/-- What stood where the offsets go does not matter. -/
theorem locate_stamped (h : Node.spanOf? node = some span) (first last : Json) :
    Node.locate table (stamped first last node) = Node.locate table node := by
  rw [locate_of_span ((spanOf?_stamped first last).trans h), locate_of_span h, stamped_stamped]

theorem locate_locate (earlier : LineTable) (node : Fields) :
    Node.locate table (Node.locate earlier node) = Node.locate table node := by
  cases hspan : Node.spanOf? node with
  | none =>
      have hunchanged : Node.locate earlier node = node := locate_of_no_span hspan
      rw [hunchanged]
  | some span =>
      have hearlier : Node.locate earlier node = _ := locate_of_span hspan
      rw [hearlier, locate_stamped hspan]

end

def locatedValue (table : LineTable) (field : Text × Json) : Json :=
  if Node.isChild field then field.2.located table else field.2

section

variable {table : LineTable}

theorem locatedFields_eq_map (fields : Fields) :
    locatedFields table fields = fields.map fun field => (field.1, locatedValue table field) := by
  induction fields with
  | nil => rw [locatedFields, List.map_nil]
  | cons field fields ih =>
      obtain ⟨name, v⟩ := field
      rw [locatedFields, ih, List.map_cons]
      rfl

theorem locatedFields_put (name : Text) (v : Json) (fields : Fields) :
    locatedFields table (Fields.put name v fields) =
      Fields.put name (locatedValue table (name, v)) (locatedFields table fields) := by
  induction fields with
  | nil => simp [locatedFields, Fields.put, locatedValue]
  | cons field fields ih =>
      obtain ⟨key, w⟩ := field
      by_cases hkey : key = name <;> simp [locatedFields, Fields.put, locatedValue, hkey, ih]

theorem locatedFields_stamped (first last : Json) (fields : Fields) :
    locatedFields table (stamped first last fields) =
      stamped (locatedValue table (Node.startField, first))
        (locatedValue table (Node.endField, last)) (locatedFields table fields) := by
  rw [stamped, locatedFields_put, locatedFields_put, stamped]

/-- The offsets of a node may as well be given after those of the nodes under it: what is found
where they go is walked in vain. -/
theorem locatedFields_locate (earlier : LineTable) (fields : Fields) :
    locatedFields table (Node.locate earlier fields) =
      Node.locate earlier (locatedFields table fields) := by
  cases hspan : Node.spanOf? fields with
  | none =>
      rw [locate_of_no_span hspan, locate_of_no_span ((spanOf?_locatedFields fields).trans hspan)]
  | some span =>
      rw [locate_of_span hspan, locate_of_span ((spanOf?_locatedFields fields).trans hspan),
        locatedFields_stamped]
      rfl

theorem finished_of_leaf {node : Fields} (h : Node.isLeaf node = true) :
    finished table node = Node.locate table node := by
  rw [finished, h, if_pos rfl]

theorem finished_of_not_leaf {node : Fields} (h : Node.isLeaf node = false) :
    finished table node = Node.locate table (locatedFields table node) := by
  rw [finished, h, if_neg Bool.false_ne_true, locatedFields_locate]

end

theorem located_located (first second : LineTable) (v : Json) :
    (v.located first).located second = v.located second := by
  induction v using value_of_members with
  | scalar v hv => cases v <;> simp_all [Json.located, Json.isContainer]
  | arr items hitems =>
      simp only [Json.located, locatedItems_eq_map, List.map_map, Json.arr.injEq]
      exact List.map_congr_left hitems
  | obj node hnode =>
      have hfields : locatedFields second (locatedFields first node) =
          locatedFields second node := by
        simp only [locatedFields_eq_map, List.map_map]
        refine List.map_congr_left fun field hfield => ?_
        obtain ⟨name, v⟩ := field
        have hv := hnode (name, v) hfield
        cases hchild : Node.isChild (name, v) <;>
          simp [locatedValue, hchild, isChild_located, hv]
      rw [located_obj, located_obj, located_obj]
      cases hleaf : Node.isLeaf node with
      | true =>
          rw [finished_of_leaf ((isLeaf_finished node).trans hleaf),
            finished_of_leaf hleaf, finished_of_leaf hleaf, locate_locate]
      | false =>
          rw [finished_of_not_leaf ((isLeaf_finished node).trans hleaf),
            finished_of_not_leaf hleaf, finished_of_not_leaf hleaf, locatedFields_locate,
            locate_locate, hfields]

/-- One value is another one in which a node that says where it stands has some other value, of any
kind, in a field where an offset goes. The node is one that a walk comes to. -/
inductive Restamped : Json → Json → Prop
  | node {fields : Fields} {span : Span} {name : Text}
      (hspan : Node.spanOf? fields = some span)
      (hname : name = Node.startField ∨ name = Node.endField)
      (hmem : name ∈ Fields.names fields) (v : Json) :
      Restamped (.obj fields) (.obj (Fields.put name v fields))
  | item (before after : List Json) {v w : Json} (h : Restamped v w) :
      Restamped (.arr (before ++ v :: after)) (.arr (before ++ w :: after))
  | field (before after : Fields) {name : Text} {v w : Json}
      (hleaf : Node.isLeaf (before ++ (name, v) :: after) = false)
      (hchild : Node.isChild (name, v) = true) (h : Restamped v w) :
      Restamped (.obj (before ++ (name, v) :: after)) (.obj (before ++ (name, w) :: after))

/-- Two values differ only in what their nodes have where offsets go. -/
def DifferInOffsets : Json → Json → Prop := Relation.ReflTransGen Restamped

theorem stamped_put {name : Text} {fields : Fields}
    (hname : name = Node.startField ∨ name = Node.endField) (hmem : name ∈ Fields.names fields)
    (first last v : Json) :
    stamped first last (Fields.put name v fields) = stamped first last fields := by
  unfold stamped
  rcases hname with rfl | rfl
  · rw [put_put]
  · rw [← put_comm_of_mem startField_ne_endField.symm hmem, put_put]

section

variable {table : LineTable} {name : Text} {fields : Fields}

theorem value?_put {key : Text} (hname : name = Node.startField ∨ name = Node.endField)
    (hstart : key ≠ Node.startField) (hend : key ≠ Node.endField) (v : Json) :
    Fields.value? (Fields.put name v fields) key = Fields.value? fields key := by
  rcases hname with rfl | rfl
  · exact Fields.value?_put_of_ne hstart v fields
  · exact Fields.value?_put_of_ne hend v fields

theorem locate_put {span : Span} (hspan : Node.spanOf? fields = some span)
    (hname : name = Node.startField ∨ name = Node.endField) (hmem : name ∈ Fields.names fields)
    (v : Json) : Node.locate table (Fields.put name v fields) = Node.locate table fields := by
  have hput : Node.spanOf? (Fields.put name v fields) = some span := by
    rw [Node.spanOf?, value?_put hname (by decide) (by decide), ← Node.spanOf?, hspan]
  rw [locate_of_span hput, locate_of_span hspan, stamped_put hname hmem]

theorem finished_put {span : Span} (hspan : Node.spanOf? fields = some span)
    (hname : name = Node.startField ∨ name = Node.endField) (hmem : name ∈ Fields.names fields)
    (v : Json) : finished table (Fields.put name v fields) = finished table fields := by
  have hput : Node.isLeaf (Fields.put name v fields) = Node.isLeaf fields := by
    rw [Node.isLeaf, Node.tagOf, value?_put hname (by decide) (by decide), ← Node.tagOf,
      ← Node.isLeaf]
  cases hleaf : Node.isLeaf fields with
  | true =>
      rw [finished_of_leaf (hput.trans hleaf), finished_of_leaf hleaf, locate_put hspan hname hmem]
  | false =>
      have hnames : name ∈ Fields.names (locatedFields table fields) := by
        rwa [names_locatedFields]
      rw [finished_of_not_leaf (hput.trans hleaf), finished_of_not_leaf hleaf, locatedFields_put,
        locate_put ((spanOf?_locatedFields fields).trans hspan) hname hnames]

end

theorem Restamped.isContainer_eq {v w : Json} (h : Restamped v w) :
    w.isContainer = v.isContainer := by
  cases h <;> rfl

/-- A value is given the same offsets whatever its nodes have in their places. -/
theorem Restamped.located_eq {v w : Json} (h : Restamped v w) (table : LineTable) :
    w.located table = v.located table := by
  induction h with
  | node hspan hname hmem v => rw [located_obj, located_obj, finished_put hspan hname hmem]
  | item before after h ih =>
      simp only [Json.located, locatedItems_eq_map, List.map_append, List.map_cons, ih]
  | @field before after name v w hleaf hchild h ih =>
      have hvalue : locatedValue table (name, w) = locatedValue table (name, v) := by
        have hother : Node.isChild (name, w) = true := by
          rw [Node.isChild, h.isContainer_eq]
          exact hchild
        rw [locatedValue, locatedValue, if_pos hother, if_pos hchild, ih]
      have hfields : locatedFields table (before ++ (name, w) :: after) =
          locatedFields table (before ++ (name, v) :: after) := by
        simp only [locatedFields_eq_map, List.map_append, List.map_cons, hvalue]
      have hother : Node.isLeaf (before ++ (name, w) :: after) = false := by
        have hsame := congrArg Node.isLeaf hfields
        rwa [isLeaf_locatedFields, isLeaf_locatedFields, hleaf] at hsame
      rw [located_obj, located_obj, finished_of_not_leaf hother, finished_of_not_leaf hleaf,
        hfields]

theorem DifferInOffsets.located_eq {v w : Json} (h : DifferInOffsets v w) (table : LineTable) :
    w.located table = v.located table := by
  induction h with
  | refl => rfl
  | tail _ hstep ih => rw [hstep.located_eq, ih]

def AreListed (tokens : Json) : Prop := tokens.isTruthy = false ∨ ∃ items, tokens = .arr items

theorem Restamped.areListed {v w : Json} (h : Restamped v w) (hv : AreListed v) :
    AreListed w := by
  cases h with
  | node hspan hname hmem u =>
      rcases hv with hempty | ⟨items, hitems⟩
      · simp [Json.isTruthy] at hempty
        subst hempty
        cases hmem
      · cases hitems
  | item before after h => exact .inr ⟨_, rfl⟩
  | field before after hleaf hchild h =>
      rcases hv with hempty | ⟨items, hitems⟩
      · simp [Json.isTruthy] at hempty
      · cases hitems

theorem DifferInOffsets.areListed {v w : Json} (h : DifferInOffsets v w) (hv : AreListed v) :
    AreListed w := by
  induction h with
  | refl => exact hv
  | tail _ hstep ih => exact hstep.areListed ih

theorem areListed_located {tokens : Json} (h : AreListed tokens) (table : LineTable) :
    AreListed (tokens.located table) := by
  rw [located_of_listed h]
  cases tokens with
  | arr items => exact .inr ⟨_, rfl⟩
  | _ => exact h

/-- Two runs give back the same tree, the same tokens and the same count. -/
structure GivesSame (run other : Annotated) : Prop where
  tree : run.tree = other.tree
  tokens : run.tokens = other.tokens
  count : run.count = other.count

section

variable {table : LineTable}

theorem countLocated_finished (nodes : List Fields) :
    countLocated (nodes.map (finished table)) = countLocated nodes := by
  rw [countLocated, List.countP_map, countLocated]
  refine List.countP_congr fun node _ => ?_
  rw [Function.comp_apply, spanOf?_finished]

/-- How many nodes there are with offsets can be read off the tree that has them. -/
theorem countLocated_of_located_eq {v w : Json} (h : w.located table = v.located table) :
    countLocated (w.nodes table) = countLocated (v.nodes table) := by
  calc countLocated (w.nodes table)
      = countLocated ((w.located table).nodes table) := by rw [nodes_located, countLocated_finished]
    _ = countLocated ((v.located table).nodes table) := by rw [h]
    _ = countLocated (v.nodes table) := by rw [nodes_located, countLocated_finished]

theorem givesSame_of_located_eq {tree other tokens others : Json} (htokens : AreListed tokens)
    (hothers : AreListed others) (htree : other.located table = tree.located table)
    (heq : others.located table = tokens.located table) :
    GivesSame (Annotator.annotate { table } other others).1
      (Annotator.annotate { table } tree tokens).1 := by
  have hlisted : locatedItems table (listed others) = locatedItems table (listed tokens) := by
    rw [← listed_located, heq, listed_located]
  have hwhole : (Json.arr (other :: listed others)).located table =
      (Json.arr (tree :: listed tokens)).located table := by
    rw [Json.located, Json.located, locatedItems, locatedItems, htree, hlisted]
  have hcount := countLocated_of_located_eq hwhole
  rw [Json.nodes, Json.nodes] at hcount
  rw [annotate_standard other hothers, annotate_standard tree htokens]
  exact ⟨htree, heq, hcount⟩

end

/-- A tree and tokens that have been annotated with one table come out of an annotation with another
one as if they had not been annotated before, and so they do whatever values, of whatever kind,
stood where the offsets of their nodes go. -/
theorem annotate_again (first second : LineTable) (tree : Json) {tokens : Json}
    (htokens : tokens.isTruthy = false ∨ ∃ items, tokens = .arr items) :
    let once := (Annotator.annotate { table := first } tree tokens).1
    let direct := (Annotator.annotate { table := second } tree tokens).1
    GivesSame (Annotator.annotate { table := second } once.tree once.tokens).1 direct
      ∧ ∀ other others, DifferInOffsets tree other → DifferInOffsets tokens others →
        GivesSame (Annotator.annotate { table := second } other others).1 direct := by
  intro once direct
  have honce : once.tree = tree.located first ∧ once.tokens = tokens.located first := by
    simp only [once, annotate_standard tree htokens, and_self]
  constructor
  · rw [honce.1, honce.2]
    exact givesSame_of_located_eq htokens (areListed_located htokens first)
      (located_located first second tree) (located_located first second tokens)
  · intro other others htree hothers
    exact givesSame_of_located_eq htokens (hothers.areListed htokens)
      (htree.located_eq second) (hothers.located_eq second)

/-- A node whose `end` is an object is annotated twice, and once with a string in that place. -/
theorem annotate_again_coveredNode :
    let first := LineTable.ofText .utf16 (Text.ofString "\n😀")
    let second := LineTable.ofText .codePoint (Text.ofString "ab")
    let tokens := Json.arr [.obj coveredNode]
    let other := Fields.put Node.endField (.ofString "later") coveredNode
    let once := (Annotator.annotate { table := first } (.obj coveredNode) tokens).1
    let direct := (Annotator.annotate { table := second } (.obj coveredNode) tokens).1
    (∃ items, tokens = .arr items) ∧ DifferInOffsets (.obj coveredNode) (.obj other)
      ∧ GivesSame (Annotator.annotate { table := second } once.tree once.tokens).1 direct
      ∧ GivesSame (Annotator.annotate { table := second } (.obj other) tokens).1 direct := by
  intro first second tokens other once direct
  have hother : DifferInOffsets (.obj coveredNode) (.obj other) :=
    .single (.node rfl (.inr rfl) (by decide) _)
  have htokens : ∃ items, tokens = .arr items := ⟨_, rfl⟩
  obtain ⟨hagain, hsame⟩ := annotate_again first second (.obj coveredNode) (.inr htokens)
  exact ⟨htokens, hother, hagain, hsame _ _ hother .refl⟩

end TreeOffsets.Proofs.OverwrittenOffsets
