import TreeOffsets.Proofs.LineSpans
import TreeOffsets.Proofs.ParserPlaces

namespace TreeOffsets.Proofs.DocumentOrder

open TreeOffsets.CodePoint
open TreeOffsets.Proofs.Columns
open TreeOffsets.Proofs.FinishedNodes
open TreeOffsets.Proofs.LineCuts
open TreeOffsets.Proofs.LineSpans
open TreeOffsets.Proofs.LocatedTree
open TreeOffsets.Proofs.ParserPlaces

section

variable {t : Text}

theorem locate_le_end (unit : ColumnUnit) (h : t.IsScalar) (cut : LineCut t) {line : Int}
    (hline : line = cut.number) (column : Int) :
    (LineTable.ofText unit t).locate line column ≤ cut.before.length + cut.line.length := by
  rw [locate_cut unit h cut hline]
  exact Nat.add_le_add_left (codePoints_le_length unit column cut.line) _

theorem locate_le_total (unit : ColumnUnit) (h : t.IsScalar) (line column : Int) :
    (LineTable.ofText unit t).locate line column ≤ t.length + 1 := by
  by_cases hline : 1 ≤ line ∧ line ≤ (LineTable.ofText unit t).lines.length
  · obtain ⟨cut, hcut⟩ := exists_cut unit hline.1 hline.2
    have hend := locate_le_end unit h cut hcut column
    have hlength := end_le_length cut
    omega
  · rw [locate_of_no_line unit t column (by omega)]

theorem locate_lt (unit : ColumnUnit) (h : t.IsScalar) {p q : Position} (hfirst : 1 ≤ p.line)
    (hlast : p.line ≤ (LineTable.ofText unit t).lines.length) (hlt : p.line < q.line) :
    (LineTable.ofText unit t).locate p.line p.column <
      (LineTable.ofText unit t).locate q.line q.column := by
  obtain ⟨cut, hcut⟩ := exists_cut unit hfirst hlast
  have hend := locate_le_end unit h cut hcut p.column
  by_cases hq : q.line ≤ (LineTable.ofText unit t).lines.length
  · obtain ⟨later, hlater⟩ := exists_cut unit (by omega) hq
    have hbegin : cut.before.length + cut.line.length < later.before.length :=
      end_lt_of_number_lt (by omega)
    rw [locate_cut unit h later hlater]
    omega
  · -- A place on no line is past the line feed that the last line would have.
    have hlength := end_le_length cut
    rw [locate_of_no_line unit t q.column (by omega)]
    omega

theorem locate_le (unit : ColumnUnit) (h : t.IsScalar) {p q : Position} (hfirst : 1 ≤ p.line)
    (horder : NotAfter p q) :
    (LineTable.ofText unit t).locate p.line p.column ≤
      (LineTable.ofText unit t).locate q.line q.column := by
  by_cases hlast : p.line ≤ (LineTable.ofText unit t).lines.length
  · rcases horder with hlt | ⟨heq, hcolumn⟩
    · exact Nat.le_of_lt (locate_lt unit h hfirst hlast hlt)
    · obtain ⟨cut, hcut⟩ := exists_cut unit hfirst hlast
      rw [locate_cut unit h cut hcut, locate_cut unit h cut (heq.symm.trans hcut)]
      exact Nat.add_le_add_left (codePoints_mono unit hcolumn cut.line) _
  · have hq : p.line ≤ q.line := by
      rcases horder with hlt | ⟨heq, -⟩ <;> omega
    rw [locate_of_no_line unit t p.column (by omega), locate_of_no_line unit t q.column (by omega)]

end

def HasLines (span : Span) : Prop := 1 ≤ span.first.line.toInt ∧ 1 ≤ span.last.line.toInt

def HasRange (node : Fields) (first last : Nat) : Prop :=
  Fields.value? node Node.startField = some (.int first)
    ∧ Fields.value? node Node.endField = some (.int last)

/-- The nodes of the tree and of the tokens that a run gives back. -/
def givenNodes (table : LineTable) (run : Annotated) : List Fields :=
  run.tree.nodes table ++ itemsNodes table (listed run.tokens)

/-- What a run gives back has the visited nodes as its nodes, and their offsets are in the order of
their places. -/
structure KeepsOrder (table : LineTable) (run : Annotated) : Prop where
  nodes : givenNodes table run = run.nodes.map (finished table)
  ordered : ∀ node ∈ givenNodes table run, ∀ span, Node.spanOf? node = some span →
    HasLines span → NotAfter (placeOf span.first) (placeOf span.last) →
      ∃ first last, HasRange node first last ∧ first ≤ last
  nested : ∀ outer ∈ givenNodes table run, ∀ inner ∈ givenNodes table run,
    ∀ outerSpan innerSpan, Node.spanOf? outer = some outerSpan →
      Node.spanOf? inner = some innerSpan → HasLines outerSpan → HasLines innerSpan →
      NotAfter (placeOf outerSpan.first) (placeOf innerSpan.first) →
      NotAfter (placeOf innerSpan.last) (placeOf outerSpan.last) →
        ∃ outerFirst outerLast innerFirst innerLast, HasRange outer outerFirst outerLast
          ∧ HasRange inner innerFirst innerLast ∧ outerFirst ≤ innerFirst ∧ innerLast ≤ outerLast

section

variable {table : LineTable}

theorem givenNodes_annotate (tree : Json) {tokens : Json}
    (h : tokens.isTruthy = false ∨ ∃ items, tokens = .arr items) :
    givenNodes table (Annotator.annotate { table } tree tokens).1 =
      (Annotator.annotate { table } tree tokens).1.nodes.map (finished table) := by
  rw [annotate_standard tree h, givenNodes, nodes_located, listed_located,
    (finished_cases table).items_of, itemsNodes, List.map_append]

theorem hasRange_of_mem {tree tokens : Json}
    (h : tokens.isTruthy = false ∨ ∃ items, tokens = .arr items) {node : Fields}
    (hnode : node ∈ givenNodes table (Annotator.annotate { table } tree tokens).1) {span : Span}
    (hspan : Node.spanOf? node = some span) :
    HasRange node (Node.offset table span.first) (Node.offset table span.last) := by
  rw [givenNodes_annotate tree h, List.mem_map] at hnode
  obtain ⟨found, -, rfl⟩ := hnode
  rw [spanOf?_finished] at hspan
  exact offsets_finished hspan

theorem keepsOrder_annotate (unit : ColumnUnit) {t : Text} (hscalar : t.IsScalar) (tree : Json)
    {tokens : Json} (h : tokens.isTruthy = false ∨ ∃ items, tokens = .arr items) :
    KeepsOrder (LineTable.ofText unit t)
      (Annotator.annotate { table := LineTable.ofText unit t } tree tokens).1 where
  nodes := givenNodes_annotate tree h
  ordered := by
    intro node hnode span hspan hlines horder
    exact ⟨_, _, hasRange_of_mem h hnode hspan, locate_le unit hscalar hlines.1 horder⟩
  nested := by
    intro outer houter inner hinner outerSpan innerSpan houterSpan hinnerSpan houterLines
      hinnerLines hfirst hlast
    exact ⟨_, _, _, _, hasRange_of_mem h houter houterSpan, hasRange_of_mem h hinner hinnerSpan,
      locate_le unit hscalar houterLines.1 hfirst, locate_le unit hscalar hinnerLines.2 hlast⟩

end

/-- Offsets keep the order of places on lines from 1 on: they are at most one past the end of the
text, and places on different lines have different offsets if the earlier line exists. So a node has
its offsets in order if its places are, and a node that stands within another one has its offsets
within those of the other. -/
theorem locate_keepsOrder (unit : ColumnUnit) {t : Text} (h : t.IsScalar) :
    let table := LineTable.ofText unit t
    (∀ p q : Position, 1 ≤ p.line → NotAfter p q →
        table.locate p.line p.column ≤ table.locate q.line q.column
          ∧ table.locate q.line q.column ≤ t.length + 1
          ∧ (p.line < q.line → p.line ≤ table.lines.length →
            table.locate p.line p.column < table.locate q.line q.column))
      ∧ ∀ tree tokens, tokens.isTruthy = false ∨ (∃ items, tokens = .arr items) →
        KeepsOrder table (Annotator.annotate { table } tree tokens).1 :=
  ⟨fun _ _ hline horder => ⟨locate_le unit h hline horder, locate_le_total unit h _ _,
      fun hlt hlast => locate_lt unit h hline hlast hlt⟩,
    fun tree _ htokens => keepsOrder_annotate unit h tree htokens⟩

def placedNode (p q : Position) (body : Json) : Fields :=
  let mark (place : Position) : Json :=
    .obj [(Text.ofString "line", .int place.line), (Text.ofString "column", .int place.column)]
  [(Node.spanField, .obj [(Text.ofString "start", mark p), (Text.ofString "end", mark q)]),
    (Text.ofString "body", body)]

def innerNode : Fields := placedNode ⟨2, 0⟩ ⟨2, 1⟩ .null

def outerNode : Fields := placedNode ⟨1, 1⟩ ⟨2, 9⟩ (.arr [.obj innerNode])

theorem nodes_placedNode (table : LineTable) (p q : Position) (body : Json) :
    (Json.obj (placedNode p q body)).nodes table =
      placedNode p q body :: if body.isContainer then body.nodes table else [] := by
  obtain ⟨loc, first, last, hlocate⟩ : ∃ loc first last,
      Node.locate table (placedNode p q body) =
        [(Node.spanField, loc), (Text.ofString "body", body), (Node.startField, .int first),
          (Node.endField, .int last)] := ⟨_, _, _, rfl⟩
  have hleaf : Node.isLeaf (placedNode p q body) = false := rfl
  have hbody : Text.ofString "body" ≠ Node.spanField := by decide
  rw [Json.nodes, hleaf, hlocate]
  cases body <;> simp [fieldsNodes, Node.isChild, Json.isContainer, hbody]

theorem inner_within_outer :
    let table := LineTable.ofText .utf16 (Text.ofString "ab\ncd")
    (Text.ofString "ab\ncd").IsScalar ∧ table.locate 1 5 < table.locate 2 (-3)
      ∧ ∃ outerFirst outerLast innerFirst innerLast,
        HasRange (finished table outerNode) outerFirst outerLast
          ∧ HasRange (finished table innerNode) innerFirst innerLast
          ∧ outerFirst ≤ innerFirst ∧ innerLast ≤ outerLast := by
  have hscalar : (Text.ofString "ab\ncd").IsScalar := by decide
  obtain ⟨horder, hkeeps⟩ := locate_keepsOrder .utf16 hscalar
  have hlt := (horder ⟨1, 5⟩ ⟨2, -3⟩ (by decide) (.inl (by decide))).2.2 (by decide) (by decide)
  have hrun := hkeeps (.obj outerNode) .null (.inl rfl)
  have hnodes : (Annotator.annotate { table := LineTable.ofText .utf16 (Text.ofString "ab\ncd") }
      (.obj outerNode) .null).1.nodes = [outerNode, innerNode] := by
    rw [annotate_standard _ (.inl rfl)]
    change itemsNodes _ [.obj outerNode] = _
    rw [itemsNodes, itemsNodes, List.append_nil, outerNode, nodes_placedNode]
    change _ :: (Json.arr [.obj innerNode]).nodes _ = _
    rw [Json.nodes, itemsNodes, itemsNodes, List.append_nil, innerNode, nodes_placedNode]
    rfl
  have hgiven := hrun.nodes
  rw [hnodes] at hgiven
  refine ⟨hscalar, hlt, hrun.nested _ ?_ _ ?_ _ _ (spanOf?_finished _) (spanOf?_finished _)
    ⟨by decide, by decide⟩ ⟨by decide, by decide⟩ (.inl (by decide)) (.inr ⟨rfl, by decide⟩)⟩
  · rw [hgiven]
    exact List.mem_cons_self
  · rw [hgiven]
    exact List.mem_cons_of_mem _ List.mem_cons_self

end TreeOffsets.Proofs.DocumentOrder
