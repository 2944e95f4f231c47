import Mathlib.Data.List.Induction
import TreeOffsets.Parse.Parser
import TreeOffsets.Proofs.Columns
import TreeOffsets.Proofs.FinishedNodes
import TreeOffsets.Proofs.LineCuts

namespace TreeOffsets.Proofs.ParserPlaces

open TreeOffsets.CodePoint
open TreeOffsets.Proofs.Columns
open TreeOffsets.Proofs.FinishedNodes
open TreeOffsets.Proofs.LineCuts
open TreeOffsets.Proofs.LocatedTree

/-- A code point in front of a text ends a line for a parser. -/
def Breaks (c : CodePoint) (s : Text) : Prop :=
  c.EndsLine ∧ ¬(c = carriageReturn ∧ s.head? = some newline)

instance (c : CodePoint) (s : Text) : Decidable (Breaks c s) := by
  unfold Breaks
  infer_instance

theorem lineBegins_cons (start : Nat) (c : CodePoint) (t : Text) :
    Text.lineBegins start (c :: t) =
      if Breaks c t then (start + 1) :: Text.lineBegins (start + 1) t
      else Text.lineBegins (start + 1) t := rfl

theorem lt_of_mem_lineBegins {start b : Nat} {t : Text} (h : b ∈ Text.lineBegins start t) :
    start < b := by
  induction t generalizing start with
  | nil => cases h
  | cons c t ih =>
      rw [lineBegins_cons] at h
      split at h
      · rcases List.mem_cons.mp h with rfl | hrest
        · exact Nat.lt_succ_self start
        · exact Nat.lt_of_succ_lt (ih hrest)
      · exact Nat.lt_of_succ_lt (ih h)

theorem lineBegins_filter_eq_nil {start n : Nat} (h : n ≤ start) (t : Text) :
    (Text.lineBegins start t).filter (fun b => decide (b ≤ n)) = [] := by
  rw [List.filter_eq_nil_iff]
  intro b hb
  have hlt := lt_of_mem_lineBegins hb
  rw [decide_eq_true_eq]
  omega

theorem lineBegins_filter_succ (start : Nat) (s : Text) (c : CodePoint) (r : Text) :
    (Text.lineBegins start (s ++ c :: r)).filter
        (fun b => decide (b ≤ start + (s.length + 1))) =
      (Text.lineBegins start (s ++ c :: r)).filter (fun b => decide (b ≤ start + s.length)) ++
        if Breaks c r then [start + (s.length + 1)] else [] := by
  induction s generalizing start with
  | nil =>
      have hnow := lineBegins_filter_eq_nil (Nat.le_succ start) r
      have hnext := lineBegins_filter_eq_nil (Nat.le_refl (start + 1)) r
      rw [List.nil_append, lineBegins_cons]
      split <;> simp [hnow, hnext]
  | cons d s ih =>
      have hshift := ih (start + 1)
      have hlong : start + 1 + (s.length + 1) = start + ((d :: s).length + 1) := by
        rw [List.length_cons]
        omega
      have hshort : start + 1 + s.length = start + (d :: s).length := by
        rw [List.length_cons]
        omega
      rw [hlong, hshort] at hshift
      rw [List.cons_append, lineBegins_cons]
      split
      · rw [List.filter_cons_of_pos (by simp), List.filter_cons_of_pos (by simp), hshift,
          List.cons_append]
      · exact hshift

theorem lineBeginsTo_succ (s : Text) (c : CodePoint) (r : Text) :
    Text.lineBeginsTo (s ++ c :: r) (s.length + 1) =
      Text.lineBeginsTo (s ++ c :: r) s.length ++ if Breaks c r then [s.length + 1] else [] := by
  have hsucc := lineBegins_filter_succ 0 s c r
  simp only [Nat.zero_add] at hsucc
  exact hsucc

theorem lineBeginsTo_zero (t : Text) : Text.lineBeginsTo t 0 = [] :=
  lineBegins_filter_eq_nil (Nat.le_refl 0) t

theorem breaks_newline (r : Text) : Breaks newline r := by
  refine ⟨.inl rfl, ?_⟩
  rintro ⟨h, -⟩
  exact absurd h (by decide)

/-- Every line of the table is a line of the parser too. -/
theorem count_newline_le (s r : Text) :
    s.count newline ≤ (Text.lineBeginsTo (s ++ r) s.length).length := by
  induction s using List.reverseRecOn generalizing r with
  | nil => exact Nat.zero_le _
  | append_singleton s c ih =>
      have hs := ih (c :: r)
      rw [List.append_assoc, List.singleton_append, List.length_append, List.length_singleton,
        lineBeginsTo_succ, List.count_append, List.length_append]
      by_cases hc : c = newline
      · subst hc
        rw [if_pos (breaks_newline r), List.count_singleton_self, List.length_singleton]
        omega
      · rw [List.count_singleton, if_neg (by simpa using hc)]
        omega

theorem hasPlainLines_of_append {s r : Text} (h : Text.HasPlainLines (s ++ r)) :
    Text.HasPlainLines r := by
  induction s with
  | nil => exact h
  | cons c s ih => exact ih h.2

theorem breaks_iff_of_plain {c : CodePoint} {r : Text} (h : Text.HasPlainLines (c :: r)) :
    Breaks c r ↔ c = newline := by
  constructor
  · rintro ⟨hends, hpair⟩
    rcases h.1 hends with hc | hc
    · exact hc
    · exact absurd hc hpair
  · rintro rfl
    exact breaks_newline r

theorem lastColumn_append_singleton (s : Text) (c : CodePoint) :
    Text.lastColumn (s ++ [c]) = if c = newline then 0 else Text.lastColumn s + 1 := by
  by_cases hc : c = newline <;> simp [Text.lastColumn, hc]

theorem lineBeginsTo_of_plain {s r : Text} (h : Text.HasPlainLines (s ++ r)) :
    (Text.lineBeginsTo (s ++ r) s.length).length = s.count newline
      ∧ (Text.lineBeginsTo (s ++ r) s.length).getLastD 0 + Text.lastColumn s = s.length := by
  induction s using List.reverseRecOn generalizing r with
  | nil =>
      rw [List.length_nil, lineBeginsTo_zero]
      exact ⟨rfl, rfl⟩
  | append_singleton s c ih =>
      rw [List.append_assoc, List.singleton_append] at h ⊢
      obtain ⟨hlength, hlast⟩ := ih h
      rw [List.length_append, List.length_singleton, lineBeginsTo_succ, List.count_append,
        lastColumn_append_singleton]
      have hbreaks := breaks_iff_of_plain (hasPlainLines_of_append h)
      by_cases hc : c = newline
      · subst hc
        rw [if_pos (breaks_newline r), if_pos rfl, List.length_append, hlength,
          List.count_singleton_self, List.getLastD_concat]
        exact ⟨rfl, rfl⟩
      · rw [if_neg fun hb => hc (hbreaks.mp hb), if_neg hc, List.append_nil, hlength,
          List.count_singleton, if_neg (by simpa using hc)]
        exact ⟨rfl, by omega⟩

theorem parserPosition_of_plain {t : Text} (h : t.HasPlainLines) (cut : LineCut t)
    {column : Nat} (hcolumn : column ≤ cut.line.length) :
    t.parserPosition (cut.before.length + column) =
      ⟨cut.number, Text.width (cut.line.take column)⟩ := by
  have hoffset : (t.take (cut.before.length + column)).length = cut.before.length + column := by
    rw [cut.take_eq hcolumn, List.length_append, List.length_take, Nat.min_eq_left hcolumn]
  have happend := List.take_append_drop (cut.before.length + column) t
  obtain ⟨hlength, hlast⟩ := lineBeginsTo_of_plain (happend.symm ▸ h)
  rw [happend, hoffset] at hlength hlast
  have hnumber : (t.take (cut.before.length + column)).count newline + 1 = cut.number :=
    cut.lastLine_take hcolumn
  rw [cut.lastColumn_take hcolumn] at hlast
  have hbegin : (t.lineBeginsTo (cut.before.length + column)).getLastD 0 =
      cut.before.length := by omega
  have hline : ((t.lineBeginsTo (cut.before.length + column)).length : Int) + 1 =
      cut.number := by omega
  simp only [Text.parserPosition, hbegin, hline, cut.take_eq hcolumn, List.drop_left]

/-- In a text with plain lines the table finds its way back from every place of the parser. -/
theorem locate_parserPosition {t : Text} (hscalar : t.IsScalar) (h : t.HasPlainLines)
    {offset : Nat} (hoffset : offset ≤ t.length) :
    (LineTable.ofText .utf16 t).locate (t.parserPosition offset).line
      (t.parserPosition offset).column = offset := by
  obtain ⟨cut, column, hcolumn, rfl⟩ := LineCut.exists_of_offset hoffset
  have hlength := length_before .utf16 (Text.width (cut.line.take column))
    (cut.isScalar_line hscalar)
  have hcover := cover_width_append (cut.line.take column) (cut.line.drop column)
  rw [List.take_append_drop, List.length_take, Nat.min_eq_left hcolumn] at hcover
  rw [parserPosition_of_plain h cut hcolumn, cut.locate_number, hlength]
  simp only [ColumnUnit.codePoints, Int.toNat_natCast, hcover]

theorem exists_breaks_of_not_plain {t : Text} (h : ¬t.HasPlainLines) :
    ∃ s c r, t = s ++ c :: r ∧ Breaks c r ∧ c ≠ newline := by
  induction t with
  | nil => exact absurd trivial h
  | cons c t ih =>
      by_cases htail : Text.HasPlainLines t
      · have hc : ¬(c.EndsLine → c = newline ∨ c = carriageReturn ∧ t.head? = some newline) :=
          fun hc => h ⟨hc, htail⟩
        simp only [Classical.not_imp, not_or] at hc
        exact ⟨[], c, t, rfl, ⟨hc.1, hc.2.2⟩, hc.2.1⟩
      · obtain ⟨s, d, r, rfl, hbreaks, hd⟩ := ih htail
        exact ⟨c :: s, d, r, rfl, hbreaks, hd⟩

theorem parserPosition_of_breaks {s : Text} {c : CodePoint} {r : Text} (hbreaks : Breaks c r) :
    (s ++ c :: r).parserPosition (s.length + 1) =
      ⟨(((s ++ c :: r).lineBeginsTo s.length).length + 2 : Nat), 0⟩ := by
  have hbegins := lineBeginsTo_succ s c r
  rw [if_pos hbreaks] at hbegins
  have htake : ((s ++ c :: r).take (s.length + 1)).drop (s.length + 1) = [] := by
    rw [List.drop_eq_nil_iff, List.length_take]
    exact Nat.min_le_left _ _
  simp only [Text.parserPosition, hbegins, List.length_append, List.length_singleton,
    List.getLastD_concat, htake]
  rfl

/-- After a line end that is no line feed the parser is on a line that the table begins later. -/
theorem locate_parserPosition_ne {s : Text} {c : CodePoint} {r : Text} (hbreaks : Breaks c r)
    (hc : c ≠ newline) :
    (LineTable.ofText .utf16 (s ++ c :: r)).locate
        ((s ++ c :: r).parserPosition (s.length + 1)).line
        ((s ++ c :: r).parserPosition (s.length + 1)).column ≠ s.length + 1 := by
  have hle := count_newline_le s (c :: r)
  simp only [parserPosition_of_breaks hbreaks]
  generalize ((s ++ c :: r).lineBeginsTo s.length).length = n at hle ⊢
  cases htext : (LineTable.ofText .utf16 (s ++ c :: r)).lines[n + 1]? with
  | none =>
      have hlength := List.getElem?_eq_none_iff.mp htext
      rw [locate_of_no_line .utf16 _ _ (.inr (by omega)), List.length_append, List.length_cons]
      omega
  | some text =>
      obtain ⟨cut, hnumber, -⟩ := LineCut.exists_of_line htext
      rw [← hnumber, cut.locate_number]
      intro hoffset
      -- The line would begin after the same prefix, which has too few line feeds for its number.
      have hbefore : cut.before = s ++ [c] := by
        have hlength : cut.before.length + 0 = s.length + 1 := hoffset
        have hprefix := cut.take_eq (Nat.zero_le _)
        rw [hlength, List.take_length_add_append, List.take_succ_cons, List.take_zero,
          List.take_zero, List.append_nil] at hprefix
        exact hprefix.symm
      rw [LineCut.number, hbefore, List.count_append, List.count_singleton,
        if_neg (by simpa using hc)] at hnumber
      omega

theorem locate_parserPosition_iff {t : Text} (h : t.IsScalar) :
    (∀ offset ≤ t.length, (LineTable.ofText .utf16 t).locate (t.parserPosition offset).line
      (t.parserPosition offset).column = offset) ↔ t.HasPlainLines := by
  constructor
  · intro hexact
    by_contra hplain
    obtain ⟨s, c, r, rfl, hbreaks, hc⟩ := exists_breaks_of_not_plain hplain
    refine locate_parserPosition_ne hbreaks hc (hexact (s.length + 1) ?_)
    rw [List.length_append, List.length_cons]
    omega
  · intro hplain offset hoffset
    exact locate_parserPosition h hplain hoffset

def placeOf (mark : Mark) : Position := ⟨mark.line.toInt, mark.column.toInt⟩

/-- Every node of a tree that stands between the parser's places of two offsets of a text has these
two offsets. -/
def HasExactOffsets (t : Text) (tree : Json) : Prop :=
  ∀ node ∈ tree.nodes (LineTable.ofText .utf16 t), ∀ (span : Span) (i j : Nat),
    i ≤ t.length → j ≤ t.length → Node.spanOf? node = some span →
    placeOf span.first = t.parserPosition i → placeOf span.last = t.parserPosition j →
    Fields.value? node Node.startField = some (.int i)
      ∧ Fields.value? node Node.endField = some (.int j)

theorem annotateTree_eq (table : LineTable) (tree : Json) :
    annotateTree table tree = (tree.located table, countLocated (tree.nodes table)) := by
  have hnone : listed .null = [] := rfl
  rw [annotateTree, annotate_standard tree (.inl rfl), hnone, itemsNodes, itemsNodes,
    List.append_nil]

theorem exists_located_of_outcomeOf {t : Text} {report tree : Json}
    (h : Parser.outcomeOf t report = .ok (.success (.value tree))) :
    ∃ original : Json, tree = original.located (LineTable.ofText .utf16 t) := by
  unfold Parser.outcomeOf at h
  split at h
  · cases h
  · split at h <;> cases h
  · split at h
    · cases h
    · next original _ =>
        rw [annotateTree_eq] at h
        refine ⟨original, ?_⟩
        generalize original.located (LineTable.ofText .utf16 t) = located at h ⊢
        cases located <;> cases h <;> rfl

theorem hasExactOffsets_of_plain {t : Text} (hscalar : t.IsScalar) (h : t.HasPlainLines)
    {report tree : Json} (houtcome : Parser.outcomeOf t report = .ok (.success (.value tree))) :
    HasExactOffsets t tree := by
  obtain ⟨original, rfl⟩ := exists_located_of_outcomeOf houtcome
  intro node hnode span i j hi hj hspan hfirst hlast
  rw [nodes_located, List.mem_map] at hnode
  obtain ⟨node, -, rfl⟩ := hnode
  rw [spanOf?_finished] at hspan
  have hoffset : ∀ (mark : Mark) (k : Nat), k ≤ t.length → placeOf mark = t.parserPosition k →
      Node.offset (LineTable.ofText .utf16 t) mark = k := by
    intro mark k hk hmark
    have hlocate := locate_parserPosition hscalar h hk
    rw [← hmark] at hlocate
    exact hlocate
  rw [← hoffset span.first i hi hfirst, ← hoffset span.last j hj hlast]
  exact offsets_finished hspan

def pointNode (place : Position) : Fields :=
  let json : Json := .obj [(Text.ofString "line", .int place.line),
    (Text.ofString "column", .int place.column)]
  [(Text.ofString "loc", .obj [(Text.ofString "start", json), (Text.ofString "end", json)])]

theorem spanOf?_pointNode (place : Position) :
    Node.spanOf? (pointNode place) =
      some ⟨⟨.int place.line, .int place.column⟩, ⟨.int place.line, .int place.column⟩⟩ := rfl

theorem outcomeOf_result (t : Text) (node : Fields) :
    Parser.outcomeOf t (.obj [(Text.ofString "result", .obj node)]) =
      .ok (.success (.value ((Json.obj node).located (LineTable.ofText .utf16 t)))) := by
  have hmentions : (Json.obj [(Text.ofString "result", .obj node)]).mentions
      (Text.ofString "error") = .ok false := rfl
  have hmember : (Json.obj [(Text.ofString "result", .obj node)]).member
      (Text.ofString "result") = .ok (.obj node) := rfl
  simp only [Parser.outcomeOf, hmentions, hmember, annotateTree_eq, located_obj]
  rfl

theorem plain_of_hasExactOffsets {t : Text} (hscalar : t.IsScalar)
    (h : ∀ report tree, Parser.outcomeOf t report = .ok (.success (.value tree)) →
      HasExactOffsets t tree) : t.HasPlainLines := by
  rw [← locate_parserPosition_iff hscalar]
  intro offset hoffset
  have hmem : finished (LineTable.ofText .utf16 t) (pointNode (t.parserPosition offset)) ∈
      ((Json.obj (pointNode (t.parserPosition offset))).located
        (LineTable.ofText .utf16 t)).nodes (LineTable.ofText .utf16 t) := by
    rw [nodes_located, Json.nodes, List.map_cons]
    exact List.mem_cons_self
  have hspan := spanOf?_pointNode (t.parserPosition offset)
  have hexact := (h _ _ (outcomeOf_result t _) _ hmem _ offset offset hoffset hoffset
    ((spanOf?_finished _).trans hspan) rfl rfl).1
  rw [(offsets_finished hspan).1] at hexact
  have hcast := Json.int.inj (Option.some.inj hexact)
  exact Int.ofNat.inj hcast

theorem exists_report_of_parseText {parser : Parser} {response : Response} {t : Text}
    {outcome : Outcome} (h : (parser.parseText response t).result = .ok outcome) :
    ∃ report, Parser.outcomeOf t report = .ok outcome := by
  by_cases hshort : parser.options.toJson.HasShortIntegers
  · rw [Parser.parseText_of_hasShortIntegers response t hshort] at h
    dsimp only at h
    split at h
    · cases h
    · next report _ => exact ⟨report, h⟩
  · rw [Parser.parseText_of_not_hasShortIntegers response t hshort] at h
    cases h

/-- The table of a text leads every place of the parser back to its offset exactly if each carriage
return in the text stands before a line feed and there are no separators. Exactly then every parse
of the text gives exact offsets to all the nodes that it visits. -/
theorem exact_iff_hasPlainLines {t : Text} (h : t.IsScalar) :
    ((∀ offset ≤ t.length, (LineTable.ofText .utf16 t).locate (t.parserPosition offset).line
        (t.parserPosition offset).column = offset) ↔ t.HasPlainLines)
      ∧ ((∀ report tree, Parser.outcomeOf t report = .ok (.success (.value tree)) →
        HasExactOffsets t tree) ↔ t.HasPlainLines)
      ∧ (t.HasPlainLines → ∀ (parser : Parser) (response : Response) (tree : Json),
        (parser.parseText response t).result = .ok (.success (.value tree)) →
          HasExactOffsets t tree) := by
  refine ⟨locate_parserPosition_iff h, ⟨plain_of_hasExactOffsets h, ?_⟩, ?_⟩
  · intro hplain report tree
    exact hasExactOffsets_of_plain h hplain
  · intro hplain parser response tree hresult
    obtain ⟨report, hreport⟩ := exists_report_of_parseText hresult
    exact hasExactOffsets_of_plain h hplain hreport

theorem exact_pair_after_carriageReturn :
    (Text.ofString "a\r\n😀b").IsScalar
      ∧ ∀ offset ≤ 5, (LineTable.ofText .utf16 (Text.ofString "a\r\n😀b")).locate
          ((Text.ofString "a\r\n😀b").parserPosition offset).line
          ((Text.ofString "a\r\n😀b").parserPosition offset).column = offset := by
  have hscalar : (Text.ofString "a\r\n😀b").IsScalar := by decide
  exact ⟨hscalar, (exact_iff_hasPlainLines hscalar).1.mpr (by decide)⟩

end TreeOffsets.Proofs.ParserPlaces
