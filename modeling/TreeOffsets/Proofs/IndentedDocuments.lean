import TreeOffsets.Proofs.ReadBack

/-!
An indented document is read back as the value that it was written for. A document that breaks off
between two of its chunks is refused, wherever that is: something is always open until the last
chunk is there.
-/

namespace TreeOffsets.Proofs.IndentedDocuments

open TreeOffsets.Json
open TreeOffsets.Json.Token
open TreeOffsets.Proofs.NumberTokens
open TreeOffsets.Proofs.ReadBack
open TreeOffsets.Proofs.ScalarTokens
open TreeOffsets.Proofs.StringTokens
open TreeOffsets.Proofs.TreeInduction

theorem isGap_newLine (depth : Nat) : IsGap (newLine depth) := by
  refine List.forall_mem_cons.mpr ⟨rfl, fun c hc => ?_⟩
  rw [List.eq_of_mem_replicate hc]
  rfl

theorem readOn_line {r next : Reading} {mark : String} {c : CodePoint} {token : Token}
    (hmark : Text.ofString mark = [c]) (hc : Token.mark? c = some token)
    (hstep : ∀ here, r.step token here = .ok next) (depth : Nat) (rest : Text) :
    readOn r (Text.ofString mark ++ newLine depth ++ rest) = readOn next rest := by
  rw [hmark, List.append_assoc, List.singleton_append, readOn_mark hc (hstep _),
    readOn_gap (isGap_newLine depth)]

def valueText (depth : Nat) (v : Json) : Text := (chunks depth v).flatMap Chunk.spelled

def lineGaps (depth : Nat) : Gaps where
  first := newLine (depth + 1)
  next := newLine (depth + 1)
  last := newLine depth

theorem areBlank_lineGaps (depth : Nat) : (lineGaps depth).AreBlank :=
  ⟨isGap_newLine _, isGap_newLine _, isGap_newLine _⟩

theorem valueText_scalar {v : Json} (hv : v.isContainer = false) (depth : Nat) :
    valueText depth v = scalarText rawPoint v := by
  rw [valueText, chunks_of_scalar hv, List.flatMap_singleton, spelled_scalarChunk, List.nil_append]

theorem spelled_itemChunks (before : Text) (depth : Nat) (v : Json) :
    (itemChunks before v (chunks depth v)).flatMap Chunk.spelled = before ++ valueText depth v := by
  cases hv : v.isContainer with
  | true => rw [itemChunks, hv, if_pos rfl, List.flatMap_cons, Chunk.spelled, valueText]
  | false =>
      rw [itemChunks, hv, if_neg Bool.false_ne_true, List.flatMap_singleton, spelled_scalarChunk,
        valueText_scalar hv]

theorem spelled_fieldChunks (depth : Nat) (field : Text × Json) :
    (fieldChunks field.1 (chunks depth field.2)).flatMap Chunk.spelled =
      fieldText rawPoint (valueText depth) field := by
  simp [fieldChunks, Chunk.spelled, fieldText, valueText]

/-- Chunks of parts that each have a comma and a line of their own, up to the closing bracket. -/
theorem spelled_after {α : Type} (depth : Nat) (mark : Char) (text : α → Text)
    (part : α → List Chunk)
    (hpart : ∀ x, (part x).flatMap Chunk.spelled =
      CodePoint.ofChar ',' :: (newLine (depth + 1) ++ text x)) (xs : List α) :
    (xs.flatMap part ++ [Chunk.plain (newLine depth), .plain [CodePoint.ofChar mark]]).flatMap
        Chunk.spelled =
      (lineGaps depth).after (CodePoint.ofChar mark) (xs.map text) := by
  induction xs with
  | nil => simp [Chunk.spelled, Gaps.after, lineGaps]
  | cons x xs ih =>
      rw [List.flatMap_cons, List.append_assoc, List.flatMap_append, hpart, ih, List.map_cons,
        Gaps.after]
      simp [lineGaps]

def laterItems (depth : Nat) (items : List Json) : List Chunk :=
  items.flatMap (fun v =>
      itemChunks (Text.ofString "," ++ newLine (depth + 1)) v (chunks (depth + 1) v))
    ++ [.plain (newLine depth), .plain (Text.ofString "]")]

def laterFields (depth : Nat) (fields : Fields) : List Chunk :=
  fields.flatMap (fun field =>
      .plain (Text.ofString "," ++ newLine (depth + 1))
        :: fieldChunks field.1 (chunks (depth + 1) field.2))
    ++ [.plain (newLine depth), .plain (Text.ofString "\x7d")]

theorem spelled_laterItems (depth : Nat) (items : List Json) :
    (laterItems depth items).flatMap Chunk.spelled =
      (lineGaps depth).after (CodePoint.ofChar ']') (items.map (valueText (depth + 1))) :=
  spelled_after depth ']' (valueText (depth + 1)) _
    (fun v => spelled_itemChunks (Text.ofString "," ++ newLine (depth + 1)) (depth + 1) v) items

theorem spelled_laterFields (depth : Nat) (fields : Fields) :
    (laterFields depth fields).flatMap Chunk.spelled =
      (lineGaps depth).after (CodePoint.ofChar '\x7d')
        (fields.map (fieldText rawPoint (valueText (depth + 1)))) := by
  refine spelled_after depth '\x7d' (fieldText rawPoint (valueText (depth + 1))) _
    (fun field => ?_) fields
  rw [List.flatMap_cons, spelled_fieldChunks]
  rfl

theorem valueText_arr (depth : Nat) (items : List Json) :
    valueText depth (.arr items) =
      (lineGaps depth).enclose (CodePoint.ofChar '[') (CodePoint.ofChar ']')
        (items.map (valueText (depth + 1))) := by
  cases items with
  | nil =>
      rw [valueText, chunks]
      rfl
  | cons first items =>
      rw [valueText, chunks, List.append_assoc, List.flatMap_append, spelled_itemChunks,
        ← laterItems, spelled_laterItems, List.map_cons, Gaps.enclose, List.append_assoc,
        List.append_assoc]
      rfl

theorem valueText_obj (depth : Nat) (fields : Fields) :
    valueText depth (.obj fields) =
      (lineGaps depth).enclose (CodePoint.ofChar '\x7b') (CodePoint.ofChar '\x7d')
        (fields.map (fieldText rawPoint (valueText (depth + 1)))) := by
  cases fields with
  | nil =>
      rw [valueText, chunks]
      rfl
  | cons first fields =>
      rw [valueText, chunks, List.append_assoc, List.flatMap_append, ← laterFields,
        spelled_laterFields, List.flatMap_cons, List.flatMap_cons, spelled_fieldChunks,
        List.map_cons, Gaps.enclose, List.append_assoc, List.append_assoc]
      rfl

def indentedLayout : Layout where
  point := rawPoint
  gaps := lineGaps
  text := valueText
  blank := areBlank_lineGaps
  scalar := fun depth _ hv => valueText_scalar hv depth
  arr := valueText_arr
  obj := valueText_obj

theorem meets_readable_rawPoint (v : Json) : v.Meets (readable rawPoint) := by
  have hweakens : Weakens {} (readable rawPoint) :=
    ⟨fun _ _ c _ => readsBack_rawPoint c, fun _ _ => trivial,
      fun _ _ _ _ c _ => readsBack_rawPoint c⟩
  exact hweakens.meets (meets_default v)

/-- An indented document is read as the value that it is written for. -/
theorem read_indented {v : Json} (hshort : v.HasShortIntegers) (hnames : v.HasDistinctNames) :
    Json.read v.indented = .ok v :=
  indentedLayout.read_text hshort (meets_readable_rawPoint v) hnames

def IsMalformed (result : Except Refusal Json) : Prop :=
  ∃ problem rest, result = .error (.malformed problem rest)

/-- Chunks of which some are missing at the end. -/
def IsCut (written whole : List Chunk) : Prop :=
  ∃ chunk missing, whole = written ++ chunk :: missing

/-- Wherever chunks break off, what has been written of them is refused. -/
def BreaksOff (r : Reading) (whole : List Chunk) : Prop :=
  ∀ written, IsCut written whole → IsMalformed (readOn r (written.flatMap Chunk.spelled))

section

variable {r next : Reading} {chunk : Chunk} {first whole : List Chunk}

theorem not_isCut_nil (written : List Chunk) : ¬IsCut written [] := by
  rintro ⟨chunk, missing, h⟩
  exact absurd h.symm (List.append_ne_nil_of_right_ne_nil _ (List.cons_ne_nil _ _))

theorem breaksOff_append (hfirst : BreaksOff r first)
    (hrest : ∀ written, IsCut written whole →
      IsMalformed (readOn r (first.flatMap Chunk.spelled ++ written.flatMap Chunk.spelled))) :
    BreaksOff r (first ++ whole) := by
  rintro written ⟨chunk, missing, h⟩
  -- The cut is past the first chunks, or among them. Between the two it is a cut of neither, but
  -- then nothing of the rest is there.
  rcases List.append_eq_append_iff.mp h with ⟨more, rfl, hwhole⟩ | ⟨more, rfl, hmissing⟩
  · rw [List.flatMap_append]
    exact hrest more ⟨chunk, missing, hwhole⟩
  · cases more with
    | nil =>
        rw [List.nil_append] at hmissing
        have hnothing := hrest [] ⟨chunk, missing, hmissing.symm⟩
        rwa [List.flatMap_nil, List.append_nil, List.append_nil] at hnothing
    | cons other more => exact hfirst written ⟨other, more, rfl⟩

theorem breaksOff_singleton (h : IsMalformed r.finish) : BreaksOff r [chunk] := by
  rintro written ⟨other, missing, hcut⟩
  cases written with
  | nil => rwa [List.flatMap_nil, readOn_nil]
  | cons head written =>
      rw [List.cons_append, List.cons.injEq] at hcut
      exact absurd ⟨other, missing, hcut.2⟩ (not_isCut_nil written)

theorem breaksOff_cons (h : IsMalformed r.finish)
    (hchunk : ∀ rest, readOn r (chunk.spelled ++ rest) = readOn next rest)
    (hwhole : BreaksOff next whole) : BreaksOff r (chunk :: whole) := by
  refine breaksOff_append (breaksOff_singleton h) fun written hcut => ?_
  rw [List.flatMap_singleton, hchunk]
  exact hwhole written hcut

end

theorem endsNumber_of_append {s t : Text} (h : EndsNumber (s ++ t)) : EndsNumber s := by
  cases s with
  | nil => exact endsNumber_nil
  | cons c s => exact ⟨h.noDigit, h.noPoint, h.noLower, h.noUpper⟩

theorem endsNumber_of_isCut {written whole : List Chunk} (h : IsCut written whole)
    (hwhole : EndsNumber (whole.flatMap Chunk.spelled)) :
    EndsNumber (written.flatMap Chunk.spelled) := by
  obtain ⟨chunk, missing, rfl⟩ := h
  rw [List.flatMap_append] at hwhole
  exact endsNumber_of_append hwhole

theorem endsNumber_laterItems (depth : Nat) (items : List Json) :
    EndsNumber ((laterItems depth items).flatMap Chunk.spelled) := by
  rw [spelled_laterItems, ← List.append_nil (Gaps.after _ _ _)]
  exact endsNumber_after (areBlank_lineGaps depth) endsNumber_closeList _ []

theorem endsNumber_laterFields (depth : Nat) (fields : Fields) :
    EndsNumber ((laterFields depth fields).flatMap Chunk.spelled) := by
  rw [spelled_laterFields, ← List.append_nil (Gaps.after _ _ _)]
  exact endsNumber_after (areBlank_lineGaps depth) endsNumber_closeObject _ []

theorem isMalformed_of_expects {r : Reading} {frames : List Frame} (h : Expects r frames) :
    IsMalformed r.finish := by
  cases h <;> exact ⟨_, _, rfl⟩

theorem isMalformed_of_expectsName {r : Reading} {done : Fields} {frames : List Frame}
    (h : ExpectsName r done frames) : IsMalformed r.finish := by
  cases h <;> exact ⟨_, _, rfl⟩

/-- A value is not read before all of its chunks are there. -/
def NeedsAll (v : Json) : Prop :=
  ∀ (depth : Nat) (r : Reading) (frames : List Frame), Expects r frames →
    BreaksOff r (chunks depth v)

section

variable {r next : Reading} {frames : List Frame} {depth : Nat} {v : Json}

theorem breaksOff_itemChunks {before : Text} (hr : IsMalformed r.finish)
    (hbefore : ∀ rest, readOn r (before ++ rest) = readOn next rest)
    (hnext : Expects next frames) (hv : NeedsAll v) :
    BreaksOff r (itemChunks before v (chunks depth v)) := by
  unfold itemChunks
  split
  · exact breaksOff_cons hr hbefore (hv depth next frames hnext)
  · exact breaksOff_singleton hr

theorem breaksOff_fieldChunks {done : Fields} {name : Text} (hr : ExpectsName r done frames)
    (hv : NeedsAll v) : BreaksOff r (fieldChunks name (chunks depth v)) := by
  have hname : ∀ rest, readOn r (quote rawPoint name ++ rest) =
      readOn ⟨.colon done name, frames⟩ rest := fun rest =>
    readOn_token (begins_quote (fun c _ => readsBack_rawPoint c) rest) rfl (hr.step name _)
  have hcolon : ∀ rest, readOn ⟨.colon done name, frames⟩ (Text.ofString ": " ++ rest) =
      readOn ⟨.value, .object done name :: frames⟩ rest := by
    intro rest
    have hmarks : Text.ofString ": " = [CodePoint.ofChar ':', CodePoint.ofChar ' '] := rfl
    rw [hmarks, List.cons_append, List.singleton_append, readOn_mark rfl rfl, readOn_blank rfl]
  exact breaksOff_cons (isMalformed_of_expectsName hr) hname
    (breaksOff_cons ⟨_, _, rfl⟩ hcolon (hv depth _ _ (.value _)))

end

/-- The reader gets past a part, from after one part to after the next, and not before all chunks of
the part are there. -/
structure GetsPast (After : Reading → Prop) (part : List Chunk) : Prop where
  breaksOff : ∀ r, After r → BreaksOff r part
  goesOn : ∀ r, After r → ∀ rest, EndsNumber rest →
    ∃ next, After next ∧ readOn r (part.flatMap Chunk.spelled ++ rest) = readOn next rest

theorem breaksOff_append_of_endsNumber {r : Reading} {first whole : List Chunk}
    (hfirst : BreaksOff r first) (hwhole : EndsNumber (whole.flatMap Chunk.spelled))
    (hgoesOn : ∀ rest, EndsNumber rest → ∃ next, BreaksOff next whole
      ∧ readOn r (first.flatMap Chunk.spelled ++ rest) = readOn next rest) :
    BreaksOff r (first ++ whole) := by
  refine breaksOff_append hfirst fun written hcut => ?_
  obtain ⟨next, hnext, hread⟩ := hgoesOn _ (endsNumber_of_isCut hcut hwhole)
  rw [hread]
  exact hnext written hcut

theorem breaksOff_parts {α : Type} {After : Reading → Prop} {part : α → List Chunk}
    {closing : List Chunk}
    (hends : ∀ xs : List α, EndsNumber ((xs.flatMap part ++ closing).flatMap Chunk.spelled))
    (hclosing : ∀ r, After r → BreaksOff r closing) {xs : List α}
    (hxs : ∀ x ∈ xs, GetsPast After (part x)) {r : Reading} (hr : After r) :
    BreaksOff r (xs.flatMap part ++ closing) := by
  induction xs generalizing r with
  | nil => exact hclosing r hr
  | cons x xs ih =>
      obtain ⟨hx, hxs⟩ := List.forall_mem_cons.mp hxs
      rw [List.flatMap_cons, List.append_assoc]
      refine breaksOff_append_of_endsNumber (hx.breaksOff r hr) (hends xs) fun rest hrest => ?_
      obtain ⟨next, hnext, hread⟩ := hx.goesOn r hr rest hrest
      exact ⟨next, ih hxs hnext, hread⟩

def AfterItem (frames : List Frame) (r : Reading) : Prop :=
  ∃ v done, r = ⟨.after v, .list done :: frames⟩

def AfterField (frames : List Frame) (r : Reading) : Prop :=
  ∃ v done name, r = ⟨.after v, .object done name :: frames⟩

theorem breaksOff_closing (v : Json) (frame : Frame) (frames : List Frame) (depth : Nat)
    (mark : Text) : BreaksOff ⟨.after v, frame :: frames⟩ [.plain (newLine depth), .plain mark] :=
  breaksOff_cons ⟨_, _, rfl⟩ (fun _ => readOn_gap (isGap_newLine depth))
    (breaksOff_singleton ⟨_, _, rfl⟩)

section

variable {depth : Nat} {v : Json}

theorem exists_isReadAs_valueText (hshort : v.HasShortIntegers) (depth : Nat) :
    ∃ w, IsReadAs (valueText depth v) w := by
  obtain ⟨w, hw, -⟩ := indentedLayout.exists_isReadAs hshort (meets_readable_rawPoint v) depth
  exact ⟨w, hw⟩

theorem exists_isFieldOf_fieldText (name : Text) (hshort : v.HasShortIntegers) (depth : Nat) :
    ∃ w, IsFieldOf (fieldText rawPoint (valueText depth) (name, v)) (name, w) := by
  obtain ⟨w, hw⟩ := exists_isReadAs_valueText hshort depth
  exact ⟨w, isFieldOf_fieldText (fun c _ => readsBack_rawPoint c) hw⟩

theorem getsPast_item (frames : List Frame) (hshort : v.HasShortIntegers) (hv : NeedsAll v) :
    GetsPast (AfterItem frames)
      (itemChunks (Text.ofString "," ++ newLine depth) v (chunks depth v)) := by
  have hline : ∀ (w : Json) (done : List Json) (rest : Text),
      readOn ⟨.after w, .list done :: frames⟩ (Text.ofString "," ++ newLine depth ++ rest) =
        readOn ⟨.value, .list (w :: done) :: frames⟩ rest := fun _ _ rest =>
    readOn_line rfl rfl (fun _ => rfl) depth rest
  refine ⟨?_, ?_⟩
  · rintro r ⟨w, done, rfl⟩
    exact breaksOff_itemChunks ⟨_, _, rfl⟩ (hline w done) (.value _) hv
  · rintro r ⟨w, done, rfl⟩ rest hrest
    obtain ⟨item, hitem⟩ := exists_isReadAs_valueText hshort depth
    refine ⟨_, ⟨item, w :: done, rfl⟩, ?_⟩
    rw [spelled_itemChunks, List.append_assoc, hline, hitem _ _ _ (.value _) hrest]

theorem getsPast_field (frames : List Frame) (name : Text) (hshort : v.HasShortIntegers)
    (hv : NeedsAll v) :
    GetsPast (AfterField frames)
      (.plain (Text.ofString "," ++ newLine depth) :: fieldChunks name (chunks depth v)) := by
  have hline : ∀ (w : Json) (done : Fields) (last rest : Text),
      readOn ⟨.after w, .object done last :: frames⟩
          (Text.ofString "," ++ newLine depth ++ rest) =
        readOn ⟨.name (Fields.put last w done), frames⟩ rest := fun _ _ _ rest =>
    readOn_line rfl rfl (fun _ => rfl) depth rest
  refine ⟨?_, ?_⟩
  · rintro r ⟨w, done, last, rfl⟩
    exact breaksOff_cons ⟨_, _, rfl⟩ (hline w done last) (breaksOff_fieldChunks (.next _ _) hv)
  · rintro r ⟨w, done, last, rfl⟩ rest hrest
    obtain ⟨value, hfield⟩ := exists_isFieldOf_fieldText name hshort depth
    refine ⟨_, ⟨value, Fields.put last w done, name, rfl⟩, ?_⟩
    rw [List.flatMap_cons, Chunk.spelled, spelled_fieldChunks depth (name, v),
      List.append_assoc, hline, hfield _ _ _ _ (.next _ _) hrest]

theorem breaksOff_laterItems {items : List Json}
    (hitems : ∀ v ∈ items, v.HasShortIntegers ∧ NeedsAll v) (frames : List Frame)
    (w : Json) (done : List Json) :
    BreaksOff ⟨.after w, .list done :: frames⟩ (laterItems depth items) := by
  have hafter : AfterItem frames ⟨.after w, .list done :: frames⟩ := ⟨w, done, rfl⟩
  refine breaksOff_parts (endsNumber_laterItems depth) ?_ ?_ hafter
  · rintro r ⟨w, done, rfl⟩
    exact breaksOff_closing w _ frames depth _
  · exact fun v hv => getsPast_item frames (hitems v hv).1 (hitems v hv).2

theorem breaksOff_laterFields {fields : Fields}
    (hfields : ∀ field ∈ fields, field.2.HasShortIntegers ∧ NeedsAll field.2)
    (frames : List Frame) (w : Json) (done : Fields) (name : Text) :
    BreaksOff ⟨.after w, .object done name :: frames⟩ (laterFields depth fields) := by
  have hafter : AfterField frames ⟨.after w, .object done name :: frames⟩ := ⟨w, done, name, rfl⟩
  refine breaksOff_parts (endsNumber_laterFields depth) ?_ ?_ hafter
  · rintro r ⟨w, done, name, rfl⟩
    exact breaksOff_closing w _ frames depth _
  · exact fun field hfield =>
      getsPast_field frames field.1 (hfields field hfield).1 (hfields field hfield).2

end

theorem needsAll_arr {items : List Json}
    (hitems : ∀ v ∈ items, v.HasShortIntegers ∧ NeedsAll v) : NeedsAll (.arr items) := by
  intro depth r frames hr
  cases items with
  | nil =>
      rw [chunks]
      exact breaksOff_singleton (isMalformed_of_expects hr)
  | cons first items =>
      obtain ⟨⟨hshort, hfirst⟩, hitems⟩ := List.forall_mem_cons.mp hitems
      have hopen : ∀ rest, readOn r (Text.ofString "[" ++ newLine (depth + 1) ++ rest) =
          readOn ⟨.firstItem, frames⟩ rest := fun rest =>
        readOn_line rfl rfl (hr.step Token.noConfusion) (depth + 1) rest
      rw [chunks, List.append_assoc]
      refine breaksOff_append_of_endsNumber
        (breaksOff_itemChunks (isMalformed_of_expects hr) hopen (.firstItem _) hfirst)
        (endsNumber_laterItems depth items) fun rest hrest => ?_
      obtain ⟨item, hitem⟩ := exists_isReadAs_valueText hshort (depth + 1)
      refine ⟨_, breaksOff_laterItems hitems frames item [], ?_⟩
      rw [spelled_itemChunks, List.append_assoc, hopen, hitem _ _ _ (.firstItem _) hrest]

theorem needsAll_obj {fields : Fields}
    (hfields : ∀ field ∈ fields, field.2.HasShortIntegers ∧ NeedsAll field.2) :
    NeedsAll (.obj fields) := by
  intro depth r frames hr
  cases fields with
  | nil =>
      rw [chunks]
      exact breaksOff_singleton (isMalformed_of_expects hr)
  | cons first fields =>
      obtain ⟨⟨hshort, hfirst⟩, hfields⟩ := List.forall_mem_cons.mp hfields
      have hopening : Text.ofString "\x7b" = [CodePoint.ofChar '\x7b'] := rfl
      have hopen : ∀ rest, readOn r (Text.ofString "\x7b" ++ rest) =
          readOn ⟨.firstName, frames⟩ rest := by
        intro rest
        rw [hopening, List.singleton_append, readOn_mark rfl (hr.step Token.noConfusion _)]
      have hline : ∀ rest, readOn ⟨.firstName, frames⟩ (newLine (depth + 1) ++ rest) =
          readOn ⟨.firstName, frames⟩ rest := fun rest => readOn_gap (isGap_newLine _)
      rw [chunks, List.append_assoc]
      refine breaksOff_append_of_endsNumber
        (breaksOff_cons (isMalformed_of_expects hr) hopen
          (breaksOff_cons ⟨_, _, rfl⟩ hline (breaksOff_fieldChunks (.first _) hfirst)))
        (endsNumber_laterFields depth fields) fun rest hrest => ?_
      obtain ⟨value, hfield⟩ := exists_isFieldOf_fieldText first.1 hshort (depth + 1)
      refine ⟨_, breaksOff_laterFields hfields frames value [] first.1, ?_⟩
      rw [List.flatMap_cons, List.flatMap_cons, Chunk.spelled, Chunk.spelled, spelled_fieldChunks,
        List.append_assoc, List.append_assoc, hopen, hline, hfield _ _ _ _ (.first _) hrest]

theorem needsAll {v : Json} (hshort : v.HasShortIntegers) : NeedsAll v := by
  induction v using value_of_members with
  | scalar v hv =>
      intro depth r frames hr
      rw [chunks_of_scalar hv]
      exact breaksOff_singleton (isMalformed_of_expects hr)
  | arr items hitems =>
      have hshort := (itemsMeet_iff _ items).mp hshort
      exact needsAll_arr fun v hv => ⟨hshort v hv, hitems v hv (hshort v hv)⟩
  | obj fields hfields =>
      have hshort := (fieldsMeet_iff _ fields).mp hshort.2
      exact needsAll_obj fun field hfield =>
        ⟨hshort field hfield, hfields field hfield (hshort field hfield)⟩

/-- An indented document that breaks off between two of its chunks is no JSON. -/
theorem read_of_isCut {v : Json} (hshort : v.HasShortIntegers) {written : List Chunk}
    (hcut : IsCut written (v.chunks 0)) :
    ∃ problem line column offset, Json.read (written.flatMap Chunk.spelled) =
      .error (.malformed problem line column offset) := by
  obtain ⟨problem, rest, hread⟩ := needsAll hshort 0 Reading.start [] (.value []) written hcut
  rw [readOn] at hread
  rw [Json.read, hread]
  split
  · exact ⟨_, _, _, _, rfl⟩
  · exact ⟨_, _, _, _, rfl⟩

end TreeOffsets.Proofs.IndentedDocuments
