import TreeOffsets.Json.Reader
import TreeOffsets.Proofs.ScalarTokens
import TreeOffsets.Proofs.TreeInduction

namespace TreeOffsets.Proofs.ReadBack

open TreeOffsets.Json
open TreeOffsets.Json.Token
open TreeOffsets.Proofs.NumberTokens
open TreeOffsets.Proofs.ScalarTokens
open TreeOffsets.Proofs.StringTokens
open TreeOffsets.Proofs.TreeInduction

theorem lexFrom_of_blank {t : Text} (h : skipBlank t = []) (done : List (Token × Text)) :
    lexFrom done t = done.reverse := by
  rw [lexFrom]
  split
  · rfl
  · next hcons => cases h.symm.trans hcons

theorem lexFrom_of_token {t tail : Text} {c : CodePoint} (h : skipBlank t = c :: tail)
    (done : List (Token × Text)) :
    lexFrom done t =
      if (scan c tail).1.isLast then (((scan c tail).1, c :: tail) :: done).reverse
      else lexFrom (((scan c tail).1, c :: tail) :: done) (scan c tail).2 := by
  rw [lexFrom]
  split
  · next hnil => cases h.symm.trans hnil
  · next hcons =>
      cases h.symm.trans hcons
      rfl

theorem lexFrom_eq (done : List (Token × Text)) (t : Text) :
    lexFrom done t = done.reverse ++ lex t := by
  cases h : skipBlank t with
  | nil => rw [lex, lexFrom_of_blank h, lexFrom_of_blank h, List.reverse_nil, List.append_nil]
  | cons c tail =>
      rw [lex, lexFrom_of_token h, lexFrom_of_token h]
      split
      · rw [List.reverse_cons, List.reverse_singleton]
      · rw [lexFrom_eq (_ :: done), lexFrom_eq [_], List.reverse_cons, List.reverse_singleton,
          List.append_assoc]
termination_by t.length
decreasing_by
  all_goals
    have hblank := length_dropWhile_le t isBlank
    have hscan := length_scan_le c tail
    rw [skipBlank] at h
    rw [h, List.length_cons] at hblank
    omega

theorem lex_blank {c : CodePoint} (hc : isBlank c = true) (t : Text) : lex (c :: t) = lex t := by
  have hskip : skipBlank (c :: t) = skipBlank t := List.dropWhile_cons_of_pos hc
  cases h : skipBlank t with
  | nil => rw [lex, lex, lexFrom_of_blank h, lexFrom_of_blank (hskip.trans h)]
  | cons d tail => rw [lex, lex, lexFrom_of_token h, lexFrom_of_token (hskip.trans h)]

theorem lex_of_begins {t rest : Text} {token : Token} (h : Begins t token rest)
    (hlast : token.isLast = false) : lex t = (token, t) :: lex rest := by
  obtain ⟨c, tail, rfl, hblank, hscan⟩ := h
  have hskip : skipBlank (c :: tail) = c :: tail :=
    List.dropWhile_cons_of_neg (by rw [hblank]; exact Bool.false_ne_true)
  rw [lex, lexFrom_of_token hskip, hscan, hlast, if_neg Bool.false_ne_true, lexFrom_eq,
    List.reverse_singleton, List.singleton_append]

/-- What comes of a reading when a text is left. -/
def readOn (r : Reading) (t : Text) : Except Refusal Json := r.run (lex t)

section

variable {r next : Reading} {t rest : Text}

theorem readOn_nil : readOn r [] = r.finish := by
  rw [readOn, lex, lexFrom_of_blank rfl]
  rfl

theorem readOn_blank {c : CodePoint} (hc : isBlank c = true) : readOn r (c :: t) = readOn r t := by
  rw [readOn, readOn, lex_blank hc]

theorem readOn_token {token : Token} (h : Begins t token rest) (hlast : token.isLast = false)
    (hstep : r.step token t = .ok next) : readOn r t = readOn next rest := by
  simp only [readOn, lex_of_begins h hlast, Reading.run, hstep]

theorem readOn_mark {c : CodePoint} {token : Token} (hc : Token.mark? c = some token)
    (hstep : r.step token (c :: rest) = .ok next) : readOn r (c :: rest) = readOn next rest := by
  have hmark : isBlank c = false ∧ token.isLast = false := by
    unfold Token.mark? at hc
    repeat'
      split at hc
      next heq =>
        cases hc
        rw [heq]
        exact ⟨rfl, rfl⟩
    cases hc
  have hscan : scan c rest = (token, rest) := by simp only [scan, hc]
  exact readOn_token ⟨c, rest, rfl, hmark.1, hscan⟩ hmark.2 hstep

def IsGap (t : Text) : Prop := ∀ c ∈ t, isBlank c = true

theorem readOn_gap {gap : Text} (h : IsGap gap) : readOn r (gap ++ rest) = readOn r rest := by
  induction gap with
  | nil => rfl
  | cons c gap ih =>
      obtain ⟨hc, hgap⟩ := List.forall_mem_cons.mp h
      rw [List.cons_append, readOn_blank hc, ih hgap]

end

/-- A reading takes a value next, and then goes on inside of frames. -/
inductive Expects : Reading → List Frame → Prop
  | value (frames : List Frame) : Expects ⟨.value, frames⟩ frames
  | firstItem (frames : List Frame) : Expects ⟨.firstItem, frames⟩ (.list [] :: frames)

theorem Expects.step {r : Reading} {frames : List Frame} (h : Expects r frames) {token : Token}
    (htoken : token ≠ .closeList) (here : Text) :
    r.step token here = Reading.beginValue frames here token := by
  cases h with
  | value => rfl
  | firstItem frames => exact Reading.step_firstItem htoken frames here

inductive ExpectsName : Reading → Fields → List Frame → Prop
  | first (frames : List Frame) : ExpectsName ⟨.firstName, frames⟩ [] frames
  | next (done : Fields) (frames : List Frame) : ExpectsName ⟨.name done, frames⟩ done frames

theorem ExpectsName.step {r : Reading} {done : Fields} {frames : List Frame}
    (h : ExpectsName r done frames) (name here : Text) :
    r.step (.str name) here = .ok ⟨.colon done name, frames⟩ := by
  cases h <;> rfl

theorem endsNumber_cons {c : CodePoint} (hdigit : isDigit c = false)
    (hpoint : c ≠ CodePoint.ofChar '.') (hlower : c ≠ CodePoint.ofChar 'e')
    (hupper : c ≠ CodePoint.ofChar 'E') (rest : Text) : EndsNumber (c :: rest) where
  noDigit := noDigit_cons hdigit rest
  noPoint h := hpoint (Option.some.inj h)
  noLower h := hlower (Option.some.inj h)
  noUpper h := hupper (Option.some.inj h)

theorem endsNumber_nil : EndsNumber [] where
  noDigit _ h := absurd h (by simp)
  noPoint h := absurd h (by simp)
  noLower h := absurd h (by simp)
  noUpper h := absurd h (by simp)

theorem endsNumber_blank {c : CodePoint} (h : isBlank c = true) (rest : Text) :
    EndsNumber (c :: rest) := by
  simp only [isBlank, Bool.or_eq_true, beq_iff_eq] at h
  rcases h with ((rfl | rfl) | rfl) | rfl <;>
    exact endsNumber_cons rfl (by decide) (by decide) (by decide) rest

theorem endsNumber_gap {gap rest : Text} (h : IsGap gap) (hrest : EndsNumber rest) :
    EndsNumber (gap ++ rest) := by
  cases gap with
  | nil => exact hrest
  | cons c gap => exact endsNumber_blank (h c List.mem_cons_self) _

/-- The blanks of a list or an object: after its opening bracket, after each comma, and before its
closing bracket. -/
structure Gaps where
  first : Text
  next : Text
  last : Text

structure Gaps.AreBlank (gaps : Gaps) : Prop where
  first : IsGap gaps.first
  next : IsGap gaps.next
  last : IsGap gaps.last

namespace Gaps

/-- What follows a part of a list or an object: the other parts, each after a comma, and the closing
bracket. -/
def after (gaps : Gaps) (closing : CodePoint) : List Text → Text
  | [] => gaps.last ++ [closing]
  | part :: parts => CodePoint.ofChar ',' :: (gaps.next ++ (part ++ gaps.after closing parts))

def enclose (gaps : Gaps) (opening closing : CodePoint) : List Text → Text
  | [] => [opening, closing]
  | part :: parts => opening :: (gaps.first ++ (part ++ gaps.after closing parts))

end Gaps

def fieldText (point : CodePoint → Text) (text : Json → Text) (field : Text × Json) : Text :=
  quote point field.1 ++ Text.ofString ": " ++ text field.2

/-- A way to write values, at any depth. -/
structure Layout where
  point : CodePoint → Text
  gaps : Nat → Gaps
  text : Nat → Json → Text
  blank : ∀ depth, (gaps depth).AreBlank
  scalar : ∀ depth v, v.isContainer = false → text depth v = scalarText point v
  arr : ∀ depth items, text depth (.arr items) =
    (gaps depth).enclose (CodePoint.ofChar '[') (CodePoint.ofChar ']')
      (items.map (text (depth + 1)))
  obj : ∀ depth fields, text depth (.obj fields) =
    (gaps depth).enclose (CodePoint.ofChar '\x7b') (CodePoint.ofChar '\x7d')
      (fields.map (fieldText point (text (depth + 1))))

/-- A text is read as a value, wherever a value may stand. -/
def IsReadAs (t : Text) (v : Json) : Prop :=
  ∀ (r : Reading) (frames : List Frame) (rest : Text), Expects r frames → EndsNumber rest →
    readOn r (t ++ rest) = readOn ⟨.after v, frames⟩ rest

def IsFieldOf (t : Text) (field : Text × Json) : Prop :=
  ∀ (r : Reading) (done : Fields) (frames : List Frame) (rest : Text), ExpectsName r done frames →
    EndsNumber rest →
    readOn r (t ++ rest) = readOn ⟨.after field.2, .object done field.1 :: frames⟩ rest

theorem isFieldOf_fieldText {point : CodePoint → Text} {text : Json → Text} {name : Text}
    {v w : Json} (hname : ∀ c ∈ name, ReadsBack point c) (hv : IsReadAs (text v) w) :
    IsFieldOf (fieldText point text (name, v)) (name, w) := by
  intro r done frames rest hexpects hrest
  have hcolon : Text.ofString ": " = [CodePoint.ofChar ':', CodePoint.ofChar ' '] := rfl
  have hquoted := begins_quote hname
    (CodePoint.ofChar ':' :: CodePoint.ofChar ' ' :: (text v ++ rest))
  rw [fieldText, hcolon, List.append_assoc, List.append_assoc, List.cons_append,
    List.singleton_append, readOn_token hquoted rfl (hexpects.step _ _), readOn_mark rfl rfl,
    readOn_blank rfl, hv _ _ _ (.value _) hrest]

def putAll (done fields : Fields) : Fields :=
  fields.foldl (fun done field => Fields.put field.1 field.2 done) done

theorem put_of_not_mem {name : Text} {fields : Fields} (v : Json)
    (h : name ∉ Fields.names fields) : Fields.put name v fields = fields ++ [(name, v)] := by
  induction fields with
  | nil => rfl
  | cons field fields ih =>
      rw [Fields.names_cons, List.mem_cons, not_or] at h
      rw [Fields.put, if_neg (Ne.symm h.1), ih h.2, List.cons_append]

theorem putAll_of_nodup {done fields : Fields} (h : (Fields.names (done ++ fields)).Nodup) :
    putAll done fields = done ++ fields := by
  induction fields generalizing done with
  | nil => exact (List.append_nil done).symm
  | cons field fields ih =>
      have hnew : field.1 ∉ Fields.names done := by
        simp only [Fields.names, List.map_append, List.nodup_append] at h
        exact fun hmem => h.2.2 _ hmem field.1 List.mem_cons_self rfl
      have hdone : done ++ field :: fields = (done ++ [field]) ++ fields := by
        rw [List.append_assoc, List.singleton_append]
      rw [hdone] at h ⊢
      rw [putAll, List.foldl_cons, put_of_not_mem field.2 hnew]
      exact ih h

section

variable {α : Type} {text : α → Text} {gaps : Gaps} {xs : List α} {last : Json}
  {frames : List Frame} {rest : Text}

theorem endsNumber_after (hgaps : gaps.AreBlank) {closing : CodePoint}
    (hclosing : ∀ rest, EndsNumber (closing :: rest)) (parts : List Text) (rest : Text) :
    EndsNumber (gaps.after closing parts ++ rest) := by
  cases parts with
  | nil =>
      rw [Gaps.after, List.append_assoc]
      exact endsNumber_gap hgaps.last (hclosing rest)
  | cons part parts => exact endsNumber_cons rfl (by decide) (by decide) (by decide) _

theorem endsNumber_closeList (rest : Text) : EndsNumber (CodePoint.ofChar ']' :: rest) :=
  endsNumber_cons rfl (by decide) (by decide) (by decide) rest

theorem endsNumber_closeObject (rest : Text) : EndsNumber (CodePoint.ofChar '\x7d' :: rest) :=
  endsNumber_cons rfl (by decide) (by decide) (by decide) rest

theorem readOn_items {value : α → Json} (hgaps : gaps.AreBlank)
    (h : ∀ x ∈ xs, IsReadAs (text x) (value x)) (done : List Json) :
    readOn ⟨.after last, .list done :: frames⟩
        (gaps.after (CodePoint.ofChar ']') (xs.map text) ++ rest) =
      readOn ⟨.after (.arr (done.reverse ++ last :: xs.map value)), frames⟩ rest := by
  induction xs generalizing last done with
  | nil =>
      rw [List.map_nil, Gaps.after, List.append_assoc, readOn_gap hgaps.last,
        List.singleton_append, readOn_mark rfl rfl, List.reverse_cons, List.map_nil]
  | cons x xs ih =>
      obtain ⟨hx, hxs⟩ := List.forall_mem_cons.mp h
      rw [List.map_cons, Gaps.after, List.cons_append, readOn_mark rfl rfl, List.append_assoc,
        readOn_gap hgaps.next, List.append_assoc,
        hx _ _ _ (.value _) (endsNumber_after hgaps endsNumber_closeList _ _), ih hxs,
        List.reverse_cons, List.append_assoc, List.singleton_append, List.map_cons]

theorem isReadAs_list {value : α → Json} (hgaps : gaps.AreBlank)
    (h : ∀ x ∈ xs, IsReadAs (text x) (value x)) :
    IsReadAs (gaps.enclose (CodePoint.ofChar '[') (CodePoint.ofChar ']') (xs.map text))
      (.arr (xs.map value)) := by
  intro r frames rest hexpects hrest
  have hopen : ∀ here, r.step .openList here = .ok ⟨.firstItem, frames⟩ := fun here =>
    hexpects.step Token.noConfusion here
  cases xs with
  | nil =>
      rw [List.map_nil, Gaps.enclose, List.cons_append, readOn_mark rfl (hopen _),
        List.singleton_append, readOn_mark rfl rfl, List.map_nil]
  | cons x xs =>
      obtain ⟨hx, hxs⟩ := List.forall_mem_cons.mp h
      rw [List.map_cons, Gaps.enclose, List.cons_append, readOn_mark rfl (hopen _),
        List.append_assoc, readOn_gap hgaps.first, List.append_assoc,
        hx _ _ _ (.firstItem _) (endsNumber_after hgaps endsNumber_closeList _ _),
        readOn_items hgaps hxs, List.reverse_nil, List.nil_append, List.map_cons]

theorem readOn_fields {field : α → Text × Json} (hgaps : gaps.AreBlank)
    (h : ∀ x ∈ xs, IsFieldOf (text x) (field x)) (done : Fields) (name : Text) :
    readOn ⟨.after last, .object done name :: frames⟩
        (gaps.after (CodePoint.ofChar '\x7d') (xs.map text) ++ rest) =
      readOn ⟨.after (.obj (putAll done ((name, last) :: xs.map field))), frames⟩ rest := by
  induction xs generalizing last done name with
  | nil =>
      rw [List.map_nil, Gaps.after, List.append_assoc, readOn_gap hgaps.last,
        List.singleton_append, readOn_mark rfl rfl]
      rfl
  | cons x xs ih =>
      obtain ⟨hx, hxs⟩ := List.forall_mem_cons.mp h
      rw [List.map_cons, Gaps.after, List.cons_append, readOn_mark rfl rfl, List.append_assoc,
        readOn_gap hgaps.next, List.append_assoc,
        hx _ _ _ _ (.next _ _) (endsNumber_after hgaps endsNumber_closeObject _ _), ih hxs]
      rfl

theorem isReadAs_object {field : α → Text × Json} (hgaps : gaps.AreBlank)
    (h : ∀ x ∈ xs, IsFieldOf (text x) (field x)) :
    IsReadAs (gaps.enclose (CodePoint.ofChar '\x7b') (CodePoint.ofChar '\x7d') (xs.map text))
      (.obj (putAll [] (xs.map field))) := by
  intro r frames rest hexpects hrest
  have hopen : ∀ here, r.step .openObject here = .ok ⟨.firstName, frames⟩ := fun here =>
    hexpects.step Token.noConfusion here
  cases xs with
  | nil =>
      rw [List.map_nil, Gaps.enclose, List.cons_append, readOn_mark rfl (hopen _),
        List.singleton_append, readOn_mark rfl rfl]
      rfl
  | cons x xs =>
      obtain ⟨hx, hxs⟩ := List.forall_mem_cons.mp h
      rw [List.map_cons, Gaps.enclose, List.cons_append, readOn_mark rfl (hopen _),
        List.append_assoc, readOn_gap hgaps.first, List.append_assoc,
        hx _ _ _ _ (.first _) (endsNumber_after hgaps endsNumber_closeObject _ _),
        readOn_fields hgaps hxs]
      rfl

end

theorem beginValue_tokenOf (v : Json) : (tokenOf v).isLast = false ∧ tokenOf v ≠ .closeList
    ∧ ∀ frames here, Reading.beginValue frames here (tokenOf v) = .ok ⟨.after v, frames⟩ := by
  cases v <;> exact ⟨rfl, Token.noConfusion, fun _ _ => rfl⟩

namespace Layout

variable {layout : Layout} {v : Json}

theorem isReadAs_scalar (hv : v.isContainer = false) (hshort : v.HasShortIntegers)
    (hpoint : v.Meets (readable layout.point)) (depth : Nat) :
    IsReadAs (layout.text depth v) v := by
  intro r frames rest hexpects hrest
  obtain ⟨hlast, hopen, hstep⟩ := beginValue_tokenOf v
  rw [layout.scalar depth v hv]
  exact readOn_token (begins_scalarText hv hshort hpoint hrest) hlast
    ((hexpects.step hopen _).trans (hstep _ _))

/-- Every value is read as some value, and as itself if no object in it has a name twice. -/
theorem exists_isReadAs (hshort : v.HasShortIntegers) (hpoint : v.Meets (readable layout.point))
    (depth : Nat) : ∃ w, IsReadAs (layout.text depth v) w ∧ (v.HasDistinctNames → w = v) := by
  induction v using value_of_members generalizing depth with
  | scalar v hv => exact ⟨v, isReadAs_scalar hv hshort hpoint depth, fun _ => rfl⟩
  | arr items hitems =>
      have hshort := (itemsMeet_iff _ items).mp hshort
      have hpoint := (itemsMeet_iff _ items).mp hpoint
      have hread : ∀ v ∈ items, ∃ w, IsReadAs (layout.text (depth + 1) v) w
          ∧ (v.HasDistinctNames → w = v) := fun v hv =>
        hitems v hv (hshort v hv) (hpoint v hv) (depth + 1)
      choose! value hvalue heq using hread
      refine ⟨.arr (items.map value), ?_, fun hnames => ?_⟩
      · rw [layout.arr]
        exact isReadAs_list (layout.blank depth) hvalue
      · have hnames := (itemsMeet_iff _ items).mp hnames
        rw [List.map_congr_left fun v hv => heq v hv (hnames v hv), List.map_id']
  | obj fields hfields =>
      have hshort := (fieldsMeet_iff _ fields).mp hshort.2
      have hvalues := (fieldsMeet_iff _ fields).mp hpoint.2
      have hread : ∀ field ∈ fields, ∃ w, IsReadAs (layout.text (depth + 1) field.2) w
          ∧ (field.2.HasDistinctNames → w = field.2) := fun field hfield =>
        hfields field hfield (hshort field hfield) (hvalues field hfield) (depth + 1)
      choose! value hvalue heq using hread
      refine ⟨.obj (putAll [] (fields.map fun field => (field.1, value field))), ?_,
        fun hnames => ?_⟩
      · rw [layout.obj]
        refine isReadAs_object (layout.blank depth) fun field hfield => ?_
        exact isFieldOf_fieldText (hpoint.1 _ (List.mem_map_of_mem hfield)) (hvalue field hfield)
      · have hdistinct := (fieldsMeet_iff _ fields).mp hnames.2
        have hsame : fields.map (fun field => (field.1, value field)) = fields := by
          conv_rhs => rw [← List.map_id' fields]
          exact List.map_congr_left fun field hfield => by
            rw [heq field hfield (hdistinct field hfield)]
        have hdone : (Fields.names ([] ++ fields)).Nodup := hnames.1
        rw [hsame, putAll_of_nodup hdone, List.nil_append]

end Layout

theorem readOn_byteOrderMark (t : Text) :
    readOn Reading.start (byteOrderMark :: t) =
      .error (.malformed .expectedValue (byteOrderMark :: t)) := by
  have hskip : skipBlank (byteOrderMark :: t) = byteOrderMark :: t := rfl
  have hword : word? (byteOrderMark :: t) = none := word?_eq_none (by decide) t
  have hscan : scan byteOrderMark t = (.unknown, t) := by
    have hmark : Token.mark? byteOrderMark = none := rfl
    have hnumber : number? (byteOrderMark :: t) = none := rfl
    simp only [scan, hmark, hword, hnumber, Option.orElse_none, Option.getD_none]
    rfl
  rw [readOn, lex, lexFrom_of_token hskip, hscan]
  rfl

theorem read_eq_ok {t : Text} {v : Json} (h : readOn Reading.start t = .ok v) :
    Json.read t = .ok v := by
  have hmark : t.head? ≠ some byteOrderMark := by
    intro hhead
    obtain ⟨tail, rfl⟩ := List.head?_eq_some_iff.mp hhead
    cases (readOn_byteOrderMark tail).symm.trans h
  rw [readOn] at h
  rw [Json.read, if_neg hmark, h]

namespace Layout

variable {layout : Layout} {v : Json}

/-- A document is read as the value that it is written for. -/
theorem read_text (hshort : v.HasShortIntegers) (hpoint : v.Meets (readable layout.point))
    (hnames : v.HasDistinctNames) : Json.read (layout.text 0 v) = .ok v := by
  obtain ⟨w, hread, hw⟩ := layout.exists_isReadAs hshort hpoint 0
  have hwhole := hread Reading.start [] [] (.value []) endsNumber_nil
  rw [hw hnames, List.append_nil, readOn_nil] at hwhole
  exact read_eq_ok hwhole

end Layout

end TreeOffsets.Proofs.ReadBack
