import TreeOffsets.Json.Readable
import TreeOffsets.Proofs.PrintableTexts
import TreeOffsets.Proofs.TreeInduction

namespace TreeOffsets.Proofs.ChunkTexts

open TreeOffsets.Json
open TreeOffsets.Proofs.PrintableTexts
open TreeOffsets.Proofs.TreeInduction

/-- A text of the code points that documents are laid out with. -/
def IsLayout (t : Text) : Prop := ∀ c ∈ t, c = CodePoint.newline ∨ 0x20 ≤ c.val ∧ c.val < 0x7F

instance (t : Text) : Decidable (IsLayout t) := by unfold IsLayout; infer_instance

theorem isLayout_of_printable {t : Text} (h : IsPrintable t) : IsLayout t :=
  fun c hc => .inr (h c hc)

theorem isLayout_append {s t : Text} (hs : IsLayout s) (ht : IsLayout t) : IsLayout (s ++ t) :=
  List.forall_mem_append.mpr ⟨hs, ht⟩

theorem isLayout_newLine (depth : Nat) : IsLayout (newLine depth) := by
  refine List.forall_mem_cons.mpr ⟨.inl rfl, fun c hc => .inr ?_⟩
  rw [List.eq_of_mem_replicate hc]
  decide

theorem isLayout_mark (mark : String) (depth : Nat) (h : IsLayout (Text.ofString mark)) :
    IsLayout (Text.ofString mark ++ newLine depth) := isLayout_append h (isLayout_newLine depth)

/-- A property of chunks is what a rule asks of the parts of the values that are written. -/
structure Describes (P : Chunk → Prop) (rule : Rule) : Prop where
  layout : ∀ t, IsLayout t → P (.plain t)
  scalar : ∀ before v, IsLayout before → v.isContainer = false →
    (P (scalarChunk before v) ↔ v.Meets rule)
  names : ∀ names, rule.names names ↔ ∀ name ∈ names, P (.plain (quote rawPoint name))

namespace Describes

variable {P : Chunk → Prop} {rule : Rule}

theorem itemChunks_iff (h : Describes P rule) {before : Text} (hbefore : IsLayout before)
    {depth : Nat} {v : Json} (hv : (∀ chunk ∈ chunks depth v, P chunk) ↔ v.Meets rule) :
    (∀ chunk ∈ itemChunks before v (chunks depth v), P chunk) ↔ v.Meets rule := by
  cases hcontainer : v.isContainer with
  | true =>
      rw [itemChunks, if_pos hcontainer, List.forall_mem_cons, hv]
      exact and_iff_right (h.layout before hbefore)
  | false =>
      rw [itemChunks, hcontainer, if_neg Bool.false_ne_true, List.forall_mem_singleton]
      exact h.scalar before v hbefore hcontainer

theorem fieldChunks_iff (h : Describes P rule) (name : Text) {depth : Nat} {v : Json}
    (hv : (∀ chunk ∈ chunks depth v, P chunk) ↔ v.Meets rule) :
    (∀ chunk ∈ fieldChunks name (chunks depth v), P chunk) ↔
      P (.plain (quote rawPoint name)) ∧ v.Meets rule := by
  rw [fieldChunks, List.forall_mem_cons, List.forall_mem_cons, hv]
  exact and_congr_right' (and_iff_right (h.layout _ (by decide)))

def HoldsAt (P : Chunk → Prop) (rule : Rule) (v : Json) : Prop :=
  ∀ depth, (∀ chunk ∈ chunks depth v, P chunk) ↔ v.Meets rule

theorem closing (h : Describes P rule) (mark : String) (depth : Nat)
    (hmark : IsLayout (Text.ofString mark)) :
    ∀ chunk ∈ [Chunk.plain (newLine depth), .plain (Text.ofString mark)], P chunk := by
  rw [List.forall_mem_cons, List.forall_mem_singleton]
  exact ⟨h.layout _ (isLayout_newLine depth), h.layout _ hmark⟩

theorem holdsAt_arr (h : Describes P rule) {items : List Json}
    (hitems : ∀ v ∈ items, HoldsAt P rule v) : HoldsAt P rule (.arr items) := by
  intro depth
  cases items with
  | nil =>
      rw [chunks, List.forall_mem_singleton]
      exact iff_of_true (h.layout _ (by decide)) trivial
  | cons first items =>
      rw [List.forall_mem_cons] at hitems
      have hfirst := h.itemChunks_iff (isLayout_mark "[" (depth + 1) (by decide))
        (hitems.1 (depth + 1))
      have hrest : ∀ v ∈ items, _ := fun v hv =>
        h.itemChunks_iff (isLayout_mark "," (depth + 1) (by decide))
          (hitems.2 v hv (depth + 1))
      rw [chunks, List.forall_mem_append, List.forall_mem_append, hfirst,
        List.forall_mem_flatMap, forall₂_congr hrest,
        and_iff_left (h.closing "]" depth (by decide)), Json.Meets, itemsMeet, itemsMeet_iff]

theorem holdsAt_obj (h : Describes P rule) {fields : Fields}
    (hfields : ∀ field ∈ fields, HoldsAt P rule field.2) : HoldsAt P rule (.obj fields) := by
  intro depth
  rw [Json.Meets, fieldsMeet_iff, h.names, Fields.names, List.forall_mem_map, ← forall₂_and]
  cases fields with
  | nil =>
      rw [chunks, List.forall_mem_singleton]
      exact iff_of_true (h.layout _ (by decide)) fun field hfield =>
        absurd hfield List.not_mem_nil
  | cons first fields =>
      rw [List.forall_mem_cons] at hfields
      have hfirst := h.fieldChunks_iff first.1 (hfields.1 (depth + 1))
      have hrest : ∀ field ∈ fields, _ := fun field hfield =>
        h.fieldChunks_iff field.1 (hfields.2 field hfield (depth + 1))
      have hopen := h.layout (Text.ofString "\x7b") (by decide)
      have hline := h.layout _ (isLayout_newLine (depth + 1))
      have hcomma := h.layout _ (isLayout_mark "," (depth + 1) (by decide))
      rw [chunks, List.forall_mem_append, and_iff_left (h.closing "\x7d" depth (by decide))]
      simp only [List.forall_mem_append, List.forall_mem_cons, List.forall_mem_flatMap, hfirst,
        hopen, hline, hcomma, true_and, forall₂_congr hrest]

theorem chunks_iff (h : Describes P rule) (depth : Nat) (v : Json) :
    (∀ chunk ∈ chunks depth v, P chunk) ↔ v.Meets rule := by
  induction v using value_of_members generalizing depth with
  | scalar v hv =>
      rw [chunks_of_scalar hv, List.forall_mem_singleton]
      exact h.scalar [] v (by decide) hv
  | arr items hitems => exact h.holdsAt_arr hitems depth
  | obj fields hfields => exact h.holdsAt_obj hfields depth

end Describes

theorem isScalar_append {s t : Text} :
    Text.IsScalar (s ++ t) ↔ s.IsScalar ∧ t.IsScalar := List.forall_mem_append

theorem isScalar_of_layout {t : Text} (h : IsLayout t) : t.IsScalar := by
  intro c hc hsurrogate
  unfold CodePoint.IsSurrogate at hsurrogate
  rcases h c hc with rfl | hprintable
  · exact absurd hsurrogate (by decide)
  · omega

theorem isScalar_rawPoint (c : CodePoint) : Text.IsScalar (rawPoint c) ↔ ¬c.IsSurrogate := by
  rcases rawPoint_cases c with ⟨hpoint, -⟩ | ⟨hprintable, hc⟩
  · rw [hpoint, Text.IsScalar, List.forall_mem_singleton]
  · refine iff_of_true (isScalar_of_layout (isLayout_of_printable hprintable)) ?_
    unfold CodePoint.IsSurrogate
    omega

theorem isScalar_quote (t : Text) : Text.IsScalar (quote rawPoint t) ↔ t.IsScalar := by
  have hmark : Text.IsScalar [CodePoint.ofChar '"'] := by decide
  have hpoints : Text.IsScalar (t.flatMap rawPoint) ↔ t.IsScalar := by
    rw [Text.IsScalar, List.forall_mem_flatMap]
    exact forall₂_congr fun c _ => isScalar_rawPoint c
  rw [quote, isScalar_append, and_iff_left hmark, ← List.singleton_append, isScalar_append,
    and_iff_right hmark, hpoints]

theorem describes_isScalar : Describes (fun chunk => chunk.spelled.IsScalar)
    { str := Text.IsScalar, names := fun names => ∀ name ∈ names, Text.IsScalar name } where
  layout := fun t => isScalar_of_layout
  scalar := by
    intro before v hbefore hv
    rw [spelled_scalarChunk, isScalar_append, and_iff_right (isScalar_of_layout hbefore)]
    cases v with
    | null => exact iff_of_true (by decide) trivial
    | bool b => cases b <;> exact iff_of_true (by decide) trivial
    | int n =>
        exact iff_of_true (isScalar_of_layout (isLayout_of_printable (isPrintable_ofInt n))) trivial
    | float x =>
        exact iff_of_true (isScalar_of_layout (isLayout_of_printable (isPrintable_toText x)))
          trivial
    | str t => exact isScalar_quote t
    | arr items => cases hv
    | obj fields => cases hv
  names := fun names => forall₂_congr fun name _ => (isScalar_quote name).symm

/-- The chunks of a document can all be encoded exactly if its strings and names can. -/
theorem forall_chunks_isScalar (v : Json) :
    (∀ chunk ∈ chunks 0 v, chunk.spelled.IsScalar) ↔ v.IsScalar :=
  describes_isScalar.chunks_iff 0 v

def IsShort : Chunk → Prop
  | .plain _ => True
  | .integer _ n => Decimal.digitCount n.natAbs ≤ digitLimit

theorem describes_isShort :
    Describes IsShort { int := fun n => Decimal.digitCount n.natAbs ≤ digitLimit } where
  layout := fun _ _ => trivial
  scalar := by
    intro before v _ hv
    cases v with
    | arr items => cases hv
    | obj fields => cases hv
    | _ => exact Iff.rfl
  names := fun names => iff_of_true trivial fun _ _ => trivial

theorem forall_chunks_isShort (v : Json) :
    (∀ chunk ∈ chunks 0 v, IsShort chunk) ↔ v.HasShortIntegers := describes_isShort.chunks_iff 0 v

theorem carriageReturn_not_mem_of_layout {t : Text} (h : IsLayout t) :
    CodePoint.ofChar '\r' ∉ t := fun hmem => absurd (h _ hmem) (by decide)

theorem carriageReturn_not_mem_quote (t : Text) : CodePoint.ofChar '\r' ∉ quote rawPoint t := by
  intro hmem
  rw [quote, List.mem_append, List.mem_cons, List.mem_flatMap] at hmem
  rcases hmem with (hquote | ⟨c, -, hc⟩) | hquote
  · cases hquote
  · rcases rawPoint_cases c with ⟨hpoint, hvisible⟩ | ⟨hprintable, -⟩
    · rw [hpoint, List.mem_singleton] at hc
      rw [← hc] at hvisible
      exact absurd hvisible (by decide)
    · exact carriageReturn_not_mem_of_layout (isLayout_of_printable hprintable) hc
  · exact absurd hquote (by decide)

theorem describes_noReturn :
    Describes (fun chunk => CodePoint.ofChar '\r' ∉ chunk.spelled) {} where
  layout := fun t => carriageReturn_not_mem_of_layout
  scalar := by
    intro before v hbefore hv
    refine iff_of_true ?_ (meets_default v)
    rw [spelled_scalarChunk, List.mem_append, not_or]
    refine ⟨carriageReturn_not_mem_of_layout hbefore, ?_⟩
    cases v with
    | null => decide
    | bool b => cases b <;> decide
    | int n =>
        exact carriageReturn_not_mem_of_layout (isLayout_of_printable (isPrintable_ofInt n))
    | float x =>
        exact carriageReturn_not_mem_of_layout (isLayout_of_printable (isPrintable_toText x))
    | str t => exact carriageReturn_not_mem_quote t
    | arr items => cases hv
    | obj fields => cases hv
  names := fun names => iff_of_true trivial fun name _ => carriageReturn_not_mem_quote name

/-- No carriage return stands in a document: those in its strings have escapes. -/
theorem carriageReturn_not_mem_indented (v : Json) : CodePoint.ofChar '\r' ∉ v.indented := by
  intro hmem
  obtain ⟨chunk, hchunk, hmem⟩ := List.mem_flatMap.mp hmem
  exact (describes_noReturn.chunks_iff 0 v).mpr (meets_default v) chunk hchunk hmem

end TreeOffsets.Proofs.ChunkTexts
