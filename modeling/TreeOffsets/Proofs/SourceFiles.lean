import TreeOffsets.Parse.Parser
import TreeOffsets.Proofs.Utf8Texts

namespace TreeOffsets.Proofs.SourceFiles

open TreeOffsets.Text
open TreeOffsets.Proofs.Utf8Texts

/-- No code point is written with the bytes that come next. -/
def BeginsNone (bytes : Bytes) : Prop := ∀ c : CodePoint, ¬c.IsSurrogate → ¬c.utf8 <+: bytes

/-- Bytes that are read from place `start` on are refused behind those of a text, where no code
point begins. -/
def RefusedFrom (start : Nat) (bytes : Bytes) (fault : DecodeFault) : Prop :=
  ∃ (read : Text) (rest : Bytes),
    bytes = read.flatMap CodePoint.utf8 ++ fault.first :: rest ∧ read.IsScalar
      ∧ fault.start = start + (read.flatMap CodePoint.utf8).length
      ∧ BeginsNone (fault.first :: rest)

theorem utf8_ne_nil (c : CodePoint) : c.utf8 ≠ [] := by
  unfold CodePoint.utf8
  repeat' split
  all_goals exact List.cons_ne_nil _ _

theorem RefusedFrom.cons {c : CodePoint} {first bytes : Bytes} {start next : Nat}
    {fault : DecodeFault} (hc : ¬c.IsSurrogate) (hfirst : first = c.utf8)
    (hnext : next = start + first.length) (h : RefusedFrom next bytes fault) :
    RefusedFrom start (first ++ bytes) fault := by
  obtain ⟨read, rest, rfl, hread, hstart, hrest⟩ := h
  subst hfirst
  refine ⟨c :: read, rest, ?_, List.forall_mem_cons.mpr ⟨hc, hread⟩, ?_, hrest⟩
  · rw [List.flatMap_cons, List.append_assoc]
  · rw [List.flatMap_cons, List.length_append, hstart, hnext, Nat.add_assoc]

section

variable {start : Nat} {done : Text} {bytes : Bytes} {fault : DecodeFault}

theorem start_le_of_decodeFrom (h : decodeFrom start done bytes = .error fault) :
    start ≤ fault.start := by
  fun_induction decodeFrom start done bytes with
  | case1 => cases h
  | case2 start done a rest ha ih => exact Nat.le_of_add_right_le (ih h)
  | case5 start done a ha hlead b rest hb hshort ih => exact Nat.le_of_add_right_le (ih h)
  | case7 start done a ha hlead b hb hlow c rest hc hshort ih =>
      exact Nat.le_of_add_right_le (ih h)
  | case9 start done a ha hlead b hb hlow c hc hlong d rest hd ih =>
      exact Nat.le_of_add_right_le (ih h)
  | _ =>
      cases h
      exact Nat.le_refl _

/-- If a code point began where reading begins, reading would go on behind it. -/
theorem beginsNone_of_decodeFrom (h : decodeFrom start done bytes = .error fault)
    (hstart : fault.start = start) : BeginsNone bytes := by
  rintro c hc ⟨rest, rfl⟩
  rw [readsFirst hc] at h
  have hle := start_le_of_decodeFrom h
  have hpos := List.length_pos_iff.mpr (utf8_ne_nil c)
  omega

theorem refusedFrom_here {rest : Bytes} (hfirst : bytes = fault.first :: rest)
    (hstart : fault.start = start) (h : BeginsNone bytes) : RefusedFrom start bytes fault :=
  ⟨[], rest, hfirst, fun _ hc => absurd hc List.not_mem_nil, hstart, hfirst ▸ h⟩

theorem refusedFrom_of_decodeFrom (h : decodeFrom start done bytes = .error fault) :
    RefusedFrom start bytes fault := by
  have hnone := beginsNone_of_decodeFrom h
  fun_induction decodeFrom start done bytes with
  | case1 => cases h
  | case2 start done a rest ha ih =>
      obtain ⟨hc, hbytes⟩ := one_spec ha (by omega)
      exact (ih h (beginsNone_of_decodeFrom h)).cons hc hbytes rfl
  | case5 start done a ha hlead b rest hb hshort ih =>
      obtain ⟨hc, hbytes⟩ := two_spec hlead hb hshort
      exact (ih h (beginsNone_of_decodeFrom h)).cons hc hbytes rfl
  | case7 start done a ha hlead b hb hlow c rest hc hshort ih =>
      obtain ⟨hc, hbytes⟩ := three_spec hb hlow hshort hc
      exact (ih h (beginsNone_of_decodeFrom h)).cons hc hbytes rfl
  | case9 start done a ha hlead b hb hlow c hc hlong d rest hd ih =>
      obtain ⟨hc, hbytes⟩ := four_spec hb hlong (by omega) hc hd
      exact (ih h (beginsNone_of_decodeFrom h)).cons hc hbytes rfl
  | _ =>
      cases h
      exact refusedFrom_here rfl rfl (hnone rfl)

end

theorem readText_of_read {disk : Disk} {path : Text} {bytes : Bytes}
    (h : disk.read path = .ok bytes) :
    Results.readText disk path = (Text.decode bytes).mapError .decode := by
  rw [Results.readText, h]

/-- A source file is read as a text exactly if its bytes are those of the text and this is made of
scalar values. Any other bytes are refused where they first begin no code point. -/
theorem readSource_spells {parser : Parser} {disk : Disk} {bytes : Bytes}
    (hfile : disk.read parser.path = .ok bytes) :
    (∀ t after, parser.readSource disk = .ok (t, after) ↔
        Spells bytes t ∧ after = { parser with source := t })
      ∧ ((∀ t, ¬Spells bytes t) → ∃ fault, parser.readSource disk = .error (.decode fault)
        ∧ RefusedFrom 0 bytes fault) := by
  rw [Parser.readSource, readText_of_read hfile]
  cases hdecode : Text.decode bytes with
  | ok read =>
      have hread := decode_eq_ok_iff.mp hdecode
      refine ⟨fun t after => ?_, fun hnone => absurd hread (hnone read)⟩
      constructor
      · intro h
        cases h
        exact ⟨hread, rfl⟩
      · rintro ⟨ht, rfl⟩
        cases hdecode.symm.trans (decode_eq_ok_iff.mpr ht)
        rfl
  | error fault =>
      refine ⟨fun t after => ?_, fun _ => ⟨fault, rfl, refusedFrom_of_decodeFrom hdecode⟩⟩
      constructor
      · intro h
        cases h
      · rintro ⟨ht, -⟩
        cases hdecode.symm.trans (decode_eq_ok_iff.mpr ht)

/-- A parser for a file of the output directory, and a disk with bytes in that file. -/
def noteParser : Parser := { path := Text.ofString "/tmp/a" }

@[inherit_doc noteParser]
def noteDisk (bytes : Bytes) : Disk :=
  Disk.empty.set [Text.ofString "tmp", Text.ofString "a"] (.file bytes)

/-- A byte order mark, both halves of a line end, a null, and a code point of four bytes. -/
def markedText : Text := [Json.byteOrderMark, '\r', '\n', '\x00', '😀']

@[inherit_doc markedText]
def markedBytes : Bytes := [0xEF, 0xBB, 0xBF, 0x0D, 0x0A, 0x00, 0xF0, 0x9F, 0x98, 0x80]

/-- A letter and the three bytes of a surrogate. -/
def halfBytes : Bytes := [0x61, 0xED, 0xA0, 0x80]

theorem readSource_markedBytes :
    (noteDisk markedBytes).read noteParser.path = .ok markedBytes
      ∧ noteParser.readSource (noteDisk markedBytes) =
        .ok (markedText, { noteParser with source := markedText })
      ∧ (noteDisk halfBytes).read noteParser.path = .ok halfBytes
      ∧ ∃ fault, noteParser.readSource (noteDisk halfBytes) = .error (.decode fault)
        ∧ RefusedFrom 0 halfBytes fault := by
  have hmarked : Spells markedBytes markedText := decode_eq_ok_iff.mp rfl
  have hhalf : ∀ t, ¬Spells halfBytes t := by
    intro t ht
    cases decode_eq_ok_iff.mpr ht
  exact ⟨rfl, ((readSource_spells rfl).1 markedText _).mpr ⟨hmarked, rfl⟩, rfl,
    (readSource_spells rfl).2 hhalf⟩

end TreeOffsets.Proofs.SourceFiles
