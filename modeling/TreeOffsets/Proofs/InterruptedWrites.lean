import TreeOffsets.Proofs.WrittenFiles

namespace TreeOffsets.Proofs.InterruptedWrites

open TreeOffsets.Json
open TreeOffsets.Proofs.ChunkTexts
open TreeOffsets.Proofs.DiskPaths
open TreeOffsets.Proofs.IndentedDocuments
open TreeOffsets.Proofs.Utf8Texts
open TreeOffsets.Proofs.WrittenFiles

/-- A chunk is the first of a document that has a surrogate. -/
structure IsFirstRefused (v : Json) (before : List Chunk) (chunk : Chunk) : Prop where
  whole : ∃ missing, v.chunks 0 = before ++ chunk :: missing
  scalar : ∀ earlier ∈ before, earlier.spelled.IsScalar
  surrogate : ¬chunk.spelled.IsScalar

theorem exists_isFirstRefused {v : Json} (h : ¬v.IsScalar) :
    ∃ before chunk, IsFirstRefused v before chunk := by
  have hchunks : ¬∀ chunk ∈ v.chunks 0, chunk.spelled.IsScalar :=
    mt (forall_chunks_isScalar v).mp h
  cases hfind : (v.chunks 0).find? (fun chunk => decide ¬chunk.spelled.IsScalar) with
  | none =>
      refine absurd (fun chunk hchunk => ?_) hchunks
      simpa using List.find?_eq_none.mp hfind chunk hchunk
  | some chunk =>
      obtain ⟨hsurrogate, before, missing, hwhole, hbefore⟩ :=
        List.find?_eq_some_iff_append.mp hfind
      refine ⟨before, chunk, ⟨missing, hwhole⟩, fun earlier hearlier => ?_, ?_⟩
      · simpa using hbefore earlier hearlier
      · simpa using hsurrogate

namespace IsFirstRefused

variable {v : Json} {before : List Chunk} {chunk : Chunk}

theorem isCut (h : IsFirstRefused v before chunk) : IsCut before (v.chunks 0) := by
  obtain ⟨missing, hwhole⟩ := h.whole
  exact ⟨chunk, missing, hwhole⟩

theorem isPrefix (h : IsFirstRefused v before chunk) :
    before.flatMap Chunk.spelled <+: v.indented := by
  obtain ⟨missing, hwhole⟩ := h.whole
  rw [indented, hwhole, List.flatMap_append]
  exact List.prefix_append _ _

theorem ne_indented (h : IsFirstRefused v before chunk) :
    before.flatMap Chunk.spelled ≠ v.indented := by
  obtain ⟨missing, hwhole⟩ := h.whole
  rw [indented, hwhole, List.flatMap_append, List.flatMap_cons]
  intro hsame
  have hnothing := List.append_eq_nil_iff.mp (List.self_eq_append_right.mp hsame)
  refine h.surrogate ?_
  rw [hnothing.1]
  exact fun c hc => absurd hc List.not_mem_nil

theorem carriageReturn_not_mem (h : IsFirstRefused v before chunk) :
    CodePoint.ofChar '\r' ∉ before.flatMap Chunk.spelled :=
  mt (fun hmem => h.isPrefix.subset hmem) (carriageReturn_not_mem_indented v)

end IsFirstRefused

theorem encodeChunks_append {before : List Chunk} (h : (Results.encodeChunks before).2 = none)
    (rest : List Chunk) :
    Results.encodeChunks (before ++ rest) =
      ((Results.encodeChunks before).1 ++ (Results.encodeChunks rest).1,
        (Results.encodeChunks rest).2) := by
  induction before with
  | nil => rfl
  | cons chunk before ih =>
      rw [Results.encodeChunks] at h
      rw [List.cons_append, Results.encodeChunks, Results.encodeChunks]
      split at h
      · cases h
      · next bytes hbytes =>
          rw [ih h]
          exact congrArg (·, _) (List.append_assoc bytes _ _).symm

theorem encodeChunks_of_isFirstRefused {v : Json} {before : List Chunk} {chunk : Chunk}
    (hshort : v.HasShortIntegers) (h : IsFirstRefused v before chunk) :
    ∃ bytes fault, Text.encode (before.flatMap Chunk.spelled) = .ok bytes
      ∧ Text.encode chunk.spelled = .error fault
      ∧ Results.encodeChunks (v.chunks 0) = (bytes, some (.encode fault)) := by
  obtain ⟨missing, hwhole⟩ := h.whole
  have hchunks := (forall_chunks_isShort v).mpr hshort
  rw [hwhole, List.forall_mem_append, List.forall_mem_cons] at hchunks
  have hbefore : (Results.encodeChunks before).2 = none :=
    (encodeChunks_eq_none_iff before).mpr fun earlier hearlier =>
      ⟨hchunks.1 earlier hearlier, h.scalar earlier hearlier⟩
  cases hencode : Text.encode chunk.spelled with
  | ok bytes => exact absurd (encode_eq_ok_iff.mp hencode).1 h.surrogate
  | error fault =>
      refine ⟨_, fault, encode_eq_ok_iff.mpr (spells_encodeChunks hbefore), rfl, ?_⟩
      have hchunk : Results.encodeChunk chunk = .error (.encode fault) := by
        rw [encodeChunk_of_isShort hchunks.2.1, hencode]
        rfl
      rw [hwhole, encodeChunks_append hbefore, Results.encodeChunks, hchunk]
      exact congrArg (·, _) (List.append_nil _)

/-- A document that breaks off is refused, from whatever disk it is loaded. -/
theorem loadTree_of_isFirstRefused {disk : Disk} {path : Text} {v : Json} {before : List Chunk}
    {chunk : Chunk} (hshort : v.HasShortIntegers) (h : IsFirstRefused v before chunk)
    (hread : Results.readText disk path = .ok (before.flatMap Chunk.spelled)) :
    ∃ problem line column offset, Results.loadTree disk path =
      .error (.read (.malformed problem line column offset)) := by
  obtain ⟨problem, line, column, offset, hrefused⟩ := read_of_isCut hshort h.isCut
  refine ⟨problem, line, column, offset, ?_⟩
  rw [Results.loadTree, hread]
  change (Json.read (Results.joinLineEnds false _)).mapError Fault.read = _
  rw [joinLineEnds_of_not_mem h.carriageReturn_not_mem, hrefused]
  rfl

/-- Writing a tree that has a surrogate fails at the first chunk with one, and leaves the chunks
before it in the file: less than the whole document, nothing of what was there, and no JSON. -/
theorem writeTree_of_surrogate {disk : Disk} {path : Text} {target : Path} {v : Json}
    (hwritable : disk.writable path = .ok target) (hshort : v.HasShortIntegers)
    (hsurrogate : ¬v.IsScalar) :
    ∃ before chunk bytes fault, IsFirstRefused v before chunk
      ∧ Text.encode (before.flatMap Chunk.spelled) = .ok bytes
      ∧ Text.encode chunk.spelled = .error fault
      ∧ Results.writeTree disk path v =
        (disk.set target (.file bytes), .error (.encode fault))
      ∧ before.flatMap Chunk.spelled <+: v.indented
      ∧ before.flatMap Chunk.spelled ≠ v.indented
      ∧ ∃ problem line column offset,
        Results.loadTree (Results.writeTree disk path v).1 path =
          .error (.read (.malformed problem line column offset)) := by
  have hfile := writable_eq_ok_iff.mp hwritable
  obtain ⟨before, chunk, hfirst⟩ := exists_isFirstRefused hsurrogate
  obtain ⟨bytes, fault, hbytes, hfault, hencode⟩ := encodeChunks_of_isFirstRefused hshort hfirst
  have hwrite : Results.writeTree disk path v =
      (disk.set target (.file bytes), .error (.encode fault)) := by
    rw [Results.writeTree, writeChunks_eq hfile, hencode]
  have hread := readText_of_spells hfile (encode_eq_ok_iff.mp hbytes)
  refine ⟨before, chunk, bytes, fault, hfirst, hbytes, hfault, hwrite, hfirst.isPrefix,
    hfirst.ne_indented, ?_⟩
  rw [hwrite]
  exact loadTree_of_isFirstRefused hshort hfirst hread

/-- A tree whose only surrogate is in the name of a field inside of a list. -/
def brokenTree : Json :=
  .obj [(Text.ofString "type", .str (Text.ofString "File")),
    (Text.ofString "body", .arr [.int 1, .obj [([⟨0xD83D, by decide⟩], .null)], .bool true])]

theorem writeTree_brokenTree :
    Disk.empty.writable Results.treePath =
        .ok [Text.ofString "tmp", Text.ofString "babylon-parse.json"]
      ∧ brokenTree.HasShortIntegers ∧ ¬brokenTree.IsScalar
      ∧ ∃ before chunk bytes fault, IsFirstRefused brokenTree before chunk
        ∧ Text.encode (before.flatMap Chunk.spelled) = .ok bytes
        ∧ Text.encode chunk.spelled = .error fault
        ∧ Results.writeTree Disk.empty Results.treePath brokenTree =
          (Disk.empty.set [Text.ofString "tmp", Text.ofString "babylon-parse.json"] (.file bytes),
            .error (.encode fault))
        ∧ ∃ problem line column offset,
          Results.loadTree (Results.writeTree Disk.empty Results.treePath brokenTree).1
              Results.treePath =
            .error (.read (.malformed problem line column offset)) := by
  have hwritable : Disk.empty.writable Results.treePath =
      .ok [Text.ofString "tmp", Text.ofString "babylon-parse.json"] := by decide
  have hshort : brokenTree.HasShortIntegers := by
    simp only [brokenTree, HasShortIntegers, Meets, itemsMeet, fieldsMeet, and_true, true_and]
    decide
  have hsurrogate : ¬brokenTree.IsScalar := by
    simp only [brokenTree, IsScalar, Meets, itemsMeet, fieldsMeet, and_true, true_and]
    decide
  obtain ⟨before, chunk, bytes, fault, hfirst, hbytes, hfault, hwrite, -, -, hload⟩ :=
    writeTree_of_surrogate hwritable hshort hsurrogate
  exact ⟨hwritable, hshort, hsurrogate, before, chunk, bytes, fault, hfirst, hbytes, hfault, hwrite,
    hload⟩

end TreeOffsets.Proofs.InterruptedWrites
