import TreeOffsets.Files.Results
import TreeOffsets.Proofs.ChunkTexts
import TreeOffsets.Proofs.DiskPaths
import TreeOffsets.Proofs.IndentedDocuments
import TreeOffsets.Proofs.Utf8Texts

namespace TreeOffsets.Proofs.WrittenFiles

open TreeOffsets.Json
open TreeOffsets.Proofs.ChunkTexts
open TreeOffsets.Proofs.DiskPaths
open TreeOffsets.Proofs.IndentedDocuments
open TreeOffsets.Proofs.Utf8Texts

theorem mapError_eq_ok_iff {ε ε' α : Type} {f : ε → ε'} {result : Except ε α} {a : α} :
    result.mapError f = .ok a ↔ result = .ok a := by
  cases result <;> simp [Except.mapError]

theorem encodeChunk_of_isShort {chunk : Chunk} (h : IsShort chunk) :
    Results.encodeChunk chunk = (Text.encode chunk.spelled).mapError .encode := by
  cases chunk with
  | plain t => rfl
  | integer before n => exact if_neg (Nat.not_lt.mpr h)

theorem encodeChunk_of_not_isShort {chunk : Chunk} (h : ¬IsShort chunk) :
    Results.encodeChunk chunk = .error (.read (.tooManyDigits none)) := by
  cases chunk with
  | plain t => exact absurd trivial h
  | integer before n => exact if_pos (Nat.not_le.mp h)

theorem encodeChunk_eq_ok_iff {chunk : Chunk} {bytes : Bytes} :
    Results.encodeChunk chunk = .ok bytes ↔ IsShort chunk ∧ Spells bytes chunk.spelled := by
  by_cases h : IsShort chunk
  · rw [encodeChunk_of_isShort h, mapError_eq_ok_iff, encode_eq_ok_iff, and_iff_right h]
  · rw [encodeChunk_of_not_isShort h]
    exact iff_of_false (fun hbytes => by cases hbytes) fun hbytes => h hbytes.1

theorem encodeChunks_eq_none_iff (chunks : List Chunk) :
    (Results.encodeChunks chunks).2 = none ↔
      ∀ chunk ∈ chunks, IsShort chunk ∧ chunk.spelled.IsScalar := by
  induction chunks with
  | nil => exact iff_of_true rfl fun _ h => absurd h List.not_mem_nil
  | cons chunk chunks ih =>
      rw [List.forall_mem_cons, ← ih, Results.encodeChunks]
      split
      · next fault hfault =>
          refine iff_of_false (Option.some_ne_none fault) fun h => ?_
          have hbytes := encodeChunk_eq_ok_iff.mpr ⟨h.1.1, h.1.2, rfl⟩
          cases hfault.symm.trans hbytes
      · next bytes hbytes =>
          obtain ⟨hshort, hscalar, -⟩ := encodeChunk_eq_ok_iff.mp hbytes
          exact (and_iff_right ⟨hshort, hscalar⟩).symm

theorem spells_encodeChunks {chunks : List Chunk} (h : (Results.encodeChunks chunks).2 = none) :
    Spells (Results.encodeChunks chunks).1 (chunks.flatMap Chunk.spelled) := by
  induction chunks with
  | nil => exact spells_nil
  | cons chunk chunks ih =>
      rw [Results.encodeChunks] at h ⊢
      split at h
      · cases h
      · next bytes hbytes =>
          rw [List.flatMap_cons]
          exact (encodeChunk_eq_ok_iff.mp hbytes).2.append (ih h)

theorem writeChunks_eq {disk : Disk} {path : Text} {target : Path}
    (h : LeadsToFile disk path target) (chunks : List Chunk) :
    Results.writeChunks disk path chunks =
      (disk.set target (.file (Results.encodeChunks chunks).1),
        match (Results.encodeChunks chunks).2 with
        | some fault => .error fault
        | none => .ok ()) := by
  cases hencode : (Results.encodeChunks chunks).2 <;>
    simp [Results.writeChunks, writable_eq_ok_iff.mpr h, hencode]

theorem readText_of_spells {disk : Disk} {path : Text} {target : Path}
    (h : LeadsToFile disk path target) {bytes : Bytes} {t : Text} (hbytes : Spells bytes t) :
    Results.readText (disk.set target (.file bytes)) path = .ok t := by
  rw [Results.readText, h.read_set]
  exact mapError_eq_ok_iff.mpr (decode_eq_ok_iff.mpr hbytes)

/-- A file that has been written without a fault is read as the text of its chunks. -/
theorem readText_writeChunks {disk : Disk} {path : Text} {target : Path}
    (h : LeadsToFile disk path target) {chunks : List Chunk}
    (hencode : (Results.encodeChunks chunks).2 = none) :
    Results.readText (Results.writeChunks disk path chunks).1 path =
      .ok (chunks.flatMap Chunk.spelled) := by
  rw [writeChunks_eq h]
  exact readText_of_spells h (spells_encodeChunks hencode)

theorem joinLineEnds_of_not_mem {t : Text} (h : CodePoint.ofChar '\r' ∉ t) :
    Results.joinLineEnds false t = t := by
  induction t with
  | nil => rfl
  | cons c t ih =>
      rw [List.mem_cons, not_or] at h
      rw [Results.joinLineEnds, if_neg (Ne.symm h.1), if_neg (by simp), ih h.2]

theorem writeTree_eq_ok_iff {disk : Disk} {path : Text} {target : Path}
    (h : LeadsToFile disk path target) (v : Json) :
    (Results.writeTree disk path v).2 = .ok () ↔ v.HasShortIntegers ∧ v.IsScalar := by
  have hencode : (Results.encodeChunks (v.chunks 0)).2 = none ↔
      v.HasShortIntegers ∧ v.IsScalar := by
    rw [encodeChunks_eq_none_iff, forall₂_and, forall_chunks_isShort, forall_chunks_isScalar]
  rw [← hencode, Results.writeTree, writeChunks_eq h]
  cases (Results.encodeChunks (v.chunks 0)).2 <;> simp

theorem loadTree_of_written {disk : Disk} {path : Text} {target : Path} {v : Json}
    (h : LeadsToFile disk path target) (hnames : v.HasDistinctNames)
    (hok : (Results.writeTree disk path v).2 = .ok ()) :
    Results.loadTree (Results.writeTree disk path v).1 path = .ok v := by
  obtain ⟨hshort, hscalar⟩ := (writeTree_eq_ok_iff h v).mp hok
  have hencode := (encodeChunks_eq_none_iff (v.chunks 0)).mpr fun chunk hchunk =>
    ⟨(forall_chunks_isShort v).mpr hshort chunk hchunk,
      (forall_chunks_isScalar v).mpr hscalar chunk hchunk⟩
  have hjoin := joinLineEnds_of_not_mem (carriageReturn_not_mem_indented v)
  have hread := read_indented hshort hnames
  rw [indented] at hjoin hread
  rw [Results.loadTree, Results.writeTree, readText_writeChunks h hencode]
  exact mapError_eq_ok_iff.mpr ((congrArg Json.read hjoin).trans hread)

/-- A tree is written to a file exactly if no string and no name in it has a surrogate, and then it
is loaded from there as it is, whatever the file had in it. -/
theorem loadTree_writeTree {disk : Disk} {path : Text} {target : Path} {v : Json}
    (hwritable : disk.writable path = .ok target) (hshort : v.HasShortIntegers)
    (hnames : v.HasDistinctNames) :
    ((Results.writeTree disk path v).2 = .ok () ↔ v.IsScalar)
      ∧ ((Results.writeTree disk path v).2 = .ok () →
        Results.loadTree (Results.writeTree disk path v).1 path = .ok v) := by
  have hfile := writable_eq_ok_iff.mp hwritable
  exact ⟨(writeTree_eq_ok_iff hfile v).trans (and_iff_right hshort),
    loadTree_of_written hfile hnames⟩

/-- A tree with every kind of value, a line feed in a name, and a string outside of the Basic
Multilingual Plane. -/
def mixedTree : Json :=
  .obj [(Text.ofString "a\nb", .arr [.null, .bool true, .int (-7), .float (.infinity true)]),
    (Text.ofString "", .str (Text.ofString "\"😀\\")), (Text.ofString "a", .obj [])]

theorem loadTree_writeTree_mixedTree :
    Disk.empty.writable Results.treePath =
        .ok [Text.ofString "tmp", Text.ofString "babylon-parse.json"]
      ∧ mixedTree.HasShortIntegers ∧ mixedTree.HasDistinctNames
      ∧ Results.loadTree (Results.writeTree Disk.empty Results.treePath mixedTree).1
        Results.treePath = .ok mixedTree := by
  have hwritable : Disk.empty.writable Results.treePath =
      .ok [Text.ofString "tmp", Text.ofString "babylon-parse.json"] := by decide
  have hshort : mixedTree.HasShortIntegers := by
    simp only [mixedTree, HasShortIntegers, Meets, itemsMeet, fieldsMeet, and_true, true_and]
    decide
  have hnames : mixedTree.HasDistinctNames := by
    simp only [mixedTree, HasDistinctNames, Meets, itemsMeet, fieldsMeet, and_true]
    decide
  have hscalar : mixedTree.IsScalar := by
    simp only [mixedTree, IsScalar, Meets, itemsMeet, fieldsMeet, and_true, true_and]
    decide
  obtain ⟨hwrite, hload⟩ := loadTree_writeTree hwritable hshort hnames
  exact ⟨hwritable, hshort, hnames, hload (hwrite.mpr hscalar)⟩

end TreeOffsets.Proofs.WrittenFiles
