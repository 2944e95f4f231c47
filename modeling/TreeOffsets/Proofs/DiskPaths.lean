import TreeOffsets.Files.Disk

namespace TreeOffsets.Proofs.DiskPaths

variable {disk after : Disk} {path : Text} {target : Path}

/-- The directories of a disk are directories of another one. -/
def KeepsDirectories (disk after : Disk) : Prop :=
  ∀ path, disk.find? path = some .directory → after.find? path = some .directory

theorem follow_of_keepsDirectories (h : KeepsDirectories disk after) {whole : Text}
    {here : Path} {names : List Text} (hfollow : disk.follow whole here names = .ok target) :
    after.follow whole here names = .ok target := by
  induction names generalizing here with
  | nil => exact hfollow
  | cons name names ih =>
      rw [Disk.follow] at hfollow ⊢
      split at hfollow
      · next hdirectory =>
          rw [h here hdirectory]
          exact ih hfollow
      · cases hfollow
      · cases hfollow

theorem follow_eq_foldl {whole : Text} {here : Path} {names : List Text}
    (h : disk.follow whole here names = .ok target) : target = names.foldl Path.enter here := by
  induction names generalizing here with
  | nil =>
      cases h
      rfl
  | cons name names ih =>
      rw [Disk.follow] at h
      split at h
      · exact ih h
      · cases h
      · cases h

theorem follow_of_resolve (h : disk.resolve path = .ok target) :
    path ≠ [] ∧ disk.follow path (Path.parts path).1 (Path.parts path).2 = .ok target := by
  unfold Disk.resolve at h
  split at h
  · cases h
  · split at h
    · cases h
    · next hempty => exact ⟨hempty, h⟩

theorem resolve_of_keepsDirectories (h : KeepsDirectories disk after)
    (hresolve : disk.resolve path = .ok target) : after.resolve path = .ok target := by
  unfold Disk.resolve at hresolve ⊢
  split at hresolve
  · cases hresolve
  · next hnull =>
      rw [if_neg hnull]
      split at hresolve
      · cases hresolve
      · next hempty =>
          rw [if_neg hempty]
          exact follow_of_keepsDirectories h hresolve

/-- A path leads nowhere but to the place that it is written for. -/
theorem eq_ofText_of_resolve (h : disk.resolve path = .ok target) : target = Path.ofText path :=
  follow_eq_foldl (follow_of_resolve h).2

theorem keepsDirectories_set (h : disk.find? target ≠ some .directory) (entry : Entry) :
    KeepsDirectories disk (disk.set target entry) := by
  intro path hpath
  have hne : path ≠ target := by
    rintro rfl
    exact h hpath
  rw [Disk.find?_set_of_ne hne, hpath]

theorem keepsDirectories_erase (h : disk.find? target ≠ some .directory) :
    KeepsDirectories disk (disk.erase target) := by
  intro path hpath
  have hne : path ≠ target := by
    rintro rfl
    exact h hpath
  rw [Disk.find?_erase_of_ne hne, hpath]

theorem ne_nil_of_no_directory (h : disk.find? target ≠ some .directory) : target ≠ [] := by
  rintro rfl
  exact h rfl

/-- What makes a path one of a file that can be written. -/
structure LeadsToFile (disk : Disk) (path : Text) (target : Path) : Prop where
  resolves : disk.resolve path = .ok target
  noSlash : Path.endsInSlash path = false
  noDirectory : disk.find? target ≠ some .directory

theorem writable_eq_ok_iff : disk.writable path = .ok target ↔ LeadsToFile disk path target := by
  constructor
  · intro h
    unfold Disk.writable at h
    split at h
    · cases h
    · next found hresolve =>
        split at h
        · cases h
        · next hslash =>
            split at h
            · cases h
            · next hfind =>
                cases h
                exact ⟨hresolve, eq_false_of_ne_true hslash, hfind⟩
  · rintro ⟨hresolve, hslash, hfind⟩
    simp only [Disk.writable, hresolve, hslash, Bool.false_eq_true, if_false]

theorem read_of_file {bytes : Bytes} (hresolve : disk.resolve path = .ok target)
    (hslash : Path.endsInSlash path = false) (hfile : disk.find? target = some (.file bytes)) :
    disk.read path = .ok bytes := by
  simp only [Disk.read, hresolve, hfile, hslash, Bool.false_eq_true, if_false]

theorem exists_file_of_read {bytes : Bytes} (h : disk.read path = .ok bytes) :
    ∃ found, disk.resolve path = .ok found ∧ Path.endsInSlash path = false
      ∧ disk.find? found = some (.file bytes) := by
  unfold Disk.read at h
  split at h
  · cases h
  · next found hresolve =>
      split at h
      · next content hfile =>
          split at h
          · cases h
          · next hslash =>
              cases h
              exact ⟨found, hresolve, eq_false_of_ne_true hslash, hfile⟩
      · cases h
      · cases h

/-- A file is read as before once another one has been written. -/
theorem read_set_of_ne {bytes : Bytes} (htarget : disk.find? target ≠ some .directory)
    (hne : Path.ofText path ≠ target) (h : disk.read path = .ok bytes) (entry : Entry) :
    (disk.set target entry).read path = .ok bytes := by
  obtain ⟨found, hresolve, hslash, hfile⟩ := exists_file_of_read h
  have hfound : found ≠ target := by
    rw [eq_ofText_of_resolve hresolve]
    exact hne
  refine read_of_file (resolve_of_keepsDirectories (keepsDirectories_set htarget entry) hresolve)
    hslash ?_
  rw [Disk.find?_set_of_ne hfound, hfile]

theorem LeadsToFile.set_of_ne {other : Path} (h : LeadsToFile disk path target)
    (hother : disk.find? other ≠ some .directory) (hne : target ≠ other) (entry : Entry) :
    LeadsToFile (disk.set other entry) path target where
  resolves := resolve_of_keepsDirectories (keepsDirectories_set hother entry) h.resolves
  noSlash := h.noSlash
  noDirectory := by
    rw [Disk.find?_set_of_ne hne]
    exact h.noDirectory

theorem LeadsToFile.set (h : LeadsToFile disk path target) (bytes : Bytes) :
    LeadsToFile (disk.set target (.file bytes)) path target where
  resolves := resolve_of_keepsDirectories (keepsDirectories_set h.noDirectory _) h.resolves
  noSlash := h.noSlash
  noDirectory := by
    rw [Disk.find?_set_self (ne_nil_of_no_directory h.noDirectory)]
    exact fun hentry => by cases hentry

theorem LeadsToFile.read_set (h : LeadsToFile disk path target) (bytes : Bytes) :
    (disk.set target (.file bytes)).read path = .ok bytes :=
  read_of_file (h.set bytes).resolves h.noSlash
    (Disk.find?_set_self (ne_nil_of_no_directory h.noDirectory) _ _)

structure IsRemoved (disk after : Disk) (target : Path) : Prop where
  gone : after.find? target = none
  others : ∀ other, other ≠ target → after.find? other = disk.find? other
  directories : KeepsDirectories disk after

theorem isRemoved_of_remove {removed : Bool} (hresolve : disk.resolve path = .ok target)
    (h : disk.remove path = .ok (removed, after)) : IsRemoved disk after target := by
  simp only [Disk.remove, hresolve] at h
  split at h
  · next content hfile =>
      have hdirectory : disk.find? target ≠ some .directory := by
        rw [hfile]
        exact fun hentry => by cases hentry
      split at h
      · cases h
      · cases h
        exact ⟨Disk.find?_erase_self (ne_nil_of_no_directory hdirectory) disk,
          fun other hne => Disk.find?_erase_of_ne hne disk, keepsDirectories_erase hdirectory⟩
  · cases h
  · next hnone =>
      cases h
      exact ⟨hnone, fun _ _ => rfl, fun _ hpath => hpath⟩

theorem LeadsToFile.exists_remove (h : LeadsToFile disk path target) :
    ∃ removed after, disk.remove path = .ok (removed, after) := by
  simp only [Disk.remove, h.resolves]
  split
  · rw [h.noSlash, if_neg Bool.false_ne_true]
    exact ⟨_, _, rfl⟩
  · next hdirectory => exact absurd hdirectory h.noDirectory
  · exact ⟨_, _, rfl⟩

theorem find?_remove_of_ne {removed : Bool} {other : Path} (hne : other ≠ Path.ofText path)
    (h : disk.remove path = .ok (removed, after)) : after.find? other = disk.find? other := by
  cases hresolve : disk.resolve path with
  | ok target =>
      rw [← eq_ofText_of_resolve hresolve] at hne
      exact (isRemoved_of_remove hresolve h).others other hne
  | error fault =>
      unfold Disk.remove at h
      rw [hresolve] at h
      cases fault <;> cases h
      rfl

end TreeOffsets.Proofs.DiskPaths
