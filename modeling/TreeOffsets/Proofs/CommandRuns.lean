import TreeOffsets.Proofs.DistinctNames
import TreeOffsets.Proofs.ParserOutcomes

namespace TreeOffsets.Proofs.CommandRuns

open TreeOffsets.Json
open TreeOffsets.Proofs.ChunkTexts
open TreeOffsets.Proofs.DiskPaths
open TreeOffsets.Proofs.DistinctNames
open TreeOffsets.Proofs.ParserOutcomes
open TreeOffsets.Proofs.ParserPlaces
open TreeOffsets.Proofs.Utf8Texts
open TreeOffsets.Proofs.WrittenFiles

def treeTarget : Path := Path.ofText Results.treePath

def errorTarget : Path := Path.ofText Results.errorPath

theorem treeTarget_ne_errorTarget : treeTarget ≠ errorTarget := by decide

section

variable {disk : Disk} {path : Text}

theorem writeChunks_cases (disk : Disk) (path : Text) (chunks : List Chunk) :
    (∃ fault, Results.writeChunks disk path chunks = (disk, .error fault))
      ∨ LeadsToFile disk path (Path.ofText path) := by
  cases hwritable : disk.writable path with
  | error fault => exact .inl ⟨.disk fault, by simp only [Results.writeChunks, hwritable]⟩
  | ok target =>
      have hfile := writable_eq_ok_iff.mp hwritable
      rw [eq_ofText_of_resolve hfile.resolves] at hfile
      exact .inr hfile

theorem find?_writeChunks_of_ne {other : Path} (h : other ≠ Path.ofText path)
    (chunks : List Chunk) :
    (Results.writeChunks disk path chunks).1.find? other = disk.find? other := by
  rcases writeChunks_cases disk path chunks with ⟨fault, hfault⟩ | hfile
  · rw [hfault]
  · rw [writeChunks_eq hfile]
    exact Disk.find?_set_of_ne h disk _

theorem leadsToFile_of_writeChunks {chunks : List Chunk}
    (h : (Results.writeChunks disk path chunks).2 = .ok ()) :
    LeadsToFile disk path (Path.ofText path) := by
  rcases writeChunks_cases disk path chunks with ⟨fault, hfault⟩ | hfile
  · rw [hfault] at h
    cases h
  · exact hfile

theorem find?_remove_of_ne {other : Path} (h : other ≠ Path.ofText path) :
    (Results.remove disk path).1.find? other = disk.find? other := by
  unfold Results.remove
  split
  · rfl
  · next removed after hremove => exact DiskPaths.find?_remove_of_ne h hremove

theorem remove_of_ok {removed : Bool} (h : (Results.remove disk path).2 = .ok removed) :
    disk.remove path = .ok (removed, (Results.remove disk path).1) := by
  unfold Results.remove at h ⊢
  cases hremove : disk.remove path with
  | error fault =>
      rw [hremove] at h
      cases h
  | ok found =>
      rw [hremove] at h
      cases h
      rfl

end

def resultDirectory : Path := [Text.ofString "tmp"]

theorem resolve_eq_ok_iff {disk : Disk} {path first last : Text} {target : Path}
    (hnull : (path.any fun c => c.val == 0) = false)
    (hparts : Path.parts path = ([], [first, last])) (hne : path ≠ []) :
    disk.resolve path = .ok target ↔
      disk.find? (Path.enter [] first) = some .directory
        ∧ target = Path.enter (Path.enter [] first) last := by
  have hroot : disk.find? [] = some .directory := rfl
  simp only [Disk.resolve, hnull, Bool.false_eq_true, if_false, if_neg hne, hparts, Disk.follow,
    hroot]
  split
  · next hfirst => simp [hfirst, eq_comm]
  · next hfirst => simp [hfirst]
  · next hfirst => simp [hfirst]

theorem resolve_treePath_iff {disk : Disk} : disk.resolve Results.treePath = .ok treeTarget ↔
    disk.find? resultDirectory = some .directory := by
  have hparts : Path.parts Results.treePath =
      ([], [Text.ofString "tmp", Text.ofString "babylon-parse.json"]) := by decide
  rw [resolve_eq_ok_iff (by decide) hparts (by decide)]
  exact and_iff_left (by decide)

theorem resolve_errorPath_iff {disk : Disk} : disk.resolve Results.errorPath = .ok errorTarget ↔
    disk.find? resultDirectory = some .directory := by
  have hparts : Path.parts Results.errorPath =
      ([], [Text.ofString "tmp", Text.ofString "babylon-error"]) := by decide
  rw [resolve_eq_ok_iff (by decide) hparts (by decide)]
  exact and_iff_left (by decide)

section

variable {disk : Disk} {calls : List Call}

theorem finishTree_disk (tree : Finding) : (Command.finishTree disk calls tree).disk =
    (Results.writeTree disk Results.treePath tree.toJson).1 := by
  unfold Command.finishTree
  split
  · next hwrite => rw [hwrite]
  · next hwrite =>
      rw [hwrite]
      split <;> rfl

theorem finishTree_ending_ne (tree : Finding) :
    (Command.finishTree disk calls tree).ending ≠ .exit 1 := by
  unfold Command.finishTree
  split
  · simp
  · split <;> simp

theorem finishTree_exit_zero_iff {tree : Finding} :
    (Command.finishTree disk calls tree).ending = .exit 0 ↔
      (Results.writeTree disk Results.treePath tree.toJson).2 = .ok ()
        ∧ ∃ text, Command.summary (.success tree) = .ok text := by
  unfold Command.finishTree
  split
  · next hwrite => simp [hwrite]
  · next hwrite =>
      rw [hwrite]
      split
      · next hsummary => simp [hsummary]
      · next text hsummary => simp [hsummary]

def errorText (complaint : Complaint) : Text :=
  complaint.title ++ Text.ofString ": " ++ complaint.shown

/-- The name of a reported error, which is about the syntax if it says nothing else. -/
def nameOf (error : Fields) : Text :=
  match Fields.value? error (Text.ofString "name") with
  | some v => if v.isTruthy then v.shown else Text.ofString "SyntaxError"
  | none => Text.ofString "SyntaxError"

def messageOf (error : Fields) : Text :=
  match Fields.value? error (Text.ofString "message") with
  | some v => v.shown
  | none => []

theorem title_ofReport {error : Fields} {complaint : Complaint}
    (h : Complaint.ofReport (.obj error) = .ok complaint) : complaint.title = nameOf error := by
  have hname : complaint.name = ((Fields.value? error (Text.ofString "name")).getD .null).orElse
      (.ofString "SyntaxError") := by
    cases h
    rfl
  rw [Complaint.title, hname, nameOf]
  cases Fields.value? error (Text.ofString "name") with
  | none => rfl
  | some v =>
      rw [Option.getD_some, Json.orElse]
      dsimp only
      cases hv : v.isTruthy with
      | true => rw [if_pos rfl, if_pos hv, if_pos rfl]
      | false => rfl

theorem shown_ofReport {error : Fields} {complaint : Complaint}
    (h : Complaint.ofReport (.obj error) = .ok complaint) : complaint.shown = messageOf error := by
  have hmessage : complaint.message =
      (Fields.value? error (Text.ofString "message")).getD (.str []) := by
    cases h
    rfl
  rw [Complaint.shown, hmessage, messageOf]
  cases Fields.value? error (Text.ofString "message") <;> rfl

theorem errorText_ofReport {error : Fields} {complaint : Complaint}
    (h : Complaint.ofReport (.obj error) = .ok complaint) :
    errorText complaint = nameOf error ++ Text.ofString ": " ++ messageOf error := by
  rw [errorText, title_ofReport h, shown_ofReport h]

/-- The disk on which a complaint has been written. -/
def complained (disk : Disk) (complaint : Complaint) : Disk × Except Fault Unit :=
  Results.writeError disk Results.errorPath (errorText complaint)

theorem complained_eq_ok_iff {complaint : Complaint}
    (h : LeadsToFile disk Results.errorPath errorTarget) :
    (complained disk complaint).2 = .ok () ↔ (errorText complaint).IsScalar := by
  have hencode : (Results.encodeChunks [.plain (errorText complaint)]).2 = none ↔
      (errorText complaint).IsScalar := by
    rw [encodeChunks_eq_none_iff, List.forall_mem_singleton]
    exact and_iff_right trivial
  rw [← hencode, complained, Results.writeError, writeChunks_eq h]
  cases (Results.encodeChunks [.plain (errorText complaint)]).2 <;> simp

theorem spells_complained {complaint : Complaint} (h : (complained disk complaint).2 = .ok ()) :
    LeadsToFile (complained disk complaint).1 Results.errorPath errorTarget
      ∧ ∃ bytes, (complained disk complaint).1.find? errorTarget = some (.file bytes)
        ∧ Spells bytes (errorText complaint) := by
  have hfile := leadsToFile_of_writeChunks h
  have hscalar := (complained_eq_ok_iff hfile).mp h
  have hspells := spells_encodeChunks ((encodeChunks_eq_none_iff
    [.plain (errorText complaint)]).mpr (List.forall_mem_singleton.mpr ⟨trivial, hscalar⟩))
  rw [List.flatMap_singleton] at hspells
  rw [complained, Results.writeError, writeChunks_eq hfile]
  exact ⟨hfile.set _, _, Disk.find?_set_self (ne_nil_of_no_directory hfile.noDirectory) _ _,
    hspells⟩

theorem finishComplaint_of_unwritten {complaint : Complaint} {fault : Fault}
    (h : (complained disk complaint).2 = .error fault) :
    Command.finishComplaint disk calls (.complaint complaint) =
      { ending := .fault fault, calls, disk := (complained disk complaint).1 } := by
  have hwrite : Results.writeError disk Results.errorPath (errorText complaint) =
      ((complained disk complaint).1, .error fault) := Prod.ext rfl h
  simp only [errorText] at hwrite
  simp only [Command.finishComplaint, Finding.title, Finding.shown, hwrite]

theorem finishComplaint_of_written {complaint : Complaint}
    (h : (complained disk complaint).2 = .ok ()) :
    let run := Command.finishComplaint disk calls (.complaint complaint)
    let removed := Results.remove (complained disk complaint).1 Results.treePath
    run.disk = removed.1 ∧ run.ending = match removed.2 with
      | .error fault => .fault fault
      | .ok _ => .exit 1 := by
  have hwrite : Results.writeError disk Results.errorPath (errorText complaint) =
      ((complained disk complaint).1, .ok ()) := Prod.ext rfl h
  simp only [errorText] at hwrite
  simp only [Command.finishComplaint, Finding.title, Finding.shown, hwrite]
  rcases Results.remove (complained disk complaint).1 Results.treePath with ⟨after, _ | _⟩ <;>
    exact ⟨rfl, rfl⟩

theorem finishComplaint_find?_of_ne {other : Path} (htree : other ≠ treeTarget)
    (herror : other ≠ errorTarget) (complaint : Complaint) :
    (Command.finishComplaint disk calls (.complaint complaint)).disk.find? other =
      disk.find? other := by
  have hwrite : (complained disk complaint).1.find? other = disk.find? other :=
    find?_writeChunks_of_ne herror _
  cases hresult : (complained disk complaint).2 with
  | error fault => rw [finishComplaint_of_unwritten hresult, hwrite]
  | ok _ =>
      rw [(finishComplaint_of_written hresult).1, find?_remove_of_ne htree, hwrite]

theorem finishComplaint_ending_ne (complaint : Complaint) :
    (Command.finishComplaint disk calls (.complaint complaint)).ending ≠ .exit 0 := by
  cases hresult : (complained disk complaint).2 with
  | error fault =>
      rw [finishComplaint_of_unwritten hresult]
      exact Ending.noConfusion
  | ok _ =>
      rw [(finishComplaint_of_written hresult).2]
      split <;> simp

theorem finishComplaint_exit_one {complaint : Complaint}
    (h : (Command.finishComplaint disk calls (.complaint complaint)).ending = .exit 1) :
    (Command.finishComplaint disk calls (.complaint complaint)).disk.find? treeTarget = none
      ∧ Holds (Command.finishComplaint disk calls (.complaint complaint)).disk Results.errorPath
        (errorText complaint) := by
  cases hwrite : (complained disk complaint).2 with
  | error fault =>
      rw [finishComplaint_of_unwritten hwrite] at h
      cases h
  | ok _ =>
      obtain ⟨hdisk, hending⟩ := finishComplaint_of_written hwrite
      obtain ⟨hfile, bytes, hbytes, hspells⟩ := spells_complained hwrite
      -- Both files are in one directory, so the path of the tree leads somewhere as well.
      have htree := resolve_treePath_iff.mpr (resolve_errorPath_iff.mp hfile.resolves)
      rw [hending] at h
      rw [hdisk]
      split at h
      · cases h
      · next removed hremoved =>
          have hgone := isRemoved_of_remove htree (remove_of_ok hremoved)
          have herror := resolve_of_keepsDirectories hgone.directories hfile.resolves
          have hkept := (hgone.others _ treeTarget_ne_errorTarget.symm).trans hbytes
          exact ⟨hgone.gone, bytes, read_of_file herror hfile.noSlash hkept, hspells⟩

theorem finishComplaint_of_scalar {complaint : Complaint}
    (herror : LeadsToFile disk Results.errorPath errorTarget)
    (htree : LeadsToFile disk Results.treePath treeTarget)
    (hscalar : (errorText complaint).IsScalar) :
    (Command.finishComplaint disk calls (.complaint complaint)).ending = .exit 1 := by
  have hwrite := (complained_eq_ok_iff herror).mpr hscalar
  have htree : LeadsToFile (complained disk complaint).1 Results.treePath treeTarget := by
    rw [complained, Results.writeError, writeChunks_eq herror]
    exact htree.set_of_ne herror.noDirectory treeTarget_ne_errorTarget _
  obtain ⟨removed, after, hremove⟩ := htree.exists_remove
  have hremoved : (Results.remove (complained disk complaint).1 Results.treePath).2 =
      .ok removed := by
    simp only [Results.remove, hremove]
  rw [(finishComplaint_of_written hwrite).2, hremoved]

/-- A complaint without bytes is a fault: its file is left empty, and no tree is taken away. -/
theorem finishComplaint_of_not_scalar {complaint : Complaint}
    (herror : LeadsToFile disk Results.errorPath errorTarget)
    (hscalar : ¬(errorText complaint).IsScalar) :
    let run := Command.finishComplaint disk calls (.complaint complaint)
    (∃ fault, run.ending = .fault (.encode fault))
      ∧ run.disk.find? errorTarget = some (.file [])
      ∧ run.disk.find? treeTarget = disk.find? treeTarget := by
  have hencode : ∃ fault, Text.encode (errorText complaint) = .error fault := by
    cases hbytes : Text.encode (errorText complaint) with
    | error fault => exact ⟨fault, rfl⟩
    | ok bytes => exact absurd (encode_eq_ok_iff.mp hbytes).1 hscalar
  obtain ⟨fault, hfault⟩ := hencode
  -- The file is opened before its text is encoded, and a text that cannot be is one chunk.
  have hchunks : Results.encodeChunks [.plain (errorText complaint)] =
      ([], some (.encode fault)) := by
    simp [Results.encodeChunks, Results.encodeChunk, hfault, Except.mapError]
  have hwrite : complained disk complaint =
      (disk.set errorTarget (.file []), .error (.encode fault)) := by
    simp only [complained, Results.writeError, writeChunks_eq herror, hchunks]
  have hrun : Command.finishComplaint disk calls (.complaint complaint) =
      { ending := .fault (.encode fault), calls, disk := (complained disk complaint).1 } :=
    finishComplaint_of_unwritten (by rw [hwrite])
  rw [hrun, hwrite]
  exact ⟨⟨fault, rfl⟩, Disk.find?_set_self (ne_nil_of_no_directory herror.noDirectory) _ _,
    Disk.find?_set_of_ne treeTarget_ne_errorTarget _ _⟩

end

/-- A source is read, and the report on it presents a result. -/
def FindsTree (disk : Disk) (response : Response) (path source : Text) (result : Json) : Prop :=
  ∃ report, Holds disk path source ∧ Reports response report ∧ Presents report result

/-- A source is read, and the report on it has an error. -/
def FindsError (disk : Disk) (response : Response) (path : Text) (error : Fields) : Prop :=
  ∃ source fields, Holds disk path source ∧ Reports response (.obj fields)
    ∧ Fields.value? fields (Text.ofString "error") = some (.obj error)

section

variable {disk : Disk} {response : Response} {path : Text}

theorem FindsTree.unique {source other : Text} {result found : Json}
    (h : FindsTree disk response path source result)
    (hother : FindsTree disk response path other found) : source = other ∧ result = found := by
  obtain ⟨report, hsource, hreport, fields, rfl, -, hresult, -⟩ := h
  obtain ⟨_, hagain, hreported, others, rfl, -, hfound, -⟩ := hother
  cases hreport.unique hreported
  cases hresult.symm.trans hfound
  exact ⟨hsource.unique hagain, rfl⟩

theorem FindsError.unique {error other : Fields} (h : FindsError disk response path error)
    (hother : FindsError disk response path other) : error = other := by
  obtain ⟨_, fields, -, hreport, herror⟩ := h
  obtain ⟨_, others, -, hreported, hfound⟩ := hother
  cases hreport.unique hreported
  cases herror.symm.trans hfound
  rfl

theorem runPath_of_findsTree {source : Text} {result : Json}
    (h : FindsTree disk response path source result) :
    ∃ calls, Command.runPath disk response path =
      Command.finishTree disk calls (.value (result.located (LineTable.ofText .utf16 source))) := by
  obtain ⟨report, hsource, hreport, hpresents⟩ := h
  have hresult : (Parser.parse { path } disk response).1.result =
      .ok (.success (.value (result.located (LineTable.ofText .utf16 source)))) :=
    parse_eq_ok_iff.mpr ⟨ParserOptions.hasShortIntegers_standard, source, report, hsource, hreport,
      outcomeOf_of_presents hpresents⟩
  exact ⟨_, by simp only [Command.runPath, hresult]; rfl⟩

theorem runPath_of_findsError {error : Fields} (h : FindsError disk response path error) :
    ∃ calls complaint, Complaint.ofReport (.obj error) = .ok complaint
      ∧ Command.runPath disk response path =
        Command.finishComplaint disk calls (.complaint complaint) := by
  obtain ⟨source, fields, hsource, hreport, herror⟩ := h
  have hcomplains : ∃ complaint, Complains (.obj fields) complaint
      ∧ Complaint.ofReport (.obj error) = .ok complaint :=
    ⟨_, ⟨fields, error, rfl, herror, rfl⟩, rfl⟩
  obtain ⟨complaint, hcomplains, hcomplaint⟩ := hcomplains
  have hresult : (Parser.parse { path } disk response).1.result =
      .ok (.failure (.complaint complaint)) :=
    parse_eq_ok_iff.mpr ⟨ParserOptions.hasShortIntegers_standard, source, _, hsource, hreport,
      outcomeOf_of_complains hcomplains⟩
  exact ⟨_, complaint, hcomplaint, by simp only [Command.runPath, hresult]; rfl⟩

theorem runPath_cases (disk : Disk) (response : Response) (path : Text) :
    let parsed := (Parser.parse { path } disk response).1
    (∃ source result, FindsTree disk response path source result
        ∧ Command.runPath disk response path =
          Command.finishTree disk parsed.calls
            (.value (result.located (LineTable.ofText .utf16 source))))
      ∨ (∃ error complaint, FindsError disk response path error
        ∧ Complaint.ofReport (.obj error) = .ok complaint
        ∧ Command.runPath disk response path =
          Command.finishComplaint disk parsed.calls (.complaint complaint))
      ∨ ∃ fault, Command.runPath disk response path =
        { ending := .fault fault, calls := parsed.calls, disk } := by
  intro parsed
  have hparsed : (Parser.parse { path } disk response).1 = parsed := rfl
  cases hresult : parsed.result with
  | error fault =>
      refine .inr (.inr ⟨fault, ?_⟩)
      simp only [Command.runPath, hparsed, hresult]
  | ok outcome =>
      obtain ⟨-, source, report, hsource, hreport, houtcome⟩ := parse_eq_ok_iff.mp hresult
      rcases exists_of_outcomeOf houtcome with
        ⟨complaint, ⟨fields, error, rfl, herror, hcomplaint⟩, rfl⟩ | ⟨result, hpresents, rfl⟩
      · refine .inr (.inl
          ⟨error, complaint, ⟨source, fields, hsource, hreport, herror⟩, hcomplaint, ?_⟩)
        simp only [Command.runPath, hparsed, hresult]
      · refine .inl ⟨source, result, ⟨report, hsource, hreport, hpresents⟩, ?_⟩
        simp only [Command.runPath, hparsed, hresult]

theorem hasDistinctNames_of_findsTree {source : Text} {result : Json}
    (h : FindsTree disk response path source result) : result.HasDistinctNames := by
  obtain ⟨-, -, ⟨completion, -, -, hread⟩, fields, rfl, -, hresult, -⟩ := h
  exact hasDistinctNames_of_value? (hasDistinctNames_of_read hread) hresult

/-- A run that ends well leaves the tree that it has found, and the complaint of an earlier run. -/
theorem runPath_exit_zero (h : (Command.runPath disk response path).ending = .exit 0) :
    ∃ source result, FindsTree disk response path source result
      ∧ Results.loadTree (Command.runPath disk response path).disk Results.treePath =
        .ok (result.located (LineTable.ofText .utf16 source))
      ∧ (Command.runPath disk response path).disk.find? errorTarget = disk.find? errorTarget := by
  rcases runPath_cases disk response path with
    ⟨source, result, hfinds, hrun⟩ | ⟨error, complaint, -, -, hrun⟩ | ⟨fault, hrun⟩
  · rw [hrun] at h ⊢
    have hwrite := (finishTree_exit_zero_iff.mp h).1
    rw [finishTree_disk]
    have hnames := hasDistinctNames_located (hasDistinctNames_of_findsTree hfinds)
      (LineTable.ofText .utf16 source)
    exact ⟨source, result, hfinds,
      loadTree_of_written (leadsToFile_of_writeChunks hwrite) hnames hwrite,
      find?_writeChunks_of_ne treeTarget_ne_errorTarget.symm _⟩
  · rw [hrun] at h
    exact absurd h (finishComplaint_ending_ne complaint)
  · rw [hrun] at h
    cases h

/-- A run that ends with a complaint leaves the name and the message of its error, and no tree. -/
theorem runPath_exit_one (h : (Command.runPath disk response path).ending = .exit 1) :
    ∃ error, FindsError disk response path error
      ∧ (Command.runPath disk response path).disk.find? treeTarget = none
      ∧ Holds (Command.runPath disk response path).disk Results.errorPath
        (nameOf error ++ Text.ofString ": " ++ messageOf error) := by
  rcases runPath_cases disk response path with
    ⟨source, result, -, hrun⟩ | ⟨error, complaint, hfinds, hcomplaint, hrun⟩ | ⟨fault, hrun⟩
  · rw [hrun] at h
    exact absurd h (finishTree_ending_ne _)
  · rw [hrun] at h ⊢
    refine ⟨error, hfinds, ?_⟩
    rw [← errorText_ofReport hcomplaint]
    exact finishComplaint_exit_one h
  · rw [hrun] at h
    cases h

theorem runPath_find?_of_ne {other : Path} (htree : other ≠ treeTarget)
    (herror : other ≠ errorTarget) :
    (Command.runPath disk response path).disk.find? other = disk.find? other := by
  rcases runPath_cases disk response path with
    ⟨source, result, -, hrun⟩ | ⟨error, complaint, -, -, hrun⟩ | ⟨fault, hrun⟩
  · rw [hrun, finishTree_disk]
    exact find?_writeChunks_of_ne htree _
  · rw [hrun, finishComplaint_find?_of_ne htree herror]
  · rw [hrun]

end

end TreeOffsets.Proofs.CommandRuns
