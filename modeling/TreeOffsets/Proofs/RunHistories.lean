import TreeOffsets.Proofs.ReportedErrors

namespace TreeOffsets.Proofs.RunHistories

open TreeOffsets.Proofs.CommandRuns
open TreeOffsets.Proofs.DiskPaths
open TreeOffsets.Proofs.IndentedDocuments
open TreeOffsets.Proofs.LocatedTree
open TreeOffsets.Proofs.ParserOutcomes
open TreeOffsets.Proofs.ReportedErrors
open TreeOffsets.Proofs.WrittenFiles

structure Invocation where
  arguments : List Text
  response : Response

structure Ran where
  before : Disk
  invocation : Invocation

def Ran.run (ran : Ran) : CommandRun :=
  Command.run ran.before ran.invocation.response ran.invocation.arguments

/-- Runs one after the other, each on the disk that the one before it has left. -/
def history (disk : Disk) : List Invocation → List Ran
  | [] => []
  | invocation :: rest =>
    ⟨disk, invocation⟩ :: history (Ran.run ⟨disk, invocation⟩).disk rest

def leftBy (disk : Disk) : List Invocation → Disk
  | [] => disk
  | invocation :: rest => leftBy (Ran.run ⟨disk, invocation⟩).disk rest

/-- What holds of a run on any disk. One that is asked for help, or given arguments that it does
not take, leaves the disk as it is. -/
structure LeavesResult (ran : Ran) : Prop where
  tree : ∀ path, Arguments.read ran.invocation.arguments = .ok (.path path) →
    ran.run.ending = .exit 0 →
      ∃ source result, FindsTree ran.before ran.invocation.response path source result
        ∧ Results.loadTree ran.run.disk Results.treePath =
          .ok (result.located (LineTable.ofText .utf16 source))
        ∧ ran.run.disk.find? errorTarget = ran.before.find? errorTarget
  complaint : ran.run.ending = .exit 1 →
    ∃ path error, Arguments.read ran.invocation.arguments = .ok (.path path)
      ∧ FindsError ran.before ran.invocation.response path error
      ∧ Holds ran.run.disk Results.errorPath
        (nameOf error ++ Text.ofString ": " ++ messageOf error)
      ∧ ran.run.disk.find? treeTarget = none
  noPath : (∀ path, Arguments.read ran.invocation.arguments ≠ .ok (.path path)) →
    ran.run.disk = ran.before
  others : ∀ other, other ≠ treeTarget → other ≠ errorTarget →
    ran.run.disk.find? other = ran.before.find? other

theorem run_of_path {ran : Ran} {path : Text}
    (h : Arguments.read ran.invocation.arguments = .ok (.path path)) :
    ran.run = Command.runPath ran.before ran.invocation.response path := by
  simp only [Ran.run, Command.run, h]

theorem run_of_no_path {ran : Ran}
    (h : ∀ path, Arguments.read ran.invocation.arguments ≠ .ok (.path path)) :
    ran.run.disk = ran.before ∧ ran.run.ending ≠ .exit 1 := by
  unfold Ran.run Command.run
  split
  · simp
  · simp
  · next path hpath => exact absurd hpath (h path)

theorem leavesResult (ran : Ran) : LeavesResult ran := by
  by_cases hpath : ∃ path, Arguments.read ran.invocation.arguments = .ok (.path path)
  · obtain ⟨path, hpath⟩ := hpath
    have hrun := run_of_path hpath
    refine ⟨fun other hother hending => ?_, fun hending => ?_, fun hnone => ?_,
      fun other htree herror => ?_⟩
    · cases hpath.symm.trans hother
      rw [hrun] at hending ⊢
      exact runPath_exit_zero hending
    · rw [hrun] at hending ⊢
      obtain ⟨error, hfinds, htree, herror⟩ := runPath_exit_one hending
      exact ⟨path, error, hpath, hfinds, herror, htree⟩
    · exact absurd hpath (hnone path)
    · rw [hrun]
      exact runPath_find?_of_ne htree herror
  · have hnone := not_exists.mp hpath
    obtain ⟨hdisk, hending⟩ := run_of_no_path hnone
    exact ⟨fun path hpath => absurd hpath (hnone path), fun h => absurd h hending, fun _ => hdisk,
      fun other _ _ => by rw [hdisk]⟩

/-- Each of any number of runs, on any disk, leaves its result: the tree that it has found, if it
ends with one, and its complaint and no tree, if it ends with that. However they end, no path but
those of the two result files leads anywhere else than before. -/
theorem history_leavesResult (disk : Disk) (invocations : List Invocation) :
    (∀ ran ∈ history disk invocations, LeavesResult ran)
      ∧ ∀ other, other ≠ treeTarget → other ≠ errorTarget →
        (leftBy disk invocations).find? other = disk.find? other := by
  refine ⟨fun ran _ => leavesResult ran, fun other htree herror => ?_⟩
  induction invocations generalizing disk with
  | nil => rfl
  | cons invocation rest ih =>
      rw [leftBy, ih]
      exact (leavesResult ⟨disk, invocation⟩).others other htree herror

def treeRun : Invocation where
  arguments := [Text.ofString "in.js"]
  response := .completed
    { stdout := (Json.obj [(Text.ofString "result", .obj coveredNode)]).indented }

def errorRun : Invocation where
  arguments := [Text.ofString "in.js"]
  response := .completed { stdout := (Json.obj (errorReport (Text.ofString "(1:1)"))).indented }

def locatedTree : Json :=
  .obj [(Node.spanField, firstPoint), (Node.endField, .int 1), (Node.startField, .int 0)]

theorem located_coveredNode :
    (Json.obj coveredNode).located (LineTable.ofText .utf16 (Text.ofString "a")) = locatedTree := by
  have hleaf : Node.isLeaf coveredNode = false := by decide
  rw [Json.located, hleaf, locate_coveredNode]
  simp [locatedFields, Node.isChild, Json.isContainer, locatedTree]

theorem read_treeRun : Arguments.read treeRun.arguments = .ok (.path (Text.ofString "in.js")) := by
  decide

theorem findsTree_treeRun :
    FindsTree sourceDisk treeRun.response (Text.ofString "in.js") (Text.ofString "a")
      (.obj coveredNode) :=
  ⟨_, holds_of_read (by decide), ⟨_, rfl, rfl, read_indented (by decide) (by decide)⟩, _, rfl, rfl,
    rfl, Json.noConfusion⟩

theorem findsError_errorRun {disk : Disk} (h : disk.read (Text.ofString "in.js") = .ok [0x61]) :
    FindsError disk errorRun.response (Text.ofString "in.js")
      [(Text.ofString "name", .ofString "SyntaxError"),
        (Text.ofString "message", .str (Text.ofString "(1:1)"))] :=
  ⟨_, _, holds_of_read h, ⟨_, rfl, rfl, read_indented_errorReport _⟩, rfl⟩

/-- The first run ends well, and has done no more than to write its tree. -/
theorem run_treeRun :
    (Ran.run ⟨sourceDisk, treeRun⟩).ending = .exit 0
      ∧ ∃ bytes,
        (Ran.run ⟨sourceDisk, treeRun⟩).disk = sourceDisk.set treeTarget (.file bytes) := by
  have hfile : LeadsToFile sourceDisk Results.treePath treeTarget :=
    writable_eq_ok_iff.mp (by decide)
  have hwrite : (Results.writeTree sourceDisk Results.treePath locatedTree).2 = .ok () :=
    (writeTree_eq_ok_iff hfile locatedTree).mpr ⟨by decide, by decide⟩
  obtain ⟨calls, hrun⟩ := runPath_of_findsTree findsTree_treeRun
  rw [run_of_path read_treeRun, hrun, located_coveredNode]
  refine ⟨finishTree_exit_zero_iff.mpr ⟨hwrite, _, rfl⟩,
    (Results.encodeChunks (locatedTree.chunks 0)).1, ?_⟩
  rw [finishTree_disk, Finding.toJson, Results.writeTree, writeChunks_eq hfile]

theorem ending_errorRun {disk : Disk} (hread : disk.read (Text.ofString "in.js") = .ok [0x61])
    (herror : LeadsToFile disk Results.errorPath errorTarget)
    (htree : LeadsToFile disk Results.treePath treeTarget) :
    (Ran.run ⟨disk, errorRun⟩).ending = .exit 1 := by
  obtain ⟨calls, complaint, hcomplaint, hrun⟩ := runPath_of_findsError (findsError_errorRun hread)
  rw [run_of_path read_treeRun, hrun]
  refine finishComplaint_of_scalar herror htree ?_
  rw [errorText_ofReport hcomplaint]
  decide

/-- A run leaves its tree, and one that comes after it takes the tree away and leaves its error. -/
theorem history_treeRun_errorRun :
    let first : Ran := ⟨sourceDisk, treeRun⟩
    let second : Ran := ⟨first.run.disk, errorRun⟩
    history sourceDisk [treeRun, errorRun] = [first, second]
      ∧ first.run.ending = .exit 0
      ∧ Results.loadTree first.run.disk Results.treePath = .ok locatedTree
      ∧ second.run.ending = .exit 1
      ∧ Holds second.run.disk Results.errorPath (Text.ofString "SyntaxError: (1:1)")
      ∧ second.run.disk.find? treeTarget = none := by
  obtain ⟨hfirst, bytes, hdisk⟩ := run_treeRun
  have hread : (sourceDisk.set treeTarget (.file bytes)).read (Text.ofString "in.js") =
      .ok [0x61] := read_set_of_ne (by decide) (by decide) (by decide) _
  have hsecond : (Ran.run ⟨sourceDisk.set treeTarget (.file bytes), errorRun⟩).ending = .exit 1 :=
    ending_errorRun hread
      ((writable_eq_ok_iff.mp (by decide)).set_of_ne (by decide) (by decide) _)
      ((writable_eq_ok_iff.mp (by decide)).set bytes)
  rw [← hdisk] at hread hsecond
  have hleaves := (history_leavesResult sourceDisk [treeRun, errorRun]).1
  obtain ⟨source, result, hfound, hload, -⟩ :=
    (hleaves _ List.mem_cons_self).tree _ read_treeRun hfirst
  obtain ⟨rfl, rfl⟩ := hfound.unique findsTree_treeRun
  obtain ⟨path, error, hpath, hreported, hholds, hgone⟩ :=
    (hleaves _ (List.mem_cons_of_mem _ List.mem_cons_self)).complaint hsecond
  cases hpath.symm.trans read_treeRun
  obtain rfl := hreported.unique (findsError_errorRun hread)
  rw [located_coveredNode] at hload
  exact ⟨rfl, hfirst, hload, hsecond, hholds, hgone⟩

end TreeOffsets.Proofs.RunHistories
