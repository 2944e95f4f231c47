import Mathlib.Data.List.Permutation
import TreeOffsets.Proofs.CommandRuns

/-!
Errors that the parser reports with a name and a message. Such a run ends with the complaint as far
as the complaint can be written: a surrogate in it ends the run before the tree of an earlier one is
taken away.
-/

namespace TreeOffsets.Proofs.ReportedErrors

open TreeOffsets.Json
open TreeOffsets.Proofs.CommandRuns
open TreeOffsets.Proofs.DiskPaths
open TreeOffsets.Proofs.ParserOutcomes
open TreeOffsets.Proofs.IndentedDocuments

/-- The report of an error with a name and a message, which are strings. -/
def ReportsNamed (response : Response) (name message : Text) : Prop :=
  ∃ fields error, Reports response (.obj fields)
    ∧ Fields.value? fields (Text.ofString "error") = some (.obj error)
    ∧ Fields.value? error (Text.ofString "name") = some (.str name)
    ∧ Fields.value? error (Text.ofString "message") = some (.str message)

/-- The text of a complaint. One without a name is about the syntax. -/
def complaintText (name message : Text) : Text :=
  (if name = [] then Text.ofString "SyntaxError" else name) ++ Text.ofString ": " ++ message

theorem errorText_of_named {error : Fields} {complaint : Complaint} {name message : Text}
    (hcomplaint : Complaint.ofReport (.obj error) = .ok complaint)
    (hname : Fields.value? error (Text.ofString "name") = some (.str name))
    (hmessage : Fields.value? error (Text.ofString "message") = some (.str message)) :
    errorText complaint = complaintText name message := by
  rw [errorText_ofReport hcomplaint, nameOf, messageOf, hname, hmessage, complaintText]
  cases name <;> rfl

section

variable {disk : Disk} {response : Response} {arguments : List Text}
  {path source name message : Text}

theorem exists_run_eq_finishComplaint
    (harguments : Arguments.read arguments = .ok (.path path)) (hsource : Holds disk path source)
    (hreport : ReportsNamed response name message) :
    ∃ calls complaint, errorText complaint = complaintText name message
      ∧ Command.run disk response arguments =
        Command.finishComplaint disk calls (.complaint complaint) := by
  obtain ⟨fields, error, hreport, herror, hname, hmessage⟩ := hreport
  obtain ⟨calls, complaint, hcomplaint, hrun⟩ :=
    runPath_of_findsError ⟨source, fields, hsource, hreport, herror⟩
  refine ⟨calls, complaint, errorText_of_named hcomplaint hname hmessage, ?_⟩
  simp only [Command.run, harguments, hrun]

/-- A run on a readable source that the parser complains about, where there may be files at both
paths, ends with exit code 1 and leaves the complaint and no tree if the complaint has no surrogate
in it. If it has, the run ends with a fault, the file for the complaint is left empty, and the tree
of an earlier run stays. -/
theorem run_of_reportsNamed (harguments : Arguments.read arguments = .ok (.path path))
    (hsource : Holds disk path source)
    (herror : disk.writable Results.errorPath = .ok errorTarget)
    (htree : disk.writable Results.treePath = .ok treeTarget)
    (hreport : ReportsNamed response name message) :
    let run := Command.run disk response arguments
    ((complaintText name message).IsScalar → run.ending = .exit 1
        ∧ run.disk.find? treeTarget = none
        ∧ Holds run.disk Results.errorPath (complaintText name message))
      ∧ (¬(complaintText name message).IsScalar →
        (∃ fault, run.ending = .fault (.encode fault))
          ∧ run.disk.find? errorTarget = some (.file [])
          ∧ run.disk.find? treeTarget = disk.find? treeTarget) := by
  obtain ⟨calls, complaint, htext, hrun⟩ :=
    exists_run_eq_finishComplaint harguments hsource hreport
  have herror := writable_eq_ok_iff.mp herror
  have htree := writable_eq_ok_iff.mp htree
  rw [hrun, ← htext]
  refine ⟨fun hscalar => ?_, finishComplaint_of_not_scalar herror⟩
  have hending : (Command.finishComplaint disk calls (.complaint complaint)).ending = .exit 1 :=
    finishComplaint_of_scalar herror htree hscalar
  exact ⟨hending, finishComplaint_exit_one hending⟩

end

def staleDisk : Disk :=
  ⟨[(resultDirectory, .directory), (Path.working, .directory),
    (Path.working ++ [Text.ofString "in.js"], .file [0x78]), (treeTarget, .file [0x7B, 0x7D])]⟩

theorem holds_staleDisk : Holds staleDisk (Text.ofString "in.js") (Text.ofString "x") :=
  ⟨[0x78], by decide, by decide, by decide⟩

def errorReport (message : Text) : Fields :=
  [(Text.ofString "error", .obj [(Text.ofString "name", .ofString "SyntaxError"),
    (Text.ofString "message", .str message)])]

theorem reportsNamed_of_read {stdout message : Text}
    (h : Json.read stdout = .ok (.obj (errorReport message))) :
    ReportsNamed (.completed { stdout }) (Text.ofString "SyntaxError") message :=
  ⟨_, _, ⟨_, rfl, rfl, h⟩, rfl, rfl, rfl⟩

theorem read_indented_errorReport (message : Text) :
    Json.read (obj (errorReport message)).indented = .ok (.obj (errorReport message)) := by
  refine read_indented ?_ ?_
  · simp [errorReport, HasShortIntegers, Meets, fieldsMeet, ofString]
  · simp only [errorReport, HasDistinctNames, Meets, fieldsMeet, ofString, and_true]
    have houter : [Text.ofString "error"].Nodup := by decide
    have hinner : [Text.ofString "name", Text.ofString "message"].Nodup := by decide
    exact ⟨houter, hinner⟩

/-- A message without surrogates takes the place of the tree of an earlier run. -/
theorem run_of_plain_message :
    let stdout := (obj (errorReport (Text.ofString "(1:1)"))).indented
    let run := Command.run staleDisk (.completed { stdout }) [Text.ofString "in.js"]
    Arguments.read [Text.ofString "in.js"] = .ok (.path (Text.ofString "in.js"))
      ∧ Holds staleDisk (Text.ofString "in.js") (Text.ofString "x")
      ∧ staleDisk.writable Results.errorPath = .ok errorTarget
      ∧ staleDisk.writable Results.treePath = .ok treeTarget
      ∧ ReportsNamed (.completed { stdout }) (Text.ofString "SyntaxError")
        (Text.ofString "(1:1)")
      ∧ run.ending = .exit 1 ∧ run.disk.find? treeTarget = none
      ∧ Holds run.disk Results.errorPath (Text.ofString "SyntaxError: (1:1)") := by
  have hreport := reportsNamed_of_read
    (read_indented_errorReport (Text.ofString "(1:1)"))
  have harguments : Arguments.read [Text.ofString "in.js"] =
      .ok (.path (Text.ofString "in.js")) := by decide
  have herror : staleDisk.writable Results.errorPath = .ok errorTarget := by decide
  have htree : staleDisk.writable Results.treePath = .ok treeTarget := by decide
  exact ⟨harguments, holds_staleDisk, herror, htree, hreport,
    (run_of_reportsNamed harguments holds_staleDisk herror htree hreport).1 (by decide)⟩

def printedSurrogate : Text := Text.ofString
  "\x7b\"error\": \x7b\"name\": \"SyntaxError\", \"message\": \"\\ud83d\"\x7d\x7d"

/-- A message that is a surrogate leaves the tree of an earlier run, and an empty file in place of
the complaint. -/
theorem staleTree_of_surrogate :
    let response : Response := .completed { stdout := printedSurrogate }
    let run := Command.run staleDisk response [Text.ofString "in.js"]
    Arguments.read [Text.ofString "in.js"] = .ok (.path (Text.ofString "in.js"))
      ∧ Holds staleDisk (Text.ofString "in.js") (Text.ofString "x")
      ∧ staleDisk.writable Results.errorPath = .ok errorTarget
      ∧ staleDisk.writable Results.treePath = .ok treeTarget
      ∧ ReportsNamed response (Text.ofString "SyntaxError") [⟨0xD83D, by decide⟩]
      ∧ (∃ fault, run.ending = .fault (.encode fault))
      ∧ run.disk.find? treeTarget = some (.file [0x7B, 0x7D])
      ∧ run.disk.find? errorTarget = some (.file []) := by
  have hread : Json.read printedSurrogate =
      .ok (.obj (errorReport [⟨0xD83D, by decide⟩])) := by cbv
  have harguments : Arguments.read [Text.ofString "in.js"] =
      .ok (.path (Text.ofString "in.js")) := by decide
  have herror : staleDisk.writable Results.errorPath = .ok errorTarget := by decide
  have htree : staleDisk.writable Results.treePath = .ok treeTarget := by decide
  have hreport := reportsNamed_of_read hread
  obtain ⟨calls, complaint, htext, hrun⟩ :=
    exists_run_eq_finishComplaint harguments holds_staleDisk hreport
  have hscalar : ¬(errorText complaint).IsScalar := by
    rw [htext]
    decide
  obtain ⟨hending, hempty, hkept⟩ :=
    finishComplaint_of_not_scalar (writable_eq_ok_iff.mp herror) hscalar
  refine ⟨harguments, holds_staleDisk, herror, htree, hreport, ?_⟩
  rw [hrun, hempty, hkept]
  exact ⟨hending, by decide, rfl⟩

end TreeOffsets.Proofs.ReportedErrors
