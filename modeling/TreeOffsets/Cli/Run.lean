import TreeOffsets.Cli.Arguments
import TreeOffsets.Parse.Parser
import TreeOffsets.Text.Control

namespace TreeOffsets

inductive Ending where
  | exit (code : Nat)
  | fault (fault : Fault)

structure CommandRun where
  ending : Ending
  stdout : Text := []
  stderr : Text := []
  calls : List Call := []
  disk : Disk

namespace Command

def version : Text := Text.ofString "0.1.0"

def usage : Text := Text.ofString "Usage: jsoffsets [OPTIONS] PATH\n"

def helpText : Text := usage ++ Text.ofString (
  "\n  Parse a JavaScript file and write its annotated syntax tree.\n\n" ++
  "  PATH is the path to the source file.\n\n" ++
  "Options:\n  --help  Show this message and exit.\n")

/-- What stands before the wording of a usage fault. The usage is not shown for a value that no
option takes. -/
def usageHint : UsageFault → Text
  | .unexpectedValue => []
  | _ => usage ++ Text.ofString "Try 'jsoffsets --help' for help.\n\n"

/-- What is printed for a usage fault. Control sequences in the arguments are not printed. -/
def usageText (fault : UsageFault) : Text :=
  Text.withoutControls (usageHint fault ++ Text.ofString "Error: " ++ fault.message
    ++ Text.ofString "\n")

/-- The number of statements in a tree. A program without a body has none. -/
def statementCount (outcome : Outcome) : Except ShapeFault Nat := do
  let program ← outcome.program
  let fields ← program.fields
  ((Fields.value? fields (Text.ofString "body")).getD (.arr [])).length

def tokenCount (outcome : Outcome) : Except ShapeFault Nat := do
  let tokens ← outcome.tokens
  tokens.length

def summary (outcome : Outcome) : Except ShapeFault Text := do
  let statements ← statementCount outcome
  let tokens ← tokenCount outcome
  return Text.ofString "Wrote " ++ Text.ofNat statements ++ Text.ofString " statements and "
    ++ Text.ofNat tokens ++ Text.ofString " tokens to " ++ Results.treePath ++ Text.ofString "\n"

def finishTree (disk : Disk) (calls : List Call) (tree : Finding) : CommandRun :=
  match Results.writeTree disk Results.treePath tree.toJson with
  | (disk, .error fault) => { ending := .fault fault, calls, disk }
  | (disk, .ok ()) =>
    match summary (.success tree) with
    | .error fault => { ending := .fault (.shape fault), calls, disk }
    | .ok text => { ending := .exit 0, stdout := text, calls, disk }

/-- Writes a complaint, and takes away the tree that an earlier run has left. -/
def finishComplaint (disk : Disk) (calls : List Call) (error : Finding) : CommandRun :=
  match Results.writeError disk Results.errorPath
      (error.title ++ Text.ofString ": " ++ error.shown) with
  | (disk, .error fault) => { ending := .fault fault, calls, disk }
  | (disk, .ok ()) =>
    match Results.remove disk Results.treePath with
    | (disk, .error fault) => { ending := .fault fault, calls, disk }
    | (disk, .ok _) =>
      { ending := .exit 1
        stdout := Text.ofString "Parse failed: " ++ error.shown ++ Text.ofString "\n"
        calls
        disk }

def runPath (disk : Disk) (response : Response) (path : Text) : CommandRun :=
  let parsed := (Parser.parse { path } disk response).1
  match parsed.result with
  | .error fault => { ending := .fault fault, calls := parsed.calls, disk }
  | .ok (.success tree) => finishTree disk parsed.calls tree
  | .ok (.failure error) => finishComplaint disk parsed.calls error

def run (disk : Disk) (response : Response) (arguments : List Text) : CommandRun :=
  match Arguments.read arguments with
  | .error fault => { ending := .exit 2, stderr := usageText fault, disk }
  | .ok .help => { ending := .exit 0, stdout := helpText, disk }
  | .ok (.path path) => runPath disk response path

end Command

end TreeOffsets
