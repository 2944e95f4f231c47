import TreeOffsets.Cli.Run

namespace TreeOffsets

/-- A text as a string. A surrogate, which no string can hold, becomes a question mark. -/
def Text.display (t : Text) : String := String.ofList (t.map fun c => c.toChar?.getD '?')

def loadFile (disk : Disk) (path : Text) : IO Disk := do
  match ← (IO.FS.readBinFile path.display).toBaseIO with
  | .ok content => return disk.store path content.toList
  | .error _ => return disk

def saveFile (before after : Disk) (path : Text) : IO Unit := do
  match (after.read path).toOption with
  | some content =>
    if (before.read path).toOption ≠ some content then
      IO.FS.writeBinFile path.display ⟨content.toArray⟩
  | none =>
    if (before.read path).toOption.isSome then IO.FS.removeFile path.display

def runCommand (arguments : List Text) : IO UInt32 := do
  let paths := match Arguments.read arguments with
    | .ok (.path path) => [path, Results.treePath, Results.errorPath]
    | _ => []
  let before ← paths.foldlM loadFile Disk.empty
  let report ← if paths.isEmpty then pure "" else (← IO.getStdin).readToEnd
  let run := Command.run before (.completed { stdout := Text.ofString report }) arguments
  for path in paths.drop 1 do
    saveFile before run.disk path
  IO.print run.stdout.display
  IO.eprint run.stderr.display
  match run.ending with
  | .exit code => return UInt32.ofNat code
  | .fault fault =>
    IO.eprintln fault.message.display
    return 1

end TreeOffsets

def main (arguments : List String) : IO UInt32 :=
  TreeOffsets.runCommand (arguments.map TreeOffsets.Text.ofString)
