import TreeOffsets.Fault
import TreeOffsets.Json.Printer

/-!
The result of a parse is kept in one of two files: an annotated tree as indented JSON, or the text
of an error. A file that is written is emptied first and then takes one chunk of text after the
other; a chunk that has no bytes leaves the file with the chunks before it.
-/

namespace TreeOffsets

namespace Results

def treePath : Text := Text.ofString "/tmp/babylon-parse.json"

def errorPath : Text := Text.ofString "/tmp/babylon-error"

/-- The bytes of a chunk. A text with a surrogate has none, and neither has an integer with more
digits than a reader takes. -/
def encodeChunk : Json.Chunk → Except Fault Bytes
  | .plain t => (Text.encode t).mapError .encode
  | .integer before n =>
    if Json.digitLimit < Decimal.digitCount n.natAbs then .error (.read (.tooManyDigits none))
    else (Text.encode (before ++ Text.ofInt n)).mapError .encode

/-- The bytes of chunks up to the first that has none, and the fault of that one. -/
def encodeChunks : List Json.Chunk → Bytes × Option Fault
  | [] => ([], none)
  | chunk :: rest =>
    match encodeChunk chunk with
    | .error fault => ([], some fault)
    | .ok bytes =>
      let (more, fault?) := encodeChunks rest
      (bytes ++ more, fault?)

def writeChunks (disk : Disk) (path : Text) (chunks : List Json.Chunk) :
    Disk × Except Fault Unit :=
  match disk.writable path with
  | .error fault => (disk, .error (.disk fault))
  | .ok target =>
    let (bytes, fault?) := encodeChunks chunks
    (disk.set target (.file bytes), match fault? with
      | some fault => .error fault
      | none => .ok ())

def writeTree (disk : Disk) (path : Text) (v : Json) : Disk × Except Fault Unit :=
  writeChunks disk path (v.chunks 0)

def writeError (disk : Disk) (path : Text) (error : Text) : Disk × Except Fault Unit :=
  writeChunks disk path [.plain error]

def remove (disk : Disk) (path : Text) : Disk × Except Fault Bool :=
  match disk.remove path with
  | .error fault => (disk, .error (.disk fault))
  | .ok (removed, after) => (after, .ok removed)

def readText (disk : Disk) (path : Text) : Except Fault Text :=
  match disk.read path with
  | .error fault => .error (.disk fault)
  | .ok bytes => (Text.decode bytes).mapError .decode

/-- A text in which a line feed ends every line, also one that ended with a carriage return, alone
or before a line feed. `afterReturn` says that a carriage return has just been read. -/
def joinLineEnds (afterReturn : Bool) : Text → Text
  | [] => []
  | c :: t =>
    if c = CodePoint.ofChar '\r' then CodePoint.newline :: joinLineEnds true t
    else if c = CodePoint.newline ∧ afterReturn = true then joinLineEnds false t
    else c :: joinLineEnds false t

def loadTree (disk : Disk) (path : Text) : Except Fault Json :=
  match readText disk path with
  | .error fault => .error fault
  | .ok text => (Json.read (joinLineEnds false text)).mapError .read

end Results

end TreeOffsets
