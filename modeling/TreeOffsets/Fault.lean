import TreeOffsets.Files.Disk
import TreeOffsets.Json.Reader
import TreeOffsets.Parse.Outcome
import TreeOffsets.Program.ExternalParser
import TreeOffsets.Source.Lookup
import TreeOffsets.Tree.Annotator

namespace TreeOffsets

inductive Fault where
  | shape (fault : ShapeFault)
  | lookup (fault : LookupFault)
  | walk (fault : AnnotationFault)
  | outcome (fault : OutcomeFault)
  | call (fault : CallFault)
  | read (fault : Json.ReadFault)
  | disk (fault : DiskFault)
  | encode (fault : EncodeFault)
  | decode (fault : DecodeFault)
  | unknownUnit (name : Text)

namespace CallFault

/-- The wording of the fault. What a failed program wrote tells more than this. -/
def message : CallFault → Text
  | notFound program => (DiskFault.notFound program).message
  | failed completion =>
    Text.ofString "Command returned non-zero exit status " ++ Text.ofInt completion.returnCode
      ++ Text.ofString "."

end CallFault

namespace Fault

def message : Fault → Text
  | shape fault => fault.message
  | lookup fault => Text.ofString fault.message
  | walk fault => fault.message
  | outcome fault => fault.message
  | call fault => fault.message
  | read fault => fault.message
  | disk fault => fault.message
  | encode fault => fault.message
  | decode fault => fault.message
  | unknownUnit name => Text.ofString "Unknown column unit: " ++ name

end Fault

def ColumnUnit.ofName (name : Text) : Except Fault ColumnUnit :=
  match ofName? name with
  | some unit => .ok unit
  | none => .error (.unknownUnit name)

end TreeOffsets
