import TreeOffsets.Files.Results
import TreeOffsets.Json.Readable
import TreeOffsets.Program.ExternalParser
import TreeOffsets.Tree.Annotator

namespace TreeOffsets

structure ParserOptions where
  sourceType : Json
  tokens : Json
  plugins : List Json

namespace ParserOptions

def defaultPlugins : List Text :=
  ["jsx", "flow", "objectRestSpread", "classProperties", "dynamicImport", "optionalChaining"].map
    Text.ofString

/-- Options of given values. The plugins may be given by any value with elements. -/
def make (sourceType tokens plugins : Json) : Except ShapeFault ParserOptions :=
  plugins.elements.map fun plugins => { sourceType, tokens, plugins }

def standard : ParserOptions where
  sourceType := .ofString "module"
  tokens := .bool true
  plugins := defaultPlugins.map Json.str

def toJson (options : ParserOptions) : Json :=
  .obj [(Text.ofString "sourceType", options.sourceType), (Text.ofString "tokens", options.tokens),
    (Text.ofString "plugins", .arr options.plugins)]

theorem hasShortIntegers_standard : standard.toJson.HasShortIntegers := by decide

end ParserOptions

namespace ExternalParser

def report (call : Call) (response : Response) : Except Fault Json :=
  match call.result response with
  | .error fault => .error (.call fault)
  | .ok completion => (Json.read completion.stdout).mapError .read

/-- Has the external parser parse a source, when it responds in a given way. A request with an
integer that has too many digits cannot be written, so no call is made then. -/
def ask (source : Text) (options : Json) (moduleDir : Text) (response : Response) :
    List Call × Except Fault Json :=
  if options.HasShortIntegers then
    let call := parseCall source options moduleDir
    ([call], report call response)
  else ([], .error (.read (.tooManyDigits none)))

end ExternalParser

structure Parser where
  path : Text
  options : ParserOptions := ParserOptions.standard
  moduleDir : Text := ExternalParser.defaultModuleDir
  source : Text := []

/-- What a parse does: the calls of other programs, and how it ends. -/
structure Parsed where
  calls : List Call
  result : Except Fault Outcome

namespace Parser

/-- The outcome that a report stands for: a complaint if it mentions an error, and else a tree. -/
def outcomeOf (source : Text) (report : Json) : Except Fault Outcome :=
  match report.mentions (Text.ofString "error") with
  | .error fault => .error (.shape fault)
  | .ok true =>
    match (report.member (Text.ofString "error")).bind Complaint.ofReport with
    | .error fault => .error (.shape fault)
    | .ok complaint => .ok (.failure (.complaint complaint))
  | .ok false =>
    match report.member (Text.ofString "result") with
    | .error fault => .error (.shape fault)
    | .ok tree =>
      let annotated := (annotateTree (LineTable.ofText .utf16 source) tree).1
      (Outcome.make (.value annotated) (.value .null)).mapError .outcome

def parseText (parser : Parser) (response : Response) (text : Text) : Parsed :=
  let (calls, report) :=
    ExternalParser.ask text parser.options.toJson parser.moduleDir response
  { calls
    result := match report with
      | .error fault => .error fault
      | .ok report => outcomeOf text report }

theorem parseText_of_hasShortIntegers {parser : Parser} (response : Response) (text : Text)
    (h : parser.options.toJson.HasShortIntegers) :
    let call := ExternalParser.parseCall text parser.options.toJson parser.moduleDir
    parser.parseText response text =
      ⟨[call], match ExternalParser.report call response with
        | .error fault => .error fault
        | .ok report => outcomeOf text report⟩ := by
  rw [parseText, ExternalParser.ask, if_pos h]

theorem parseText_of_not_hasShortIntegers {parser : Parser} (response : Response) (text : Text)
    (h : ¬parser.options.toJson.HasShortIntegers) :
    parser.parseText response text = ⟨[], .error (.read (.tooManyDigits none))⟩ := by
  rw [parseText, ExternalParser.ask, if_neg h]

def readSource (parser : Parser) (disk : Disk) : Except Fault (Text × Parser) :=
  (Results.readText disk parser.path).map fun text => (text, { parser with source := text })

def parse (parser : Parser) (disk : Disk) (response : Response) : Parsed × Parser :=
  match parser.readSource disk with
  | .error fault => (⟨[], .error fault⟩, parser)
  | .ok (text, parser) => (parser.parseText response text, parser)

end Parser

end TreeOffsets
