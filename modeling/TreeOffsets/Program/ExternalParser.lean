import TreeOffsets.Json.Printer

namespace TreeOffsets

structure Call where
  command : List Text
  input : Text
  /-- A return code other than zero is a fault. -/
  check : Bool := true
  deriving DecidableEq

structure Completion where
  returnCode : Int := 0
  stdout : Text := []
  stderr : Text := []
  deriving DecidableEq

inductive Response where
  | completed (completion : Completion)
  | notFound
  deriving DecidableEq

inductive CallFault where
  | notFound (program : Text)
  | failed (completion : Completion)
  deriving DecidableEq

/-- The completion of a call, if nothing is wrong with it. -/
def Call.result (call : Call) : Response → Except CallFault Completion
  | .notFound => .error (.notFound (call.command.headD []))
  | .completed completion =>
    if call.check ∧ completion.returnCode ≠ 0 then .error (.failed completion) else .ok completion

namespace ExternalParser

def host : Text := Text.ofString "node"

/-- The directory in which the host looks for the parser unless another one is given. -/
def defaultModuleDir : Text := Text.ofString "/opt/babel"

/-- The script that parses the source of a request. -/
def parseScript : Text := Text.ofString <| String.intercalate "\n" [
  "",
  "const fs = require(\"fs\");",
  "const request = JSON.parse(fs.readFileSync(0, \"utf8\"));",
  "const babelParser = require(require.resolve(\"@babel/parser\", " ++
    "\x7b paths: [process.cwd(), request.moduleDir] \x7d));",
  "let output;",
  "try \x7b",
  "  output = \x7b result: babelParser.parse(request.source, request.options) \x7d;",
  "\x7d catch (e) \x7b",
  "  if (!(e instanceof SyntaxError)) \x7b",
  "    throw e;",
  "  \x7d",
  "  output = \x7b error: \x7b name: e.name, message: e.message, loc: e.loc || null, " ++
    "code: e.code || null \x7d \x7d;",
  "\x7d",
  "process.stdout.write(JSON.stringify(output, " ++
    "(key, value) => typeof value === \"bigint\" ? value.toString() : value));",
  ""]

def resolveScript : Text := Text.ofString <| String.intercalate "\n" [
  "",
  "require.resolve(\"@babel/parser\", \x7b paths: [process.cwd(), process.argv[1]] \x7d);",
  ""]

def request (source : Text) (options : Json) (moduleDir : Text) : Json :=
  .obj [(Text.ofString "source", .str source), (Text.ofString "options", options),
    (Text.ofString "moduleDir", .str moduleDir)]

def parseCall (source : Text) (options : Json) (moduleDir : Text) : Call where
  command := [host, Text.ofString "-e", parseScript]
  input := (request source options moduleDir).compact Json.asciiPoint

def resolveCall (moduleDir : Text) : Call where
  command := [host, Text.ofString "-e", resolveScript, moduleDir]
  input := []

/-- The parser can be used: the host is found, and it finds the parser. A host that is found and
cannot be started is a fault. -/
def isAvailable (hostPath? : Option Text) (moduleDir : Text) (response : Response) :
    List Call × Except CallFault Bool :=
  match hostPath? with
  | none => ([], .ok false)
  | some _ =>
    let call := resolveCall moduleDir
    ([call], match call.result response with
      | .ok _ => .ok true
      | .error (.failed _) => .ok false
      | .error fault => .error fault)

end ExternalParser

end TreeOffsets
