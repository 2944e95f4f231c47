import TreeOffsets.Json.Shape

namespace TreeOffsets

structure Complaint where
  message : Json
  name : Json := .ofString "SyntaxError"
  loc : Json := .null
  code : Json := .null
  /-- The name that stands in for a missing one. -/
  fallback : Text := Text.ofString "ParseFailure"

namespace Complaint

/-- The complaint that a parser reports. One without a name is about the syntax. -/
def ofReport (report : Json) : Except ShapeFault Complaint :=
  report.fields.map fun fields =>
    { message := (Fields.value? fields (Text.ofString "message")).getD (.str [])
      name := ((Fields.value? fields (Text.ofString "name")).getD .null).orElse
        (.ofString "SyntaxError")
      loc := (Fields.value? fields (Text.ofString "loc")).getD .null
      code := (Fields.value? fields (Text.ofString "code")).getD .null }

def shown (c : Complaint) : Text := c.message.shown

def title (c : Complaint) : Text := if c.name.isTruthy then c.name.shown else c.fallback

end Complaint

/-- What a parse is said to have led to: a value, which should be a tree, or a complaint. -/
inductive Finding where
  | value (v : Json)
  | complaint (c : Complaint)

namespace Finding

def present? : Finding → Option Finding
  | value .null => none
  | finding => some finding

def title : Finding → Text
  | value v => Text.ofString v.kind.name
  | complaint c => c.title

def shown : Finding → Text
  | value v => v.shown
  | complaint c => c.shown

def fields : Finding → Except ShapeFault Fields
  | value v => v.fields
  | complaint c => .error (.noFields c.fallback)

/-- A finding as a value, which a complaint does not have. -/
def toJson : Finding → Json
  | value v => v
  | complaint _ => .null

end Finding

inductive Outcome where
  | success (tree : Finding)
  | failure (error : Finding)

/-- Neither a tree nor an error is given, or both are. -/
structure OutcomeFault where

def OutcomeFault.message (_ : OutcomeFault) : Text :=
  Text.ofString "ParseResult needs exactly one of tree or error"

namespace Outcome

/-- The outcome of exactly one finding. -/
def make (tree error : Finding) : Except OutcomeFault Outcome :=
  match tree.present?, error.present? with
  | some tree, none => .ok (success tree)
  | none, some error => .ok (failure error)
  | _, _ => .error ⟨⟩

def isSuccess : Outcome → Bool
  | success _ => true
  | failure _ => false

/-- The program in the tree, which is the tree itself if it names none. A failure has none. -/
def program : Outcome → Except ShapeFault Json
  | success tree => tree.fields.map fun fields =>
    (Fields.value? fields (Text.ofString "program")).getD tree.toJson
  | failure _ => .ok .null

def tokens : Outcome → Except ShapeFault Json
  | success tree => tree.fields.map fun fields =>
    ((Fields.value? fields (Text.ofString "tokens")).getD .null).orElse (.arr [])
  | failure _ => .ok (.arr [])

/-- The text of the error file. A success has none. -/
def errorText? : Outcome → Option Text
  | success _ => none
  | failure error => some (error.title ++ Text.ofString ": " ++ error.shown)

end Outcome

end TreeOffsets
