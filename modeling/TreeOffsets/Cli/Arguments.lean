import TreeOffsets.Text.Basic

namespace TreeOffsets

inductive Request where
  | help
  | path (path : Text)
  deriving DecidableEq

inductive UsageFault where
  /-- There is no such option; `similar` says that its name is like that of the one there is. -/
  | unknownOption (name : Text) (similar : Bool)
  /-- An option that stands for itself is given a value. -/
  | unexpectedValue
  | missingPath
  | unexpectedPaths (extra : List Text)
  deriving DecidableEq

namespace Arguments

def helpOption : Text := Text.ofString "--help"

/-- The number of code points that two texts have in common at their start. -/
def commonStart : Text → Text → Nat
  | a :: s, b :: t => if a = b then commonStart s t + 1 else 0
  | _, _ => 0

/-- A common piece of two texts: where it begins in each, and how long it is. -/
structure Piece where
  first : Nat
  second : Nat
  length : Nat

def pieces (s t : Text) : List Piece :=
  (List.range s.length).flatMap fun i =>
    (List.range t.length).map fun j => ⟨i, j, commonStart (s.drop i) (t.drop j)⟩

/-- The longest common piece of two texts, of several the one that begins first. -/
def longestPiece (s t : Text) : Piece :=
  (pieces s t).foldl (fun best piece => if best.length < piece.length then piece else best)
    ⟨0, 0, 0⟩

/-- The number of code points that two texts have in common: those of their longest common piece,
and those on either side of it in the same way. `depth` bounds how often they are split. -/
def common : (depth : Nat) → Text → Text → Nat
  | 0, _, _ => 0
  | depth + 1, s, t =>
    let piece := longestPiece s t
    if piece.length = 0 then 0
    else common depth (s.take piece.first) (t.take piece.second) + piece.length
      + common depth (s.drop (piece.first + piece.length)) (t.drop (piece.second + piece.length))

/-- A name is similar to that of an option if at least six tenths of their code points are
common. -/
def isSimilar (option name : Text) : Bool :=
  decide (6 * (option.length + name.length) ≤ 20 * common option.length option name)

/-- The arguments that are left to look at, the paths so far, and a wish for help. -/
structure Reading where
  paths : List Text
  help : Bool

def isOption (argument : Text) : Bool :=
  match argument with
  | dash :: _ :: _ => dash == CodePoint.ofChar '-'
  | _ => false

def readOption (argument : Text) : Except UsageFault Unit :=
  let name := argument.takeWhile fun c => c != CodePoint.ofChar '='
  if name = helpOption then
    if name.length < argument.length then .error .unexpectedValue else .ok ()
  else if (Text.ofString "--").isPrefixOf argument then
    .error (.unknownOption name (isSimilar helpOption name))
  else .error (.unknownOption (argument.take 2) false)

def readAll (reading : Reading) : List Text → Except UsageFault Reading
  | [] => .ok reading
  | argument :: rest =>
    if argument = Text.ofString "--" then
      .ok { reading with paths := reading.paths ++ rest }
    else if isOption argument then
      match readOption argument with
      | .error fault => .error fault
      | .ok () => readAll { reading with help := true } rest
    else readAll { reading with paths := reading.paths ++ [argument] } rest

def read (arguments : List Text) : Except UsageFault Request :=
  match readAll ⟨[], false⟩ arguments with
  | .error fault => .error fault
  | .ok reading =>
    if reading.help then .ok .help
    else match reading.paths with
      | [] => .error .missingPath
      | [path] => .ok (.path path)
      | _ :: extra => .error (.unexpectedPaths extra)

end Arguments

namespace UsageFault

def message : UsageFault → Text
  | unknownOption name similar =>
    Text.ofString "No such option: " ++ name
      ++ if similar then Text.ofString " Did you mean " ++ Arguments.helpOption
        ++ Text.ofString "?" else []
  | unexpectedValue => Text.ofString "Option '" ++ Arguments.helpOption
      ++ Text.ofString "' does not take a value."
  | missingPath => Text.ofString "Missing argument 'PATH'."
  | unexpectedPaths extra =>
    Text.ofString (if extra.length = 1 then "Got unexpected extra argument ("
      else "Got unexpected extra arguments (")
      ++ (Text.ofString " ").intercalate extra ++ Text.ofString ")"

end UsageFault

end TreeOffsets
